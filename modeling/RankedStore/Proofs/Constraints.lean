import RankedStore.Proofs.Effects

/-! The constraints of tables in every state that a store can reach. An insertion and an overwritten
row are checked before they are written. Taking changes back checks nothing, but it leads to tables
that were there before, unless an update failed halfway. -/
namespace RankedStore

namespace Table

variable {t t' : Table} {row cells : Row} {id next : Int64} {name : String}

/-- A row has one cell a column, each with a value of the type of its column and NULL only where the
column admits it. No two rows share a value in a unique column, and all ids lie below the next
one. -/
structure Constrained (t : Table) : Prop where
  width : ∀ id row, t.get? id = some row → row.length = t.columns.length
  admitted : ∀ id row (i : Nat) c v, t.get? id = some row → t.columns[i]? = some c →
    row[i]? = some v → c.type.admits v = true ∧ (v = .null → c.nullable = true)
  apart : ∀ id row key other, t.get? id = some row → t.get? key = some other → id ≠ key →
    t.columns.Apart row other
  below : ∀ id row, t.get? id = some row → id < t.nextId

/-- The rows pass the checks that are made when they are written, and all ids lie below the next
one. -/
structure Admissible (t : Table) : Prop extends Valid t where
  below : ∀ id row, t.get? id = some row → id < t.nextId

theorem admits_of_check {c : Column} {v : Value} (checked : c.check v = .ok ()) :
    c.type.admits v = true ∧ (v = .null → c.nullable = true) := by
  unfold Column.check at checked
  split at checked
  case isTrue null =>
    split at checked
    case isTrue nullable =>
      cases v <;> cases null
      exact ⟨by cases c.type <;> rfl, fun _ => nullable⟩
    case isFalse => cases checked
  case isFalse known =>
    split at checked
    case isTrue admits =>
      refine ⟨admits, ?_⟩
      rintro rfl
      exact absurd rfl known
    case isFalse => cases checked

theorem lt_of_addChecked (sum : addChecked id 1 = some next) : id < next := by
  have value := addChecked_eq_some sum
  have one : (1 : Int64).toInt = 1 := by decide
  rw [Int64.lt_iff_toInt_lt]
  omega

/-- All ids lie below the next one. -/
def Below (t : Table) : Prop := ∀ id row, t.get? id = some row → id < t.nextId

namespace Below

theorem ofLayout (layout : TableLayout) : (Table.ofLayout layout).Below := by
  intro id row stored
  cases stored

theorem insert (below : t.Below) (h : t.insert row = .ok (id, t')) : t'.Below := by
  intro key other stored
  obtain ⟨_, _, _, _, next, following, rfl⟩ := insert_eq_ok h
  rcases get?_of_insert stored with ⟨rfl, _⟩ | ⟨_, stored⟩
  · exact Int64.lt_of_lt_of_le (lt_of_addChecked following) (int64_le_max ..).2
  · exact Int64.lt_of_lt_of_le (below key other stored) (int64_le_max ..).1

theorem replace (below : t.Below) (h : t.replace id row = .ok (some (old, t'))) : t'.Below := by
  intro key other stored
  obtain ⟨there, _, _, rfl⟩ := replace_eq_some h
  rcases get?_of_insert stored with ⟨rfl, _⟩ | ⟨_, stored⟩
  · exact below key old there
  · exact below key other stored

theorem erase (below : t.Below) (id : Int64) : Below { t with rows := t.rows.erase id } :=
  fun key other stored => below key other (get?_of_erase stored)

end Below

namespace Admissible

theorem constrained (admissible : t.Admissible) : t.Constrained where
  width _ _ stored := admissible.width stored
  admitted id row _ _ _ stored column cell :=
    admits_of_check (checkRow_get (admissible.checked id row stored) column cell)
  apart := admissible.apart
  below := admissible.below

theorem ofLayout (layout : TableLayout) : (Table.ofLayout layout).Admissible where
  toValid := .ofEmpty rfl
  below := Below.ofLayout layout

theorem grown (admissible : t.Admissible) (larger : t.Grown t') : t'.Admissible where
  toValid := admissible.toValid.grown larger
  below id row stored := by
    rw [get?, larger.rows] at stored
    exact Int64.lt_of_lt_of_le (admissible.below id row stored) larger.nextId

theorem insert (admissible : t.Admissible) (h : t.insert row = .ok (id, t')) : t'.Admissible where
  toValid := admissible.toValid.insert h
  below := Below.insert admissible.below h

theorem replace (admissible : t.Admissible) (h : t.replace id row = .ok (some (old, t'))) :
    t'.Admissible where
  toValid := admissible.toValid.replace h
  below := Below.replace admissible.below h

theorem erase (admissible : t.Admissible) (id : Int64) :
    Admissible { t with rows := t.rows.erase id } where
  toValid := admissible.toValid.erase id
  below := Below.erase admissible.below id

end Admissible

/-! Only a stored row under the id of a new one makes an insertion fail for that id. -/

theorem checkCells_ne_taken {columns : Columns} :
    checkCells columns row ≠ .error (.constraintViolation (.idTaken id name)) := by
  intro failed
  induction columns generalizing row with
  | nil => cases failed
  | cons c columns ih =>
    cases row with
    | nil => cases failed
    | cons v row =>
      unfold checkCells at failed
      rcases first : c.check v with e | _ <;> rw [first] at failed
      · cases failed
        unfold Column.check at first
        split at first <;> split at first <;> cases first
      · exact ih failed

theorem isTaken_ne_taken {entries : List (Int64 × Row)} {i : Nat} {v : Value} :
    t.isTaken i v except entries ≠ .error (.constraintViolation (.idTaken id name)) := by
  intro failed
  induction entries with
  | nil => cases failed
  | cons entry rest ih =>
    obtain ⟨key, other⟩ := entry
    unfold isTaken at failed
    split at failed
    case isTrue => exact ih failed
    case isFalse =>
      rcases cell : t.cellAt other i with e | w <;> rw [cell] at failed
      · cases failed
        unfold cellAt at cell
        split at cell <;> cases cell
      · simp only [Except.ok_bind] at failed
        split at failed
        · cases failed
        · exact ih failed

theorem checkUniqueFrom_ne_taken {columns : Columns} {i : Nat} :
    t.checkUniqueFrom except i columns row ≠ .error (.constraintViolation (.idTaken id name)) := by
  intro failed
  induction columns generalizing row i with
  | nil => cases failed
  | cons c columns ih =>
    cases row with
    | nil => cases failed
    | cons v row =>
      unfold checkUniqueFrom at failed
      split at failed
      case isTrue =>
        rcases taken : t.isTaken i v except t.scan with e | b <;> rw [taken] at failed
        · cases failed
          exact isTaken_ne_taken taken
        · cases b with
          | true => cases failed
          | false => exact ih failed
      case isFalse => exact ih failed

theorem get?_of_taken {key : Int64} (given : t.idOf row = .ok key)
    (h : t.insert row = .error (.constraintViolation (.idTaken id name))) :
    ∃ old, t.get? key = some old := by
  unfold insert at h
  simp only [given, Except.ok_bind] at h
  rcases checked : t.checkRow (.integer key :: row.tail) with e | _ <;> rw [checked] at h
  · cases h
    unfold checkRow at checked
    split at checked
    · cases checked
    · exact absurd checked checkCells_ne_taken
  · cases stored : t.get? key with
    | some old => exact ⟨old, rfl⟩
    | none =>
      have free : t.rows.contains key = false := by
        rw [get?] at stored
        rw [Dict.contains, stored, Option.isSome_none]
      simp only [free, Bool.false_eq_true, if_false, Except.ok_bind] at h
      rcases unique : t.checkUnique (.integer key :: row.tail) none with e | _ <;> rw [unique] at h
      · cases h
        exact absurd unique checkUniqueFrom_ne_taken
      · cases following : addChecked key 1 <;> rw [following] at h <;> cases h

theorem Admissible.insert_null (admissible : t.Admissible) (cells : Row) (id : Int64)
    (name : String) :
    t.insert (.null :: cells) ≠ .error (.constraintViolation (.idTaken id name)) := by
  intro failed
  have given : t.idOf (.null :: cells) = .ok t.nextId := rfl
  obtain ⟨old, stored⟩ := get?_of_taken given failed
  exact Int64.lt_irrefl (admissible.below t.nextId old stored)

end Table

/-- Every table meets its constraints. -/
def Catalog.Constrained (c : Catalog) : Prop := c.All Table.Constrained

theorem Catalog.All.constrained {c : Catalog} (all : c.All Table.Admissible) : c.Constrained :=
  fun name t found => (all name t found).constrained

theorem Catalog.All.insert_null {c : Catalog} (all : c.All Table.Admissible) (table : String)
    (cells : Row) (id : Int64) (name : String) :
    (c.insert table (.null :: cells)).1 ≠ .error (.constraintViolation (.idTaken id name)) := by
  intro failed
  cases there : c.table table with
  | error e =>
    simp only [Catalog.insert, there] at failed
    unfold Catalog.table at there
    split at there <;> cases there
    cases failed
  | ok t =>
    rcases written : t.insert (.null :: cells) with e | ⟨key, t'⟩ <;>
      simp only [Catalog.insert, there, written, Except.ok_bind] at failed
    · cases failed
      exact (all table t (table_eq_ok.mp there)).insert_null cells id name written
    · cases failed

namespace Request

theorem keeps_admissible (r : Request) : r.Keeps Table.Admissible where
  created layout _ := .ofLayout layout
  inserted _ _ _ _ admissible h := admissible.insert h
  overwritten _ _ _ _ _ admissible _ h := admissible.replace h
  deleted _ id admissible := admissible.erase id

theorem insert_acts (table : String) (row : Row) (c : Catalog) : ∃ c' written,
    (Request.insert table row).run.Acts c ((c.insert table row).1.map .id) c' written := by
  rcases h : c.insert table row with ⟨e | id, c'⟩
  · exact ⟨_, _, ((Action.insert_failed h).answering _).toActs⟩
  · exact ⟨_, _, ((Action.insert_tracked h).answering _).toActs⟩

end Request

namespace Store

variable {s : Store}

def updateFails (s : Store) (step : Step) : Bool :=
  match step, (s.step step).1 with
  | .ask _ (.update _), some (.error _) => true
  | _, _ => false

/-- None of these steps is an update that fails. -/
def UpdatesSucceed : Store → List Step → Prop
  | _, [] => True
  | s, step :: rest => s.updateFails step = false ∧ UpdatesSucceed (s.step step).2 rest

instance decidableUpdatesSucceed :
    (s : Store) → (steps : List Step) → Decidable (s.UpdatesSucceed steps)
  | _, [] => .isTrue trivial
  | s, step :: rest =>
    have := decidableUpdatesSucceed (s.step step).2 rest
    inferInstanceAs (Decidable (_ ∧ _))

theorem Layered.admissible_play {s : Store} (layered : s.Layered (Catalog.All Table.Admissible))
    (steps : List Step) (succeed : s.UpdatesSucceed steps) :
    (s.play steps).Layered (Catalog.All Table.Admissible) := by
  have lasting : Catalog.Lasting (Catalog.All Table.Admissible) :=
    .lasting fun _ _ admissible larger => admissible.grown larger
  induction steps generalizing s with
  | nil => exact layered
  | cons step rest ih =>
    obtain ⟨succeeds, succeed⟩ := succeed
    refine ih (layered.step Table.grown_stable lasting step ?_ ?_) succeed
    · exact fun _ r _ c c' all effect => r.keeps_admissible.effect all effect
    · rintro name u e rfl failed
      simp [updateFails, failed] at succeeds

/-- Connections take steps in any order, with transactions and savepoints that they commit or roll
back, and whatever fails, none of their updates does. Then every table that is committed, or that an
open transaction works on, meets its constraints, and no id that a table gives to a new row is
taken. -/
theorem tables_stay_constrained (steps : List Step)
    (succeed : (ofCatalog .empty).UpdatesSucceed steps)
    (reached : s = (ofCatalog .empty).play steps) :
    s.committed.catalog.Constrained ∧
    (∀ name w, s.workspace? name = some w → w.catalog.Constrained) ∧
      ∀ name table cells id taken, (s.step (.ask name (.insert table (.null :: cells)))).1 ≠
        some (.error (.constraintViolation (.idTaken id taken))) := by
  have layered : s.Layered (Catalog.All Table.Admissible) :=
    reached ▸ Layered.admissible_play (.ofCatalog .empty) steps succeed
  refine ⟨layered.committed.constrained, fun name w working =>
    (layered.workspace working).constrained, ?_⟩
  intro name table cells id taken failed
  cases found : s.connections.get? name with
  | none =>
    rw [step_ask_none found] at failed
    cases failed
  | some connection =>
    have session : Session.LayeredUpTo Table.Grown (Catalog.All Table.Admissible)
        ⟨s.committed, connection, []⟩ :=
          ⟨layered.committed, layered.connections name connection found⟩
    obtain ⟨c', written, acts⟩ := Request.insert_acts table (.null :: cells)
      (Session.view ⟨s.committed, connection, []⟩)
    rw [step_ask_answer found session.proper acts, Option.some.injEq] at failed
    exact session.view.insert_null table cells id taken (Except.map_eq_error failed)

end Store

/-! A table of numbers that are unique, and two connections that write to it. -/
namespace Numbers

def layout : TableLayout := ⟨"t", [Column.id, { name := "n", type := .integer, unique := true }]⟩

/-- The second insert meets a number that is taken, and the second connection rolls a savepoint
back. -/
def steps : List Store.Step :=
  [.connect "a", .connect "b", .ask "a" (.createTable layout),
    .ask "a" (.insert "t" [.integer 5, .integer 1]), .ask "a" (.insert "t" [.null, .integer 1]),
    .ask "a" (.insert "t" [.null, .integer 2]), .ask "b" .begin, .ask "b" .begin,
    .ask "b" (.update ⟨"t", "n", .shift 10, .all⟩), .ask "b" (.delete "t" 5), .ask "b" .rollback,
    .ask "b" (.insert "t" [.integer 7, .integer 12]), .ask "a" (.insert "t" [.null, .integer 12])]

end Numbers

theorem Store.tables_stay_constrained_of_two :
    let s := (ofCatalog .empty).play Numbers.steps
    s.committed.catalog.rowCount = 3 ∧ s.depth "b" = 1 ∧ s.committed.catalog.Constrained ∧
      (∀ name w, s.workspace? name = some w → w.catalog.Constrained) ∧
      ∀ name table cells id taken, (s.step (.ask name (.insert table (.null :: cells)))).1 ≠
        some (.error (.constraintViolation (.idTaken id taken))) :=
  ⟨by decide, by decide, tables_stay_constrained Numbers.steps (by decide) rfl⟩

end RankedStore
