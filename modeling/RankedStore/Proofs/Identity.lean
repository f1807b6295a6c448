import RankedStore.Proofs.Effects
import RankedStore.Proofs.Presence

/-! The id of a row stands in its first cell too. An insertion writes it there. Overwriting a row or
a cell does not look at it, so that it is up to the caller whether row and id still belong
together. -/
namespace RankedStore

theorem TableLayout.idFirst_ofColumns {columns : Columns}
    (free : ∀ c ∈ columns, c.name ≠ Column.idName) (name : String) :
    (TableLayout.ofColumns name columns).IdFirst := by
  refine ⟨Column.id, columns, ?_, rfl, free⟩
  cases columns with
  | nil => rfl
  | cons c rest =>
    have other := free c (List.mem_cons_self ..)
    simp only [TableLayout.ofColumns, if_neg other]

theorem TableLayout.IdFirst.index {layout : TableLayout} (front : layout.IdFirst) :
    layout.columns.index? Column.idName = some 0 := by
  obtain ⟨c, rest, columns, named, _⟩ := front.first
  rw [columns, Columns.index?, List.findIdx?_cons, named]
  simp

/-- Only the id has the first place. -/
theorem TableLayout.IdFirst.name_of_index {layout : TableLayout} {column : String}
    (front : layout.IdFirst) (place : layout.index column = .ok 0) : column = Column.idName := by
  obtain ⟨c, rest, columns, named, _⟩ := front.first
  have there := Table.index?_eq place
  rw [columns, Columns.index?, List.findIdx?_cons] at there
  split at there
  case isTrue same => exact (of_decide_eq_true same).symm.trans named
  case isFalse => simp at there

namespace Table

variable {t t' u : Table} {id : Int64} {row old : Row}

/-- Every row has one cell a column, the first of which holds its id. -/
structure Keyed (t : Table) : Prop where
  front : t.layout.IdFirst
  width : ∀ id row, t.get? id = some row → row.length = t.layout.columns.length
  keyed : ∀ id row, t.get? id = some row → row[0]? = some (.integer id)

/-- The same ids, with rows that are as wide and have the same first cell. -/
def SameKeys (t u : Table) : Prop :=
  t.SameLayout u ∧ ∀ id, (t.get? id).map (fun row => (row.length, row[0]?)) =
    (u.get? id).map fun row => (row.length, row[0]?)

theorem sameKeys_stable : Table.Stable SameKeys :=
  sameLayout_stable.and (.ofRows (Option.map fun row => (row.length, row[0]?)))

/-- There is one row with an id at most. -/
theorem scan_filter (t : Table) (id : Int64) :
    (t.scan.filter fun e => decide (e.1 = id)).map (·.2) = (t.get? id).toList := by
  have member : ∀ e, e ∈ (t.scan.filter fun e => decide (e.1 = id)) ↔ e.1 = id ∧
    t.get? id = some e.2 := by
    intro e
    rw [List.mem_filter, mem_scan, decide_eq_true_eq]
    constructor
    · rintro ⟨stored, rfl⟩
      exact ⟨rfl, stored⟩
    · rintro ⟨rfl, stored⟩
      exact ⟨stored, rfl⟩
  have apart : ((t.scan.filter fun e => decide (e.1 = id)).map (·.1)).Nodup :=
    t.scan_nodup.sublist (List.filter_sublist.map _)
  generalize (t.scan.filter fun e => decide (e.1 = id)) = chosen at member apart
  match chosen with
  | [] =>
    cases stored : t.get? id with
    | none => rfl
    | some row => cases (member (id, row)).mpr ⟨rfl, stored⟩
  | [e] =>
    rw [((member e).mp (List.mem_cons_self ..)).2]
    rfl
  | e :: e' :: rest =>
    have left := (member e).mp (List.mem_cons_self ..)
    have right := (member e').mp (List.mem_cons_of_mem _ (List.mem_cons_self ..))
    simp [left.1, right.1] at apart

namespace Keyed

theorem ofColumns {columns : Columns} (free : ∀ c ∈ columns, c.name ≠ Column.idName)
    (name : String) :
    (Table.ofLayout (.ofColumns name columns)).Keyed where
  front := TableLayout.idFirst_ofColumns free name
  width id row stored := by cases stored
  keyed id row stored := by cases stored

theorem passes (keyed : t.Keyed) (same : t.SameKeys u) : u.Keyed := by
  obtain ⟨layout, rows⟩ := same
  have before : ∀ id row, u.get? id = some row →
      ∃ old, t.get? id = some old ∧ old.length = row.length ∧ old[0]? = row[0]? := by
    intro id row stored
    have same := rows id
    rw [stored] at same
    obtain ⟨old, there, outline⟩ := Option.map_eq_some_iff.mp same
    exact ⟨old, there, (Prod.mk.inj outline).1, (Prod.mk.inj outline).2⟩
  have layout : u.layout = t.layout := layout
  refine ⟨layout ▸ keyed.front, fun id row stored => ?_, fun id row stored => ?_⟩
  · obtain ⟨old, there, width, _⟩ := before id row stored
    rw [layout, ← width]
    exact keyed.width id old there
  · obtain ⟨old, there, _, cell⟩ := before id row stored
    rw [← cell]
    exact keyed.keyed id old there

theorem write (keyed : t.Keyed) (n : Int64) (width : row.length = t.layout.columns.length)
    (own : row[0]? = some (.integer id)) :
    Keyed { t with rows := t.rows.insert id row, nextId := n } := by
  refine ⟨keyed.front, fun key other stored => ?_, fun key other stored => ?_⟩
  · rcases get?_of_insert stored with ⟨_, rfl⟩ | ⟨_, stored⟩
    · exact width
    · exact keyed.width key other stored
  · rcases get?_of_insert stored with ⟨rfl, rfl⟩ | ⟨_, stored⟩
    · exact own
    · exact keyed.keyed key other stored

theorem insert (keyed : t.Keyed) (h : t.insert row = .ok (id, t')) : t'.Keyed := by
  obtain ⟨_, checked, _, _, next, _, rfl⟩ := insert_eq_ok h
  exact keyed.write _ (width_of_checkRow checked) rfl

theorem replace (keyed : t.Keyed) (h : t.replace id row = .ok (some (old, t')))
    (own : row[0]? = some (.integer id)) : t'.Keyed ∧ t.SameKeys t' := by
  obtain ⟨stored, checked, _, rfl⟩ := replace_eq_some h
  have width := width_of_checkRow checked
  refine ⟨keyed.write t.nextId width own, rfl, fun key => ?_⟩
  simp only [get?, Dict.get?_insert]
  split
  case isTrue same =>
    subst same
    have before : old.length = row.length := (keyed.width id old stored).trans width.symm
    rw [stored, Option.map_some, Option.map_some, before, keyed.keyed id old stored, own]
  case isFalse => rfl

theorem erase (keyed : t.Keyed) (id : Int64) : Keyed { t with rows := t.rows.erase id } where
  front := keyed.front
  width key other stored := keyed.width key other (get?_of_erase stored)
  keyed key other stored := keyed.keyed key other (get?_of_erase stored)

/-- A row keeps its id if another cell is set. -/
theorem cell_set (keyed : t.Keyed) (stored : t.get? id = some row) {column : String} {i : Nat}
    {v : Value} (place : t.layout.index column = .ok i)
    (kept : column = Column.idName → v = .integer id) :
    (row.set i v)[0]? = some (.integer id) := by
  have own := keyed.keyed id row stored
  cases i with
  | zero =>
    rw [kept (keyed.front.name_of_index place), List.getElem?_set_self]
    exact (List.getElem?_eq_some_iff.mp own).1
  | succ i => rwa [List.getElem?_set_ne (Nat.succ_ne_zero i)]

theorem updateWhere (keyed : t.Keyed) {u : Update} (other : u.column ≠ Column.idName) :
    t.SameKeys (t.updateWhere u).2 := by
  have both : (t.updateWhere u).2.Keyed ∧ t.SameKeys (t.updateWhere u).2 := by
    refine updateWhere_keeps (I := fun v => v.Keyed ∧ t.SameKeys v)
      ⟨keyed, sameKeys_stable.refl t⟩ ?_
    intro v id row i value v' ⟨keyed, same⟩ stored place written
    obtain ⟨keyed', same'⟩ := keyed.replace written
      (keyed.cell_set stored place fun named => absurd named other)
    exact ⟨keyed', sameKeys_stable.trans same same'⟩
  exact both.2

/-- A row is selected by its id. -/
theorem select_id (keyed : t.Keyed) (name : String) (id : Int64) :
    t.select { table := name, filter := .compare Column.idName .eq (.integer id) } =
      .ok (t.get? id).toList := by
  have met : ∀ e ∈ t.scan, t.meets (.compare Column.idName .eq (.integer id)) e.2 =
      .ok (decide (e.2[0]? = some (.integer id))) := by
    intro e member
    have cell := keyed.keyed e.1 e.2 (mem_scan.mp member)
    have related := relate_integer keyed.front.index cell t.name id
    have same : (compare e.1.toInt id.toInt = .eq) = (e.2[0]? = some (Value.integer id)) := by
      rw [cell, Int.compare_eq_eq, Option.some.injEq, Value.integer.injEq, Int64.toInt_inj]
    simp [meets, Filter.holds, columns, related, Comparison.accepts, same]
  have chosen : (t.scan.filter fun e => decide (e.2[0]? = some (.integer id))) =
      t.scan.filter fun e => decide (e.1 = id) := by
    refine List.filter_congr fun e member => ?_
    simp only [keyed.keyed e.1 e.2 (mem_scan.mp member), Option.some.injEq, Value.integer.injEq]
  have selected := @filterRows_eq t _ _ (fun row => decide (row[0]? = some (.integer id))) met
  simp [select, selected, chosen, scan_filter]

/-- A stored row is read as a record with the id of the row. -/
theorem ofRow_id (keyed : t.Keyed) (stored : t.get? id = some row) :
    ∃ r, Record.ofRow t.layout row = .ok r ∧ r.id = some id := by
  obtain ⟨c, rest, columns, named, others⟩ := keyed.front.first
  refine ⟨_, if_neg (not_not_intro (keyed.width id row stored)), ?_⟩
  have first : t.layout.columns[0]? = some c := by rw [columns]; rfl
  refine Record.loadCells_id _ first named ?_ (keyed.keyed id row stored)
  intro i d there same
  rw [columns] at there
  cases i with
  | zero => rfl
  | succ i => exact absurd same (others d (List.mem_of_getElem? there))

end Keyed

/-- The row under an id has the id in its first cell, is the one row that is selected by it, and is
read as the record with it. -/
structure Identified (t : Table) : Prop where
  cell : ∀ id row, t.get? id = some row → row[0]? = some (.integer id)
  selected : ∀ name id,
    t.select { table := name, filter := .compare Column.idName .eq (.integer id) } =
    .ok (t.get? id).toList
  loaded : ∀ id row, t.get? id = some row → ∃ r, Record.ofRow t.layout row = .ok r ∧ r.id = some id

theorem Keyed.identified (keyed : t.Keyed) : t.Identified where
  cell := keyed.keyed
  selected := keyed.select_id
  loaded _ _ := keyed.ofRow_id

end Table

namespace Request

/-- The request declares no column for the ids, and what it overwrites leaves the id in the row. -/
def KeepsIds : Request → Prop
  | .createTable created => ∃ name columns, created = .ofColumns name columns ∧
      ∀ c ∈ columns, c.name ≠ Column.idName
  | .update u => u.column ≠ Column.idName
  | .updateById _ id column value => column = Column.idName → value = .integer id
  | .replace _ id row => row[0]? = some (.integer id)
  | _ => True

theorem KeepsIds.keeps {r : Request} (keepsIds : r.KeepsIds) : r.Keeps Table.Keyed where
  created layout creates := by
    subst creates
    obtain ⟨name, columns, rfl, free⟩ := keepsIds
    exact .ofColumns free name
  inserted t row id t' keyed h := keyed.insert h
  overwritten t id row old t' keyed overwrites h := by
    refine (keyed.replace h ?_).1
    cases overwrites with
    | replaced => exact keepsIds
    | cellSet table stored place new => exact new ▸ keyed.cell_set stored place keepsIds
    | updated stored place new =>
      exact new ▸ keyed.cell_set stored place fun named => absurd named keepsIds
  deleted t id keyed := keyed.erase id

end Request

namespace Store

variable {s : Store}

theorem LayeredUpTo.keyed_play (layered : s.LayeredUpTo Table.SameKeys (Catalog.All Table.Keyed))
    (steps : List Step) (keep : ∀ name r, Step.ask name r ∈ steps → r.KeepsIds) :
    (s.play steps).LayeredUpTo Table.SameKeys (Catalog.All Table.Keyed) := by
  have lasting : Catalog.LastingUpTo Table.SameKeys (Catalog.All Table.Keyed) :=
    .lasting fun _ _ keyed same => keyed.passes same
  induction steps generalizing s with
  | nil => exact layered
  | cons step rest ih =>
    refine ih (layered.step Table.sameKeys_stable lasting step ?_ ?_) fun name r member =>
      keep name r (List.mem_cons_of_mem _ member)
    · rintro name r rfl c c' all effect
      exact (keep name r (List.mem_cons_self ..)).keeps.effect all effect
    · rintro name u e rfl _ c all
      have other : u.column ≠ Column.idName := keep name (.update u) (List.mem_cons_self ..)
      exact Catalog.updateWhere_related Table.sameKeys_stable fun t found =>
        (all _ t found).updateWhere other

/-- Connections take steps in any order, with transactions and savepoints that they commit or roll
back, and updates of theirs may fail halfway. As long as they overwrite no id with another value,
the row under an id has this id in its first cell, in every table that is committed or that an open
transaction works on. -/
theorem ids_stay_in_rows (steps : List Step) (keep : ∀ name r, Step.ask name r ∈ steps → r.KeepsIds)
    (reached : s = (ofCatalog .empty).play steps) : s.committed.catalog.All Table.Identified ∧
      ∀ name w, s.workspace? name = some w → w.catalog.All Table.Identified := by
  have layered : s.LayeredUpTo Table.SameKeys (Catalog.All Table.Keyed) :=
    reached ▸ LayeredUpTo.keyed_play (.ofCatalog .empty) steps keep
  exact ⟨fun name t found => (layered.committed name t found).identified,
    fun name w working table t found => (layered.workspace working table t found).identified⟩

def numbered : Columns := [{ name := "n", type := .integer, unique := true }]

/-- In a savepoint an update fails halfway and a row is overwritten, and both are taken back. -/
def overwrites : List Step :=
  [.connect "a", .connect "b", .ask "a" (.createTable (.ofColumns "t" numbered)),
    .ask "a" (.insert "t" [.null, .integer 1]), .ask "a" (.insert "t" [.integer 9, .integer 2]),
    .ask "b" .begin, .ask "b" .begin, .ask "b" (.update ⟨"t", "n", .set (.integer 5), .all⟩),
    .ask "b" (.replace "t" 1 [.integer 1, .null]), .ask "b" .rollback,
    .ask "b" (.updateById "t" 9 "n" (.integer 3))]

theorem ids_stay_in_rows_of_two :
    let s := (ofCatalog .empty).play overwrites
    s.depth "b" = 1 ∧ s.committed.catalog.rowCount = 2 ∧
      s.committed.catalog.All Table.Identified ∧
      ∀ name w, s.workspace? name = some w → w.catalog.All Table.Identified := by
  have keep : ∀ name r, Step.ask name r ∈ overwrites → r.KeepsIds := by
    simp only [overwrites, List.mem_cons, List.not_mem_nil, or_false, reduceCtorEq, false_or,
      Step.ask.injEq]
    rintro name r (⟨_, rfl⟩ | ⟨_, rfl⟩ | ⟨_, rfl⟩ | ⟨_, rfl⟩ | ⟨_, rfl⟩ | ⟨_, rfl⟩ | ⟨_, rfl⟩ |
      ⟨_, rfl⟩ | ⟨_, rfl⟩)
    · exact ⟨"t", numbered, rfl, by simp [numbered, Column.idName]⟩
    all_goals simp [Request.KeepsIds, Column.idName]
  exact ⟨by decide, by decide, ids_stay_in_rows overwrites keep rfl⟩

/-- A row that is overwritten as a whole may come to have another id in it than its own. -/
theorem replaced_row_has_other_id : ∃ s, s = (ofCatalog .empty).play [.connect "a",
      .ask "a" (.createTable (.ofColumns "t" [])), .ask "a" (.insert "t" [.null]),
      .ask "a" (.replace "t" 1 [.integer 7])] ∧
    (s.step (.ask "a" (.fetch "t" 1))).1 = some (.ok (.row (some [.integer 7]))) ∧
    (s.step (.ask "a" (.select ⟨"t", .compare Column.idName .eq (.integer 1), none, none⟩))).1 =
      some (.ok (.rows [])) :=
  ⟨_, rfl, by rfl, by rfl⟩

end Store
end RankedStore
