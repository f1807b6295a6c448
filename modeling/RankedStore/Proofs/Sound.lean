import RankedStore.Proofs.Statement

/-! Tables whose stored rows all pass the checks that writing them makes: against the columns, and
against each other. Every write that passes its own checks keeps this, and in such a table a new
value in a column that is not unique passes them too. -/
namespace RankedStore

namespace Columns

variable {columns : Columns} {row row' other other' : Row}

/-- Two rows share no value in a unique column, NULL apart. -/
def Apart (columns : Columns) (row other : Row) : Prop :=
  ∀ (i : Nat) (c : Column) (v : Value), columns[i]? = some c → c.unique = true → row[i]? = some v →
    v.isNull = false → other[i]? ≠ some v

/-- The rows have the same values in the unique columns. -/
def Agree (columns : Columns) (row other : Row) : Prop :=
  ∀ (i : Nat) (c : Column), columns[i]? = some c → c.unique = true → row[i]? = other[i]?

theorem Apart.symm (apart : Apart columns row other) : Apart columns other row := by
  intro i c v column unique value known shared
  exact apart i c v column unique shared known value

theorem Apart.congr (apart : Apart columns row other) (left : Agree columns row row')
    (right : Agree columns other other') : Apart columns row' other' := by
  intro i c v column unique value known
  rw [← left i c column unique] at value
  rw [← right i c column unique]
  exact apart i c v column unique value known

theorem agree_refl (columns : Columns) (row : Row) : Agree columns row row := fun _ _ _ _ => rfl

theorem Agree.symm (agree : Agree columns row other) : Agree columns other row :=
  fun i c column unique => (agree i c column unique).symm

theorem agree_set {p : Nat} {c : Column} (column : columns[p]? = some c) (plain : c.unique = false)
    (row : Row) (v : Value) : Agree columns row (row.set p v) := by
  intro i c' column' unique
  have ne : p ≠ i := by
    rintro rfl
    rw [column, Option.some.injEq] at column'
    rw [← column', plain] at unique
    cases unique
  rw [List.getElem?_set_ne ne]

end Columns

namespace Table

variable {t t' : Table} {id : Int64} {row old other : Row} {i p : Nat} {v : Value}
  {entries : List (Int64 × Row)} {cs : Columns} {except : Option Int64}

theorem isTaken_eq (t : Table) (v : Value) (except : Option Int64)
    (wide : ∀ e ∈ entries, i < e.2.length) : t.isTaken i v except entries =
      .ok (decide (∃ e ∈ entries, some e.1 ≠ except ∧ e.2[i]? = some v)) := by
  induction entries with
  | nil => simp [isTaken]
  | cons e rest ih =>
    obtain ⟨key, other⟩ := e
    have later := ih fun e member => wide e (List.mem_cons_of_mem _ member)
    have bound : i < other.length := wide (key, other) (List.mem_cons_self ..)
    have cell : other[i]? = some other[i] := List.getElem?_eq_getElem bound
    unfold isTaken
    split
    case isTrue same => rw [later]; simp [same]
    case isFalse own =>
      simp only [cellAt, cell, later, Except.ok_bind]
      split
      case isTrue taken => simp [own, cell, taken]
      case isFalse free => simp [cell, free]

theorem checkUniqueFrom_iff (t : Table) (except : Option Int64)
    (wide : ∀ e ∈ t.scan, i + cs.length ≤ e.2.length) :
    t.checkUniqueFrom except i cs row = .ok () ↔
      ∀ (j : Nat) (c : Column) (v : Value), cs[j]? = some c → c.unique = true → row[j]? = some v →
        v.isNull = false → ∀ e ∈ t.scan, some e.1 ≠ except → e.2[i + j]? ≠ some v := by
  induction cs generalizing i row with
  | nil => simp [checkUniqueFrom]
  | cons c cs ih =>
    cases row with
    | nil => simp [checkUniqueFrom]
    | cons v row =>
      simp only [List.length_cons] at wide
      have here : ∀ e ∈ t.scan, i < e.2.length := fun e member => by
        have := wide e member
        omega
      have behind : ∀ e ∈ t.scan, i + 1 + cs.length ≤ e.2.length := fun e member => by
        have := wide e member
        omega
      have taken := t.isTaken_eq v except here
      have later : t.checkUniqueFrom except (i + 1) cs row = .ok () ↔
          ∀ (j : Nat) (d : Column) (w : Value), (c :: cs)[j + 1]? = some d → d.unique = true →
            (v :: row)[j + 1]? = some w → w.isNull = false → ∀ e ∈ t.scan, some e.1 ≠ except →
            e.2[i + (j + 1)]? ≠ some w := by
        rw [ih behind]
        simp only [List.getElem?_cons_succ, Nat.add_assoc, Nat.add_comm 1]
      by_cases clash : (c.unique = true ∧ v.isNull = false) ∧
          ∃ e ∈ t.scan, some e.1 ≠ except ∧ e.2[i]? = some v
      · obtain ⟨active, e, member, own, same⟩ := id clash
        refine iff_of_false ?_ fun apart => apart 0 c v rfl active.1 rfl active.2 e member own same
        simp [checkUniqueFrom, active, taken, clash.2, bind, Except.bind]
      · have passes : t.checkUniqueFrom except i (c :: cs) (v :: row) =
            t.checkUniqueFrom except (i + 1) cs row := by
          by_cases active : c.unique = true ∧ v.isNull = false
          · have free : ¬ ∃ e ∈ t.scan, some e.1 ≠ except ∧ e.2[i]? = some v := fun shared =>
              clash ⟨active, shared⟩
            simp [checkUniqueFrom, active, taken, free]
          · have inactive : (c.unique && !v.isNull) = false := by simpa using active
            simp [checkUniqueFrom, inactive]
        rw [passes, later]
        refine ⟨fun apart j => ?_, fun apart j => apart (j + 1)⟩
        cases j with
        | zero =>
          rintro _ _ ⟨⟩ unique ⟨⟩ known e member own same
          exact clash ⟨⟨unique, known⟩, e, member, own, same⟩
        | succ j => exact apart j

/-- Every row is as wide as the table, has its id in front and passes the checks of its columns, and
no two rows share a value in a unique column. -/
structure Sound (t : Table) : Prop where
  checked : ∀ id row, t.get? id = some row → t.checkRow row = .ok ()
  keyed : ∀ id row, t.get? id = some row → row[0]? = some (.integer id)
  apart : ∀ id row key other, t.get? id = some row → t.get? key = some other → id ≠ key →
    t.columns.Apart row other

theorem width_of_checkRow (checked : t.checkRow row = .ok ()) : row.length = t.columns.length := by
  unfold checkRow at checked
  split at checked
  case isTrue => cases checked
  case isFalse same => simpa using same

theorem checkCells_set {c : Column} (checked : checkCells cs row = .ok ())
    (column : cs[p]? = some c) (admitted : c.check v = .ok ()) :
    checkCells cs (row.set p v) = .ok () := by
  induction cs generalizing p row with
  | nil => simp at column
  | cons d cs ih =>
    cases row with
    | nil => rfl
    | cons w row =>
      unfold checkCells at checked
      cases first : d.check w with
      | error e => simp [first] at checked
      | ok _ =>
        simp only [first, Except.ok_bind] at checked
        cases p with
        | zero =>
          cases column
          simp [checkCells, admitted, checked]
        | succ p =>
          simp only [List.getElem?_cons_succ] at column
          simp [checkCells, first, ih checked column]

theorem checkCells_get {c : Column} (checked : checkCells cs row = .ok ())
    (column : cs[p]? = some c) (cell : row[p]? = some v) : c.check v = .ok () := by
  induction cs generalizing p row with
  | nil => cases column
  | cons d cs ih =>
    cases row with
    | nil => cases cell
    | cons w row =>
      unfold checkCells at checked
      cases first : d.check w with
      | error e => simp [first] at checked
      | ok _ =>
        simp only [first, Except.ok_bind] at checked
        cases p with
        | zero =>
          cases column
          cases cell
          exact first
        | succ p => exact ih checked column cell

theorem checkRow_get {c : Column} (checked : t.checkRow row = .ok ())
    (column : t.columns[p]? = some c) (cell : row[p]? = some v) : c.check v = .ok () := by
  have width := width_of_checkRow checked
  unfold checkRow at checked
  rw [if_neg (by simpa using width)] at checked
  exact checkCells_get checked column cell

theorem checkRow_set {c : Column} (checked : t.checkRow row = .ok ())
    (column : t.columns[p]? = some c) (admitted : c.check v = .ok ()) :
    t.checkRow (row.set p v) = .ok () := by
  have width := width_of_checkRow checked
  unfold checkRow at checked ⊢
  rw [if_neg (by simpa using width)] at checked
  rw [if_neg (by simpa using width)]
  exact checkCells_set checked column admitted

/-- Every row passes the checks of its columns, and no two rows share a value in a unique column. -/
structure Valid (t : Table) : Prop where
  checked : ∀ id row, t.get? id = some row → t.checkRow row = .ok ()
  apart : ∀ id row key other, t.get? id = some row → t.get? key = some other → id ≠ key →
    t.columns.Apart row other

theorem mem_scan : (id, row) ∈ t.scan ↔ t.get? id = some row := Dict.mem_entries_iff

/-- A row after one was written is that one, or it was there before. -/
theorem get?_of_insert {n key : Int64}
    (stored : Table.get? { t with rows := t.rows.insert id row, nextId := n } key = some other) :
    key = id ∧ other = row ∨ key ≠ id ∧ t.get? key = some other := by
  rw [get?, Dict.get?_insert] at stored
  split at stored
  case isTrue same => exact .inl ⟨same.symm, (Option.some.inj stored).symm⟩
  case isFalse ne => exact .inr ⟨Ne.symm ne, stored⟩

theorem get?_of_erase {key : Int64}
    (stored : Table.get? { t with rows := t.rows.erase id } key = some row) :
    t.get? key = some row := by
  rw [get?, Dict.get?_erase] at stored
  split at stored
  case isTrue => cases stored
  case isFalse => exact stored

namespace Valid

theorem width (valid : t.Valid) (stored : t.get? id = some row) : row.length = t.columns.length :=
  width_of_checkRow (valid.checked id row stored)

theorem checkUnique_iff (valid : t.Valid) : t.checkUnique row except = .ok () ↔
    ∀ id other, t.get? id = some other → some id ≠ except → t.columns.Apart row other := by
  have wide : ∀ e ∈ t.scan, 0 + t.columns.length ≤ e.2.length := fun e member => by
    have width := valid.width (mem_scan.mp member)
    omega
  rw [checkUnique, t.checkUniqueFrom_iff except wide]
  constructor
  · intro apart id other stored own i c v column unique value known
    have := apart i c v column unique value known (id, other) (mem_scan.mpr stored) own
    rwa [Nat.zero_add] at this
  · intro apart i c v column unique value known e member own
    rw [Nat.zero_add]
    exact apart e.1 e.2 (mem_scan.mp member) own i c v column unique value known

/-- In a column that is not unique a stored row may get any value that the column admits. -/
theorem replace_set {c : Column} (valid : t.Valid) (stored : t.get? id = some row)
    (column : t.columns[p]? = some c) (plain : c.unique = false) (admitted : c.check v = .ok ()) :
    t.replace id (row.set p v) =
      .ok (some (row, { t with rows := t.rows.insert id (row.set p v) })) := by
  have checked := checkRow_set (valid.checked id row stored) column admitted
  have unique : t.checkUnique (row.set p v) (some id) = .ok () := by
    rw [valid.checkUnique_iff]
    intro key other found own
    have ne : id ≠ key := fun same => own (by rw [same])
    exact (valid.apart id row key other stored found ne).congr
      (Columns.agree_set column plain row v) (Columns.agree_refl _ _)
  simp [Table.replace, stored, checked, unique]

/-- A row that passes the checks may be written in the place of the one with its id. -/
theorem write (valid : t.Valid) (n : Int64) (checked : t.checkRow row = .ok ())
    (apart : ∀ key other, t.get? key = some other → key ≠ id → t.columns.Apart row other) :
    Valid { t with rows := t.rows.insert id row, nextId := n } := by
  constructor
  · intro key other stored
    rcases get?_of_insert stored with ⟨_, rfl⟩ | ⟨_, stored⟩
    · exact checked
    · exact valid.checked key other stored
  · intro key other key' other' stored stored' ne
    rcases get?_of_insert stored with ⟨rfl, rfl⟩ | ⟨own, found⟩ <;>
      rcases get?_of_insert stored' with ⟨rfl, rfl⟩ | ⟨own', found'⟩
    · exact absurd rfl ne
    · exact apart key' other' found' own'
    · exact (apart key other found own).symm
    · exact valid.apart key other key' other' found found' ne

theorem insert (valid : t.Valid) (h : t.insert row = .ok (id, t')) : t'.Valid := by
  obtain ⟨_, checked, _, unique, next, _, rfl⟩ := insert_eq_ok h
  refine valid.write _ checked fun key other stored _ => ?_
  exact valid.checkUnique_iff.mp unique key other stored (by simp)

theorem replace (valid : t.Valid) (h : t.replace id row = .ok (some (old, t'))) : t'.Valid := by
  obtain ⟨_, checked, unique, rfl⟩ := replace_eq_some h
  refine valid.write t.nextId checked fun key other stored ne => ?_
  exact valid.checkUnique_iff.mp unique key other stored (by simpa using ne)

theorem set {c : Column} (valid : t.Valid) (stored : t.get? id = some row)
    (column : t.columns[p]? = some c) (plain : c.unique = false) (admitted : c.check v = .ok ()) :
    Valid { t with rows := t.rows.insert id (row.set p v) } :=
  valid.replace (valid.replace_set stored column plain admitted)

theorem erase (valid : t.Valid) (id : Int64) : Valid { t with rows := t.rows.erase id } :=
  ⟨fun key other stored => valid.checked key other (get?_of_erase stored),
    fun key other key' other' stored stored' =>
      valid.apart key other key' other' (get?_of_erase stored) (get?_of_erase stored')⟩

theorem grown (valid : t.Valid) (larger : t.Grown t') : t'.Valid := by
  obtain ⟨layout, rows, nextId⟩ := t
  obtain ⟨layout', rows', nextId'⟩ := t'
  obtain ⟨rfl, rfl, _⟩ := larger
  exact ⟨valid.checked, valid.apart⟩

theorem ofEmpty (empty : t.rows = .empty) : t.Valid := by
  have absent : ∀ id, t.get? id = none := fun id => by rw [get?, empty, Dict.get?_empty]
  constructor
  · intro id row stored
    cases (absent id).symm.trans stored
  · intro id row key other stored
    cases (absent id).symm.trans stored

end Valid

theorem Sound.valid (sound : t.Sound) : t.Valid := ⟨sound.checked, sound.apart⟩

namespace Sound

theorem width (sound : t.Sound) (stored : t.get? id = some row) : row.length = t.columns.length :=
  sound.valid.width stored

theorem mem_scan : (id, row) ∈ t.scan ↔ t.get? id = some row := Table.mem_scan

theorem checkUnique_iff (sound : t.Sound) : t.checkUnique row except = .ok () ↔
    ∀ id other, t.get? id = some other → some id ≠ except → t.columns.Apart row other :=
  sound.valid.checkUnique_iff

theorem keyed_insert (sound : t.Sound) {n : Int64} (keyed : row[0]? = some (.integer id)) :
    ∀ key other, Table.get? { t with rows := t.rows.insert id row, nextId := n } key = some other →
      other[0]? = some (.integer key) := by
  intro key other stored
  rcases get?_of_insert stored with ⟨rfl, rfl⟩ | ⟨_, stored⟩
  · exact keyed
  · exact sound.keyed key other stored

theorem insert (sound : t.Sound) (h : t.insert row = .ok (id, t')) : t'.Sound := by
  have valid := sound.valid.insert h
  obtain ⟨_, _, _, _, next, _, rfl⟩ := insert_eq_ok h
  exact ⟨valid.checked, sound.keyed_insert rfl, valid.apart⟩

theorem replace (sound : t.Sound) (h : t.replace id row = .ok (some (old, t')))
    (keyed : row[0]? = some (.integer id)) : t'.Sound := by
  have valid := sound.valid.replace h
  obtain ⟨_, _, _, rfl⟩ := replace_eq_some h
  exact ⟨valid.checked, sound.keyed_insert keyed, valid.apart⟩

theorem erase (sound : t.Sound) (id : Int64) : Sound { t with rows := t.rows.erase id } := by
  have valid := sound.valid.erase id
  exact ⟨valid.checked, fun key other stored => sound.keyed key other (get?_of_erase stored),
    valid.apart⟩

theorem grown (sound : t.Sound) (larger : t.Grown t') : t'.Sound := by
  have valid := sound.valid.grown larger
  refine ⟨valid.checked, fun key other stored => sound.keyed key other ?_, valid.apart⟩
  rwa [get?, larger.rows] at stored

theorem replace_set {c : Column} (sound : t.Sound) (stored : t.get? id = some row)
    (column : t.columns[p]? = some c) (plain : c.unique = false) (admitted : c.check v = .ok ()) :
    t.replace id (row.set p v) =
      .ok (some (row, { t with rows := t.rows.insert id (row.set p v) })) :=
  sound.valid.replace_set stored column plain admitted

theorem ofEmpty (empty : t.rows = .empty) : t.Sound := by
  have valid := Valid.ofEmpty empty
  refine ⟨valid.checked, fun id row stored => ?_, valid.apart⟩
  rw [get?, empty, Dict.get?_empty] at stored
  cases stored

end Sound

theorem insert_of {next : Int64} (given : t.idOf row = .ok id)
    (checked : t.checkRow (.integer id :: row.tail) = .ok ()) (free : t.get? id = none)
    (unique : t.checkUnique (.integer id :: row.tail) none = .ok ())
    (following : addChecked id 1 = some next) : t.insert row = .ok (id, { t with
      rows := t.rows.insert id (.integer id :: row.tail), nextId := max t.nextId next }) := by
  have free : t.rows.contains id = false := by
    rw [get?] at free
    rw [Dict.contains, free, Option.isSome_none]
  simp [Table.insert, given, checked, free, unique, following]

theorem replace_of (stored : t.get? id = some old) (checked : t.checkRow row = .ok ())
    (unique : t.checkUnique row (some id) = .ok ()) :
    t.replace id row = .ok (some (old, { t with rows := t.rows.insert id row })) := by
  simp [replace, stored, checked, unique]

/-- The tables have rows of the same ids, which agree in the unique columns. They admit the same
rows. -/
structure Alike (t t' : Table) : Prop where
  layout : t'.layout = t.layout
  nextId : t'.nextId = t.nextId
  rows : ∀ id, Option.Rel t.columns.Agree (t.get? id) (t'.get? id)

namespace Alike

theorem refl (t : Table) : t.Alike t := by
  refine ⟨rfl, rfl, fun id => ?_⟩
  cases t.get? id with
  | none => exact .none
  | some row => exact .some (Columns.agree_refl _ row)

theorem columns (alike : t.Alike t') : t'.columns = t.columns :=
  congrArg TableLayout.columns alike.layout

theorem symm (alike : t.Alike t') : t'.Alike t := by
  refine ⟨alike.layout.symm, alike.nextId.symm, fun id => ?_⟩
  have same := alike.rows id
  rw [alike.columns]
  revert same
  cases t.get? id <;> cases t'.get? id <;> intro same <;> cases same
  · exact .none
  · rename_i agree
    exact .some agree.symm

theorem some_iff (alike : t.Alike t') (stored : t.get? id = some row) :
    ∃ row', t'.get? id = some row' ∧ t.columns.Agree row row' := by
  have same := alike.rows id
  rw [stored] at same
  cases found : t'.get? id with
  | none => rw [found] at same; cases same
  | some row' =>
    rw [found] at same
    cases same with
    | some agree => exact ⟨row', rfl, agree⟩

theorem none_iff (alike : t.Alike t') (absent : t.get? id = none) : t'.get? id = none := by
  have same := alike.rows id
  rw [absent] at same
  cases found : t'.get? id with
  | none => rfl
  | some row' => rw [found] at same; cases same

theorem checkRow (alike : t.Alike t') (row : Row) : t'.checkRow row = t.checkRow row := by
  simp only [Table.checkRow, alike.columns, name, alike.layout]

theorem checkUnique (alike : t.Alike t') (sound : t.Sound) (sound' : t'.Sound)
    (unique : t.checkUnique row except = .ok ()) : t'.checkUnique row except = .ok () := by
  rw [sound'.checkUnique_iff]
  intro key other stored own
  obtain ⟨other', stored', agree⟩ := alike.symm.some_iff stored
  have apart := sound.checkUnique_iff.mp unique key other' stored' own
  rw [alike.columns] at agree ⊢
  exact apart.congr (Columns.agree_refl _ _) agree.symm

theorem insert (alike : t.Alike t') (sound : t.Sound) (sound' : t'.Sound)
    (h : t.insert row = .ok (id, after)) : ∃ after', t'.insert row = .ok (id, after') := by
  obtain ⟨given, checked, free, unique, next, following, _⟩ := insert_eq_ok h
  have given' : t'.idOf row = .ok id := by
    rw [← given]
    unfold idOf
    rw [alike.nextId, name, name, alike.layout]
  exact ⟨_, insert_of given' ((alike.checkRow _).trans checked) (alike.none_iff free)
    (alike.checkUnique sound sound' unique) following⟩

theorem replace (alike : t.Alike t') (sound : t.Sound) (sound' : t'.Sound)
    (h : t.replace id row = .ok (some (old, after))) :
    ∃ old' after', t'.replace id row = .ok (some (old', after')) := by
  obtain ⟨stored, checked, unique, _⟩ := replace_eq_some h
  obtain ⟨old', stored', _⟩ := alike.some_iff stored
  exact ⟨old', _, replace_of stored' ((alike.checkRow row).trans checked)
    (alike.checkUnique sound sound' unique)⟩

end Alike
end Table
end RankedStore
