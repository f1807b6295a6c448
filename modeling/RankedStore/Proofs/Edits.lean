import RankedStore.Proofs.InPlace
import RankedStore.Proofs.Loaded

/-! Edits of a record. A record holds two maps, its fields and what is stored of them, and a row is
a list of cells in the order of the columns. While the columns that were edited are others than that
of the id, each field is the last value that it was set to, or else the cell of the row that the
record was loaded from. -/
namespace RankedStore

/-- The last value that is given to a field, if there is any. -/
def lastSet (field : String) (edits : List (String × Value)) : Option Value :=
  ((edits.filter fun e => e.1 = field).map (·.2)).getLast?

/-- The row with the last value in each cell whose column was set. -/
def Columns.editedRow (columns : Columns) (edits : List (String × Value)) (row : Row) : Row :=
  List.zipWith (fun c v => (lastSet c.name edits).getD v) columns row

theorem Columns.editedRow_nil {columns : Columns} {row : Row}
    (width : row.length = columns.length) :
    columns.editedRow [] row = row := by
  have cells : columns.editedRow [] row = (columns.zip row).map Prod.snd := by
    rw [editedRow, List.zip, List.map_zipWith]
    rfl
  rw [cells, List.map_snd_zip (Nat.le_of_eq width)]

section

variable {edits : List (String × Value)} {field : String} {v : Value}

theorem lastSet_cons (e : String × Value) (edits : List (String × Value)) (field : String) :
    lastSet field (e :: edits) = (lastSet field edits).or
      (if e.1 = field then some e.2 else none) := by
  by_cases same : e.1 = field
  · simp only [lastSet, List.filter_cons, same, decide_true, if_true, List.map_cons,
      List.getLast?_cons]
    cases ((edits.filter fun e => e.1 = field).map (·.2)).getLast? <;> rfl
  · simp [lastSet, same]

theorem mem_of_lastSet (last : lastSet field edits = some v) : (field, v) ∈ edits := by
  obtain ⟨e, member, rfl⟩ := List.mem_map.mp (List.mem_of_getLast? last)
  obtain ⟨member, same⟩ := List.mem_filter.mp member
  rwa [← of_decide_eq_true same]

theorem get?_foldl_insert (m : Dict String Value) (edits : List (String × Value)) (field : String) :
    (edits.foldl (fun m e => m.insert e.1 e.2) m).get? field = (lastSet field edits).or
      (m.get? field) := by
  induction edits generalizing m with
  | nil => rfl
  | cons e edits ih =>
    rw [List.foldl_cons, ih, lastSet_cons, Option.or_assoc, Dict.get?_insert]
    split <;> rfl

end

namespace Record

variable {r r₀ : Record} {layout : TableLayout} {row : Row} {id : Int64} {field : String}
  {v : Value} {edits : List (String × Value)}

/-- Sets fields one after the other. -/
def setAll (r : Record) (edits : List (String × Value)) : Except Error Record :=
  edits.foldlM (fun r e => r.set e.1 e.2) r

/-- The record with fields set one after the other. -/
def edited (r : Record) (edits : List (String × Value)) : Record :=
  { r with fields := edits.foldl (fun m e => m.insert e.1 e.2) r.fields }

theorem get?_edited (r : Record) (edits : List (String × Value)) (field : String) :
    (r.edited edits).get? field = (lastSet field edits).or (r.get? field) := get?_foldl_insert ..

theorem setAll_eq_ok (free : ∀ e ∈ edits, e.1 ≠ Column.idName) :
    r.setAll edits = .ok (r.edited edits) := by
  induction edits generalizing r with
  | nil => rfl
  | cons e edits ih =>
    obtain ⟨here, free⟩ := List.forall_mem_cons.mp free
    have first : r.set e.1 e.2 = .ok { r with fields := r.fields.insert e.1 e.2 } := if_neg here
    rw [setAll, List.foldlM_cons, first]
    exact ih free

/-- A change is a field that differs from what is stored of it. -/
theorem mem_changes_iff {old new : Value} :
    (field, old, new) ∈ r.changes ↔ r.get? field = some new ∧ r.storedValue field = old ∧
    old ≠ new := by
  rw [changes, List.mem_filterMap]
  constructor
  · rintro ⟨⟨other, v⟩, member, changed⟩
    dsimp only at changed
    split at changed
    case isTrue => cases changed
    case isFalse differs =>
      cases changed
      exact ⟨Dict.mem_entries_iff.mp member, rfl, differs⟩
  · rintro ⟨found, rfl, differs⟩
    exact ⟨(field, new), Dict.mem_entries_iff.mpr found, if_neg differs⟩

theorem changes_sorted (r : Record) : r.changes.Pairwise fun a b => a.1 < b.1 := by
  have key : ∀ {e : String × Value} {c : String × Value × Value},
      (if r.storedValue e.1 = e.2 then none else some (e.1, r.storedValue e.1, e.2)) = some c →
        c.1 = e.1 := by
    intro e c changed
    split at changed <;> cases changed
    rfl
  refine List.pairwise_filterMap.mpr (r.fields.sorted.imp fun less b first c second => ?_)
  rw [key first, key second]
  exact less

/-- The edits are of columns other than that of the id. -/
def Within (layout : TableLayout) (edits : List (String × Value)) : Prop :=
  ∀ e ∈ edits, e.1 ≠ Column.idName ∧ ∃ c ∈ layout.columns, c.name = e.1

namespace LoadedFrom

variable {old new : Value}

theorem clean (loaded : r.LoadedFrom layout id row) : r.isDirty = false :=
  clean_of_stored loaded.stored

theorem storedValue_eq (loaded : r.LoadedFrom layout id row) (apart : field ≠ Column.idName)
    (cell : layout.columns.Has row field v) : r.storedValue field = v := by
  have found : r.stored.get? field = some v := by
    rw [loaded.stored]
    exact (loaded.cells field v).mpr ⟨apart, cell⟩
  rw [storedValue, found, Option.getD_some]

/-- After edits a cell is the last value that its column was set to, or else that of the row. -/
theorem cellOf_edited {i : Nat} {c : Column} (loaded : r.LoadedFrom layout id row)
    (labelled : layout.Labelled) (keyed : row[0]? = some (.integer id))
    (within : Within layout edits) (here : layout.columns[i]? = some c) (cell : row[i]? = some v) :
    (r.edited edits).cellOf c = (lastSet c.name edits).getD v := by
  by_cases first : c.name = Column.idName
  · -- no edit is of this column, and the record writes its own id there
    obtain ⟨d, front, named⟩ := labelled.first
    obtain rfl : i = 0 := labelled.unique here front (first.trans named.symm)
    have unset : lastSet c.name edits = none := by
      cases last : lastSet c.name edits with
      | none => rfl
      | some v => exact absurd first (within _ (mem_of_lastSet last)).1
    rw [unset, cellOf, if_pos first, show (r.edited edits).id = r.id from rfl, loaded.persisted]
    exact Option.some.inj (keyed.symm.trans cell)
  · have found := (loaded.cells c.name v).mpr ⟨first, i, c, here, rfl, cell⟩
    rw [cellOf, if_neg first, get?_edited, found]
    cases lastSet c.name edits <;> rfl

/-- After edits the record is written as the row with the last value in each cell whose column was
set. -/
theorem toRow_edited (loaded : r.LoadedFrom layout id row) (labelled : layout.Labelled)
    (width : row.length = layout.columns.length) (keyed : row[0]? = some (.integer id))
    (within : Within layout edits) :
    (r.edited edits).toRow layout = .ok (layout.columns.editedRow edits row) := by
  rw [toRow_of_columns]
  · refine congrArg Except.ok (List.ext_getElem? fun i => ?_)
    rw [List.getElem?_map, Columns.editedRow, List.getElem?_zipWith]
    cases here : layout.columns[i]? with
    | none => rfl
    | some c =>
      have bound : i < row.length := width ▸ (List.getElem?_eq_some_iff.mp here).1
      have cell : row[i]? = some row[i] := List.getElem?_eq_getElem bound
      rw [cell]
      exact congrArg some (loaded.cellOf_edited labelled keyed within here cell)
  · intro field v found
    rw [get?_edited, Option.or_eq_some_iff] at found
    rcases found with last | ⟨_, found⟩
    · exact (within _ (mem_of_lastSet last)).2
    · obtain ⟨_, i, c, here, named, _⟩ := (loaded.cells field v).mp found
      exact ⟨c, List.mem_of_getElem? here, named⟩

/-- The changes after edits are the columns whose last value is not that of the row. -/
theorem mem_changes_edited (loaded : r.LoadedFrom layout id row)
    (width : row.length = layout.columns.length) (within : Within layout edits) :
    (field, old, new) ∈ (r.edited edits).changes ↔
      lastSet field edits = some new ∧ layout.columns.Has row field old ∧ old ≠ new := by
  have stored : (r.edited edits).storedValue field = r.storedValue field := rfl
  rw [mem_changes_iff, get?_edited, Option.or_eq_some_iff, stored]
  constructor
  · rintro ⟨last | ⟨_, found⟩, same, differs⟩
    · obtain ⟨apart, c, member, rfl⟩ := within _ (mem_of_lastSet last)
      obtain ⟨v, cell⟩ := Columns.exists_has width member
      rw [loaded.storedValue_eq apart cell] at same
      exact ⟨last, same ▸ cell, differs⟩
    · -- a field that was not set is as it is stored
      obtain ⟨apart, cell⟩ := (loaded.cells field new).mp found
      rw [loaded.storedValue_eq apart cell] at same
      exact absurd same.symm differs
  · rintro ⟨last, cell, differs⟩
    exact ⟨.inl last, loaded.storedValue_eq (within _ (mem_of_lastSet last)).1 cell, differs⟩

/-- The record is clean if each column that was set has the value of the row again. -/
theorem clean_edited_iff (loaded : r.LoadedFrom layout id row)
    (width : row.length = layout.columns.length) (within : Within layout edits) :
    (r.edited edits).isDirty = false ↔
      ∀ field last, lastSet field edits = some last → layout.columns.Has row field last := by
  rw [isDirty, Bool.not_eq_false', List.isEmpty_iff, List.eq_nil_iff_forall_not_mem]
  constructor
  · intro unchanged field last set
    obtain ⟨_, c, member, rfl⟩ := within _ (mem_of_lastSet set)
    obtain ⟨v, cell⟩ := Columns.exists_has width member
    by_cases same : v = last
    · exact same ▸ cell
    · exact absurd ((loaded.mem_changes_edited width within).mpr ⟨set, cell, same⟩) (unchanged _)
  · rintro restored ⟨field, old, new⟩ member
    obtain ⟨last, cell, differs⟩ := (loaded.mem_changes_edited width within).mp member
    have apart := (within _ (mem_of_lastSet last)).1
    exact differs ((loaded.storedValue_eq apart cell).symm.trans
      (loaded.storedValue_eq apart (restored field new last)))

/-- A record that is clean after edits is as it was before them. -/
theorem edited_eq_self (loaded : r.LoadedFrom layout id row) (within : Within layout edits)
    (restored : ∀ field last, lastSet field edits = some last → layout.columns.Has row field last) :
    r.edited edits = r := by
  have fields : (r.edited edits).fields = r.fields := by
    refine Dict.ext_get? fun field => ?_
    rw [show (r.edited edits).fields.get? field = _ from r.get?_edited edits field]
    cases last : lastSet field edits with
    | none => rfl
    | some v =>
      have apart := (within _ (mem_of_lastSet last)).1
      exact ((loaded.cells field v).mpr ⟨apart, restored field v last⟩).symm
  exact congrArg (fun fields => { r with fields }) fields

end LoadedFrom

/-- A row whose cells are one for each column, with its id in front, is loaded as a clean record,
which is written back as that row. After any columns but that of the id were set, in any order and
any number of times, the record is written as the row with the last value in each of these columns,
and its changes are the columns whose last value is not that of the row, each once, with both
values. Once no such column is left the record is clean again and as it was loaded. A row of another
length is refused and leaves the record of the caller as it is. -/
theorem edits_are_exact (labelled : layout.Labelled) (width : row.length = layout.columns.length)
    (keyed : row[0]? = some (.integer id)) (r₀ : Record) :
    (∃ r, r₀.load layout row = .ok r ∧ r.isDirty = false ∧ r.toRow layout = .ok row ∧
      ∀ edits : List (String × Value), Within layout edits → ∃ r', r.setAll edits = .ok r' ∧
        r'.toRow layout = .ok (layout.columns.editedRow edits row) ∧
        r'.changes.Pairwise (fun a b => a.1 < b.1) ∧
        (∀ field old new, (field, old, new) ∈ r'.changes ↔
          lastSet field edits = some new ∧ layout.columns.Has row field old ∧ old ≠ new) ∧
        (r'.isDirty = false ↔ ∀ field last, lastSet field edits = some last →
          layout.columns.Has row field last) ∧
        (r'.isDirty = false ↔ r' = r)) ∧
      ∀ (other : Row) (s : Session), other.length ≠ layout.columns.length →
        (InPlace.load layout other).run r₀ s =
          ((.error (.typeMismatch (.recordWidth layout.name other.length layout.columns.length)),
            r₀), s) := by
  obtain ⟨r, read, _, loaded⟩ := load_loadedFrom labelled width keyed r₀
  refine ⟨⟨r, read, loaded.clean, ?_, fun edits within => ?_⟩, fun other s short => ?_⟩
  · have untouched : Within layout [] := by simp [Within]
    have written := loaded.toRow_edited labelled width keyed untouched
    rwa [Columns.editedRow_nil width] at written
  · refine ⟨r.edited edits, setAll_eq_ok fun e member => (within e member).1,
      loaded.toRow_edited labelled width keyed within, changes_sorted _,
      fun field old new => loaded.mem_changes_edited width within, loaded.clean_edited_iff width
      within, ?_⟩
    constructor
    · exact fun clean => loaded.edited_eq_self within
        ((loaded.clean_edited_iff width within).mp clean)
    · intro same
      rw [same]
      exact loaded.clean
  · have refused : r₀.load layout other =
        .error (.typeMismatch (.recordWidth layout.name other.length layout.columns.length)) :=
          if_pos short
    simp [InPlace.load, InPlace.check, refused]

end Record

namespace Card

def layout : TableLayout :=
  ⟨"cards", [Column.id, { name := "title", type := .text }, { name := "rank", type := .integer }]⟩

def row : Row := [.integer 1, .text "a", .integer 2]

/-- The title is changed and changed back. -/
def edits : List (String × Value) :=
  [("title", .text "b"), ("rank", .integer 7), ("title", .text "a")]

theorem labelled : layout.Labelled := ⟨⟨_, rfl, rfl⟩, by decide⟩

theorem within : Record.Within layout edits := by
  unfold Record.Within
  decide

end Card

open Card in
/-- Of a title that was changed and changed back and of a rank that was changed, only the rank is a
change. -/
theorem Record.edits_are_exact_titles :
    ∃ r r', (ofEntity "cards").load layout row = .ok r ∧ r.setAll edits = .ok r' ∧
    r'.toRow layout = .ok [.integer 1, .text "a", .integer 7] ∧
    ("rank", .integer 2, .integer 7) ∈ r'.changes ∧
      ∀ old new, ("title", old, new) ∉ r'.changes := by
  have width : row.length = layout.columns.length := rfl
  obtain ⟨⟨r, read, _, _, after⟩, _⟩ := edits_are_exact labelled width rfl (ofEntity "cards")
  obtain ⟨r', set, written, _, changed, _⟩ := after edits within
  refine ⟨r, r', read, set, written, (changed ..).mpr ⟨rfl, ⟨2, _, rfl, rfl, rfl⟩, by decide⟩,
    fun old new member => ?_⟩
  obtain ⟨last, ⟨i, c, here, named, cell⟩, differs⟩ := (changed ..).mp member
  obtain rfl : i = 1 := labelled.unique (j := 1) here rfl named
  cases last
  cases cell
  exact differs rfl

end RankedStore
