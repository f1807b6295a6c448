import RankedStore.Proofs.Acts
import RankedStore.Proofs.Dict
import RankedStore.Proofs.Record

/-! Records as they are read from a row. Where every column has a name of its own, such a record has
nothing to save, and it is written back as the row that it was read from. -/
namespace RankedStore

/-- Every column has a name of its own, and the first name is that of the id. -/
structure TableLayout.Labelled (layout : TableLayout) : Prop where
  first : ∃ c, layout.columns[0]? = some c ∧ c.name = Column.idName
  apart : layout.columns.Pairwise fun a b => a.name ≠ b.name

/-- Every column has a name of its own, and the first one is the id. -/
structure TableLayout.Distinct (layout : TableLayout) : Prop where
  first : layout.columns[0]? = some Column.id
  apart : layout.columns.Pairwise fun a b => a.name ≠ b.name

/-- The row has the value in a column of this name. -/
def Columns.Has (columns : Columns) (row : Row) (name : String) (v : Value) : Prop :=
  ∃ (i : Nat) (c : Column), columns[i]? = some c ∧ c.name = name ∧ row[i]? = some v

theorem Columns.exists_has {columns : Columns} {row : Row} {c : Column}
    (width : row.length = columns.length) (member : c ∈ columns) :
    ∃ v, columns.Has row c.name v := by
  obtain ⟨i, here⟩ := List.getElem?_of_mem member
  have bound : i < row.length := width ▸ (List.getElem?_eq_some_iff.mp here).1
  exact ⟨row[i], i, c, here, rfl, List.getElem?_eq_getElem bound⟩

theorem TableLayout.Labelled.unique {layout : TableLayout} {i j : Nat} {c d : Column}
    (labelled : layout.Labelled) (here : layout.columns[i]? = some c)
    (there : layout.columns[j]? = some d) (same : c.name = d.name) : i = j := by
  obtain ⟨bound, rfl⟩ := List.getElem?_eq_some_iff.mp here
  obtain ⟨bound', rfl⟩ := List.getElem?_eq_some_iff.mp there
  have apart := List.pairwise_iff_getElem.mp labelled.apart
  rcases Nat.lt_trichotomy i j with lt | eq | lt
  · exact absurd same (apart i j bound bound' lt)
  · exact eq
  · exact absurd same.symm (apart j i bound' bound lt)

namespace TableLayout.Distinct

variable {layout : TableLayout} {i j : Nat} {c d : Column}

theorem labelled (distinct : layout.Distinct) : layout.Labelled :=
  ⟨⟨_, distinct.first, rfl⟩, distinct.apart⟩

theorem unique (distinct : layout.Distinct) (here : layout.columns[i]? = some c)
    (there : layout.columns[j]? = some d) (same : c.name = d.name) : i = j :=
  distinct.labelled.unique here there same

theorem index (distinct : layout.Distinct) (here : layout.columns[i]? = some c) :
    layout.index c.name = .ok i := by
  obtain ⟨bound, value⟩ := List.getElem?_eq_some_iff.mp here
  have found : layout.columns.index? c.name = some i := by
    refine List.findIdx?_eq_some_iff_getElem.mpr ⟨bound, by simp [value], fun j before same => ?_⟩
    have inside : j < layout.columns.length := by omega
    have := distinct.unique (List.getElem?_eq_getElem inside) here (by simpa using same)
    omega
  rw [TableLayout.index, found]

end TableLayout.Distinct

namespace Record

variable {r r' : Record} {layout : TableLayout} {row : Row} {id : Int64} {field : String}
  {v : Value} {cs : Columns}

/-- The id is never read as a field. -/
theorem loadCells_noId (r : Record) (cs : Columns) (row : Row) :
    (r.loadCells cs row).get? Column.idName = r.get? Column.idName := by
  induction cs generalizing r row with
  | nil => rfl
  | cons c cs ih =>
    cases row with
    | nil => rfl
    | cons v row =>
      rw [loadCells, ih]
      split
      case isTrue => rfl
      case isFalse other => exact Dict.get?_insert_of_ne _ _ other

theorem loadCells_field (found : (r.loadCells cs row).get? field = some v) :
    r.get? field = some v ∨ ∃ c ∈ cs, c.name = field := by
  induction cs generalizing r row with
  | nil => exact .inl found
  | cons c cs ih =>
    cases row with
    | nil => exact .inl found
    | cons w row =>
      rw [loadCells] at found
      rcases ih found with before | ⟨d, member, named⟩
      · split at before
        case isTrue => exact .inl before
        case isFalse =>
          by_cases same : c.name = field
          · exact .inr ⟨c, List.mem_cons_self .., same⟩
          · exact .inl ((Dict.get?_insert_of_ne _ _ same).symm.trans before)
      · exact .inr ⟨d, List.mem_cons_of_mem _ member, named⟩

theorem ofRow_eq_ok (read : ofRow layout row = .ok r) : row.length = layout.columns.length ∧
    r = { (ofEntity layout.name).loadCells layout.columns row with
      stored := ((ofEntity layout.name).loadCells layout.columns row).fields } := by
  unfold ofRow load at read
  split at read
  case isTrue => cases read
  case isFalse width =>
    cases read
    exact ⟨by simpa using width, rfl⟩

theorem ofRow_noId (read : ofRow layout row = .ok r) : r.get? Column.idName = none := by
  obtain ⟨_, rfl⟩ := ofRow_eq_ok read
  exact loadCells_noId (ofEntity layout.name) layout.columns row

theorem clean_of_stored (same : r.stored = r.fields) : r.isDirty = false := by
  have none : r.changes = [] := by
    refine List.filterMap_eq_nil_iff.mpr fun ⟨field, v⟩ member => ?_
    have found : r.stored.get? field = some v := same ▸ Dict.mem_entries_iff.mp member
    simp only [storedValue, found, Option.getD_some, if_pos]
  rw [isDirty, none]
  rfl

/-- A record that was just read from a row has nothing to save. -/
theorem ofRow_clean (read : ofRow layout row = .ok r) : r.isDirty = false := by
  obtain ⟨_, rfl⟩ := ofRow_eq_ok read
  exact clean_of_stored rfl

/-- The record has the cells of the row for what is stored of it. -/
structure LoadedFrom (r : Record) (layout : TableLayout) (id : Int64) (row : Row) : Prop where
  persisted : r.id = some id
  stored : r.stored = r.fields
  cells : ∀ field v, r.get? field = some v ↔ field ≠ Column.idName ∧ layout.columns.Has row field v

theorem load_loadedFrom (labelled : layout.Labelled) (width : row.length = layout.columns.length)
    (keyed : row[0]? = some (.integer id)) (r₀ : Record) :
    ∃ r, r₀.load layout row = .ok r ∧ r.entity = r₀.entity ∧ r.LoadedFrom layout id row := by
  let loaded := (ofEntity r₀.entity).loadCells layout.columns row
  obtain ⟨c, first, named⟩ := labelled.first
  refine ⟨{ loaded with stored := loaded.fields }, ?_, loadCells_entity .., ?_, rfl, fun field v =>
    ⟨fun found => ?_, ?_⟩⟩
  · rw [load, if_neg (by simpa using width)]
  · exact loadCells_id _ first named (fun _ _ there same => labelled.unique there first
      (same.trans named.symm)) keyed
  · have apart : field ≠ Column.idName := by
      rintro rfl
      have none := loadCells_noId (ofEntity r₀.entity) layout.columns row
      cases none.symm.trans found
    rcases loadCells_field found with ⟨⟨⟩⟩ | ⟨d, member, rfl⟩
    obtain ⟨w, i, c, there, named, cell⟩ := Columns.exists_has width member
    have read := loadCells_get? (ofEntity r₀.entity) there named apart
      (fun _ _ other same => labelled.unique other there (same.trans named.symm)) cell
    exact ⟨apart, i, c, there, named, cell.trans (read.symm.trans found)⟩
  · rintro ⟨apart, i, d, there, rfl, cell⟩
    exact loadCells_get? _ there rfl apart (fun _ _ other same => labelled.unique other there same)
      cell

/-- The record shows the row: it is the record that the row is read as. -/
structure Shows (r : Record) (layout : TableLayout) (id : Int64) (row : Row) : Prop where
  obtained : r.Obtained
  entity : r.entity = layout.name
  persisted : r.id = some id
  stored : r.stored = r.fields
  width : row.length = layout.columns.length
  keyed : row[0]? = some (.integer id)
  cells : ∀ (i : Nat) c v, layout.columns[i]? = some c → c.name ≠ Column.idName → row[i]? = some v →
    r.get? c.name = some v
  columns : ∀ field v, r.get? field = some v → ∃ c ∈ layout.columns, c.name = field

theorem shows_of_ofRow (distinct : layout.Distinct) (keyed : row[0]? = some (.integer id))
    (read : ofRow layout row = .ok r) : r.Shows layout id row := by
  have width := (ofRow_eq_ok read).1
  obtain ⟨r', read', entity, loaded⟩ :=
    load_loadedFrom distinct.labelled width keyed (ofEntity layout.name)
  cases read.symm.trans read'
  refine ⟨.loaded read, entity, loaded.persisted, loaded.stored, width, keyed, ?_, ?_⟩
  · exact fun i c v here ne cell => (loaded.cells c.name v).mpr ⟨ne, i, c, here, rfl, cell⟩
  · intro field v found
    obtain ⟨_, i, c, here, named, _⟩ := (loaded.cells field v).mp found
    exact ⟨c, List.mem_of_getElem? here, named⟩

theorem set_eq_ok (set : r.set field v = .ok r') :
    field ≠ Column.idName ∧ r' = { r with fields := r.fields.insert field v } := by
  unfold Record.set at set
  split at set <;> cases set
  exact ⟨‹_›, rfl⟩

/-- Setting a field leaves the rest of a record, and what is stored of it. -/
theorem set_same (set : r.set field v = .ok r') : r'.entity = r.entity ∧ r'.id = r.id ∧
    (∀ other, r'.storedValue other = r.storedValue other) ∧ r'.get? field = some v := by
  obtain ⟨_, rfl⟩ := set_eq_ok set
  exact ⟨rfl, rfl, fun _ => rfl, Dict.get?_insert_self ..⟩

/-- A record whose fields have columns is written as the row of its cells. -/
theorem toRow_of_columns (columns : ∀ field v, r.get? field = some v →
    ∃ c ∈ layout.columns, c.name = field) :
    r.toRow layout = .ok (layout.columns.map r.cellOf) := by
  have checked : ∀ names : List String, (∀ field ∈ names, ∃ c ∈ layout.columns, c.name = field) →
      checkFields layout names = .ok () := by
    intro names each
    induction names with
    | nil => rfl
    | cons field rest ih =>
      obtain ⟨c, member, named⟩ := each field (List.mem_cons_self ..)
      obtain ⟨i, found⟩ : ∃ i, layout.columns.index? field = some i := by
        cases found : layout.columns.index? field with
        | some i => exact ⟨i, rfl⟩
        | none => simpa [named] using List.findIdx?_eq_none_iff.mp found c member
      rw [checkFields, TableLayout.index, found]
      exact ih fun field member => each field (List.mem_cons_of_mem _ member)
  have fields : checkFields layout r.fields.keys = .ok () := by
    refine checked _ fun field member => ?_
    obtain ⟨⟨_, v⟩, there, rfl⟩ := List.mem_map.mp member
    exact columns _ v (Dict.mem_entries_iff.mp there)
  simp [toRow, fields]

namespace Shows

theorem clean (shows : r.Shows layout id row) : r.isDirty = false := clean_of_stored shows.stored

theorem storedValue (shows : r.Shows layout id row) (found : r.get? field = some v) :
    r.storedValue field = v := by
  have stored : r.stored.get? field = some v := shows.stored ▸ found
  rw [Record.storedValue, stored, Option.getD_some]

/-- Setting a field to another value is a change of it. -/
theorem change?_set {w : Value} (shows : r.Shows layout id row) (found : r.get? field = some w)
    (set : r.set field v = .ok r') (ne : w ≠ v) : r'.change? field = some (w, v) := by
  obtain ⟨_, _, stored, after⟩ := set_same set
  rw [change?_eq, after, Option.bind_some, stored, shows.storedValue found, if_neg ne]

/-- With a field set, the record is written as the row with that cell set. -/
theorem toRow_set {p : Nat} (shows : r.Shows layout id row) (distinct : layout.Distinct)
    (here : layout.columns[p]? = some c) (set : r.set c.name v = .ok r') :
    r'.toRow layout = .ok (row.set p v) := by
  obtain ⟨ne, rfl⟩ := set_eq_ok set
  rw [toRow_of_columns]
  · refine congrArg _ (List.ext_getElem? fun i => ?_)
    rw [List.getElem?_map]
    cases there : layout.columns[i]? with
    | none =>
      rw [List.getElem?_eq_none_iff] at there
      rw [Option.map_none, List.getElem?_eq_none
        (by rw [List.length_set, shows.width]; exact there)]
    | some d =>
      rw [Option.map_some]
      by_cases same : p = i
      · subst same
        have bound := (List.getElem?_eq_some_iff.mp here).1
        rw [here, Option.some.injEq] at there
        subst there
        rw [List.getElem?_set_self (shows.width ▸ bound), cellOf, if_neg ne, get?,
          Dict.get?_insert_self]
        rfl
      · have bound := (List.getElem?_eq_some_iff.mp there).1
        have inside : i < row.length := by rw [shows.width]; exact bound
        have cell : row[i]? = some row[i] := List.getElem?_eq_getElem inside
        rw [List.getElem?_set_ne same, cell]
        by_cases first : d.name = Column.idName
        · obtain rfl : i = 0 := distinct.unique there distinct.first first
          rw [cellOf, if_pos first, ← cell, shows.keyed]
          show some ((r.id.map Value.integer).getD .null) = _
          rw [shows.persisted]
          rfl
        · have other : c.name ≠ d.name := fun equal => same (distinct.unique here there equal)
          rw [cellOf, if_neg first, get?, Dict.get?_insert_of_ne _ _ other]
          show some ((r.get? d.name).getD .null) = _
          rw [shows.cells i d row[i] there first cell]
          rfl
  · intro field w found
    rw [get?, Dict.get?_insert] at found
    split at found
    case isTrue same => exact ⟨c, List.mem_of_getElem? here, same⟩
    case isFalse => exact shows.columns field w found

end Shows
end Record
end RankedStore
