import RankedStore.Proofs.BulkUpdate
import RankedStore.Proofs.Desk

/-! Saves of records whose position was not changed. No other record moves, but the save writes the
whole row of the record, and with it the position that the record was last loaded or saved with. -/
namespace RankedStore

open RankedStore.Action

/-- A record keeps a field that nobody changed as it was last loaded or saved, NULL if it has
none. -/
theorem Record.Obtained.unchanged {r : Record} {field : String} (obtained : r.Obtained)
    (same : r.change? field = none) : (r.get? field).getD .null = r.storedValue field := by
  cases found : r.get? field with
  | some v => exact (storedValue_of_unchanged same found).symm
  | none =>
    cases stored : r.stored.get? field with
    | none => simp only [storedValue, stored, Option.getD_none]
    | some v =>
      obtain ⟨w, there⟩ := obtained.kept field v stored
      cases found.symm.trans there

namespace Ranking

/-- The position that a record was last loaded or saved with. -/
def lastKnown (k : Ranking) (r : Record) : Value :=
  if k.column = Column.idName then (r.id.map Value.integer).getD .null else r.storedValue k.column

/-- The position in a row of the table of a type. -/
def positionIn (k : Ranking) (layout : TableLayout) (row : Row) : Option Value :=
  (layout.columns.index? k.column).bind (row[·]?)

/-- The position that a table has under an id. -/
def positionAt (k : Ranking) (layout : TableLayout) (c : Catalog) (id : Int64) : Option Value :=
  (c.row? layout.name id).bind (k.positionIn layout)

/-- A record is written with its position as it was last loaded or saved, if that was not
changed. -/
theorem positionIn_toRow {k : Ranking} {r : Record} {layout : TableLayout} {row : Row} {p : Nat}
    (obtained : r.Obtained) (untouched : r.change? k.column = none)
    (place : layout.index k.column = .ok p) (written : r.toRow layout = .ok row) :
    k.positionIn layout row = some (k.lastKnown r) := by
  obtain ⟨c, column, named⟩ := TableLayout.column_of_index place
  have cell : row[p]? = some (r.cellOf c) := by
    rw [Record.toRow_eq_ok written, List.getElem?_map, column, Option.map_some]
  rw [positionIn, Table.index?_eq place, Option.bind_some, cell, Record.cellOf, named, lastKnown,
    obtained.unchanged untouched]

end Ranking

/-- A table has a place for each of the columns that it was made of. -/
theorem TableLayout.index_ofColumns {columns : Columns} {c : Column} {column : String}
    (member : c ∈ columns) (called : c.name = column) (name : String) :
    ∃ p, (ofColumns name columns).index column = .ok p := by
  have held : c ∈ (ofColumns name columns).columns := by
    cases columns with
    | nil => cases member
    | cons d rest =>
      unfold ofColumns
      dsimp only
      split
      case isTrue => exact member
      case isFalse => exact List.mem_cons_of_mem _ member
  cases found : (ofColumns name columns).columns.index? column with
  | some p => exact ⟨p, by rw [index, found]⟩
  | none =>
    have other := List.findIdx?_eq_none_iff.mp found c held
    simp [called] at other

/-- Replacing a row leaves the others as they are. -/
theorem Catalog.replace_others {c c' : Catalog} {name : String} {id : Int64} {row old : Row}
    (h : c.replace name id row = (.ok (some old), c')) (other : String) (key : Int64)
    (apart : ¬ (other = name ∧ key = id)) : c'.row? other key = c.row? other key := by
  obtain ⟨t, t', found, written, rfl⟩ := replace_eq_some h
  obtain ⟨_, _, _, elsewhere⟩ := Table.replace_get? written
  rw [row?_withTable]
  split
  case isTrue same =>
    subst same
    rw [row?_of_table found]
    exact elsewhere key fun same => apart ⟨rfl, same⟩
  case isFalse => rfl

namespace Registration

theorem addColumn_holds {columns columns' : Columns} {added : Column}
    (h : addColumn entity columns added = .ok columns') : ∃ c ∈ columns', c.name = added.name := by
  unfold addColumn at h
  split at h
  case h_1 =>
    cases h
    exact ⟨added, by simp, rfl⟩
  case h_2 declared found =>
    split at h <;> cases h
    exact ⟨declared, List.mem_of_find?_eq_some found, by simpa using List.find?_some found⟩

end Registration

namespace Registry

variable {g : Registry} {schema : EntitySchema} {reg : Registration} {k : Ranking}
  {r saved : Record} {id : Int64} {s s' : Session}

/-- The ranking of a registered type has a place for its positions. -/
theorem Registered.place (registered : g.Registered schema reg) (ranking : reg.ranking = some k) :
    k.entity = schema.name ∧ reg.layout.name = schema.name ∧
    ∃ p, reg.layout.index k.column = .ok p := by
  have name := Registration.ofSchema_name registered.made
  obtain ⟨found, made, h⟩ := Except.bind_eq_ok registered.made
  cases found with
  | none =>
    cases h
    cases ranking
  | some k' =>
    obtain ⟨columns, added, h⟩ := Except.bind_eq_ok h
    cases h
    obtain rfl : k' = k := Option.some.inj ranking
    refine ⟨Registration.rankingOf_entity (by simp) made, name, ?_⟩
    obtain ⟨c, member, called⟩ := Registration.addColumn_holds added
    exact TableLayout.index_ofColumns member called schema.name

/-- Saving a record with unsaved changes, but none of its position, replaces its row and does
nothing else. -/
theorem save_untouched_completes (known : g.find? r.entity = .ok reg)
    (ranking : reg.ranking = some k) (persisted : r.id = some id)
    (untouched : r.change? k.column = none) (c : Catalog) :
    Completes Table.Grown (g.save r) c fun _ c' => c' = c ∧ r.isDirty = false ∨
      ∃ row old, r.toRow reg.layout = .ok row ∧
        c.replace reg.layout.name id row = (.ok (some old), c') := by
  have stable := Table.grown_stable
  have stored : r.isNew = false := by rw [Record.isNew, persisted, Option.isNone_some]
  have inserting : ∀ reg', g.find? r.entity = .ok reg' → r.isNew = true →
      Tries Table.Grown (reg'.onEvent .beforeInsert r) c fun _ _ => True := by
    intro _ _ new
    cases stored.symm.trans new
  have updating : ∀ reg', g.find? r.entity = .ok reg' → r.isNew = false →
      Tries Table.Grown (reg'.onEvent .beforeUpdate r) c fun placed c' => c' = c ∧ r = placed := by
    intro reg' known' stored
    cases known.symm.trans known'
    apply Registration.update_hook stable ranking stored
    apply Ranking.reposition_tries stable r
    · exact fun _ => rfl
    · intro _ _ _ _ changed
      cases untouched.symm.trans changed
  apply save_completes stable inserting updating
  · exact fun _ clean => .inl ⟨rfl, clean⟩
  · intro _ _ _ _ _ _ _ new
    cases stored.symm.trans new
  · rintro reg' id' row old _ c' known' own rfl written replaced
    cases known.symm.trans known'
    cases persisted.symm.trans own
    exact .inr ⟨row, old, written, replaced⟩

/-- A save of a record whose position was not changed leaves every other row as it is, and its own
position becomes the one that the record was last loaded or saved with. So no position moves just if
there was nothing to save or the record was up to date in its position. -/
theorem untouched_save_moves_only_outdated (registered : g.Registered schema reg)
    (ranking : reg.ranking = some k) (proper : s.connection.Proper) (obtained : r.Obtained)
    (entity : r.entity = schema.name) (persisted : r.id = some id)
    (untouched : r.change? k.column = none) (ran : (g.save r).run s = (.ok saved, s')) :
    (∀ name key, ¬ (name = reg.layout.name ∧ key = id) →
      s'.view.row? name key = s.view.row? name key) ∧
    (r.isDirty = true → k.positionAt reg.layout s'.view id = some (k.lastKnown r)) ∧
    ((∀ key, k.positionAt reg.layout s'.view key = k.positionAt reg.layout s.view key) ↔
      r.isDirty = false ∨ k.positionAt reg.layout s.view id = some (k.lastKnown r)) := by
  have known : g.find? r.entity = .ok reg := entity ▸ registered.known
  obtain ⟨_, _, p, place⟩ := registered.place ranking
  by_cases dirty : r.isDirty = true
  · obtain ⟨_, _, ran', _, _, achieved, _⟩ :=
      (save_untouched_completes known ranking persisted untouched s.view).run
        Table.grown_stable proper
    cases ran.symm.trans ran'
    obtain ⟨_, clean⟩ | ⟨row, old, written, replaced⟩ := achieved saved rfl
    · simp [dirty] at clean
    have others := Catalog.replace_others replaced
    have own : k.positionAt reg.layout s'.view id = some (k.lastKnown r) := by
      rw [Ranking.positionAt, (Catalog.replace_row? replaced).1, Option.bind_some]
      exact Ranking.positionIn_toRow obtained untouched place written
    refine ⟨others, fun _ => own, ?_⟩
    constructor
    · exact fun same => .inr (own ▸ (same id).symm)
    · rintro (clean | current) key
      · simp [dirty] at clean
      · by_cases same : key = id
        · rw [same, own, current]
        · rw [Ranking.positionAt, others _ key fun both => same both.2, Ranking.positionAt]
  · have clean : ¬ (r.isNew = true ∨ r.isDirty = true) := by simp [Record.isNew, persisted, dirty]
    obtain ⟨_, rfl⟩ := save_eq_of_clean clean ran
    simp [dirty]

end Registry

/-! A type with titles, and two records of it, the second one first. -/
namespace Titled

def title : Column := { name := "title", type := .text }

def schema : EntitySchema := { name := "t", columns := [title], behaviors := [Behavior.plain] }

def ranking : Ranking := ⟨"t", {}⟩

def registration : Registration :=
  { schema, layout := ⟨"t", [Column.id, title, ranking.positionColumn]⟩, ranking := some ranking }

def registry : Registry := ⟨Dict.empty.insert "t" registration⟩

theorem registered : registry.Registered schema registration := ⟨by rfl, by rfl, rfl⟩

def table : Table where
  layout := registration.layout
  rows := (Dict.empty.insert 1 [.integer 1, .null, .integer 2]).insert 2
    [.integer 2, .null, .integer 1]
  nextId := 3

def session : Session := { committed := ⟨⟨Dict.empty.insert "t" table⟩, 0⟩, connection := .idle 0 }

/-- The first record as it was loaded when it was at a position. -/
def loaded (position : Int64) : Record :=
  let r := (Record.ofEntity "t").loadCells registration.layout.columns
    [.integer 1, .null, .integer position]
  { r with stored := r.fields }

/-- The same with a title that is not saved. -/
def renamed (position : Int64) : Record :=
  { loaded position with fields := (loaded position).fields.insert "title" (.text "x") }

theorem obtained (position : Int64) : (renamed position).Obtained := by
  have load : (Record.ofEntity "t").load registration.layout
    [.integer 1, .null, .integer position] =
    .ok (loaded position) := rfl
  have set : (loaded position).set "title" (.text "x") = .ok (renamed position) := rfl
  exact .changed (.loaded load) set

end Titled

/-- The record knows its position, and its new title is saved. -/
theorem Registry.untouched_save_moves_only_outdated_of_two : ∃ (saved : Record) (s' : Session),
    (Titled.registry.save (Titled.renamed 2)).run Titled.session = (.ok saved, s') ∧
      s'.view.row? "t" 1 = some [.integer 1, .text "x", .integer 2] ∧
      ∀ key, Titled.ranking.positionAt Titled.registration.layout s'.view key =
        Titled.ranking.positionAt Titled.registration.layout Titled.session.view key := by
  have ran : (Titled.registry.save (Titled.renamed 2)).run Titled.session = (.ok _, _) := rfl
  obtain ⟨_, _, moves⟩ := untouched_save_moves_only_outdated Titled.registered rfl (.idle 0)
    (Titled.obtained 2) rfl rfl (by decide) ran
  exact ⟨_, _, ran, by decide, moves.mpr (.inr (by decide))⟩

/-- The record was loaded when it was first. Saving its title takes it back there, where the other
one is. -/
theorem Registry.outdated_save_moves_record_back :
    ∃ (r saved : Record) (s s' : Session) (id : Int64),
    s.connection.Proper ∧ r.Obtained ∧ r.entity = Titled.schema.name ∧ r.id = some id ∧
      r.change? Titled.ranking.column = none ∧ (Titled.registry.save r).run s = (.ok saved, s') ∧
      Titled.ranking.positionAt Titled.registration.layout s'.view id ≠
        Titled.ranking.positionAt Titled.registration.layout s.view id := by
  have ran : (Titled.registry.save (Titled.renamed 1)).run Titled.session = (.ok _, _) := rfl
  exact ⟨_, _, _, _, 1, .idle 0, Titled.obtained 1, rfl, rfl, by decide, ran, by decide⟩

end RankedStore
