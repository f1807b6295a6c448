import RankedStore.Proofs.Operations
import RankedStore.Proofs.Ranking.Registered

/-! Which rows there are. An update changes cells and no ids, whether it succeeds or fails halfway,
so what a transaction notes brings back exactly the rows that there were, if not always their cells.
A record that was saved is written as its row. -/
namespace RankedStore

open RankedStore.Action

namespace Table

/-- The same rows, as far as their ids are concerned. -/
def SameIds (t u : Table) : Prop := ∀ id, (t.get? id).isSome = (u.get? id).isSome

namespace SameIds

variable {t u v : Table}

theorem refl (t : Table) : t.SameIds t := fun _ => rfl

theorem symm (same : t.SameIds u) : u.SameIds t := fun id => (same id).symm

theorem trans (first : t.SameIds u) (second : u.SameIds v) : t.SameIds v :=
  fun id => (first id).trans (second id)

theorem insert_self {row old : Row} {id : Int64} (stored : t.rows.get? id = some old) :
    t.SameIds { t with rows := t.rows.insert id row } := by
  intro key
  simp only [Table.get?, Dict.get?_insert]
  split
  case isTrue same =>
    subst same
    rw [stored]
    rfl
  case isFalse => rfl

end SameIds

theorem sameIds_stable : Table.Stable SameIds := .ofRows Option.isSome

theorem replaceAll_sameIds (t : Table) (pending : List (Int64 × Row)) :
    t.SameIds (t.replaceAll pending).2 := by
  induction pending generalizing t with
  | nil => exact .refl t
  | cons row rest ih =>
    obtain ⟨id, row⟩ := row
    unfold replaceAll
    split
    case h_1 => exact .refl t
    case h_2 => exact ih t
    case h_3 old middle written =>
      obtain ⟨found, _, _, rfl⟩ := replace_eq_some written
      exact (SameIds.insert_self found).trans (ih _)

theorem updateWhere_sameIds (t : Table) (u : Update) : t.SameIds (t.updateWhere u).2 := by
  rcases t.updateWhere_spec u with ⟨e, failed⟩ | ⟨i, pending, _, _, ran⟩
  · rw [failed]
    exact .refl t
  · rw [ran]
    exact t.replaceAll_sameIds pending

end Table

namespace Catalog

variable {c c' d : Catalog} {name : String} {id : Int64} {row old : Row}

/-- The tables have the same rows, as far as their ids are concerned. -/
def SameIds (c d : Catalog) : Prop := c.Related Table.SameIds d

theorem SameIds.refl (c : Catalog) : c.SameIds c := Related.refl Table.sameIds_stable c

theorem SameIds.withTable (found : c.tables.get? name = some t) (same : t.SameIds t') :
    c.SameIds (c.withTable name t') := by
  have related := Related.withTable name (SameIds.refl c) same
  rwa [withTable_of_get? found] at related

theorem updateWhere_sameIds (c : Catalog) (u : Update) : c.SameIds (c.updateWhere u).2 :=
  updateWhere_related Table.sameIds_stable fun t _ => t.updateWhere_sameIds u

/-- The row that a table has under an id. -/
def row? (c : Catalog) (name : String) (id : Int64) : Option Row :=
  (c.tables.get? name).bind (·.get? id)

theorem row?_of_table (found : c.tables.get? name = some t) (id : Int64) :
    c.row? name id = t.get? id := by
  rw [row?, found, Option.bind_some]

theorem row?_withTable (c : Catalog) (name other : String) (t : Table) (id : Int64) :
    (c.withTable name t).row? other id = if name = other then t.get? id else c.row? other id := by
  rw [row?, get?_withTable]
  split <;> rfl

theorem SameIds.row? (same : c.SameIds d) (name : String) (id : Int64) :
    (c.row? name id).isSome = (d.row? name id).isSome := by
  have rel := same name
  unfold Catalog.row?
  revert rel
  cases c.tables.get? name <;> cases d.tables.get? name <;> intro rel <;> cases rel
  · rfl
  · rename_i same
    exact same id

/-- An insertion adds one row, with its id in the first cell. -/
theorem insert_row? (h : c.insert name row = (.ok id, c')) :
    c'.row? name id = some (.integer id :: row.tail) ∧
      ∀ other key, (c.row? other key).isSome → (c'.row? other key).isSome := by
  obtain ⟨t, _, found, written, rfl⟩ := insert_eq_ok h
  obtain ⟨_, _, _, _, next, _, rfl⟩ := Table.insert_eq_ok written
  refine ⟨?_, fun other key there => ?_⟩
  · rw [row?_withTable, if_pos rfl]
    exact Dict.get?_insert_self ..
  · rw [row?_withTable]
    split
    case isTrue same =>
      subst same
      rw [row?_of_table found] at there
      simp only [Table.get?, Dict.get?_insert] at there ⊢
      split
      · rfl
      · exact there
    case isFalse => exact there

/-- A replacement writes one row and adds none. -/
theorem replace_row? (h : c.replace name id row = (.ok (some old), c')) :
    c'.row? name id = some row ∧ c.SameIds c' := by
  obtain ⟨t, _, found, written, rfl⟩ := replace_eq_some h
  obtain ⟨stored, _, _, rfl⟩ := Table.replace_eq_some written
  refine ⟨?_, .withTable found (.insert_self stored)⟩
  rw [row?_withTable, if_pos rfl]
  exact Dict.get?_insert_self ..

/-- A deletion takes away one row. -/
theorem delete_row? (h : c.delete name id = (.ok (some old), c')) (other : String) (key : Int64)
    (apart : ¬ (other = name ∧ key = id)) : c'.row? other key = c.row? other key := by
  obtain ⟨t, found, _, rfl⟩ := delete_eq_some h
  rw [row?_withTable]
  split
  case isTrue same =>
    subst same
    rw [row?_of_table found]
    exact Dict.get?_erase_of_ne _ fun same => apart ⟨rfl, same.symm⟩
  case isFalse => rfl

end Catalog

/-- Bulk shifts of positions leave the same rows, whatever they do to their cells. -/
theorem Ranking.shifts_sameIds (k : Ranking) (c : Catalog) : k.Shifts Table.SameIds c c.SameIds :=
  k.shifts_related Table.sameIds_stable c.updateWhere_sameIds

theorem Registration.shifts_sameIds (reg : Registration) (c : Catalog) :
    reg.Shifts Table.SameIds c c.SameIds := fun k _ => k.shifts_sameIds c

/-- The row of a record starts with its id, and no other cell is one. -/
structure TableLayout.IdFirst (layout : TableLayout) : Prop where
  first : ∃ c rest, layout.columns = c :: rest ∧ c.name = Column.idName ∧
    ∀ d ∈ rest, d.name ≠ Column.idName

/-- A record that was given an id has the row of the record without it, with the id in front. -/
theorem Record.toRow_withId {r : Record} {layout : TableLayout} {row : Row} (front : layout.IdFirst)
    (written : r.toRow layout = .ok row) (id : Int64) :
    (r.withId id).markClean.toRow layout = .ok (.integer id :: row.tail) := by
  obtain ⟨c, rest, columns, named, others⟩ := front.first
  obtain rfl := Record.toRow_eq_ok written
  have fields : Record.checkFields layout r.fields.keys = .ok () := by
    obtain ⟨_, checked, _⟩ := Except.bind_eq_ok written
    exact checked
  have cells : rest.map (r.withId id).markClean.cellOf = rest.map r.cellOf := by
    refine List.map_congr_left fun d member => ?_
    simp only [Record.cellOf, if_neg (others d member)]
    rfl
  have front : (r.withId id).markClean.cellOf c = .integer id := if_pos named
  have checked : Record.checkFields layout (r.withId id).markClean.fields.keys = .ok () := fields
  simp [Record.toRow, checked, columns, cells, front]

namespace Registration

variable {schema : EntitySchema} {reg : Registration} {r : Record}

/-- A record that can be given a position has its id in front. -/
theorem idFirst {placed : Record} (checked : schema.check = .ok ())
    (made : ofSchema schema = .ok reg) (prepared : reg.Prepared r placed) : reg.layout.IdFirst := by
  have named := EntitySchema.named checked
  obtain ⟨found, _, h⟩ := Except.bind_eq_ok made
  cases found with
  | none =>
    cases h
    exact ⟨Column.id, schema.columns, by rw [TableLayout.ofColumns_named named], rfl, named.2⟩
  | some k =>
    obtain ⟨columns, added, h⟩ := Except.bind_eq_ok h
    cases h
    obtain ⟨v, set⟩ := prepared
    have other : k.column ≠ Column.idName := by
      intro same
      rw [Record.set, if_pos same] at set
      cases set
    have named' := (addColumn_named named other added).1
    exact ⟨Column.id, columns, by rw [TableLayout.ofColumns_named named'], rfl, named'.2⟩

theorem Prepared.same {placed : Record} (prepared : reg.Prepared r placed) :
    placed.entity = r.entity ∧ placed.id = r.id := by
  unfold Prepared at prepared
  split at prepared
  case h_1 =>
    subst prepared
    exact ⟨rfl, rfl⟩
  case h_2 =>
    obtain ⟨v, set⟩ := prepared
    unfold Record.set at set
    split at set <;> cases set
    exact ⟨rfl, rfl⟩

end Registration

/-- All types that the registry knows went through the checks of a registration. -/
def Registry.Made (g : Registry) : Prop :=
  ∀ entity reg, g.find? entity = .ok reg → ∃ schema : EntitySchema,
    schema.name = entity ∧ schema.check = .ok () ∧ Registration.ofSchema schema = .ok reg

theorem Action.bind_eq_ok {a : Action α} {f : α → Action β} (ran : (a >>= f).run s = (.ok y, s')) :
    ∃ x s₁, a.run s = (.ok x, s₁) ∧ (f x).run s₁ = (.ok y, s') := by
  rw [run_bind] at ran
  rcases first : a.run s with ⟨e | x, s₁⟩ <;> rw [first] at ran
  · cases ran
  · exact ⟨x, s₁, rfl, ran⟩

theorem Action.ofExcept_eq_ok {outcome : Except Error α}
    (ran : (ofExcept outcome).run s = (.ok x, s')) :
    outcome = .ok x := by
  cases outcome with
  | error e => cases ran
  | ok y =>
    cases ran
    rfl

namespace Registry

variable {g : Registry} {schema : EntitySchema} {reg : Registration} {r : Record} {c : Catalog}
  {id : Int64}

theorem Made.empty : Registry.empty.Made := by
  rintro entity reg ⟨⟩

theorem Made.insert (made : g.Made) (checked : schema.check = .ok ())
    (ofSchema : Registration.ofSchema schema = .ok reg) :
    Registry.Made ⟨g.entities.insert schema.name reg⟩ := by
  intro entity reg' known
  by_cases same : schema.name = entity
  · subst same
    rw [find?, Dict.get?_insert_self] at known
    cases known
    exact ⟨schema, rfl, checked, ofSchema⟩
  · rw [find?, Dict.get?_insert_of_ne _ _ same] at known
    exact made entity reg' known

/-- Whatever is registered, the registry knows only types that were checked. -/
theorem Made.register {g' : Registry} (made : g.Made)
    (ran : (g.register schema).run s = (.ok g', s')) :
    g'.Made := by
  unfold Registry.register at ran
  obtain ⟨_, _, checked, ran⟩ := bind_eq_ok ran
  have checked := ofExcept_eq_ok checked
  split at ran
  case isTrue => cases ran
  case isFalse =>
    obtain ⟨reg, _, ofSchema, ran⟩ := bind_eq_ok ran
    have ofSchema := ofExcept_eq_ok ofSchema
    have inserted : g' = ⟨g.entities.insert schema.name reg⟩ := by
      obtain ⟨there, s₁, _, ran⟩ := bind_eq_ok ran
      cases there with
      | true =>
        obtain ⟨layout, s₂, _, ran⟩ := bind_eq_ok ran
        split at ran
        case isTrue => cases ran
        case isFalse =>
          cases ran
          rfl
      | false =>
        obtain ⟨_, s₂, _, ran⟩ := bind_eq_ok ran
        cases ran
        rfl
    subst inserted
    exact made.insert checked ofSchema

/-- Where the row of a record belongs: its table and its id. -/
def place? (g : Registry) (r : Record) : Option (String × Int64) :=
  match g.find? r.entity, r.id with
  | .ok reg, some id => some (reg.layout.name, id)
  | _, _ => none

/-- The row under the id of a record. -/
def row? (g : Registry) (c : Catalog) (r : Record) : Option Row :=
  (g.place? r).bind fun (name, id) => c.row? name id

/-- The row under the id of a record is the row of the record. -/
def Stores (g : Registry) (c : Catalog) (r : Record) : Prop :=
  ∃ reg row, g.find? r.entity = .ok reg ∧ r.toRow reg.layout = .ok row ∧ g.row? c r = some row

/-- What a successful save of a record makes of the record and the tables. -/
structure Saved (g : Registry) (r : Record) (c : Catalog) (saved : Record) (c' : Catalog) :
    Prop where
  entity : saved.entity = r.entity
  kept : ∀ id, r.id = some id → saved.id = some id
  stores : r.isNew = true ∨ r.isDirty = true → g.Stores c' saved
  rows : ∀ name id, (c.row? name id).isSome → (c'.row? name id).isSome

theorem place?_of_find? (known : g.find? r.entity = .ok reg) (persisted : r.id = some id) :
    g.place? r = some (reg.layout.name, id) := by
  rw [place?, known, persisted]

theorem row?_of_find? (known : g.find? r.entity = .ok reg) (persisted : r.id = some id)
    (c : Catalog) :
    g.row? c r = c.row? reg.layout.name id := by
  rw [row?, place?_of_find? known persisted, Option.bind_some]

theorem row?_isSome_iff : (g.row? c r).isSome ↔ ∃ reg id, g.find? r.entity = .ok reg ∧
    r.id = some id ∧ (c.row? reg.layout.name id).isSome := by
  constructor
  · intro there
    cases known : g.find? r.entity with
    | error e => simp [row?, place?, known] at there
    | ok reg =>
      cases persisted : r.id with
      | none => simp [row?, place?, known, persisted] at there
      | some id => exact ⟨reg, id, rfl, rfl, row?_of_find? known persisted c ▸ there⟩
  · rintro ⟨reg, id, known, persisted, there⟩
    rw [row?_of_find? known persisted]
    exact there

/-- What is saved is stored, if it was new or had unsaved changes, and no other row goes away. -/
theorem save_stores (made : g.Made) (r : Record) (c : Catalog) :
    Completes Table.SameIds (g.save r) c (g.Saved r c) := by
  have stable := Table.sameIds_stable
  apply save_completes stable
  · exact fun reg _ => Registration.beforeInsert_tries stable (reg.shifts_sameIds c) (.refl c)
  · exact fun reg _ => Registration.beforeUpdate_tries stable (reg.shifts_sameIds c) (.refl c)
  · intro persisted clean
    exact ⟨rfl, fun _ own => own, by simp [persisted, clean], fun _ _ there => there⟩
  · intro reg placed row id c₁ c' known new ⟨same, prepared⟩ written inserted
    obtain ⟨schema, _, checked, ofSchema⟩ := made r.entity reg known
    obtain ⟨stored, others⟩ := Catalog.insert_row? inserted
    obtain ⟨entity, _⟩ := prepared.same
    have known' : g.find? (placed.withId id).markClean.entity = .ok reg := by
      rw [← known, ← entity]
      rfl
    refine ⟨entity, ?_, fun _ => ⟨reg, .integer id :: row.tail, known', ?_, ?_⟩,
      fun name key there => others name key ?_⟩
    · intro own persisted
      simp [Record.isNew, persisted] at new
    · exact Record.toRow_withId (Registration.idFirst checked ofSchema prepared) written id
    · rw [row?_of_find? known' rfl, stored]
    · rw [← same.row?]
      exact there
  · intro reg id row old c₁ c' known persisted same written replaced
    obtain ⟨stored, others⟩ := Catalog.replace_row? replaced
    refine ⟨rfl, fun _ own => own, fun _ => ⟨reg, row, known, written, ?_⟩,
      fun name key there => ?_⟩
    · rw [row?_of_find? (r := r.markClean) known persisted, stored]
    · rw [← others.row?, ← same.row?]
      exact there

/-- A removal takes away the row of the record and no other. -/
theorem remove_rows (g : Registry) (r : Record) (c : Catalog) :
    Completes Table.SameIds (g.remove r) c fun removed c' => removed = r.detach ∧
      ∀ name id, g.place? r ≠ some (name, id) → (c.row? name id).isSome →
        (c'.row? name id).isSome := by
  have stable := Table.sameIds_stable
  apply remove_completes stable fun reg _ =>
    Registration.beforeRemove_tries stable (reg.shifts_sameIds c) (.refl c) r
  intro reg id old c₁ c' known persisted same deleted
  refine ⟨rfl, fun name key apart there => ?_⟩
  rw [place?_of_find? known persisted] at apart
  rw [Catalog.delete_row? deleted name key (by simpa [eq_comm] using apart), ← same.row?]
  exact there

end Registry
end RankedStore
