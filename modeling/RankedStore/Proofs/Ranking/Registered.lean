import RankedStore.Proofs.Ranking.Saves

/-! Entity types that a registry has taken in. What is checked when a type is registered is enough
for its table to hold positions. -/
namespace RankedStore

/-- An entity type that the registry knows, with what was worked out from its schema. -/
structure Registry.Registered (g : Registry) (schema : EntitySchema) (reg : Registration) :
    Prop where
  checked : schema.check = .ok ()
  made : Registration.ofSchema schema = .ok reg
  known : g.find? schema.name = .ok reg

/-- An entity type whose records are ranked in a column that is neither unique nor the id. -/
structure Registration.Positions (reg : Registration) (k : Ranking) : Prop where
  ranking : reg.ranking = some k
  named : k.column ≠ Column.idName
  plain : ∀ c ∈ reg.layout.columns, c.name = k.column → c.unique = false

/-- An entity type whose records are ranked in a column of their own kind, with gaps closed. -/
structure Registration.Ranked (reg : Registration) (k : Ranking) : Prop where
  ranking : reg.ranking = some k
  closes : k.config.compactOnDelete = true
  named : k.column ≠ Column.idName
  plain : ∀ c ∈ reg.layout.columns, c.name = k.column → c.unique = false

theorem checkIdentifier_eq_ok {role name : String} :
    checkIdentifier role name = .ok () ↔ isIdentifier name = true := by
  unfold checkIdentifier
  split
  case isTrue valid => exact iff_of_true rfl valid
  case isFalse invalid => exact iff_of_false nofun invalid

namespace EntitySchema

variable {schema : EntitySchema} {entity : String}

/-- Columns with names of their own, none of which is that of the id. -/
def Named (columns : Columns) : Prop :=
  columns.Pairwise (fun a b => a.name ≠ b.name) ∧ ∀ c ∈ columns, c.name ≠ Column.idName

theorem checkColumns_cons_ok_iff {c : Column} {rest : Columns} {seen : List String} :
    checkColumns entity seen (c :: rest) = .ok () ↔ isIdentifier c.name = true ∧
    c.name ≠ Column.idName ∧
      c.name ∉ seen ∧ checkColumns entity (c.name :: seen) rest = .ok () := by
  rw [checkColumns]
  by_cases valid : isIdentifier c.name = true
  · rw [checkIdentifier_eq_ok.mpr valid]
    show (if c.name = Column.idName then _ else if seen.contains c.name = true then _ else _) = _ ↔
      _
    split
    case isTrue same => exact iff_of_false nofun fun accepted => accepted.2.1 same
    case isFalse other =>
      split
      case isTrue twice =>
        exact iff_of_false nofun fun accepted => accepted.2.2.1 (by simpa using twice)
      case isFalse once =>
        exact ⟨fun h => ⟨valid, other, by simpa using once, h⟩, fun accepted => accepted.2.2.2⟩
  · refine iff_of_false (fun checked => ?_) fun accepted => valid accepted.1
    obtain ⟨_, checked, _⟩ := Except.bind_eq_ok checked
    exact valid (checkIdentifier_eq_ok.mp checked)

theorem checkColumns_ok_iff {columns : Columns} {seen : List String} :
    checkColumns entity seen columns = .ok () ↔
    (∀ c ∈ columns, isIdentifier c.name = true) ∧ Named columns ∧ ∀ c ∈ columns, c.name ∉ seen := by
  induction columns generalizing seen with
  | nil => exact iff_of_true rfl (by simp [Named])
  | cons c rest ih =>
    rw [checkColumns_cons_ok_iff, ih]
    unfold Named
    rw [List.pairwise_cons, List.forall_mem_cons, List.forall_mem_cons, List.forall_mem_cons]
    constructor
    · rintro ⟨valid, spared, unseen, validRest, ⟨apart, sparedRest⟩, unseenRest⟩
      have others : ∀ d ∈ rest, c.name ≠ d.name := fun d member same =>
        unseenRest d member (same ▸ List.mem_cons_self ..)
      exact ⟨⟨valid, validRest⟩, ⟨⟨others, apart⟩, spared, sparedRest⟩, unseen,
        fun d member seen => unseenRest d member (List.mem_cons_of_mem _ seen)⟩
    · rintro ⟨⟨valid, validRest⟩, ⟨⟨others, apart⟩, spared, sparedRest⟩, unseen, unseenRest⟩
      refine ⟨valid, spared, unseen, validRest, ⟨apart, sparedRest⟩, fun d member again => ?_⟩
      rcases List.mem_cons.mp again with same | seen
      · exact others d member same.symm
      · exact unseenRest d member seen

theorem check_ok_iff : schema.check = .ok () ↔
    isIdentifier schema.name = true ∧ (∀ c ∈ schema.columns, isIdentifier c.name = true) ∧
      Named schema.columns := by
  have columns : checkColumns schema.name [] schema.columns = .ok () ↔ _ := checkColumns_ok_iff
  constructor
  · intro checked
    obtain ⟨_, valid, checked⟩ := Except.bind_eq_ok checked
    obtain ⟨validColumns, named, _⟩ := columns.mp checked
    exact ⟨checkIdentifier_eq_ok.mp valid, validColumns, named⟩
  · rintro ⟨valid, validColumns, named⟩
    rw [check, checkIdentifier_eq_ok.mpr valid]
    exact columns.mpr ⟨validColumns, named, fun _ _ => List.not_mem_nil⟩

theorem named (checked : schema.check = .ok ()) : Named schema.columns :=
  (check_ok_iff.mp checked).2.2

end EntitySchema

namespace Registration

theorem rankingOf_entity {behaviors : List Behavior} {found : Option Ranking} {k : Ranking}
    (own : ∀ k', found = some k' → k'.entity = entity)
    (h : rankingOf entity found behaviors = .ok (some k)) : k.entity = entity := by
  induction behaviors generalizing found with
  | nil =>
    cases h
    exact own k rfl
  | cons behavior rest ih =>
    obtain ⟨config, _, h⟩ := Except.bind_eq_ok h
    obtain ⟨ranking, made, h⟩ := Except.bind_eq_ok h
    split at h
    case isTrue => cases h
    case isFalse =>
      refine ih ?_ h
      rintro _ ⟨⟩
      obtain ⟨_, _, made⟩ := Except.bind_eq_ok made
      cases made
      rfl

/-- Among the columns there is one integer column for the positions, and the others have names of
their own. -/
theorem addColumn_named {columns columns' : Columns} {added : Column}
    (named : EntitySchema.Named columns) (other : added.name ≠ Column.idName)
    (h : addColumn entity columns added = .ok columns') :
    EntitySchema.Named columns' ∧ ∃ c ∈ columns', c.name = added.name ∧ c.type = added.type := by
  unfold addColumn at h
  split at h
  case h_1 absent =>
    cases h
    have new := List.find?_eq_none.mp absent
    refine ⟨⟨?_, ?_⟩, added, by simp, rfl, rfl⟩
    · refine List.pairwise_append.mpr ⟨named.1, List.pairwise_singleton .., ?_⟩
      intro c member d last
      rw [List.mem_singleton.mp last]
      simpa using new c member
    · intro c member
      rcases List.mem_append.mp member with member | last
      · exact named.2 c member
      · rw [List.mem_singleton.mp last]
        exact other
  case h_2 declared found =>
    split at h
    case isTrue same =>
      cases h
      exact ⟨named, declared, List.mem_of_find?_eq_some found,
        by simpa using List.find?_some found, same⟩
    case isFalse => cases h

theorem ofSchema_name {schema : EntitySchema} {reg : Registration}
    (made : ofSchema schema = .ok reg) :
    reg.layout.name = schema.name := by
  have named : ∀ columns, (TableLayout.ofColumns schema.name columns).name = schema.name := by
    intro columns
    cases columns <;> rfl
  obtain ⟨found, _, h⟩ := Except.bind_eq_ok made
  cases found with
  | none =>
    cases h
    exact named schema.columns
  | some ranking =>
    obtain ⟨columns, _, h⟩ := Except.bind_eq_ok h
    cases h
    exact named columns

end Registration

theorem TableLayout.ofColumns_named {columns : Columns} (named : EntitySchema.Named columns)
    (name : String) : ofColumns name columns = ⟨name, Column.id :: columns⟩ := by
  cases columns with
  | nil => rfl
  | cons c rest => rw [ofColumns, if_neg (named.2 c (List.mem_cons_self ..))]

/-- Columns with names of their own, one of them for integers, make a table that can hold
positions. -/
theorem TableLayout.ranksBy_of_named {columns : Columns} {c : Column} {column : String}
    (named : EntitySchema.Named columns) (member : c ∈ columns) (called : c.name = column)
    (type : c.type = .integer) (plain : c.unique = false) (name : String) :
    ∃ p, (ofColumns name columns).RanksBy column p := by
  obtain ⟨i, here⟩ := List.getElem?_of_mem member
  have only : ∀ (j : Nat) d, columns[j]? = some d → d.name = column → j = i := by
    intro j d there same
    obtain ⟨bound, rfl⟩ := List.getElem?_eq_some_iff.mp here
    obtain ⟨bound', rfl⟩ := List.getElem?_eq_some_iff.mp there
    have apart := List.pairwise_iff_getElem.mp named.1
    rcases Nat.lt_trichotomy i j with lt | eq | lt
    · exact absurd (called.trans same.symm) (apart i j bound bound' lt)
    · exact eq.symm
    · exact absurd (same.trans called.symm) (apart j i bound' bound lt)
  have ne : column ≠ Column.idName := called ▸ named.2 c member
  have place : Columns.index? (Column.id :: columns) column = some (i + 1) := by
    obtain ⟨bound, value⟩ := List.getElem?_eq_some_iff.mp here
    refine List.findIdx?_eq_some_iff_getElem.mpr ⟨Nat.succ_lt_succ bound, ?_, ?_⟩
    · simpa [value] using called
    · intro j before
      cases j with
      | zero => exact fun same => ne (of_decide_eq_true same).symm
      | succ j =>
        have inside : j < columns.length := by omega
        intro same
        have := only j columns[j] (List.getElem?_eq_getElem inside) (by simpa using same)
        omega
  rw [ofColumns_named named]
  refine ⟨i + 1, ?_, Nat.succ_pos i, ⟨c, here, called, plain, fun n => ?_⟩, ?_, rfl, ?_⟩
  · simp only [index, place]
  · simp [Column.check, Value.isNull, type, ColumnType.admits]
  · intro j d there same
    cases j with
    | zero =>
      cases there
      exact absurd same.symm ne
    | succ j => exact congrArg (· + 1) (only j d there same)
  · intro j d there same
    cases j with
    | zero => rfl
    | succ j => exact absurd same (named.2 d (List.mem_of_getElem? there))

namespace Registry

open RankedStore.Action

variable {g : Registry} {schema : EntitySchema} {reg : Registration} {k : Ranking}

/-- The ranking of a registered type works on its table. -/
theorem Registered.places (registered : g.Registered schema reg) (positions : reg.Positions k) :
    k.entity = schema.name ∧ reg.layout.name = schema.name ∧ ∃ p, g.Places reg k p := by
  have name := Registration.ofSchema_name registered.made
  obtain ⟨found, made, h⟩ := Except.bind_eq_ok registered.made
  cases found with
  | none =>
    cases h
    cases positions.ranking
  | some ranking =>
    obtain ⟨columns, added, h⟩ := Except.bind_eq_ok h
    cases h
    obtain rfl : ranking = k := Option.some.inj positions.ranking
    have entity : ranking.entity = schema.name := Registration.rankingOf_entity (by simp) made
    obtain ⟨named, c, member, called, type⟩ := Registration.addColumn_named
      (EntitySchema.named registered.checked) positions.named added
    have layout := TableLayout.ofColumns_named named schema.name
    have held : c ∈ (TableLayout.ofColumns schema.name columns).columns := by
      rw [layout]
      exact List.mem_cons_of_mem _ member
    obtain ⟨p, holds⟩ := TableLayout.ranksBy_of_named named member called type
      (positions.plain c held called) schema.name
    refine ⟨entity, name, p, ?_, rfl, ⟨name.trans entity.symm, holds⟩⟩
    rw [entity]
    exact registered.known

/-- The ranking of a registered type works on its table, at the place of its column. -/
theorem Registered.placesAt {p : Nat} (registered : g.Registered schema reg)
    (positions : reg.Positions k) (place : reg.layout.index k.column = .ok p) :
    g.Places reg k p := by
  obtain ⟨_, _, p', places⟩ := registered.places positions
  obtain rfl : p = p' := Except.ok.inj (place.symm.trans places.fits.holds.place)
  exact places

theorem Registered.sorts (registered : g.Registered schema reg) (ranked : reg.Ranked k) :
    k.entity = schema.name ∧ reg.layout.name = schema.name ∧ ∃ p, g.Sorts reg k p := by
  obtain ⟨entity, name, p, places⟩ :=
    registered.places ⟨ranked.ranking, ranked.named, ranked.plain⟩
  exact ⟨entity, name, p, places.known, places.ranking, places.fits, ranked.closes⟩

/-- An entity type that the registry can take in, with what is worked out from its schema. -/
structure Registrable (g : Registry) (schema : EntitySchema) (reg : Registration) : Prop where
  checked : schema.check = .ok ()
  fresh : g.entities.contains schema.name = false
  made : Registration.ofSchema schema = .ok reg

/-- The table of a new type is created if there is none of its name. -/
theorem Registrable.created {c : Catalog} (registrable : g.Registrable schema reg)
    (absent : c.tables.get? schema.name = none) :
    Tracked (g.register schema) c (.ok ⟨g.entities.insert schema.name reg⟩)
      (c.withTable schema.name (.ofLayout reg.layout)) [.created schema.name] := by
  obtain ⟨checked, fresh, made⟩ := registrable
  have name := Registration.ofSchema_name made
  have missing : Tracked (Action.hasTable schema.name) c (.ok false) c [] :=
    .read (by rw [Catalog.hasTable, Dict.contains, absent]; rfl)
  have created : c.createTable reg.layout =
    .ok (c.withTable reg.layout.name (.ofLayout reg.layout)) := by
    apply Catalog.createTable_of_absent
    rw [Catalog.hasTable, Dict.contains, name, absent]
    rfl
  have creates := createTable_tracked created
  rw [name] at creates
  refine .after (.ofExcept checked) ?_
  rw [if_neg (by simp [fresh])]
  exact .after (.ofExcept made) (.after missing (creates.followed (.after (.report ..) (.pure ..))))

/-- A table that is there already is kept if it fits. -/
theorem Registrable.found {c : Catalog} (registrable : g.Registrable schema reg)
    (there : c.tables.get? schema.name = some t) (same : t.layout = reg.layout) :
    Tracked (g.register schema) c (.ok ⟨g.entities.insert schema.name reg⟩) c [] := by
  obtain ⟨checked, fresh, made⟩ := registrable
  have present : Tracked (Action.hasTable schema.name) c (.ok true) c [] :=
    .read (by rw [Catalog.hasTable, Dict.contains, there]; rfl)
  refine .after (.ofExcept checked) ?_
  rw [if_neg (by simp [fresh])]
  refine .after (.ofExcept made)
    (.after present (.after (layout_tracked (Catalog.table_eq_ok.mpr there)) ?_))
  rw [if_neg (not_not_intro same)]
  exact .after (.report ..) (.pure ..)

/-- A type is taken in together with its table, or it is refused and nothing happens. -/
theorem register_cases (g : Registry) (schema : EntitySchema) (c : Catalog) :
    (∃ reg, g.Registrable schema reg ∧ (c.tables.get? schema.name = none ∨
      ∃ t, c.tables.get? schema.name = some t ∧ t.layout = reg.layout)) ∨
    ∃ e, Tracked (g.register schema) c (.error e) c [] := by
  cases checked : schema.check with
  | error e => exact .inr ⟨e, .bind_error (.ofExcept checked)⟩
  | ok _ =>
    by_cases known : g.entities.contains schema.name = true
    · refine .inr ⟨.configuration (.alreadyRegistered schema.name), .after (.ofExcept checked) ?_⟩
      rw [if_pos known]
      exact .bind_error (.throw ..)
    cases made : Registration.ofSchema schema with
    | error e =>
      refine .inr ⟨e, .after (.ofExcept checked) ?_⟩
      rw [if_neg known]
      exact .bind_error (.ofExcept made)
    | ok reg =>
      have registrable : g.Registrable schema reg := ⟨checked, by simpa using known, made⟩
      cases there : c.tables.get? schema.name with
      | none => exact .inl ⟨reg, registrable, .inl rfl⟩
      | some t =>
        by_cases same : t.layout = reg.layout
        · exact .inl ⟨reg, registrable, .inr ⟨t, rfl, same⟩⟩
        · have present : Tracked (Action.hasTable schema.name) c (.ok true) c [] :=
            .read (by rw [Catalog.hasTable, Dict.contains, there]; rfl)
          have seen := layout_tracked (Catalog.table_eq_ok.mpr there)
          refine .inr ⟨.configuration (.layoutDiffers schema.name), .after (.ofExcept checked) ?_⟩
          rw [if_neg known]
          refine .after (.ofExcept made) (.after present (.after seen ?_))
          rw [if_pos same]
          exact .bind_error (.throw ..)

end Registry
/-! A type with nothing but its ranking. -/
namespace Sample

def schema : EntitySchema :=
  { name := "t", behaviors := [Behavior.plain.withOption "compact_on_delete" (.text "true")] }

def ranking : Ranking := ⟨"t", { compactOnDelete := true }⟩

def registration : Registration :=
  { schema, layout := ⟨"t", [Column.id, ranking.positionColumn]⟩, ranking := some ranking }

def registry : Registry := ⟨Dict.empty.insert "t" registration⟩

def table : Table := .ofLayout registration.layout

def catalog : Catalog := ⟨Dict.empty.insert "t" table⟩

def session : Session := { committed := ⟨catalog, 0⟩, connection := .idle 0 }

def placed (n : Int64) : Record :=
  { entity := "t", fields := Dict.empty.insert "position" (.integer n) }

/-- A record whose position is also its id. -/
def saved (n : Int64) : Record := ((placed n).withId n).markClean

theorem registered : registry.Registered schema registration := ⟨by rfl, by rfl, rfl⟩

theorem ranked : registration.Ranked ranking := ⟨rfl, rfl, by decide, by decide⟩

end Sample

/-! The same type with the gaps left open. -/
namespace Gaps

def schema : EntitySchema :=
  { name := "t", behaviors := [Behavior.plain.withOption "compact_on_delete" (.text "false")] }

def ranking : Ranking := ⟨"t", { compactOnDelete := false }⟩

def registration : Registration :=
  { schema, layout := ⟨"t", [Column.id, ranking.positionColumn]⟩, ranking := some ranking }

def registry : Registry := ⟨Dict.empty.insert "t" registration⟩

def table : Table := .ofLayout registration.layout

def session : Session :=
  { committed := ⟨⟨Dict.empty.insert "t" table⟩, 0⟩, connection := .idle 0 }

theorem registered : registry.Registered schema registration := ⟨by rfl, by rfl, rfl⟩

theorem positions : registration.Positions ranking := ⟨rfl, by decide, by decide⟩

end Gaps
end RankedStore
