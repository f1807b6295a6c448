import Mathlib.Data.List.Nodup
import RankedStore.Proofs.Manager
import RankedStore.Proofs.WellFormed

/-! Which schemas are registered: those that are consistent in themselves, with a name that is not
registered yet, and for which there is no table of the name or one with the columns that the schema
gives. All of this is checked before the table is created, so that a schema which is refused changes
nothing. -/
namespace RankedStore

namespace RankingConfig

variable {c : RankingConfig} {key value : String} {options : Dict String String}

/-- An option that a ranking knows, with a value that it takes for it. -/
def Understands (key value : String) : Prop :=
  key = "column" ∧ isIdentifier value = true ∨ key = "new_position" ∧
    (value = "top" ∨ value = "bottom") ∨
    key = "compact_on_delete" ∧ (value = "true" ∨ value = "false")

instance : Decidable (Understands key value) := inferInstanceAs (Decidable (_ ∨ _))

/-- The name of a column is taken in as it is. Only the one that is left in the end is looked at. -/
theorem withOption_ok_iff :
    (∃ c', c.withOption key value = .ok c') ↔ key = "column" ∨ Understands key value := by
  unfold withOption Understands
  split
  case h_1 => simp
  case h_2 =>
    unfold NewPosition.ofName
    split <;> simp_all [bind, Except.bind, pure, Except.pure]
  case h_3 => split <;> simp_all
  case h_4 => simp_all

theorem withOptions_ok_iff {options : List (String × String)} :
    (∃ c', c.withOptions options = .ok c') ↔ ∀ e ∈ options, e.1 = "column" ∨
    Understands e.1 e.2 := by
  induction options generalizing c with
  | nil => exact iff_of_true ⟨c, rfl⟩ (by simp)
  | cons option rest ih =>
    obtain ⟨key, value⟩ := option
    rw [List.forall_mem_cons, ← withOption_ok_iff (c := c)]
    constructor
    · rintro ⟨c', taken⟩
      obtain ⟨next, first, taken⟩ := Except.bind_eq_ok taken
      exact ⟨⟨next, first⟩, ih.mp ⟨c', taken⟩⟩
    · rintro ⟨⟨next, first⟩, others⟩
      obtain ⟨c', taken⟩ := ih (c := next).mpr others
      exact ⟨c', by rw [withOptions, first]; exact taken⟩

/-- Keys are apart, so the column that is left is that of the one option for it. -/
theorem ofOptions_ok_iff :
    (∃ config, ofOptions options = .ok config) ↔ ∀ e ∈ options.entries, Understands e.1 e.2 := by
  constructor
  · rintro ⟨config, made⟩ e member
    have column := ofOptions_column made
    obtain ⟨taken, withAll, made⟩ := Except.bind_eq_ok made
    obtain ⟨_, valid, made⟩ := Except.bind_eq_ok made
    cases made
    rcases withOptions_ok_iff.mp ⟨_, withAll⟩ e member with named | understood
    · have found : options.get? "column" = some e.2 := Dict.mem_entries_iff.mp (named ▸ member)
      rw [found, Option.getD_some] at column
      exact .inl ⟨named, column ▸ checkIdentifier_eq_ok.mp valid⟩
    · exact understood
  · intro understood
    obtain ⟨config, taken⟩ := withOptions_ok_iff (c := {}).mpr fun e member =>
      .inr (understood e member)
    have valid : config.check = .ok () := by
      rw [check, checkIdentifier_eq_ok, withOptions_column options.sorted taken]
      cases found : options.entries.find? fun e => e.1 = "column" with
      | none => decide
      | some e =>
        have named : e.1 = "column" := by simpa using List.find?_some found
        rcases understood e (List.mem_of_find?_eq_some found) with ⟨_, valid⟩ | ⟨other,
          _⟩ | ⟨other, _⟩
        · exact valid
        · exact absurd (named.symm.trans other) (by decide)
        · exact absurd (named.symm.trans other) (by decide)
    exact ⟨config, by rw [ofOptions, taken]; simp only [valid, Except.ok_bind]; rfl⟩

end RankingConfig

/-- The column for positions that a behavior asks for. -/
def Behavior.positions (b : Behavior) : Column :=
  { name := (b.texts.get? "column").getD "position", type := .integer }

namespace EntitySchema

variable {schema : EntitySchema} {entity : String}

/-- The table that a schema gives: the key, the declared columns, and what behaviors ask for if it
is not declared. -/
def layout (schema : EntitySchema) : TableLayout :=
  let asked := schema.behaviors.map Behavior.positions
  ⟨schema.name, Column.id ::
    (schema.columns ++ asked.filter fun p => schema.columns.all fun c => c.name ≠ p.name)⟩

/-- What a schema has to be by itself. -/
structure Consistent (schema : EntitySchema) : Prop where
  name : isIdentifier schema.name = true
  columns : ∀ c ∈ schema.columns, isIdentifier c.name = true
  named : Named schema.columns
  single : schema.behaviors.length ≤ 1
  options : ∀ b ∈ schema.behaviors, ∀ e ∈ b.texts.entries, RankingConfig.Understands e.1 e.2
  integers : ∀ b ∈ schema.behaviors, ∀ c ∈ schema.columns, c.name = b.positions.name →
    c.type = .integer

end EntitySchema

namespace Registration

variable {schema : EntitySchema} {reg : Registration} {entity : String} {columns columns' : Columns}
  {added : Column}

/-- A column by the name of the added one stays as it is if it has the type, and otherwise is an
error. -/
theorem addColumn_ok_iff (named : EntitySchema.Named columns) :
    (∃ columns', addColumn entity columns added = .ok columns') ↔
      ∀ c ∈ columns, c.name = added.name → c.type = added.type := by
  unfold addColumn
  cases found : columns.find? added.name with
  | none =>
    have absent := List.find?_eq_none.mp found
    exact iff_of_true ⟨_, rfl⟩ fun c member called => absurd called (by simpa using absent c member)
  | some declared =>
    have member := List.mem_of_find?_eq_some found
    have called : declared.name = added.name := by simpa using List.find?_some found
    dsimp only
    split
    case isTrue type =>
      refine iff_of_true ⟨_, rfl⟩ fun c other same => ?_
      have one : c = declared := List.inj_on_of_nodup_map (List.pairwise_map.mpr named.1)
        other member (same.trans called.symm)
      rw [one, type]
    case isFalse type => exact iff_of_false nofun fun types => type (types declared member called)

theorem addColumn_eq (made : addColumn entity columns added = .ok columns') :
    columns' = columns ++ [added].filter fun p => columns.all fun c => c.name ≠ p.name := by
  unfold addColumn at made
  split at made
  case h_1 absent =>
    cases made
    have new := List.find?_eq_none.mp absent
    rw [List.filter_cons_of_pos (by simpa using new), List.filter_nil]
  case h_2 declared found =>
    have member := List.mem_of_find?_eq_some found
    have called := List.find?_some found
    split at made
    case isTrue =>
      cases made
      rw [List.filter_cons_of_neg, List.filter_nil, List.append_nil]
      simpa using ⟨declared, member, by simpa using called⟩
    case isFalse => cases made

theorem rankingOf_ok_iff {behaviors : List Behavior} :
    (∃ ranking, rankingOf entity none behaviors = .ok ranking) ↔
    behaviors.length ≤ 1 ∧ ∀ b ∈ behaviors, ∃ config, RankingConfig.ofOptions b.texts =
      .ok config := by
  constructor
  · rintro ⟨ranking, made⟩
    rcases rankingOf_cases made with ⟨rfl, _⟩ | ⟨b, config, rfl, taken, _⟩
    · simp
    · exact ⟨Nat.le_refl 1, List.forall_mem_singleton.mpr ⟨config, taken⟩⟩
  · rintro ⟨single, taken⟩
    match behaviors with
    | [] => exact ⟨none, rfl⟩
    | [b] =>
      obtain ⟨config, taken⟩ := taken b (List.mem_singleton_self b)
      obtain ⟨c, withAll, made⟩ := Except.bind_eq_ok taken
      obtain ⟨_, valid, made⟩ := Except.bind_eq_ok made
      cases made
      refine ⟨some ⟨entity, config⟩, ?_⟩
      rw [rankingOf, taken]
      simp only [Ranking.ofConfig, valid, Except.ok_bind]
      rfl
    | _ :: _ :: _ => exact absurd single (by simp)

/-- What a ranking adds to the columns is what its behavior asks for. -/
theorem positionColumn_eq {b : Behavior} {config : RankingConfig}
    (taken : RankingConfig.ofOptions b.texts = .ok config) :
    Ranking.positionColumn ⟨entity, config⟩ = b.positions := by
  rw [Ranking.positionColumn, Ranking.column, RankingConfig.ofOptions_column taken,
    Behavior.positions]

theorem ofSchema_ok_iff (named : EntitySchema.Named schema.columns) :
    (∃ reg, ofSchema schema = .ok reg) ↔
    schema.behaviors.length ≤ 1 ∧ ∀ b ∈ schema.behaviors,
      (∀ e ∈ b.texts.entries, RankingConfig.Understands e.1 e.2) ∧
      ∀ c ∈ schema.columns, c.name = b.positions.name → c.type = .integer := by
  constructor
  · rintro ⟨reg, made⟩
    obtain ⟨ranking, ranked, made⟩ := Except.bind_eq_ok made
    rcases rankingOf_cases ranked with ⟨nothing, rfl⟩ | ⟨b, config, one, taken, rfl⟩
    · simp [nothing]
    · obtain ⟨columns, added, made⟩ := Except.bind_eq_ok made
      rw [one, List.forall_mem_singleton]
      have integers := (addColumn_ok_iff named).mp ⟨columns, added⟩
      rw [positionColumn_eq taken] at integers
      exact ⟨Nat.le_refl 1, RankingConfig.ofOptions_ok_iff.mp ⟨config, taken⟩, integers⟩
  · rintro ⟨single, each⟩
    obtain ⟨ranking, ranked⟩ : ∃ ranking, rankingOf schema.name none schema.behaviors =
      .ok ranking :=
      rankingOf_ok_iff.mpr ⟨single, fun b member => RankingConfig.ofOptions_ok_iff.mpr
        (each b member).1⟩
    rw [ofSchema, ranked]
    rcases rankingOf_cases ranked with ⟨nothing, rfl⟩ | ⟨b, config, one, taken, rfl⟩
    · exact ⟨_, rfl⟩
    · have integers := (each b (one ▸ List.mem_singleton_self b)).2
      have asked : Ranking.positionColumn ⟨schema.name, config⟩ = b.positions :=
        positionColumn_eq taken
      rw [← asked] at integers
      obtain ⟨columns, added⟩ : ∃ columns, addColumn schema.name schema.columns _ = .ok columns :=
        (addColumn_ok_iff named).mpr integers
      exact ⟨_, by simp [added]; rfl⟩

/-- If the id is spared, the table of a registration is the one that its schema gives. -/
theorem ofSchema_layout (named : EntitySchema.Named schema.columns) (spares : schema.SparesId)
    (made : ofSchema schema = .ok reg) : reg.layout = schema.layout := by
  obtain ⟨ranking, ranked, made⟩ := Except.bind_eq_ok made
  rw [EntitySchema.layout]
  rcases rankingOf_cases ranked with ⟨nothing, rfl⟩ | ⟨b, config, one, taken, rfl⟩
  · cases made
    rw [nothing]
    exact (TableLayout.ofColumns_named named schema.name).trans (by simp)
  · obtain ⟨columns, added, made⟩ := Except.bind_eq_ok made
    cases made
    have other : b.positions.name ≠ Column.idName := by
      have spared := spares b (one ▸ List.mem_singleton_self b)
      unfold Behavior.positions
      cases asked : b.texts.get? "column" with
      | none => decide
      | some name => exact fun same => spared (asked.trans (congrArg some same))
    rw [positionColumn_eq taken] at added
    rw [TableLayout.ofColumns_named (addColumn_named named other added).1, addColumn_eq added, one]
    rfl

end Registration

theorem EntitySchema.consistent_iff {schema : EntitySchema} :
    schema.Consistent ↔ schema.check = .ok () ∧ ∃ reg, Registration.ofSchema schema = .ok reg := by
  constructor
  · intro fits
    refine ⟨check_ok_iff.mpr ⟨fits.name, fits.columns, fits.named⟩, ?_⟩
    exact (Registration.ofSchema_ok_iff fits.named).mpr
      ⟨fits.single, fun b member => ⟨fits.options b member, fits.integers b member⟩⟩
  · rintro ⟨checked, made⟩
    obtain ⟨name, columns, named⟩ := check_ok_iff.mp checked
    obtain ⟨single, each⟩ := (Registration.ofSchema_ok_iff named).mp made
    exact ⟨name, columns, named, single, fun b member => (each b member).1, fun b member =>
      (each b member).2⟩

namespace Action

theorem run_layout {name : String} {l : TableLayout} {s : Session}
    (there : s.view.layout? name = some l) :
    (layout name).run s = (.ok l, s) := by
  obtain ⟨t, found, rfl⟩ := Option.map_eq_some_iff.mp there
  rw [layout, run_read, Catalog.table_eq_ok.mpr found]
  rfl

/-- The answer of a write depends on the tables that are seen, not on where they are kept. -/
theorem write_answer (f : Catalog → Except Error α × Catalog) (s : Session) :
    ((write f).run s).1 = (f s.view).1 := by
  obtain ⟨_, ⟨_ | _, _⟩, _⟩ := s <;> rfl

/-- What follows a write that succeeds. -/
theorem write_bind_answer {f : Catalog → Except Error α × Catalog} {next : α → Action β}
    {s : Session} {x : α} {y : β} (written : (f s.view).1 = .ok x)
    (goes : ∀ s', ((next x).run s').1 = .ok y) :
    ((write f >>= next).run s).1 = .ok y := by
  have answer := (write_answer f s).trans written
  rw [run_bind]
  generalize (write f).run s = outcome at answer ⊢
  obtain ⟨_, s'⟩ := outcome
  cases answer
  exact goes s'

/-- A table is created where there is none of the name. -/
theorem createTable_ok {l : TableLayout} {s : Session} (absent : s.view.hasTable l.name = false) :
    ((createTable l).run s).1 = .ok () := by
  rw [createTable, run_bind, run_report]
  refine write_bind_answer (x := ()) ?_ fun s' => rfl
  have view : ∀ e, (s.report e).view = s.view := fun _ => rfl
  rw [view, Catalog.createTable_of_absent absent]

end Action

namespace Registry

open RankedStore.Action

variable {g : Registry} {schema : EntitySchema} {reg : Registration} {s : Session}

/-- There is no table of the name, or one with the columns of the registration. -/
def Fits (schema : EntitySchema) (reg : Registration) (c : Catalog) : Prop :=
  ∀ layout, c.layout? schema.name = some layout → layout = reg.layout

theorem register_taken (registrable : g.Registrable schema reg) (fits : Fits schema reg s.view) :
    ((g.register schema).run s).1 = .ok ⟨g.entities.insert schema.name reg⟩ := by
  obtain ⟨checked, fresh, made⟩ := registrable
  rw [register, run_bind, run_ofExcept, checked]
  dsimp only
  rw [if_neg (by simp [fresh]), run_bind, run_ofExcept, made]
  dsimp only
  rw [run_bind, hasTable, run_read]
  dsimp only
  rw [Catalog.hasTable_eq]
  cases there : s.view.layout? schema.name with
  | none =>
    have absent : s.view.hasTable reg.layout.name = false := by
      rw [Registration.ofSchema_name made, Catalog.hasTable_eq, there]
      rfl
    have created := createTable_ok absent
    rw [if_neg (by simp), run_bind]
    generalize (createTable reg.layout).run s = outcome at created ⊢
    obtain ⟨_ | _, s'⟩ := outcome
    · cases created
    · rfl
  | some l =>
    rw [if_pos (by simp), run_bind, run_layout there]
    dsimp only
    rw [if_neg (not_not_intro (fits l there))]
    rfl

/-- What is in the way of a type is found before anything is done. -/
theorem register_refused (g : Registry) (schema : EntitySchema) (s : Session) :
    (∃ reg, g.Registrable schema reg ∧ Fits schema reg s.view) ∨
    ∃ e, (g.register schema).run s = (.error e, s) := by
  rw [register, run_bind, run_ofExcept]
  cases checked : schema.check with
  | error e => exact .inr ⟨e, rfl⟩
  | ok _ =>
    dsimp only
    by_cases known : g.entities.contains schema.name = true
    · rw [if_pos known]
      exact .inr ⟨_, rfl⟩
    rw [if_neg known, run_bind, run_ofExcept]
    cases made : Registration.ofSchema schema with
    | error e => exact .inr ⟨e, rfl⟩
    | ok reg =>
      have registrable : g.Registrable schema reg := ⟨checked, by simpa using known, made⟩
      dsimp only
      rw [run_bind, hasTable, run_read]
      dsimp only
      rw [Catalog.hasTable_eq]
      cases there : s.view.layout? schema.name with
      | none =>
        refine .inl ⟨reg, registrable, fun l found => ?_⟩
        cases there.symm.trans found
      | some l =>
        by_cases same : l = reg.layout
        · refine .inl ⟨reg, registrable, fun l' found => ?_⟩
          exact (Option.some.inj (found.symm.trans there)).trans same
        · rw [if_pos (by simp), run_bind, run_layout there]
          dsimp only
          rw [if_pos same]
          exact .inr ⟨_, rfl⟩

end Registry

namespace Manager

/-- A schema that does not ask for the column of the ids is taken in if and only if it is
consistent, its name is new, and the table of the name has the columns that it gives, should there
be one. A schema that is refused leaves the registered types and all of the session as they are. -/
theorem register_accepts_iff (m : Manager) (schema : EntitySchema) (spares : schema.SparesId) :
    ((∃ g, ((m.registry.register schema).run m.session).1 = .ok g) ↔
      schema.Consistent ∧ m.registry.entities.contains schema.name = false ∧
        ∀ t, m.session.view.tables.get? schema.name = some t → t.layout = schema.layout) ∧
      ∀ e, ((m.registry.register schema).run m.session).1 = .error e → m.register schema = m := by
  have refused := m.registry.register_refused schema m.session
  constructor
  · constructor
    · rintro ⟨g, taken⟩
      rcases refused with ⟨reg, ⟨checked, fresh, made⟩, fits⟩ | ⟨e, ran⟩
      · have layout := Registration.ofSchema_layout (EntitySchema.named checked) spares made
        refine ⟨EntitySchema.consistent_iff.mpr ⟨checked, reg, made⟩, fresh, fun t found => ?_⟩
        have seen : m.session.view.layout? schema.name = some t.layout := by
          rw [Catalog.layout?, found]; rfl
        exact (fits t.layout seen).trans layout
      · rw [ran] at taken
        cases taken
    · rintro ⟨consistent, fresh, fits⟩
      obtain ⟨checked, reg, made⟩ := EntitySchema.consistent_iff.mp consistent
      have layout := Registration.ofSchema_layout consistent.named spares made
      refine ⟨_, Registry.register_taken ⟨checked, fresh, made⟩ fun l there => ?_⟩
      obtain ⟨t, found, rfl⟩ := Option.map_eq_some_iff.mp there
      exact (fits t found).trans layout.symm
  · intro e failed
    rcases refused with ⟨reg, registrable, fits⟩ | ⟨e', ran⟩
    · rw [Registry.register_taken registrable fits] at failed
      cases failed
    · rw [register, ran]

/-- A type whose positions are in a column called rank is taken in, and then not a second time. -/
theorem register_accepts_iff_rank :
    ∃ m, m = ofCommitted ⟨.empty, 0⟩ ∧ (Asking.schema "rank").SparesId ∧
    (∃ g, ((m.registry.register (Asking.schema "rank")).run m.session).1 = .ok g) ∧
    (m.register (Asking.schema "rank")).register (Asking.schema "rank") = m.register
      (Asking.schema "rank") := by
  have spares : (Asking.schema "rank").SparesId := fun b member => by
    obtain rfl := List.mem_singleton.mp member
    decide
  have consistent : (Asking.schema "rank").Consistent := by
    refine ⟨by decide, by decide, ⟨by decide, by decide⟩, by decide, fun b member => ?_,
      fun b member => ?_⟩
    · obtain rfl := List.mem_singleton.mp member
      decide
    · obtain rfl := List.mem_singleton.mp member
      decide
  refine ⟨_, rfl, spares, ?_, ?_⟩
  · exact (register_accepts_iff _ _ spares).1.mpr ⟨consistent, rfl, nofun⟩
  · exact (register_accepts_iff ((ofCommitted ⟨.empty, 0⟩).register (Asking.schema "rank")) _
      spares).2 _ rfl

end Manager
end RankedStore
