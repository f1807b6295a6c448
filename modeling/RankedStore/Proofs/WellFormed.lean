import RankedStore.Proofs.Layouts
import RankedStore.Proofs.Ranking.Reorder

/-! The columns of the table that a type is registered with. A schema is refused if it declares a
column by the name of the id, but a ranking may ask for one, since its options are not looked at for
that. The table then has two columns of this name, or one that is not a key. -/
namespace RankedStore

theorem RankingConfig.withOption_column {c c' : RankingConfig} {key value : String}
    (taken : c.withOption key value = .ok c') :
    c'.column = if key = "column" then value else c.column := by
  unfold withOption at taken
  split at taken
  case h_1 =>
    cases taken
    rw [if_pos rfl]
  case h_2 =>
    obtain ⟨_, _, taken⟩ := Except.bind_eq_ok taken
    cases taken
    rw [if_neg (by decide)]
  case h_3 =>
    split at taken <;> cases taken <;> rw [if_neg (by decide)]
  case h_4 => cases taken

theorem RankingConfig.withOptions_column {options : List (String × String)} {c c' : RankingConfig}
    (sorted : options.Pairwise fun a b => a.1 < b.1) (taken : c.withOptions options = .ok c') :
    c'.column = ((options.find? fun e => e.1 = "column").map (·.2)).getD c.column := by
  induction options generalizing c with
  | nil =>
    cases taken
    rfl
  | cons option rest ih =>
    obtain ⟨key, value⟩ := option
    obtain ⟨above, sorted⟩ := List.pairwise_cons.mp sorted
    obtain ⟨next, first, taken⟩ := Except.bind_eq_ok taken
    rw [ih sorted taken, withOption_column first]
    by_cases same : key = "column"
    · -- keys are in order, so no other option has this one
      have none : rest.find? (fun e => e.1 = "column") = none := by
        refine List.find?_eq_none.mpr fun e member again => ?_
        have equal : e.1 = key := (of_decide_eq_true again).trans same.symm
        have less := above e member
        rw [equal] at less
        exact Key.irrefl key less
      rw [none, if_pos same, List.find?_cons_of_pos (by simpa using same)]
      rfl
    · rw [if_neg same, List.find?_cons_of_neg (by simpa using same)]

/-- The column of positions is the one that the options name, or else has a name of its own. -/
theorem RankingConfig.ofOptions_column {options : Dict String String} {config : RankingConfig}
    (taken : ofOptions options = .ok config) :
    config.column = (options.get? "column").getD "position" := by
  obtain ⟨c, taken, h⟩ := Except.bind_eq_ok taken
  obtain ⟨_, _, h⟩ := Except.bind_eq_ok h
  cases h
  exact withOptions_column options.sorted taken

namespace EntitySchema

/-- No behavior asks for the column of the ids. -/
def SparesId (schema : EntitySchema) : Prop :=
  ∀ b ∈ schema.behaviors, b.texts.get? "column" ≠ some Column.idName

/-- The columns that a table for the type is to have. They start with the key and have names of
their own, all declared ones are among them as they are and in their order, and every ranking has
one for its integers. -/
structure WellFormed (schema : EntitySchema) (layout : TableLayout) :
    Prop extends layout.Distinct where
  declared : schema.columns.Sublist layout.columns
  ranked : ∀ b ∈ schema.behaviors, ∃ config, RankingConfig.ofOptions b.texts = .ok config ∧
    config.column ≠ Column.idName ∧ ∃ c ∈ layout.columns, c.name = config.column ∧ c.type = .integer

end EntitySchema

namespace Registration

variable {schema : EntitySchema} {reg : Registration} {entity : String}

/-- A type has one behavior at most. -/
theorem rankingOf_cases {behaviors : List Behavior} {ranking : Option Ranking}
    (made : rankingOf entity none behaviors = .ok ranking) : behaviors = [] ∧ ranking = none ∨
      ∃ b config, behaviors = [b] ∧ RankingConfig.ofOptions b.texts = .ok config ∧
        ranking = some ⟨entity, config⟩ := by
  cases behaviors with
  | nil =>
    cases made
    exact .inl ⟨rfl, rfl⟩
  | cons b rest =>
    obtain ⟨config, taken, made⟩ := Except.bind_eq_ok made
    obtain ⟨k, first, made⟩ := Except.bind_eq_ok made
    obtain ⟨_, _, first⟩ := Except.bind_eq_ok first
    cases first
    cases rest with
    | nil =>
      cases made
      exact .inr ⟨b, config, rfl, taken, rfl⟩
    | cons b' rest =>
      -- with one found, the next is an error, and so are its options
      obtain ⟨_, _, made⟩ := Except.bind_eq_ok made
      obtain ⟨_, _, made⟩ := Except.bind_eq_ok made
      cases made

/-- The declared columns come first, and one of all has the name and the type of the column that was
to be added. -/
theorem addColumn_declares {columns columns' : Columns} {added : Column}
    (h : addColumn entity columns added = .ok columns') : columns.Sublist columns' ∧
      ∃ c ∈ columns', c.name = added.name ∧ c.type = added.type := by
  unfold addColumn at h
  split at h
  case h_1 =>
    cases h
    exact ⟨List.sublist_append_left .., added, by simp, rfl, rfl⟩
  case h_2 declared found =>
    split at h
    case isTrue same =>
      cases h
      exact ⟨.refl _, declared, List.mem_of_find?_eq_some
        found, by simpa using List.find?_some found, same⟩
    case isFalse => cases h

/-- A column by the name of the id is always a new one. -/
theorem addColumn_id {columns columns' : Columns} {added : Column}
    (named : EntitySchema.Named columns) (same : added.name = Column.idName)
    (h : addColumn entity columns added = .ok columns') :
    columns' = columns ++ [added] := by
  have absent : columns.find? added.name = none :=
    List.find?_eq_none.mpr fun c member => by simpa [same] using named.2 c member
  rw [addColumn, absent] at h
  cases h
  rfl

end Registration

namespace TableLayout

theorem ofColumns_sublist (name : String) (columns : Columns) :
    columns.Sublist (ofColumns name columns).columns := by
  cases columns with
  | nil => exact List.nil_sublist _
  | cons c rest =>
    rw [ofColumns]
    split
    · exact .refl _
    · exact List.sublist_cons_self ..

/-- After a column for positions with the name of the id, the names are no longer apart, or the
first column is not the key. -/
theorem not_distinct_ofColumns {columns : Columns} (named : EntitySchema.Named columns)
    {k : Ranking} (same : k.column = Column.idName) (name : String) :
    ¬ (ofColumns name (columns ++ [k.positionColumn])).Distinct := by
  rintro ⟨first, apart⟩
  cases columns with
  | nil =>
    have called : k.positionColumn.name = Column.idName := same
    rw [List.nil_append, ofColumns, if_pos called] at first
    exact Bool.false_ne_true (congrArg Column.primaryKey (Option.some.inj first))
  | cons c rest =>
    rw [List.cons_append, ofColumns, if_neg (named.2 c (List.mem_cons_self ..))] at apart
    exact (List.pairwise_cons.mp apart).1 k.positionColumn (by simp) same.symm

end TableLayout

namespace Registration

variable {schema : EntitySchema} {reg : Registration}

/-- What a checked schema makes a table with: all of its columns, and what is asked of them if and
only if the id is spared. -/
theorem ofSchema_wellFormed_iff (checked : schema.check = .ok ())
    (made : ofSchema schema = .ok reg) :
    schema.columns.Sublist reg.layout.columns ∧ (reg.layout.Distinct ↔ schema.SparesId) ∧
      (schema.WellFormed reg.layout ↔ schema.SparesId) := by
  have named := EntitySchema.named checked
  obtain ⟨ranking, ranked, made⟩ := Except.bind_eq_ok made
  rcases rankingOf_cases ranked with ⟨nothing, rfl⟩ | ⟨b, config, one, taken, rfl⟩
  · cases made
    have spares : schema.SparesId := by simp [EntitySchema.SparesId, nothing]
    have distinct := TableLayout.distinct_ofColumns named schema.name
    have declared := TableLayout.ofColumns_sublist schema.name schema.columns
    exact ⟨declared, iff_of_true distinct spares,
      iff_of_true ⟨distinct, declared, by simp [nothing]⟩ spares⟩
  · obtain ⟨columns, added, made⟩ := Except.bind_eq_ok made
    cases made
    obtain ⟨kept, c, member, called, type⟩ := addColumn_declares added
    have onto := TableLayout.ofColumns_sublist schema.name columns
    have declared : schema.columns.Sublist (TableLayout.ofColumns schema.name columns).columns :=
      kept.trans onto
    have column := RankingConfig.ofOptions_column taken
    have spares_iff : schema.SparesId ↔ config.column ≠ Column.idName := by
      rw [EntitySchema.SparesId, one, List.forall_mem_singleton, column]
      cases b.texts.get? "column" with
      | none => exact iff_of_true (by simp) (by decide)
      | some name => simp
    by_cases same : config.column = Column.idName
    · have not_spared : ¬ schema.SparesId := fun spares => spares_iff.mp spares same
      obtain rfl := addColumn_id named same added
      have not_distinct := TableLayout.not_distinct_ofColumns named (k := ⟨schema.name, config⟩)
        same schema.name
      exact ⟨declared, iff_of_false not_distinct not_spared,
        iff_of_false (fun fits => not_distinct fits.toDistinct) not_spared⟩
    · have distinct := TableLayout.distinct_ofColumns (addColumn_named named same added).1
        schema.name
      refine ⟨declared, iff_of_true distinct (spares_iff.mpr same),
        iff_of_true ⟨distinct, declared, ?_⟩ (spares_iff.mpr same)⟩
      rw [one, List.forall_mem_singleton]
      exact ⟨config, taken, same, c, onto.subset member, called, type⟩

end Registration

namespace Registry

variable {g g' : Registry} {schema : EntitySchema} {s s' : Session}

/-- A type that is registered where there is no table of its name gets a table with all its columns.
The table is well-formed if and only if no behavior asks for the column of the ids. If one does, it
is the key in front or the names of their own that are missing. -/
theorem register_wellFormed_iff (proper : s.connection.Proper)
    (absent : s.view.hasTable schema.name = false)
    (ran : (g.register schema).run s = (.ok g', s')) :
    ∃ reg, g'.find? schema.name = .ok reg ∧ s'.view.layout? schema.name = some reg.layout ∧
      schema.columns.Sublist reg.layout.columns ∧ (reg.layout.Distinct ↔ schema.SparesId) ∧
      (schema.WellFormed reg.layout ↔ schema.SparesId) := by
  have stable := Table.sameLayout_stable
  obtain ⟨_, _, ran', _, _, achieved, _⟩ :=
    (g.register_completes stable schema s.view).run stable proper
  cases ran.symm.trans ran'
  obtain ⟨reg, ⟨checked, _, made⟩, rfl, ⟨_, seen⟩ | ⟨there, _⟩⟩ := achieved g' rfl
  · refine ⟨reg, ?_, ?_, Registration.ofSchema_wellFormed_iff checked made⟩
    · rw [find?, Dict.get?_insert_self]
    · rw [seen, Catalog.layout?_withTable, if_pos rfl]
      rfl
  · rw [Catalog.hasTable_eq, there] at absent
    cases absent

end Registry

/-! A type that is registered with a column for positions of a given name. -/
namespace Asking

def schema (column : String) : EntitySchema :=
  { name := "t", columns := [{ name := "title", type := .text }],
    behaviors := [Behavior.plain.withOption "column" (.text column)] }

def session : Session := { committed := ⟨⟨.empty⟩, 0⟩, connection := .idle 0 }

end Asking

/-- With positions in a column called rank, the table is as it should be. -/
theorem Registry.register_wellFormed_iff_rank : ∃ g' s' reg,
    (Registry.empty.register (Asking.schema "rank")).run Asking.session = (.ok g', s') ∧
      g'.find? "t" = .ok reg ∧ (Asking.schema "rank").WellFormed reg.layout := by
  have ran : (Registry.empty.register (Asking.schema "rank")).run Asking.session = (.ok _, _) := rfl
  obtain ⟨reg, known, _, _, _, wellFormed⟩ := register_wellFormed_iff (.idle 0) rfl ran
  refine ⟨_, _, reg, ran, known, wellFormed.mpr fun b member => ?_⟩
  obtain rfl := List.mem_singleton.mp member
  decide

/-- With positions in the column of the ids, a type is registered with two columns of one name. -/
theorem Registry.register_makes_two_ids : ∃ g' s' reg title position,
    Asking.session.view.hasTable "t" = false ∧
      (Registry.empty.register (Asking.schema "id")).run Asking.session = (.ok g', s') ∧
      g'.find? "t" = .ok reg ∧ s'.view.layout? "t" = some reg.layout ∧
      reg.layout.columns = [Column.id, title, position] ∧ position.name = Column.idName ∧
      ¬ (Asking.schema "id").WellFormed reg.layout := by
  refine ⟨_, _, _, _, _, rfl, rfl, rfl, rfl, rfl, rfl, fun fits => ?_⟩
  exact (List.pairwise_cons.mp fits.apart).1 _ (List.mem_cons_of_mem _ (List.mem_singleton_self _))
    rfl

end RankedStore
