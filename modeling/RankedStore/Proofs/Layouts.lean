import RankedStore.Proofs.Effects
import RankedStore.Proofs.Operations
import RankedStore.Proofs.Ranking.Registered

/-! Which tables there are, and with which columns. Registering an entity type may add a table.
Nothing else that is done to records changes any of this, also where it fails halfway. -/
namespace RankedStore

open RankedStore.Action

theorem Table.updateWhere_layout (t : Table) (u : Update) : t.SameLayout (t.updateWhere u).2 := by
  refine updateWhere_keeps (I := t.SameLayout) rfl ?_
  intro t' id row i v t'' same _ _ written
  obtain ⟨_, _, _, rfl⟩ := replace_eq_some written
  exact same

namespace Catalog

variable {c c' d : Catalog} {name : String} {id : Int64} {row old : Row} {t t' : Table}

/-- The tables have the same names and columns. -/
def SameLayouts (c d : Catalog) : Prop := c.Related Table.SameLayout d

/-- The layout of a table, if there is one of the name. -/
def layout? (c : Catalog) (name : String) : Option TableLayout :=
  (c.tables.get? name).map (·.layout)

theorem SameLayouts.refl (c : Catalog) : c.SameLayouts c := Related.refl Table.sameLayout_stable c

theorem SameLayouts.trans (first : c.SameLayouts c') (second : c'.SameLayouts d) :
    c.SameLayouts d :=
  Related.trans Table.sameLayout_stable first second

theorem SameLayouts.withTable (found : c.tables.get? name = some t) (same : t.SameLayout t') :
    c.SameLayouts (c.withTable name t') := by
  have related := Related.withTable name (SameLayouts.refl c) same
  rwa [withTable_of_get? found] at related

theorem SameLayouts.layout? (same : c.SameLayouts d) (name : String) :
    c.layout? name = d.layout? name := by
  have rel := same name
  unfold Catalog.layout?
  revert rel
  cases c.tables.get? name <;> cases d.tables.get? name <;> intro rel <;> cases rel
  · rfl
  · rename_i layout
    exact congrArg some layout.symm

theorem hasTable_eq (c : Catalog) (name : String) : c.hasTable name = (c.layout? name).isSome :=
  Option.isSome_map.symm

theorem layout?_withTable (c : Catalog) (name other : String) (t : Table) :
    (c.withTable name t).layout? other = if name = other then some t.layout else c.layout?
      other := by
  rw [layout?, get?_withTable]
  split <;> rfl

theorem insert_sameLayouts (h : c.insert name row = (.ok id, c')) : c.SameLayouts c' := by
  obtain ⟨t, _, found, written, rfl⟩ := insert_eq_ok h
  obtain ⟨_, _, _, _, _, _, rfl⟩ := Table.insert_eq_ok written
  exact .withTable found rfl

theorem replace_sameLayouts (h : c.replace name id row = (.ok (some old), c')) :
    c.SameLayouts c' := by
  obtain ⟨t, _, found, written, rfl⟩ := replace_eq_some h
  obtain ⟨_, _, _, rfl⟩ := Table.replace_eq_some written
  exact .withTable found rfl

theorem delete_sameLayouts (h : c.delete name id = (.ok (some old), c')) : c.SameLayouts c' := by
  obtain ⟨t, found, _, rfl⟩ := delete_eq_some h
  exact .withTable found rfl

theorem updateWhere_sameLayouts (c : Catalog) (u : Update) : c.SameLayouts (c.updateWhere u).2 :=
  updateWhere_related Table.sameLayout_stable fun t _ => t.updateWhere_layout u

end Catalog

theorem Registration.shifts_sameLayouts (reg : Registration) (c : Catalog) :
    reg.Shifts Table.SameLayout c c.SameLayouts :=
  fun k _ => k.shifts_related Table.sameLayout_stable c.updateWhere_sameLayouts

namespace Registry

/-- A record that was saved has an id, be it new or not. -/
theorem save_sameLayouts (g : Registry) (r : Record) (c : Catalog) :
    Completes Table.SameLayout (g.save r) c fun saved c' => c.SameLayouts c' ∧ saved.id.isSome := by
  have stable := Table.sameLayout_stable
  apply save_completes stable
  · exact fun reg _ => Registration.beforeInsert_tries stable (reg.shifts_sameLayouts c) (.refl c)
  · exact fun reg _ => Registration.beforeUpdate_tries stable (reg.shifts_sameLayouts c) (.refl c)
  · intro persisted _
    exact ⟨.refl c, by simpa [Record.isNew, Option.isSome_iff_ne_none] using persisted⟩
  · intro reg placed row id c₁ c' _ _ prepared _ inserted
    exact ⟨prepared.1.trans (Catalog.insert_sameLayouts inserted), rfl⟩
  · intro reg id row old c₁ c' _ persisted same _ replaced
    exact ⟨same.trans (Catalog.replace_sameLayouts replaced), Option.isSome_of_eq_some persisted⟩

theorem remove_sameLayouts (g : Registry) (r : Record) (c : Catalog) :
    Completes Table.SameLayout (g.remove r) c fun _ c' => c.SameLayouts c' := by
  have stable := Table.sameLayout_stable
  apply remove_completes stable fun reg _ =>
    Registration.beforeRemove_tries stable (reg.shifts_sameLayouts c) (.refl c) r
  intro reg id old c₁ c' _ _ same deleted
  exact same.trans (Catalog.delete_sameLayouts deleted)

/-- A type is taken in together with its table, which is new or fits already. -/
theorem register_completes (stable : Table.Stable ρ) (g : Registry) (schema : EntitySchema)
    (c : Catalog) :
    Completes ρ (g.register schema) c fun g' c' => ∃ reg, g.Registrable schema reg ∧
      g' = ⟨g.entities.insert schema.name reg⟩ ∧
      (c.layout? schema.name = none ∧ c' = c.withTable schema.name (.ofLayout reg.layout) ∨
        c.layout? schema.name = some reg.layout ∧ c' = c) := by
  rcases g.register_cases schema c with ⟨reg, registrable, absent | ⟨t, there, same⟩⟩ | ⟨e, refused⟩
  · exact .ofTracked stable (registrable.created absent)
      ⟨reg, registrable, rfl, .inl ⟨by rw [Catalog.layout?, absent]; rfl, rfl⟩⟩
  · exact .ofTracked stable (registrable.found there same)
      ⟨reg, registrable, rfl, .inr ⟨by rw [Catalog.layout?, there, Option.map_some, same], rfl⟩⟩
  · exact .ofReading stable refused (by rintro x ⟨⟩)

end Registry

namespace Ranking

theorem exchangeRows_sameLayouts (k : Ranking) (r other : Record) (c : Catalog) :
    Completes Table.SameLayout (k.exchangeRows r other) c fun _ c' => c.SameLayouts c' := by
  have stable := Table.sameLayout_stable
  apply exchangeRows_of stable (Q := fun _ _ c' => c.SameLayouts c')
  intro n m id otherId t _ _ _ _ _
  have sets : ∀ c₁ id value, c.SameLayouts c₁ →
      Tries Table.SameLayout (updateById k.entity id k.column value) c₁ fun _ c' =>
        c.SameLayouts c' :=
    fun c₁ id value same => .updateById stable fun row old c' written =>
      same.trans (Catalog.replace_sameLayouts written)
  refine .bind stable (sets c id _ (.refl c)) fun _ c₁ same =>
    .bind stable (sets c₁ otherId _ same) ?_
  intro _ c₂ same
  obtain ⟨_, seen⟩ := k.fetch_looks id c₂
  obtain ⟨_, seen'⟩ := k.fetch_looks otherId c₂
  exact .after stable seen fun _ _ => .after stable seen' fun _ _ => .pure stable same

theorem swap_sameLayouts (k : Ranking) (r other : Record) (c : Catalog) :
    Completes Table.SameLayout (k.swap r other) c fun _ c' => c.SameLayouts c' :=
  swap_of ((k.exchangeRows_completes Table.sameLayout_stable r other c).and
    (k.exchangeRows_sameLayouts r other c))

theorem moveUp_sameLayouts (k : Ranking) (r : Record) (c : Catalog) :
    Completes Table.SameLayout (k.moveUp r) c fun _ c' => c.SameLayouts c' := by
  obtain ⟨_, near⟩ := k.previous_looks r c
  exact move_of Table.sameLayout_stable _ _ (k.isFirst_looks r) near fun other _ =>
    k.swap_sameLayouts r other c

theorem moveDown_sameLayouts (k : Ranking) (r : Record) (c : Catalog) :
    Completes Table.SameLayout (k.moveDown r) c fun _ c' => c.SameLayouts c' := by
  obtain ⟨_, near⟩ := k.next_looks r c
  exact move_of Table.sameLayout_stable _ _ (k.isLast_looks r) near fun other _ =>
    k.swap_sameLayouts r other c

theorem compact_sameLayouts (k : Ranking) (c : Catalog) :
    Completes Table.SameLayout k.compact c fun n c' => c.SameLayouts c' ∧ (n = 0 → c' = c) :=
  k.compact_completes Table.sameLayout_stable (fun _ _ _ _ _ same written =>
    same.trans (Catalog.replace_sameLayouts written)) (.refl c)

end Ranking
end RankedStore
