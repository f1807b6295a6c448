import RankedStore.Session.Transaction
import RankedStore.Proofs.Dict
import RankedStore.Proofs.Outcome

/-! Taking changes back. What every statement notes brings back the tables that it started from, up
to ids that were given out in between, and notes of consecutive statements bring back the first ones
when they are taken back newest first. -/
namespace RankedStore

/-- The same table, except that it may have given out more ids. -/
structure Table.Grown (t t' : Table) : Prop where
  layout : t'.layout = t.layout
  rows : t'.rows = t.rows
  nextId : t.nextId ≤ t'.nextId

namespace Table.Grown

theorem refl (t : Table) : t.Grown t := ⟨rfl, rfl, Int64.le_refl _⟩

theorem trans (first : Table.Grown t u) (second : u.Grown v) : t.Grown v :=
  ⟨second.layout.trans first.layout, second.rows.trans first.rows,
    Int64.le_trans first.nextId second.nextId⟩

end Table.Grown

/-- A relation of tables that holds however many ids were given out, and that a change of both
tables in one row keeps. -/
structure Table.Stable (ρ : Table → Table → Prop) : Prop where
  grown : ∀ {t u : Table}, t.Grown u → ρ t u
  trans : ∀ {t u v : Table}, ρ t u → ρ u v → ρ t v
  restore : ∀ {t u : Table} (id : Int64) (row : Row), ρ t u →
    ρ (t.restore id row) (u.restore id row)
  erase : ∀ {t u : Table} (id : Int64), ρ t u →
    ρ { t with rows := t.rows.erase id } { u with rows := u.rows.erase id }

theorem Table.Stable.refl (stable : Table.Stable ρ) (t : Table) : ρ t t := stable.grown (.refl t)

theorem Table.grown_stable : Table.Stable Table.Grown where
  grown larger := larger
  trans := .trans
  restore id row larger := ⟨larger.layout, congrArg (·.insert id row) larger.rows, larger.nextId⟩
  erase id larger := ⟨larger.layout, congrArg (·.erase id) larger.rows, larger.nextId⟩

namespace Table.Stable

/-- Tables with the same of every row, be it there or not. -/
theorem ofRows (f : Option Row → β) :
    Table.Stable fun t u => ∀ id, f (t.get? id) = f (u.get? id) where
  grown larger id := by rw [Table.get?, Table.get?, larger.rows]
  trans first second id := (first id).trans (second id)
  restore id row same key := by
    simp only [Table.restore, Table.get?, Dict.get?_insert]
    split
    case isTrue => rfl
    case isFalse => exact same key
  erase id same key := by
    simp only [Table.get?, Dict.get?_erase]
    split
    case isTrue => rfl
    case isFalse => exact same key

theorem and {ρ σ : Table → Table → Prop} (left : Table.Stable ρ) (right : Table.Stable σ) :
    Table.Stable fun t u => ρ t u ∧ σ t u where
  grown larger := ⟨left.grown larger, right.grown larger⟩
  trans first second := ⟨left.trans first.1 second.1, right.trans first.2 second.2⟩
  restore id row both := ⟨left.restore id row both.1, right.restore id row both.2⟩
  erase id both := ⟨left.erase id both.1, right.erase id both.2⟩

end Table.Stable

def Table.SameLayout (t u : Table) : Prop := u.layout = t.layout

theorem Table.sameLayout_stable : Table.Stable Table.SameLayout where
  grown larger := larger.layout
  trans first second := second.trans first
  restore _ _ same := same
  erase _ same := same

namespace Catalog

/-- The same tables, except that they may have given out more ids. -/
def Grown (c c' : Catalog) : Prop :=
  ∀ name, Option.Rel Table.Grown (c.tables.get? name) (c'.tables.get? name)

/-- The tables of two catalogs are related name by name. -/
def Related (ρ : Table → Table → Prop) (c c' : Catalog) : Prop :=
  ∀ name, Option.Rel ρ (c.tables.get? name) (c'.tables.get? name)

theorem table_eq_ok {c : Catalog} : c.table name = .ok t ↔ c.tables.get? name = some t := by
  unfold table
  cases c.tables.get? name <;> simp

theorem get?_withTable (c : Catalog) (name other : String) (t : Table) :
    (c.withTable name t).tables.get? other =
      if name = other then some t else c.tables.get? other :=
  Dict.get?_insert ..

@[simp] theorem get?_withTable_self (c : Catalog) (name : String) (t : Table) :
    (c.withTable name t).tables.get? name = some t := by
  rw [get?_withTable, if_pos rfl]

@[simp] theorem withTable_withTable (c : Catalog) (name : String) (t u : Table) :
    (c.withTable name t).withTable name u = c.withTable name u :=
  congrArg Catalog.mk (Dict.insert_insert ..)

theorem withTable_of_get? {c : Catalog} (h : c.tables.get? name = some t) :
    c.withTable name t = c :=
  congrArg Catalog.mk (Dict.insert_of_get? h)

/-- Undoing an insertion takes the row away if it is there. -/
theorem undo_inserted {c : Catalog} (found : c.tables.get? name = some t) (id : Int64) :
    c.undo (.inserted name id) = .ok (c.withTable name { t with rows := t.rows.erase id }) := by
  simp only [undo, table_eq_ok.mpr found, Table.delete, Table.get?, Except.ok_bind,
    Except.pure_eq_ok]
  cases stored : t.rows.get? id with
  | none => rw [Dict.erase_of_get? stored, Option.map_none, withTable_of_get? found]
  | some row => rfl

namespace Related

variable {ρ : Table → Table → Prop}

theorem refl (stable : Table.Stable ρ) (c : Catalog) : c.Related ρ c := by
  intro name
  cases c.tables.get? name with
  | none => exact .none
  | some t => exact .some (stable.refl t)

theorem trans (stable : Table.Stable ρ) (first : Related ρ c d) (second : d.Related ρ e) :
    c.Related ρ e := by
  intro name
  have left := first name
  have right := second name
  revert left right
  cases c.tables.get? name <;> cases d.tables.get? name <;> cases e.tables.get? name <;>
    intro left right <;> cases left <;> cases right
  · exact .none
  · rename_i first second
    exact .some (stable.trans first second)

theorem symm (symmetric : ∀ {t u}, ρ t u → ρ u t) (related : Related ρ c d) : d.Related ρ c := by
  intro name
  have rel := related name
  revert rel
  cases c.tables.get? name <;> cases d.tables.get? name <;> intro rel <;> cases rel
  · exact .none
  · rename_i rel
    exact .some (symmetric rel)

theorem some_iff (related : Related ρ c d) : c.tables.get? name = some t →
    ∃ u, d.tables.get? name = some u ∧ ρ t u := by
  intro found
  have rel := related name
  rw [found] at rel
  cases h : d.tables.get? name with
  | none => rw [h] at rel; cases rel
  | some u =>
    rw [h] at rel
    cases rel with
    | some related => exact ⟨u, rfl, related⟩

theorem withTable (name : String) (related : Related ρ c d) (tables : ρ t u) :
    (c.withTable name t).Related ρ (d.withTable name u) := by
  intro other
  rw [get?_withTable, get?_withTable]
  split
  case isTrue => exact .some tables
  case isFalse => exact related other

theorem erase (related : Related ρ c d) (name : String) :
    Related ρ ⟨c.tables.erase name⟩ ⟨d.tables.erase name⟩ := by
  intro other
  simp only [Dict.get?_erase]
  split
  case isTrue => exact .none
  case isFalse => exact related other

/-- Related tables are related after a change is taken back in both. -/
theorem undo (stable : Table.Stable ρ) (related : Related ρ c d) (undone : c.undo change = .ok c') :
    ∃ d', d.undo change = .ok d' ∧ c'.Related ρ d' := by
  cases change with
  | inserted name id =>
    cases found : c.tables.get? name with
    | none => simp [Catalog.undo, Catalog.table, found] at undone
    | some t =>
      obtain ⟨u, found', tables⟩ := related.some_iff found
      rw [undo_inserted found, Except.ok.injEq] at undone
      subst undone
      exact ⟨_, undo_inserted found' id, related.withTable name (stable.erase id tables)⟩
  | replaced name id old | deleted name id old =>
    cases found : c.tables.get? name with
    | none => simp [Catalog.undo, Catalog.table, found] at undone
    | some t =>
      obtain ⟨u, found', tables⟩ := related.some_iff found
      simp only [Catalog.undo, Catalog.table, found, found', Except.ok.injEq, Except.ok_bind,
        Except.pure_eq_ok] at undone ⊢
      subst undone
      exact ⟨_, rfl, related.withTable name (stable.restore id old tables)⟩
  | created name =>
    cases found : c.tables.get? name with
    | none => simp [Catalog.undo, Catalog.dropTable, Catalog.table, found] at undone
    | some t =>
      obtain ⟨u, found', _⟩ := related.some_iff found
      simp only [Catalog.undo, Catalog.dropTable, Catalog.table, found, found', Except.ok.injEq,
        Except.ok_bind, Except.pure_eq_ok] at undone ⊢
      subst undone
      exact ⟨_, rfl, related.erase name⟩

theorem undoAll (stable : Table.Stable ρ) (related : Related ρ c d)
    (undone : c.undoAll changes = (.ok (), c')) :
    ∃ d', d.undoAll changes = (.ok (), d') ∧ c'.Related ρ d' := by
  induction changes generalizing c d with
  | nil =>
    simp only [Catalog.undoAll, Prod.mk.injEq, true_and] at undone
    exact ⟨d, rfl, undone ▸ related⟩
  | cons change rest ih =>
    unfold Catalog.undoAll at undone ⊢
    cases first : c.undo change with
    | error e => simp [first] at undone
    | ok middle =>
      obtain ⟨middle', first', related'⟩ := related.undo stable first
      simp only [first] at undone
      simpa only [first'] using ih related' undone

end Related

namespace Grown

theorem refl (c : Catalog) : c.Grown c := Related.refl Table.grown_stable c

theorem withTable (name : String) (grown : Grown c d) (larger : Table.Grown t u) :
    (c.withTable name t).Grown (d.withTable name u) :=
  Related.withTable name grown larger

theorem related {ρ : Table → Table → Prop} (stable : Table.Stable ρ) (grown : Grown c d) :
    c.Related ρ d := by
  intro name
  have rel := grown name
  revert rel
  cases c.tables.get? name <;> cases d.tables.get? name <;> intro rel <;> cases rel
  · exact .none
  · rename_i larger
    exact .some (stable.grown larger)

end Grown

theorem undoAll_append (undone : undoAll c recent = (.ok (), d)) :
    c.undoAll (recent ++ older) = d.undoAll older := by
  induction recent generalizing c with
  | nil =>
    simp only [undoAll, Prod.mk.injEq, true_and] at undone
    rw [undone, List.nil_append]
  | cons change rest ih =>
    unfold undoAll at undone
    rw [List.cons_append, undoAll]
    cases first : c.undo change with
    | error e => simp [first] at undone
    | ok middle =>
      simp only [first] at undone
      exact ih undone

/-- Whether taking back changes, newest first, leads to the tables of another catalog. -/
def Restores (c' : Catalog) (changes : List Change) (c : Catalog) : Prop :=
  ∃ d, c'.undoAll changes = (.ok (), d) ∧ c.Grown d

/-- Whether taking back changes, newest first, leads to tables that are related to those of another
catalog. -/
def RestoresUpTo (ρ : Table → Table → Prop) (c' : Catalog) (changes : List Change) (c : Catalog) :
    Prop :=
  ∃ d, c'.undoAll changes = (.ok (), d) ∧ c.Related ρ d

namespace RestoresUpTo

variable {ρ : Table → Table → Prop}

theorem refl (stable : Table.Stable ρ) (c : Catalog) : c.RestoresUpTo ρ [] c :=
  ⟨c, rfl, .refl stable c⟩

theorem trans (stable : Table.Stable ρ) (second : RestoresUpTo ρ c₂ recent c₁)
    (first : c₁.RestoresUpTo ρ older c) : c₂.RestoresUpTo ρ (recent ++ older) c := by
  obtain ⟨d₁, undone₁, related₁⟩ := second
  obtain ⟨d, undone, related⟩ := first
  obtain ⟨d', undone', related'⟩ := related₁.undoAll stable undone
  exact ⟨d', by rw [undoAll_append undone₁, undone'], related.trans stable related'⟩

end RestoresUpTo

namespace Restores

theorem refl (c : Catalog) : c.Restores [] c := RestoresUpTo.refl Table.grown_stable c

theorem trans (second : Restores c₂ recent c₁) (first : c₁.Restores older c) :
    c₂.Restores (recent ++ older) c :=
  RestoresUpTo.trans Table.grown_stable second first

theorem upTo {ρ : Table → Table → Prop} (stable : Table.Stable ρ)
    (restores : Restores c' changes c) :
    c'.RestoresUpTo ρ changes c := by
  obtain ⟨d, undone, grown⟩ := restores
  exact ⟨d, undone, grown.related stable⟩

/-- Taking back the recent part alone works, and leaves the older part to be taken back. -/
theorem split (restores : Restores c' (recent ++ older) c) :
    ∃ d, c'.undoAll recent = (.ok (), d) ∧ d.Restores older c := by
  induction recent generalizing c' with
  | nil => exact ⟨c', rfl, restores⟩
  | cons change rest ih =>
    obtain ⟨d, undone, grown⟩ := restores
    rw [List.cons_append, undoAll] at undone
    rw [undoAll]
    cases first : c'.undo change with
    | error e => simp [first] at undone
    | ok middle =>
      simp only [first] at undone ⊢
      exact ih ⟨d, undone, grown⟩

end Restores
end Catalog
end RankedStore
