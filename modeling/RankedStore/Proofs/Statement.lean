import RankedStore.Proofs.Acts
import RankedStore.Proofs.Restore

/-! What each statement does, and that its notes in the undo log are exact: taking them back brings
back the tables before the statement, and a statement without notes changed nothing. The one
exception is an update that fails halfway. -/
namespace RankedStore

theorem int64_le_max (a b : Int64) : a ≤ max a b ∧ b ≤ max a b := by
  simp only [max]
  split
  case isTrue le => exact ⟨le, Int64.le_refl b⟩
  case isFalse gt => exact ⟨Int64.le_refl a, Int64.le_of_lt (Int64.not_le.mp gt)⟩

namespace Table

variable {t t' : Table} {id : Int64} {row old : Row} {pending : List (Int64 × Row)}

theorem replace_eq_some (h : t.replace id row = .ok (some (old, t'))) :
    t.rows.get? id = some old ∧ t.checkRow row = .ok () ∧ t.checkUnique row (some id) = .ok () ∧
      t' = { t with rows := t.rows.insert id row } := by
  unfold replace at h
  split at h
  case h_1 => simp at h
  case h_2 stored found =>
    simp only [get?] at found
    cases cells : t.checkRow row with
    | error e => simp [cells] at h
    | ok _ =>
      cases unique : t.checkUnique row (some id) with
      | error e => simp [cells, unique] at h
      | ok _ =>
        simp only [cells, unique, Except.ok.injEq, Option.some.injEq, Prod.mk.injEq, Except.ok_bind,
          Except.pure_eq_ok] at h
        exact ⟨h.1 ▸ found, rfl, rfl, h.2.symm⟩

theorem insert_eq_ok (h : t.insert row = .ok (id, t')) :
    t.idOf row = .ok id ∧ t.checkRow (.integer id :: row.tail) = .ok () ∧
      t.rows.get? id = none ∧ t.checkUnique (.integer id :: row.tail) none = .ok () ∧
      ∃ next, addChecked id 1 = some next ∧
        t' = { t with
          rows := t.rows.insert id (.integer id :: row.tail), nextId := max t.nextId next } := by
  unfold insert at h
  cases given : t.idOf row with
  | error e => simp [given] at h
  | ok own =>
    simp only [given, bind, Except.bind] at h
    cases cells : t.checkRow (.integer own :: row.tail) with
    | error e => simp [cells] at h
    | ok _ =>
      simp only [cells] at h
      split at h
      case isTrue => simp [throw, throwThe, MonadExceptOf.throw] at h
      case isFalse free =>
        simp only [Except.pure_eq_ok] at h
        cases unique : t.checkUnique (.integer own :: row.tail) none with
        | error e => simp [unique] at h
        | ok _ =>
          simp only [unique] at h
          split at h
          case h_1 => simp [throw, throwThe, MonadExceptOf.throw] at h
          case h_2 next following =>
            simp only [Except.ok.injEq, Prod.mk.injEq] at h
            obtain ⟨rfl, rfl⟩ := h
            have absent : t.rows.get? own = none := by simpa [Dict.contains] using free
            exact ⟨rfl, cells, absent, unique, next, following, rfl⟩

theorem restore_replaced (found : t.rows.get? id = some old) :
    Table.restore { t with rows := t.rows.insert id row } id old = t := by
  simp only [restore, Dict.insert_insert, Dict.insert_of_get? found]

/-- The changes that an update notes, newest first. -/
def noted (name : String) (replaced : List (Int64 × Row)) : List Change :=
  (replaced.map fun e => .replaced name e.1 e.2).reverse

theorem replaceAll_restores (c : Catalog) (name : String)
    (h : t.replaceAll pending = (.ok replaced, t')) :
    (c.withTable name t').Restores (noted name replaced) (c.withTable name t) := by
  induction pending generalizing t replaced with
  | nil =>
    simp only [replaceAll, Prod.mk.injEq, Except.ok.injEq] at h
    obtain ⟨rfl, rfl⟩ := h
    exact .refl _
  | cons row rest ih =>
    obtain ⟨id, row⟩ := row
    unfold replaceAll at h
    split at h
    case h_1 => simp at h
    case h_2 => exact ih h
    case h_3 old middle written =>
      obtain ⟨found, _, _, rfl⟩ := replace_eq_some written
      cases tail : Table.replaceAll { t with rows := t.rows.insert id row } rest with
      | mk outcome last =>
        cases outcome with
        | error e => simp [tail, Except.map] at h
        | ok others =>
          simp only [tail, Except.map, Prod.mk.injEq, Except.ok.injEq] at h
          obtain ⟨rfl, rfl⟩ := h
          have one : (c.withTable name { t with rows := t.rows.insert id row }).Restores
              [.replaced name id old] (c.withTable name t) := by
            refine ⟨c.withTable name t, ?_, .refl _⟩
            have there : (c.withTable name { t with rows := t.rows.insert id row }).table name =
              .ok _ :=
              Catalog.table_eq_ok.mpr (by rw [Catalog.get?_withTable, if_pos rfl])
            simp [Catalog.undoAll, Catalog.undo, there, restore_replaced found]
          simpa only [noted, List.map_cons, List.reverse_cons] using (ih tail).trans one

theorem replaceAll_eq_nil (h : t.replaceAll pending = (.ok [], t')) : t' = t := by
  induction pending with
  | nil => simpa [replaceAll, eq_comm] using h
  | cons row rest ih =>
    obtain ⟨id, row⟩ := row
    unfold replaceAll at h
    split at h
    case h_1 => simp at h
    case h_2 => exact ih h
    case h_3 old middle written =>
      cases outcome : (middle.replaceAll rest).1 <;> simp [outcome, Except.map] at h

theorem updateWhere_spec (t : Table) (u : Update) :
    (∃ e, t.updateWhere u = (.error e, t)) ∨
      ∃ i pending, t.layout.index u.column = .ok i ∧ t.plan u i t.scan = .ok pending ∧
        t.updateWhere u = t.replaceAll pending := by
  unfold updateWhere
  cases place : t.layout.index u.column with
  | error e => exact .inl ⟨e, rfl⟩
  | ok i =>
    cases planned : t.plan u i t.scan with
    | error e => exact .inl ⟨e, by simp [planned]⟩
    | ok pending => exact .inr ⟨i, pending, rfl, planned, by simp [planned]⟩

end Table

namespace Catalog

variable {c c' : Catalog} {name : String} {id : Int64} {row old : Row}

theorem insert_eq_ok (h : c.insert name row = (.ok id, c')) : ∃ t t', c.tables.get? name = some t ∧
    t.insert row = .ok (id, t') ∧ c' = c.withTable name t' := by
  unfold insert at h
  cases found : c.table name with
  | error e => simp [found] at h
  | ok t =>
    cases written : t.insert row with
    | error e => simp [found, written] at h
    | ok result =>
      obtain ⟨own, t'⟩ := result
      simp only [found, written, Prod.mk.injEq, Except.ok.injEq, Except.ok_bind] at h
      obtain ⟨rfl, rfl⟩ := h
      exact ⟨t, t', table_eq_ok.mp found, written, rfl⟩

theorem replace_eq_some (h : c.replace name id row = (.ok (some old), c')) : ∃ t t',
    c.tables.get? name = some t ∧ t.replace id row = .ok (some (old, t')) ∧
      c' = c.withTable name t' := by
  unfold replace at h
  cases found : c.table name with
  | error e => simp [found] at h
  | ok t =>
    rcases written : t.replace id row with e | _ | ⟨before, t'⟩ <;>
      simp [found, written] at h
    obtain ⟨rfl, rfl⟩ := h
    exact ⟨t, t', table_eq_ok.mp found, written, rfl⟩

theorem delete_eq_some (h : c.delete name id = (.ok (some old), c')) : ∃ t,
    c.tables.get? name = some t ∧ t.rows.get? id = some old ∧
      c' = c.withTable name { t with rows := t.rows.erase id } := by
  unfold delete at h
  cases found : c.table name with
  | error e => simp [found] at h
  | ok t =>
    cases stored : t.rows.get? id with
    | none => simp [found, Table.delete, Table.get?, stored] at h
    | some row =>
      simp only [found, Table.delete, Table.get?, stored, Option.map_some, Prod.mk.injEq,
        Except.ok.injEq, Option.some.injEq] at h
      obtain ⟨rfl, rfl⟩ := h
      exact ⟨t, table_eq_ok.mp found, stored, rfl⟩

theorem createTable_of_absent (absent : c.hasTable layout.name = false) :
    c.createTable layout = .ok (c.withTable layout.name (.ofLayout layout)) := by
  rw [createTable, absent]
  rfl

theorem createTable_eq_ok (h : c.createTable layout = .ok c') :
    c.tables.get? layout.name = none ∧ c' = c.withTable layout.name (.ofLayout layout) := by
  unfold createTable at h
  split at h
  case isTrue => cases h
  case isFalse absent =>
    cases h
    exact ⟨by simpa [hasTable, Dict.contains] using absent, rfl⟩

theorem insert_restores (h : c.insert name row = (.ok id, c')) :
    c'.Restores [.inserted name id] c := by
  obtain ⟨t, _, found, written, rfl⟩ := insert_eq_ok h
  obtain ⟨_, _, absent, _, next, _, rfl⟩ := Table.insert_eq_ok written
  have there : (c.withTable name { t with
      rows := t.rows.insert id (.integer id :: row.tail)
      nextId := max t.nextId next }).table name = .ok _ :=
    table_eq_ok.mpr (by rw [get?_withTable, if_pos rfl])
  refine ⟨c.withTable name { t with nextId := max t.nextId next }, ?_, ?_⟩
  · simp [undoAll, undo, there, Table.delete, Table.get?, Dict.erase_insert absent]
  · have larger : t.Grown { t with nextId := max t.nextId next } := ⟨rfl, rfl, (int64_le_max ..).1⟩
    simpa only [withTable_of_get? found] using (Grown.refl c).withTable name larger

theorem insert_failed (h : c.insert name row = (.error e, c')) : c' = c := by
  unfold insert at h
  split at h <;> simp_all

theorem replace_restores (h : c.replace name id row = (.ok (some old), c')) :
    c'.Restores [.replaced name id old] c := by
  obtain ⟨t, _, found, written, rfl⟩ := replace_eq_some h
  obtain ⟨stored, _, _, rfl⟩ := Table.replace_eq_some written
  have there : (c.withTable name { t with rows := t.rows.insert id row }).table name = .ok _ :=
    table_eq_ok.mpr (by rw [get?_withTable, if_pos rfl])
  refine ⟨c, ?_, .refl c⟩
  simp [undoAll, undo, there, Table.restore_replaced stored, withTable_of_get? found]

theorem replace_unchanged (h : c.replace name id row = (answer, c'))
    (nothing : ∀ old, answer ≠ .ok (some old)) : c' = c := by
  unfold replace at h
  split at h
  case h_1 | h_2 => exact (Prod.mk.inj h).2.symm
  case h_3 => exact absurd (Prod.mk.inj h).1.symm (nothing _)

theorem delete_restores (h : c.delete name id = (.ok (some old), c')) :
    c'.Restores [.deleted name id old] c := by
  obtain ⟨t, found, stored, rfl⟩ := delete_eq_some h
  have there : (c.withTable name { t with rows := t.rows.erase id }).table name = .ok _ :=
    table_eq_ok.mpr (by rw [get?_withTable, if_pos rfl])
  refine ⟨c, ?_, .refl c⟩
  simp [undoAll, undo, there, Table.restore, Dict.insert_erase stored, withTable_of_get? found]

theorem delete_unchanged (h : c.delete name id = (answer, c'))
    (nothing : ∀ old, answer ≠ .ok (some old)) : c' = c := by
  unfold delete at h
  split at h
  case h_1 => exact (Prod.mk.inj h).2.symm
  case h_2 =>
    split at h
    case h_1 => exact (Prod.mk.inj h).2.symm
    case h_2 => exact absurd (Prod.mk.inj h).1.symm (nothing _)

theorem createTable_restores (h : c.createTable layout = .ok c') :
    c'.Restores [.created layout.name] c := by
  obtain ⟨absent, rfl⟩ := createTable_eq_ok h
  have there : (c.withTable layout.name (.ofLayout layout)).table layout.name = .ok _ :=
    table_eq_ok.mpr (by rw [get?_withTable, if_pos rfl])
  refine ⟨c, ?_, .refl c⟩
  simp only [undoAll, undo, dropTable, there, Except.ok_bind]
  exact congrArg _ (congrArg mk (Dict.erase_insert absent))

/-- An update changes no other table than its own. -/
theorem updateWhere_related {ρ : Table → Table → Prop} (stable : Table.Stable ρ)
    (own : ∀ t, c.tables.get? u.table = some t → ρ t (t.updateWhere u).2) :
    c.Related ρ (c.updateWhere u).2 := by
  unfold updateWhere
  cases found : c.table u.table with
  | error e => exact .refl stable c
  | ok t =>
    have there := table_eq_ok.mp found
    have related := (Related.refl stable c).withTable u.table (own t there)
    rwa [withTable_of_get? there] at related

/-- An update that changes no row leaves everything as it is. -/
theorem updateWhere_ok (h : c.updateWhere u = (.ok replaced, c')) :
    c'.Restores (Table.noted u.table replaced) c ∧ (replaced = [] → c' = c) := by
  unfold updateWhere at h
  cases found : c.table u.table with
  | error e => simp [found] at h
  | ok t =>
    have stored := table_eq_ok.mp found
    simp only [found, Prod.mk.injEq] at h
    obtain ⟨outcome, rfl⟩ := h
    rcases t.updateWhere_spec u with ⟨e, failed⟩ | ⟨i, pending, _, _, ran⟩
    · simp [failed] at outcome
    · rw [ran] at outcome ⊢
      have ran : t.replaceAll pending = (.ok replaced, (t.replaceAll pending).2) :=
        Prod.ext outcome rfl
      refine ⟨?_, ?_⟩
      · simpa only [withTable_of_get? stored] using Table.replaceAll_restores c u.table ran
      · rintro rfl
        rw [Table.replaceAll_eq_nil ran, withTable_of_get? stored]

end Catalog
end RankedStore
