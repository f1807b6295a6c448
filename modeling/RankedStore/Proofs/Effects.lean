import RankedStore.Proofs.Invariant
import RankedStore.Proofs.Ranking.Shift

/-! What a request makes of the tables, one table at a time: a new one is empty, and in an old one
rows are inserted, overwritten or deleted. A property of tables that all this keeps holds of every
table in every state of a store, as long as what is left of a failed update is like what was there
before. -/
namespace RankedStore

variable {I : Table → Prop} {c c' : Catalog} {t : Table} {u : Update}

/-- Every table has the property. -/
def Catalog.All (I : Table → Prop) (c : Catalog) : Prop :=
  ∀ name t, c.tables.get? name = some t → I t

theorem Catalog.All.empty : Catalog.empty.All I := by
  intro name t found
  cases found

theorem Catalog.All.withTable (all : c.All I) (name : String) (holds : I t) :
    (c.withTable name t).All I := by
  intro other u found
  rw [get?_withTable] at found
  split at found
  case isTrue =>
    cases found
    exact holds
  case isFalse => exact all other u found

theorem Catalog.All.lasting {ρ : Table → Table → Prop} (passes : ∀ t u, I t → ρ t u → I u) :
    LastingUpTo ρ (All I) := by
  intro c d all related name u found
  have rel := related name
  rw [found] at rel
  cases before : c.tables.get? name with
  | none =>
    rw [before] at rel
    cases rel
  | some t =>
    rw [before] at rel
    cases rel with
    | some rel => exact passes t u (all name t before) rel

/-- An update gives one row after the other a new value in its column. A property that each of these
writes keeps holds after the update, and also where it fails halfway. -/
theorem Table.updateWhere_keeps (holds : I t)
    (keeps : ∀ t id row i v t', I t → t.get? id = some row → t.layout.index u.column = .ok i →
      t.replace id (row.set i v) = .ok (some (row, t')) → I t') : I (t.updateWhere u).2 := by
  rcases t.updateWhere_spec u with ⟨e, failed⟩ | ⟨i, pending, place, planned, ran⟩
  · rw [failed]
    exact holds
  obtain ⟨ids, source⟩ := plan_source planned
  replace ids := t.scan_nodup.sublist ids
  have rows : ∀ e ∈ pending, ∃ row v, t.get? e.1 = some row ∧ e.2 = row.set i v := by
    intro e member
    obtain ⟨row, _, v, there, _, _, new⟩ := source e member
    exact ⟨row, v, mem_scan.mp there, new⟩
  rw [ran]
  clear ran source planned
  -- The rows that are still to be overwritten are those of the first table.
  induction pending generalizing t with
  | nil => exact holds
  | cons first rest ih =>
    obtain ⟨id, new⟩ := first
    obtain ⟨row, v, stored, rfl⟩ := rows _ (List.mem_cons_self ..)
    obtain ⟨fresh, ids⟩ := List.nodup_cons.mp ids
    unfold replaceAll
    split
    case h_1 => exact holds
    case h_2 => exact ih holds place ids fun e member => rows e (List.mem_cons_of_mem _ member)
    case h_3 old t' written =>
      obtain ⟨there, _, _, after⟩ := replace_eq_some written
      obtain rfl : row = old := Option.some.inj (stored.symm.trans there)
      have holds' := keeps t id row i v t' holds stored place written
      subst after
      refine ih holds' place ids fun e member => ?_
      have other : id ≠ e.1 := fun same => fresh (List.mem_map.mpr ⟨e, member, same.symm⟩)
      obtain ⟨row', v', stored', new⟩ := rows e (List.mem_cons_of_mem _ member)
      exact ⟨row', v', (Dict.get?_insert_of_ne _ _ other).trans stored', new⟩

namespace Request

/-- The row that the request puts in the place of the one with the id. -/
inductive Overwrites (t : Table) (id : Int64) (row : Row) : Request → Prop
  | replaced (table : String) : Overwrites t id row (.replace table id row)
  | cellSet {old : Row} {column : String} {i : Nat} {value : Value} (table : String) :
      t.get? id = some old → t.layout.index column = .ok i → row = old.set i value →
      Overwrites t id row (.updateById table id column value)
  | updated {u : Update} {old : Row} {i : Nat} {value : Value} : t.get? id = some old →
      t.layout.index u.column = .ok i → row = old.set i value → Overwrites t id row (.update u)

/-- The property of tables holds of the table that the request creates, and the writes of the
request keep it. -/
structure Keeps (I : Table → Prop) (r : Request) : Prop where
  created : ∀ layout, r = .createTable layout → I (.ofLayout layout)
  inserted : ∀ t row id t', I t → t.insert row = .ok (id, t') → I t'
  overwritten : ∀ t id row old t', I t → Overwrites t id row r →
    t.replace id row = .ok (some (old, t')) → I t'
  deleted : ∀ t id, I t → I { t with rows := t.rows.erase id }

theorem Keeps.effect {r : Request} (keeps : r.Keeps I) (all : c.All I) (effect : Effect c r c') :
    c'.All I := by
  cases effect with
  | nothing => exact all
  | created h =>
    obtain ⟨_, rfl⟩ := Catalog.createTable_eq_ok h
    exact all.withTable _ (keeps.created _ rfl)
  | inserted h =>
    obtain ⟨t, t', found, written, rfl⟩ := Catalog.insert_eq_ok h
    exact all.withTable _ (keeps.inserted t _ _ t' (all _ t found) written)
  | updated h =>
    rename_i u _
    unfold Catalog.updateWhere at h
    split at h
    case h_1 =>
      cases h
      exact all
    case h_2 t found =>
      cases h
      refine all.withTable _ (Table.updateWhere_keeps (all _ t (Catalog.table_eq_ok.mp found)) ?_)
      intro t id row i v t' holds stored place written
      exact keeps.overwritten t id _ row t' holds (.updated stored place rfl) written
  | cellSet found stored place h =>
    obtain ⟨t, t', found', written, rfl⟩ := Catalog.replace_eq_some h
    obtain rfl := Option.some.inj ((Catalog.table_eq_ok.mp found).symm.trans found')
    exact all.withTable _
      (keeps.overwritten _ _ _ _ t' (all _ _ found') (.cellSet _ stored place rfl) written)
  | replaced h =>
    obtain ⟨t, t', found, written, rfl⟩ := Catalog.replace_eq_some h
    exact all.withTable _ (keeps.overwritten t _ _ _ t' (all _ t found) (.replaced _) written)
  | deleted h =>
    obtain ⟨t, found, _, rfl⟩ := Catalog.delete_eq_some h
    exact all.withTable _ (keeps.deleted t _ (all _ t found))

end Request
end RankedStore
