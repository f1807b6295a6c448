import RankedStore.Proofs.Constraints
import RankedStore.Proofs.Presence

/-! The next ids of tables. They lie above all ids that the tables have rows under, and they never
come down: not by a request, and not by taking changes back either. A new row without an id gets the
next one, so that the tables that a transaction began with have not come to any id that is given out
in it. -/
namespace RankedStore

namespace Table

variable {t u : Table}

/-- The same ids, with a next one that has not come down. -/
def Aged (t u : Table) : Prop := t.SameIds u ∧ t.nextId ≤ u.nextId

theorem nextId_stable : Table.Stable fun t u => t.nextId ≤ u.nextId where
  grown larger := larger.nextId
  trans := Int64.le_trans
  restore _ _ le := le
  erase _ le := le

theorem aged_stable : Table.Stable Aged := sameIds_stable.and nextId_stable

theorem updateWhere_nextId (t : Table) (u : Update) : (t.updateWhere u).2.nextId = t.nextId := by
  apply updateWhere_keeps (I := fun t' => t'.nextId = t.nextId) rfl
  intro t' _ _ _ _ _ same _ _ written
  obtain ⟨_, _, _, rfl⟩ := replace_eq_some written
  exact same

theorem updateWhere_aged (t : Table) (u : Update) : t.Aged (t.updateWhere u).2 := by
  constructor
  · exact t.updateWhere_sameIds u
  · rw [updateWhere_nextId]
    exact Int64.le_refl _

theorem Below.aged (below : t.Below) (aged : t.Aged u) : u.Below := by
  obtain ⟨same, le⟩ := aged
  intro id row stored
  have there := same id
  rw [stored] at there
  obtain ⟨old, before⟩ := Option.isSome_iff_exists.mp there
  exact Int64.lt_of_lt_of_le (below id old before) le

end Table

namespace Catalog

variable {c d e : Catalog} {name : String} {t : Table} {place : String × Int64}

/-- All tables are still there, and their next ids have not come down. -/
def AgesTo (c d : Catalog) : Prop := ∀ name t, c.tables.get? name = some t →
  ∃ u, d.tables.get? name = some u ∧ t.nextId ≤ u.nextId

namespace AgesTo

theorem refl (c : Catalog) : c.AgesTo c := fun _ t found => ⟨t, found, Int64.le_refl _⟩

theorem trans (first : c.AgesTo d) (second : d.AgesTo e) : c.AgesTo e := by
  intro name t found
  obtain ⟨u, found, le⟩ := first name t found
  obtain ⟨v, found, le'⟩ := second name u found
  exact ⟨v, found, Int64.le_trans le le'⟩

theorem of_related (related : c.Related Table.Aged d) : c.AgesTo d := by
  intro name t found
  obtain ⟨u, found', aged⟩ := related.some_iff found
  exact ⟨u, found', aged.2⟩

theorem withTable (later : ∀ u, c.tables.get? name = some u → u.nextId ≤ t.nextId) :
    c.AgesTo (c.withTable name t) := by
  intro other u found
  rw [get?_withTable]
  split
  case isTrue same =>
    subst same
    exact ⟨t, rfl, later u found⟩
  case isFalse => exact ⟨u, found, Int64.le_refl _⟩

/-- A write to a table that is there. -/
theorem write (found : c.tables.get? name = some t) (le : t.nextId ≤ u.nextId) :
    c.AgesTo (c.withTable name u) := by
  apply withTable
  intro t' found'
  rw [found] at found'
  cases found'
  exact le

end AgesTo

/-- The table, if it is there, has not come to the id yet. -/
def StopsBefore (c : Catalog) (place : String × Int64) : Prop :=
  ∀ t, c.tables.get? place.1 = some t → t.nextId ≤ place.2

namespace StopsBefore

theorem earlier (stops : d.StopsBefore place) (ages : c.AgesTo d) : c.StopsBefore place := by
  intro t found
  obtain ⟨u, found, le⟩ := ages _ t found
  exact Int64.le_trans le (stops u found)

theorem row?_eq_none (stops : c.StopsBefore place) (below : c.All Table.Below) :
    c.row? place.1 place.2 = none := by
  cases stored : c.row? place.1 place.2 with
  | none => rfl
  | some row =>
    obtain ⟨t, found, there⟩ := Option.bind_eq_some_iff.mp stored
    have lt := below _ t found place.2 row there
    exact absurd (Int64.lt_of_lt_of_le lt (stops t found)) Int64.lt_irrefl

end StopsBefore

/-- Tables that may come after those of the base. -/
structure Follows (base c : Catalog) : Prop where
  ages : base.AgesTo c
  below : c.All Table.Below

namespace Follows

variable {base : Catalog}

theorem refl (below : c.All Table.Below) : c.Follows c := ⟨.refl c, below⟩

theorem lasting : LastingUpTo Table.Aged (Follows base) := by
  intro c d follows related
  constructor
  · exact follows.ages.trans (.of_related related)
  · exact All.lasting (fun _ _ below aged => below.aged aged) c d follows.below related

end Follows
end Catalog

namespace Request

variable {base c c' : Catalog} {r : Request} {s s' : Session} {answer : Except Error Reply}
  {place : String × Int64}

theorem keeps_below (r : Request) : r.Keeps Table.Below where
  created layout _ := .ofLayout layout
  inserted _ _ _ _ below h := below.insert h
  overwritten _ _ _ _ _ below _ h := below.replace h
  deleted _ id below := below.erase id

theorem Effect.ages (effect : Effect c r c') : c.AgesTo c' := by
  cases effect with
  | nothing => exact .refl c
  | created h =>
    obtain ⟨absent, rfl⟩ := Catalog.createTable_eq_ok h
    apply Catalog.AgesTo.withTable
    intro u found
    rw [absent] at found
    cases found
  | inserted h =>
    obtain ⟨t, t', found, written, rfl⟩ := Catalog.insert_eq_ok h
    obtain ⟨_, _, _, _, next, _, rfl⟩ := Table.insert_eq_ok written
    exact .write found (int64_le_max ..).1
  | updated h =>
    rename_i u _
    have related := c.updateWhere_related (u := u) Table.aged_stable fun t _ => t.updateWhere_aged u
    rw [h] at related
    exact .of_related related
  | cellSet _ _ _ h =>
    obtain ⟨t, t', found, written, rfl⟩ := Catalog.replace_eq_some h
    obtain ⟨_, _, _, rfl⟩ := Table.replace_eq_some written
    exact .write found (Int64.le_refl _)
  | replaced h =>
    obtain ⟨t, t', found, written, rfl⟩ := Catalog.replace_eq_some h
    obtain ⟨_, _, _, rfl⟩ := Table.replace_eq_some written
    exact .write found (Int64.le_refl _)
  | deleted h =>
    obtain ⟨t, found, _, rfl⟩ := Catalog.delete_eq_some h
    exact .write found (Int64.le_refl _)

/-- What a connection sees, and may come back to, comes after the base. -/
theorem follows (r : Request) (layered : s.LayeredUpTo Table.Aged (Catalog.Follows base)) :
    Session.LayeredUpTo Table.Aged (Catalog.Follows base) (r.run.run s).2 := by
  apply r.maintains Table.aged_stable Catalog.Follows.lasting s
  · intro c c' follows effect
    exact ⟨follows.ages.trans effect.ages, r.keeps_below.effect follows.below effect⟩
  · intro u e _ _ c _
    exact Catalog.updateWhere_related Table.aged_stable fun t _ => t.updateWhere_aged u
  · exact layered

/-- The id that a row was given which came without one, with its table. -/
def assigned : Request → Except Error Reply → List (String × Int64)
  | .insert table (.null :: _), .ok (.id id) => [(table, id)]
  | _, _ => []

theorem assigned_eq_next (proper : s.connection.Proper) (ran : r.run.run s = (answer, s'))
    (given : place ∈ r.assigned answer) :
    ∃ t, s.view.tables.get? place.1 = some t ∧ place.2 = t.nextId := by
  unfold assigned at given
  split at given
  case h_2 => cases given
  case h_1 table cells key =>
    obtain rfl := List.mem_singleton.mp given
    obtain ⟨c', written, acts⟩ := insert_acts table (.null :: cells) s.view
    have answers := acts.answers proper
    rw [ran] at answers
    rcases inserted : s.view.insert table (.null :: cells) with ⟨e | id, c''⟩ <;>
      rw [inserted] at answers
    · cases answers
    · cases answers
      obtain ⟨t, t', found, written, _⟩ := Catalog.insert_eq_ok inserted
      obtain ⟨own, _⟩ := Table.insert_eq_ok written
      cases own
      exact ⟨t, found, rfl⟩

/-- The tables of the base have not come to an id that is given out later. -/
theorem assigned_stops (layered : s.LayeredUpTo Table.Aged (Catalog.Follows base))
    (ran : r.run.run s = (answer, s')) : ∀ place ∈ r.assigned answer, base.StopsBefore place := by
  intro place given t found
  obtain ⟨u, seen, same⟩ := assigned_eq_next layered.proper ran given
  obtain ⟨u', seen', le⟩ := layered.view.ages _ t found
  rw [seen] at seen'
  cases seen'
  rw [same]
  exact le

end Request
end RankedStore
