import RankedStore.Proofs.Ranking.Neighbors

/-! Exchanging ranked records, moving one of them by one place, and renumbering all. Renumbering
finds nothing to do, because the positions never leave the numbers from 1 on. -/
namespace RankedStore

open RankedStore.Action

namespace Catalog.Ranked

variable {k : Ranking} {layout : TableLayout} {p : Nat} {c : Catalog} {t t' : Table}
  {order : List Int64} {id otherId : Int64}

theorem separated (ranked : c.Ranked layout p t order) : c.Separated layout p t := by
  refine ⟨ranked.positioned, fun a b m placed placed' => ?_⟩
  obtain ⟨i, here, rfl⟩ := ranked.ranks.listed.index placed
  obtain ⟨j, there, same⟩ := ranked.ranks.listed.index placed'
  obtain rfl : i = j := by omega
  exact Option.some.inj (here.symm.trans there)

theorem swapped (fits : k.Fits layout p) (ranked : c.Ranked layout p t order)
    (swapped : t.Swapped p id otherId t') :
    (c.withTable layout.name t').Ranked layout p t' (order.map (exchange id otherId)) := by
  obtain ⟨found, same, sound, _⟩ := Ranking.positioned_swapped fits ranked.positioned swapped
  exact ⟨found, same, sound, swapped.ranks ranked.ranks⟩

end Catalog.Ranked

namespace Ranking

variable {k : Ranking} {layout : TableLayout} {p : Nat} {c : Catalog} {t : Table}
  {order : List Int64} {r other : Record}

/-- The record has in memory the position that is stored for it. -/
def Current (k : Ranking) (p : Nat) (t : Table) (r : Record) : Prop :=
  ∀ id row, r.id = some id → t.get? id = some row →
    ∃ n, row[p]? = some (.integer n) ∧ r.integer? k.column = some n

theorem Fresh.current (fresh : k.Fresh p t r) (known : t.Known p) (obtained : r.Obtained)
    (unchanged : r.change? k.column = none) : k.Current p t r := by
  intro id row persisted stored
  obtain ⟨n, cell⟩ := known id row stored
  refine ⟨n, cell, ?_⟩
  rw [Record.integer?, fresh.unchanged obtained persisted stored cell unchanged]
  rfl

theorem Current.stands {id : Int64} {i : Nat} (current : k.Current p t r)
    (ranked : c.Ranked layout p t order) (own : r.entity = k.entity) (persisted : r.id = some id)
    (here : order[i]? = some id) :
    ∃ n, k.Stands p t r id n := by
  obtain ⟨row, n, stored, cell, _⟩ := ranked.ranks.row_at here
  obtain ⟨n', cell', position⟩ := current id row persisted stored
  rw [cell, Option.some.injEq, Value.integer.injEq] at cell'
  subst cell'
  exact ⟨n, own, persisted, position, Table.position?_of stored cell⟩

/-- The record is one of the ranking, and its row is in the list. -/
def Member (k : Ranking) (order : List Int64) (r : Record) (id : Int64) : Prop :=
  r.entity = k.entity ∧ r.id = some id ∧ id ∈ order

/-- Two stored records change places in the list. -/
theorem swap_stored {id otherId n m : Int64} (fits : k.Fits layout p)
    (ranked : c.Ranked layout p t order) (stands : k.Stands p t r id n)
    (stands' : k.Stands p t other otherId m) :
    ∃ answer c' t', Settles (k.swap r other) c (.ok answer) c' ∧
      c'.Ranked layout p t' (order.map (exchange id otherId)) := by
  obtain ⟨answer, t', swaps, swapped, _⟩ := swap_settles fits ranked.positioned stands stands'
  exact ⟨answer, _, t', swaps, ranked.swapped fits swapped⟩

/-- Exchanging with a record that is not stored, or of another type, changes nothing. -/
theorem swap_failed (fits : k.Fits layout p) (ranked : c.Ranked layout p t order)
    (refused : ¬ ∃ id otherId, k.Member order r id ∧ k.Member order other otherId) :
    ∃ e, Settles (k.swap r other) c (.error e) c := by
  have holds : t.layout.RanksBy k.column p := ranked.same ▸ fits.holds
  have found : c.tables.get? k.entity = some t := fits.entity ▸ ranked.found
  have table := Catalog.table_eq_ok.mpr found
  cases entity : k.checkEntity other with
  | error e => exact ⟨e, .bind_error (.ofTracked (.ofExcept entity))⟩
  | ok _ =>
    cases position : k.positionOf r with
    | error e =>
      exact ⟨e, .after (.ofExcept entity) (.bind_error (.ofTracked (.ofExcept position)))⟩
    | ok n =>
      cases position' : k.positionOf other with
      | error e =>
        exact ⟨e, .after (.ofExcept entity) (.after (.ofExcept position)
          (.bind_error (.ofTracked (.ofExcept position'))))⟩
      | ok m =>
        obtain ⟨own, id, persisted⟩ := positionOf_eq_ok position
        obtain ⟨own', otherId, persisted'⟩ := positionOf_eq_ok position'
        have ownId : r.requireId = .ok id := by rw [Record.requireId, persisted]
        have otherOwnId : other.requireId = .ok otherId := by rw [Record.requireId, persisted']
        obtain ⟨e, c', w, body⟩ : ∃ e c' w, Tracked (do
            updateById k.entity id k.column (.integer m)
            updateById k.entity otherId k.column (.integer n)
            return (← k.fetch id, ← k.fetch otherId)) c (.error e) c' w := by
          by_cases member : id ∈ order
          · have missing : otherId ∉ order := fun member' =>
              refused ⟨id, otherId, ⟨own, persisted, member⟩, own', persisted', member'⟩
            obtain ⟨row, stored⟩ := ranked.ranks.mem_iff.mp member
            obtain ⟨w, first⟩ := setPosition_tracked found ranked.sound holds stored m
            have there := Catalog.table_eq_ok.mpr (c.get?_withTable_self k.entity
              { t with rows := t.rows.insert id (row.set p (.integer m)) })
            refine ⟨_, _, _, first.bind (.bind_error (updateById_missing there ?_))⟩
            exact (Table.Moved.ofSet stored).absent otherId (ranked.absent missing)
          · exact ⟨_, _, _, .bind_error (updateById_missing table (ranked.absent member))⟩
        refine ⟨e, .after (.ofExcept entity) (.after (.ofExcept position)
          (.after (.ofExcept position') (.after (.ofExcept ownId)
            (.after (.ofExcept otherOwnId) ?_))))⟩
        exact .after (layout_tracked table)
          (.after (.report ..) body.transactional_error.bind_error)

/-- The index next to another one, on the side of an extremum. -/
def Adjoins : Extremum → Nat → Nat → Prop
  | .min, i, j => j + 1 = i
  | .max, i, j => j = i + 1

/-- Ids next to each other in the list have positions next to each other. -/
theorem Adjoins.beside {e : Extremum} {i j : Nat} (adjoins : Adjoins e i j)
    (position : Int64 → Option Int) :
    Beside position e ((i : Int) + 1) ((j : Int) + 1) := by
  constructor
  · cases e <;> simp only [Adjoins, Extremum.Beyond] at * <;> omega
  · intro key l _ beyond beyond'
    cases e <;> simp only [Adjoins, Extremum.Beyond] at * <;> omega

/-- No position lies beyond that of an id which has none next to it. -/
theorem outermost_of_alone {e : Extremum} {i : Nat} {id : Int64} (ranks : t.Ranks p order)
    (here : order[i]? = some id) (alone : ∀ j otherId, order[j]? = some otherId → ¬ Adjoins e i j) :
    Outermost (t.position? p) e ((i : Int) + 1) := by
  intro key m placed beyond
  obtain ⟨l, there, rfl⟩ := ranks.listed.index placed
  have bound := (List.getElem?_eq_some_iff.mp here).1
  have bound' := (List.getElem?_eq_some_iff.mp there).1
  cases e with
  | min =>
    simp only [Extremum.Beyond] at beyond
    have inside : i - 1 < order.length := by omega
    exact alone (i - 1) _ (List.getElem?_eq_getElem inside) (Nat.sub_add_cancel (by omega))
  | max =>
    simp only [Extremum.Beyond] at beyond
    have inside : i + 1 < order.length := by omega
    exact alone (i + 1) _ (List.getElem?_eq_getElem inside) rfl

/-- A record that is not at the end changes places with its neighbor. -/
theorem step_stored {id otherId n : Int64} {i j : Nat} {e : Extremum} (fits : k.Fits layout p)
    (ranked : c.Ranked layout p t order) (stands : k.Stands p t r id n) (here : order[i]? = some id)
    (there : order[j]? = some otherId) (adjoins : Adjoins e i j)
    (already alone : Error.Precondition) :
    ∃ moved m t', Settles (k.step e already alone r) c (.ok moved) (c.withTable layout.name t') ∧
      t.Swapped p id otherId t' ∧ k.Stands p t' moved id m := by
  obtain ⟨_, m, _, _, place'⟩ := ranked.ranks.row_at there
  have placed := ranked.ranks.listed.placed i id here
  have placed' := ranked.ranks.listed.placed j otherId there
  have place : n.toInt = (i : Int) + 1 := Option.some.inj (stands.placed.symm.trans placed)
  have near := adjoins.beside (t.position? p)
  rw [← place, ← place'] at near
  rw [← place'] at placed'
  obtain ⟨moved, t', steps⟩ := step_exchanges fits ranked.separated stands near placed'
    already alone
  exact ⟨moved, m, t', steps⟩

/-- A record at the end stays there, and one that is not stored goes nowhere. -/
theorem step_failed (fits : k.Fits layout p) (ranked : c.Ranked layout p t order)
    (current : k.Current p t r) (e : Extremum) (already alone : Error.Precondition)
    (refused : ¬ ∃ id otherId i j, k.Member order r id ∧ order[i]? = some id ∧
      order[j]? = some otherId ∧ Adjoins e i j) :
    ∃ error, Settles (k.step e already alone r) c (.error error) c := by
  cases known : k.positionOf r with
  | error error => exact ⟨error, .bind_error (.ofTracked (.bind_error (.ofExcept known)))⟩
  | ok n =>
    obtain ⟨own, id, persisted⟩ := positionOf_eq_ok known
    by_cases member : id ∈ order
    · obtain ⟨i, here⟩ := List.getElem?_of_mem member
      obtain ⟨m, stands⟩ := current.stands ranked own persisted here
      have place := Option.some.inj
        (stands.placed.symm.trans (ranked.ranks.listed.placed i id here))
      have final : Outermost (t.position? p) e m.toInt := by
        rw [place]
        apply outermost_of_alone ranked.ranks here
        exact fun j otherId there adjoins =>
          refused ⟨id, otherId, i, j, ⟨own, persisted, member⟩, here, there, adjoins⟩
      exact ⟨_, .ofTracked (step_refused fits ranked.positioned stands final already alone)⟩
    · obtain ⟨best, seen, _⟩ := extremum_tracked fits ranked e
      have tested : Tracked (k.atEnd e r) c (.ok (decide (best = some n))) c [] :=
        .after (.ofExcept known) (seen.after (.pure ..))
      obtain ⟨result, near, _⟩ := neighbor_tracked fits ranked.positioned (towards e) n (outwards e)
      have found : Tracked (k.beside e r) c (.ok result) c [] := .after (.ofExcept known) near
      have outside : ∀ other, ¬ ∃ id otherId, k.Member order r id ∧
        k.Member order other otherId := by
        rintro other ⟨id', _, ⟨_, persisted', member'⟩, _⟩
        rw [persisted, Option.some.injEq] at persisted'
        exact member (persisted' ▸ member')
      by_cases last : decide (best = some n) = true
      · refine ⟨.preconditionFailed already, .after tested ?_⟩
        rw [if_pos last]
        exact .bind_error (.ofTracked (.throw ..))
      cases result with
      | none =>
        refine ⟨.preconditionFailed alone, .after tested ?_⟩
        rw [if_neg last]
        exact .after found (.ofTracked (.throw ..))
      | some other =>
        obtain ⟨error, fails⟩ := swap_failed fits ranked (outside other)
        refine ⟨error, .after tested ?_⟩
        rw [if_neg last]
        exact .after found fails.bind_error

/-- Records that have the positions from `expected` on stay as they are. -/
theorem renumber_tracked {records : List Record} {expected : Int64}
    (positions : ∀ (i : Nat) r, records[i]? = some r →
      ∃ n, r.integer? k.column = some n ∧ n.toInt = expected.toInt + i) (c : Catalog) :
    Tracked (k.renumber expected records) c (.ok 0) c [] := by
  induction records generalizing expected with
  | nil => exact .pure ..
  | cons r rest ih =>
    obtain ⟨n, position, value⟩ := positions 0 r rfl
    obtain rfl : n = expected := Int64.toInt_inj.mp (by simpa using value)
    rw [renumber, if_pos position]
    refine ih fun i r there => ?_
    obtain ⟨m, position, value⟩ := positions (i + 1) r there
    refine ⟨m, position, ?_⟩
    -- The number after this one is in range, for it is at most the position of a record.
    have greatest := m.toInt_lt
    have least := n.le_toInt
    have one : (1 : Int64).toInt = 1 := rfl
    rw [Int64.toInt_add, one, Int.bmod_eq_of_le (by omega) (by omega)]
    omega

/-- All records are read in the order of their positions. -/
theorem ordered_seen (fits : k.Fits layout p) (positioned : c.Positioned layout p t) :
    ∃ (rows : List Row) (records : List Record), Tracked k.ordered c (.ok records) c [] ∧
      records.length = rows.length ∧ rows.Perm t.rows.values ∧
      (rows.map (Table.integerAt p)).Pairwise (· ≤ ·) ∧
      ∀ (i : Nat) r, records[i]? = some r → ∃ row, rows[i]? = some row ∧
        Record.ofRow layout row = .ok r ∧
        ∃ id n, row[p]? = some (.integer n) ∧ k.Taken layout p t r id n := by
  have holds : t.layout.RanksBy k.column p := positioned.same ▸ fits.holds
  have table : c.table k.entity = .ok t := Catalog.table_eq_ok.mpr (fits.entity ▸ positioned.found)
  obtain ⟨rows, ran, perm, ascending⟩ := positioned.known.select_all holds k.entity
  have seen : Tracked (Action.select ⟨k.entity, .all, some (k.column, .ascending), none⟩) c
      (.ok rows) c [] :=
    .after (.report ..) (.read (by simp [Catalog.select, table, ran]))
  have each : ∀ row ∈ rows, ∃ r, Tracked (Action.ofExcept (Record.ofRow layout row)) c
    (.ok r) c [] ∧
      Record.ofRow layout row = .ok r ∧
      ∃ id n, row[p]? = some (.integer n) ∧ k.Taken layout p t r id n := by
    intro row member
    obtain ⟨id, stored⟩ := Dict.mem_values.mp (perm.mem_iff.mp member)
    obtain ⟨n, cell⟩ := positioned.known id row stored
    obtain ⟨r, read, taken⟩ := Taken.ofRow fits positioned stored cell
    exact ⟨r, .ofExcept read, read, id, n, cell, taken⟩
  obtain ⟨records, read, count, alike⟩ := Tracked.mapM each
  rw [← positioned.same] at read
  exact ⟨rows, records, .after (layout_tracked table) (seen.after read), count, perm,
    ascending, alike⟩

/-- Positions from 1 to N are read in this order. -/
theorem ordered_tracked (fits : k.Fits layout p) (ranked : c.Ranked layout p t order) :
    ∃ records, Tracked k.ordered c (.ok records) c [] ∧
      ∀ (i : Nat) r, records[i]? = some r →
        ∃ n, r.integer? k.column = some n ∧ n.toInt = (1 : Int64).toInt + i := by
  obtain ⟨rows, records, read, _, perm, ascending, alike⟩ := ordered_seen fits ranked.positioned
  have positions := ranked.ranks.sorted_positions perm ascending
  refine ⟨records, read, fun i r there => ?_⟩
  obtain ⟨row, from_row, _, id, n, value, taken⟩ := alike i r there
  have cell := congrArg (fun l : List Int => l[i]?) positions
  rw [List.getElem?_map, List.getElem?_map, from_row] at cell
  obtain ⟨j, found, place⟩ := Option.map_eq_some_iff.mp cell.symm
  obtain ⟨_, same⟩ := List.getElem?_eq_some_iff.mp found
  rw [List.getElem_range] at same
  rw [Table.integerAt_eq value] at place
  have one : (1 : Int64).toInt = 1 := rfl
  exact ⟨n, taken.value, by omega⟩

/-- Renumbering finds every record at its place. -/
theorem compact_stored (fits : k.Fits layout p) (ranked : c.Ranked layout p t order) :
    Settles k.compact c (.ok 0) c := by
  obtain ⟨records, read, positions⟩ := ordered_tracked fits ranked
  exact .after read ((renumber_tracked positions c).transactional.followed fun d =>
    .after (.report ..) (.pure ..))

end Ranking
end RankedStore
