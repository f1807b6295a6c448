import RankedStore.Proofs.Ranking.Moves
import RankedStore.Proofs.Ranking.Registered

/-! Whole runs of operations on the records of one ranked type. The table stands for a list of ids
with the positions 1 to N, and every operation does to this list what its name says, or fails and
does nothing. -/
namespace RankedStore.Ranking

open RankedStore.Action

inductive Operation
  | save (r : Record)
  | remove (r : Record)
  | swap (r other : Record)
  | moveUp (r : Record)
  | moveDown (r : Record)
  | compact

inductive Answer
  | record (r : Record)
  | pair (r other : Record)
  | count (n : Nat)

/-- The record came to its state through its operations, and remembers the position that is
stored. -/
structure Loaded (k : Ranking) (p : Nat) (c : Catalog) (r : Record) : Prop where
  obtained : r.Obtained
  fresh : ∀ t, c.tables.get? k.entity = some t → k.Fresh p t r

theorem Loaded.of_row {k : Ranking} {p : Nat} {c : Catalog} {r : Record} {id : Int64} {row : Row}
    (obtained : r.Obtained) (persisted : r.id = some id)
    (stored : (c.tables.get? k.entity).bind (·.get? id) = some row)
    (remembered : row[p]? = some (r.storedValue k.column)) : k.Loaded p c r := by
  refine ⟨obtained, fun t found id' row' persisted' stored' => ?_⟩
  obtain rfl : id = id' := Option.some.inj (persisted.symm.trans persisted')
  rw [found, Option.bind_some, stored', Option.some.injEq] at stored
  rw [stored, remembered]

/-- One id comes right before another one. -/
def Successive (order : List Int64) (id next : Int64) : Prop :=
  ∃ i : Nat, order[i]? = some id ∧ order[i + 1]? = some next

namespace Operation

def run (g : Registry) (k : Ranking) : Operation → Action Answer
  | .save r => return .record (← g.save r)
  | .remove r => return .record (← g.remove r)
  | .swap r other => do
    let records ← k.swap r other
    return .pair records.1 records.2
  | .moveUp r => return .record (← k.moveUp r)
  | .moveDown r => return .record (← k.moveDown r)
  | .compact => return .count (← k.compact)

/-- Stored records that are written or moved have to remember their stored position, and those that
are moved must not have another one set. -/
def Meets (k : Ranking) (p : Nat) (c : Catalog) : Operation → Prop
  | .save r => r.entity = k.entity ∧ (r.id ≠ none → k.Loaded p c r)
  | .remove r => r.entity = k.entity
  | .swap r other => ∀ x ∈ [r, other], x.id ≠ none → k.Loaded p c x ∧ x.change? k.column = none
  | .moveUp r | .moveDown r => r.id ≠ none → k.Loaded p c r ∧ r.change? k.column = none
  | .compact => True

/-- When an operation succeeds. -/
def Permitted (k : Ranking) (layout : TableLayout) (t : Table) (order : List Int64) :
    Operation → Prop
  | .save r => match r.id with
    | none => k.Admits layout t order r
    | some _ => r.isDirty = true → k.Takes layout t order r
  | .remove r => ∃ id ∈ order, r.id = some id
  | .swap r other => ∃ id otherId, k.Member order r id ∧ k.Member order other otherId
  | .moveUp r => ∃ id otherId, k.Member order r id ∧ Successive order otherId id
  | .moveDown r => ∃ id otherId, k.Member order r id ∧ Successive order id otherId
  | .compact => True

/-- What an operation with this answer does to the list. -/
inductive Does (k : Ranking) (order : List Int64) :
    Operation → Except Error Answer → List Int64 → Prop
  | joined {id : Int64} : r.id = none → saved.id = some id →
      Does k order (.save r) (.ok (.record saved)) (k.joined order id)
  | moved {id new : Int64} : r.id = some id → r.change? k.column = some (old, .integer new) →
      1 ≤ new.toInt → new.toInt ≤ order.length →
      Does k order (.save r) (.ok (.record saved))
        ((order.erase id).insertIdx (new.toInt.toNat - 1) id)
  | kept {id : Int64} : r.id = some id → r.change? k.column = none →
      Does k order (.save r) (.ok (.record saved)) order
  | removed {id : Int64} : r.id = some id →
      Does k order (.remove r) (.ok (.record r.detach)) (order.erase id)
  | swapped {id otherId : Int64} : r.id = some id → other.id = some otherId →
      Does k order (.swap r other) (.ok (.pair r' other')) (order.map (exchange id otherId))
  | raised {id otherId : Int64} : r.id = some id → Successive order otherId id →
      Does k order (.moveUp r) (.ok (.record r')) (order.map (exchange id otherId))
  | lowered {id otherId : Int64} : r.id = some id → Successive order id otherId →
      Does k order (.moveDown r) (.ok (.record r')) (order.map (exchange id otherId))
  | compacted : Does k order .compact (.ok (.count 0)) order
  | failed : Does k order op (.error e) order

/-- An operation on tables that hold the list answers as it should, fails without a change if it is
not permitted, and leaves tables that hold the list after it. -/
structure Follows (k : Ranking) (layout : TableLayout) (p : Nat) (c : Catalog) (order : List Int64)
    (op : Operation) (answer : Except Error Answer) (c' : Catalog) (order' : List Int64) :
    Prop where
  does : op.Does k order answer order'
  permitted : ∃ t, c.Ranked layout p t order ∧
    ((∃ a, answer = .ok a) ↔ op.Permitted k layout t order)
  unchanged : ∀ e, answer = .error e → c' = c
  ranked : ∃ t, c'.Ranked layout p t order'

variable {g : Registry} {reg : Registration} {k : Ranking} {p : Nat} {c c' : Catalog} {t t' : Table}
  {order order' : List Int64} {op : Operation} {layout : TableLayout}

theorem Follows.succeeds (ranked : c.Ranked layout p t order)
    (permitted : op.Permitted k layout t order) (does : op.Does k order (.ok answer) order')
    (after : c'.Ranked layout p t' order') :
    op.Follows k layout p c order (.ok answer) c' order' where
  does := does
  permitted := ⟨t, ranked, fun _ => permitted, fun _ => ⟨answer, rfl⟩⟩
  unchanged _ contra := by cases contra
  ranked := ⟨t', after⟩

theorem Follows.fails (ranked : c.Ranked layout p t order)
    (refused : ¬ op.Permitted k layout t order) (e : Error) :
    op.Follows k layout p c order (.error e) c order where
  does := .failed
  permitted := ⟨t, ranked, (by rintro ⟨_, ⟨⟩⟩), fun permitted => absurd permitted refused⟩
  unchanged _ _ := rfl
  ranked := ⟨t, ranked⟩

theorem save_follows {r : Record} (sorts : g.Sorts reg k p) (ranked : c.Ranked reg.layout p t order)
    (own : r.entity = k.entity) (loaded : r.id ≠ none → k.Loaded p c r) :
    ∃ answer c' order', Settles ((save r).run g k) c answer c' ∧
      (save r).Follows k reg.layout p c order answer c' order' := by
  have found : c.tables.get? k.entity = some t := sorts.fits.entity ▸ ranked.found
  cases persisted : r.id with
  | none =>
    rcases Registry.save_new sorts ranked own persisted with
      ⟨admits, saved, id, c', t', saves, given, after⟩ | ⟨refused, e, fails⟩
    · refine ⟨_, c', _, saves.answering Answer.record,
        .succeeds ranked ?_ (.joined persisted given) after⟩
      simpa only [Permitted, persisted] using admits
    · refine ⟨_, c, _, fails.answering Answer.record, .fails ranked ?_ e⟩
      simpa only [Permitted, persisted] using refused
  | some id =>
    obtain ⟨obtained, fresh⟩ := loaded (by simp [persisted])
    cases dirty : r.isDirty with
    | false =>
      have known : g.find? r.entity = .ok reg := own ▸ sorts.known
      have kept : (save r).Does k order (.ok (.record r)) order :=
        .kept persisted (Record.change?_of_clean dirty k.column)
      refine ⟨_, c, order, (Registry.save_clean known persisted dirty c).answering Answer.record,
        .succeeds ranked ?_ kept ranked⟩
      simp [Permitted, persisted, dirty]
    | true =>
      rcases Registry.save_stored sorts.places ranked own persisted dirty obtained
        (fresh t found) with
        ⟨takes, saved, c', t', saves, after⟩ | ⟨refused, e, fails⟩
      · refine ⟨_, c', _, saves.answering Answer.record, .succeeds ranked ?_ ?_ after⟩
        · simpa only [Permitted, persisted, dirty, forall_const] using takes
        · unfold rearranged
          cases changed : r.change? k.column with
          | none => exact .kept persisted changed
          | some change =>
            obtain ⟨old, new⟩ := change
            obtain ⟨q, rfl, low, high⟩ := takes.1 old new changed
            exact .moved persisted changed low high
      · refine ⟨_, c, _, fails.answering Answer.record, .fails ranked ?_ e⟩
        simpa only [Permitted, persisted, dirty, forall_const] using refused

theorem remove_follows {r : Record} (sorts : g.Sorts reg k p)
    (ranked : c.Ranked reg.layout p t order) (own : r.entity = k.entity) :
    ∃ answer c' order', Settles ((remove r).run g k) c answer c' ∧
      (remove r).Follows k reg.layout p c order answer c' order' := by
  cases persisted : r.id with
  | none =>
    obtain ⟨e, fails⟩ := Registry.remove_new sorts own persisted c
    refine ⟨_, c, order, fails.answering Answer.record, .fails ranked ?_ e⟩
    simp [Permitted, persisted]
  | some id =>
    by_cases member : id ∈ order
    · obtain ⟨c', t', removes, after⟩ := Registry.remove_stored sorts ranked own persisted member
      exact ⟨_, c', _, removes.answering Answer.record,
        .succeeds ranked ⟨id, member, persisted⟩ (.removed persisted) after⟩
    · obtain ⟨e, fails⟩ := Registry.remove_missing sorts ranked own persisted member
      refine ⟨_, c, order, fails.answering Answer.record, .fails ranked ?_ e⟩
      rintro ⟨id', member', same⟩
      rw [persisted, Option.some.injEq] at same
      exact member (same ▸ member')

/-- The position of a stored record, in the store and in memory. -/
theorem Loaded.current {r : Record} (fits : k.Fits layout p) (positioned : c.Positioned layout p t)
    (loaded : r.id ≠ none → k.Loaded p c r ∧ r.change? k.column = none) : k.Current p t r := by
  intro id row persisted stored
  obtain ⟨⟨obtained, fresh⟩, unchanged⟩ := loaded (by simp [persisted])
  have found : c.tables.get? k.entity = some t := fits.entity ▸ positioned.found
  exact (fresh t found).current positioned.known obtained unchanged id row persisted stored

theorem swap_follows {r other : Record} (fits : k.Fits reg.layout p)
    (ranked : c.Ranked reg.layout p t order)
    (loaded : ∀ x ∈ [r, other], x.id ≠ none → k.Loaded p c x ∧ x.change? k.column = none) :
    ∃ answer c' order', Settles ((swap r other).run g k) c answer c' ∧
      (swap r other).Follows k reg.layout p c order answer c' order' := by
  by_cases permitted : (swap r other).Permitted k reg.layout t order
  · obtain ⟨id, otherId, ⟨own, persisted, member⟩, own', persisted', member'⟩ := permitted
    obtain ⟨i, here⟩ := List.getElem?_of_mem member
    obtain ⟨j, there⟩ := List.getElem?_of_mem member'
    obtain ⟨n, stands⟩ :=
      (Loaded.current fits ranked.positioned (loaded r (by simp))).stands ranked own persisted here
    obtain ⟨m, stands'⟩ :=
      (Loaded.current fits ranked.positioned (loaded other (by simp))).stands ranked own'
        persisted' there
    obtain ⟨answer, c', t', swaps, after⟩ := swap_stored fits ranked stands stands'
    refine ⟨_, c', _, swaps.answering fun (records : Record × Record) => Answer.pair records.1
      records.2, .succeeds ranked ?_ (.swapped persisted persisted') after⟩
    exact ⟨id, otherId, ⟨own, persisted, member⟩, own', persisted', member'⟩
  · obtain ⟨e, fails⟩ := swap_failed fits ranked permitted
    exact ⟨_, c, order, fails.answering fun (records : Record × Record) => Answer.pair records.1
      records.2, .fails ranked permitted e⟩

/-- A move towards an end of the list, under either of its names. -/
theorem move_follows {r : Record} (e : Extremum) (already alone : Error.Precondition)
    (fits : k.Fits reg.layout p) (ranked : c.Ranked reg.layout p t order)
    (loaded : r.id ≠ none → k.Loaded p c r ∧ r.change? k.column = none)
    (runs : op.run g k = do return Answer.record (← k.step e already alone r))
    (permitted : op.Permitted k reg.layout t order ↔ ∃ id otherId i j, k.Member order r id ∧
      order[i]? = some id ∧ order[j]? = some otherId ∧ Adjoins e i j)
    (does : ∀ id otherId i j r', r.id = some id → order[i]? = some id → order[j]? = some otherId →
      Adjoins e i j → op.Does k order (.ok (.record r')) (order.map (exchange id otherId))) :
    ∃ answer c' order', Settles (op.run g k) c answer c' ∧
      op.Follows k reg.layout p c order answer c' order' := by
  have current := Loaded.current fits ranked.positioned loaded
  rw [runs]
  by_cases movable : op.Permitted k reg.layout t order
  · obtain ⟨id, otherId, i, j, ⟨own, persisted, _⟩, here, there, adjoins⟩ := permitted.mp movable
    obtain ⟨n, stands⟩ := current.stands ranked own persisted here
    obtain ⟨answer, _, t', moves, swapped, _⟩ := step_stored fits ranked stands here there adjoins
      already alone
    exact ⟨_, _, _, moves.answering Answer.record, .succeeds ranked movable
      (does id otherId i j answer persisted here there adjoins) (ranked.swapped fits swapped)⟩
  · obtain ⟨error, fails⟩ :=
      step_failed fits ranked current e already alone fun h => movable (permitted.mpr h)
    exact ⟨_, c, order, fails.answering Answer.record, .fails ranked movable error⟩

theorem moveUp_follows {r : Record} (fits : k.Fits reg.layout p)
    (ranked : c.Ranked reg.layout p t order)
    (loaded : r.id ≠ none → k.Loaded p c r ∧ r.change? k.column = none) :
    ∃ answer c' order', Settles ((moveUp r).run g k) c answer c' ∧
      (moveUp r).Follows k reg.layout p c order answer c' order' := by
  refine move_follows .min .isFirst .noPrevious fits ranked loaded (by rw [run, moveUp_eq]) ?_ ?_
  · constructor
    · rintro ⟨id, otherId, member, i, there, here⟩
      exact ⟨id, otherId, i + 1, i, member, here, there, rfl⟩
    · rintro ⟨id, otherId, i, j, member, here, there, rfl⟩
      exact ⟨id, otherId, member, j, there, here⟩
  · rintro id otherId i j r' persisted here there rfl
    exact .raised persisted ⟨j, there, here⟩

theorem moveDown_follows {r : Record} (fits : k.Fits reg.layout p)
    (ranked : c.Ranked reg.layout p t order)
    (loaded : r.id ≠ none → k.Loaded p c r ∧ r.change? k.column = none) :
    ∃ answer c' order', Settles ((moveDown r).run g k) c answer c' ∧
      (moveDown r).Follows k reg.layout p c order answer c' order' := by
  refine move_follows .max .isLast .noNext fits ranked loaded (by rw [run, moveDown_eq]) ?_ ?_
  · constructor
    · rintro ⟨id, otherId, member, i, here, there⟩
      exact ⟨id, otherId, i, i + 1, member, here, there, rfl⟩
    · rintro ⟨id, otherId, i, j, member, here, there, rfl⟩
      exact ⟨id, otherId, member, i, here, there⟩
  · rintro id otherId i j r' persisted here there rfl
    exact .lowered persisted ⟨i, here, there⟩

/-- One operation, on tables that hold a list. -/
theorem follows (sorts : g.Sorts reg k p) (ranked : c.Ranked reg.layout p t order)
    (meets : op.Meets k p c) : ∃ answer c' order', Settles (op.run g k) c answer c' ∧
      op.Follows k reg.layout p c order answer c' order' := by
  cases op with
  | save r => exact save_follows sorts ranked meets.1 meets.2
  | remove r => exact remove_follows sorts ranked meets
  | swap r other => exact swap_follows sorts.fits ranked meets
  | moveUp r => exact moveUp_follows sorts.fits ranked meets
  | moveDown r => exact moveDown_follows sorts.fits ranked meets
  | compact =>
    exact ⟨_, c, order, (compact_stored sorts.fits ranked).answering Answer.count,
      .succeeds ranked trivial .compacted ranked⟩

end Operation

/-- Every operation of a run meets its conditions when its turn comes. -/
def Careful (g : Registry) (k : Ranking) (p : Nat) : Session → List Operation → Prop
  | _, [] => True
  | s, op :: rest => op.Meets k p s.committed.catalog ∧ Careful g k p ((op.run g k).run s).2 rest

/-- Along a run the tables hold one list after the other, each as the operation before it says. -/
def Obeys (g : Registry) (reg : Registration) (k : Ranking) (p : Nat) :
    Session → List Int64 → List Operation → Prop
  | _, _, [] => True
  | s, order, op :: rest =>
    ∃ order', op.Follows k reg.layout p s.committed.catalog order ((op.run g k).run s).1
        ((op.run g k).run s).2.committed.catalog order' ∧
      Obeys g reg k p ((op.run g k).run s).2 order' rest

variable {g : Registry} {schema : EntitySchema} {reg : Registration} {k : Ranking} {p : Nat}
  {s : Session} {t : Table} {order : List Int64}

theorem obeys_of_sorts (sorts : g.Sorts reg k p) (idle : s.connection = .idle n)
    (ranked : s.committed.catalog.Ranked reg.layout p t order) (ops : List Operation)
    (careful : Careful g k p s ops) : Obeys g reg k p s order ops := by
  induction ops generalizing s t order n with
  | nil => trivial
  | cons op rest ih =>
    obtain ⟨meets, careful⟩ := careful
    obtain ⟨committed, connection, trace⟩ := s
    subst idle
    obtain ⟨answer, c', order', settles, follows⟩ := op.follows sorts ranked meets
    obtain ⟨k', n', trace', ran, rfl⟩ := settles.alone committed n trace rfl
    obtain ⟨t', after⟩ := follows.ranked
    refine ⟨order', ?_, ih (t := t') (n := n') ?_ ?_ careful⟩
    · rw [ran]
      exact follows
    · rw [ran]
    · rw [ran]
      exact after

/-- Operations on an empty table of a ranked type, of any number and in any order. -/
theorem operations_refine_list (registered : g.Registered schema reg) (ranked : reg.Ranked k)
    (place : reg.layout.index k.column = .ok p) (idle : s.connection = .idle n)
    (found : s.committed.catalog.tables.get? schema.name = some t) (same : t.layout = reg.layout)
    (empty : t.rows = .empty) (ops : List Operation) (careful : Careful g k p s ops) :
    s.committed.catalog.Ranked reg.layout p t [] ∧ Obeys g reg k p s [] ops := by
  obtain ⟨entity, name, p', sorts⟩ := registered.sorts ranked
  obtain rfl : p = p' := Except.ok.inj (place.symm.trans sorts.fits.holds.place)
  have start : s.committed.catalog.Ranked reg.layout p t [] := .ofEmpty (name ▸ found) same empty p
  exact ⟨start, obeys_of_sorts sorts idle start ops careful⟩

theorem operations_refine_list_of_two :
    Sample.session.committed.catalog.Ranked Sample.registration.layout 1 Sample.table [] ∧
      Obeys Sample.registry Sample.registration Sample.ranking 1 Sample.session []
        [.save (.ofEntity "t"), .save (.ofEntity "t"), .moveUp (Sample.saved 2),
          .remove (Sample.saved 1)] := by
  let new : Action Answer := Operation.run Sample.registry Sample.ranking (.save (.ofEntity "t"))
  let twice : Catalog := (new.run (new.run Sample.session).2).2.committed.catalog
  have loaded : Sample.ranking.Loaded 1 twice (Sample.saved 2) := by
    have set : Record.set (.ofEntity "t") "position" (.integer 2) = .ok (Sample.placed 2) := rfl
    have stored : (twice.tables.get? "t").bind (·.get? 2) = some [.integer 2, .integer 2] := by
      decide
    exact .of_row (.saved 2 (.changed (.created "t") set)) rfl stored (by decide)
  exact operations_refine_list Sample.registered Sample.ranked rfl rfl rfl rfl rfl _
    ⟨⟨rfl, fun stored => absurd rfl stored⟩, ⟨rfl, fun stored => absurd rfl stored⟩,
      fun _ => ⟨loaded, rfl⟩, rfl, trivial⟩

end RankedStore.Ranking
