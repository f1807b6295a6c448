import RankedStore.Proofs.Ranking.Saves

/-! Records next to each other. Where no two rows have one position, a record that knows its own
finds on each side the row whose position is closest, whatever the gaps are, and changes places with
it. -/
namespace RankedStore

open RankedStore.Action

/-- The tables hold a sound one with this layout, each of whose rows has a position of its own. -/
structure Catalog.Separated (c : Catalog) (layout : TableLayout) (p : Nat) (t : Table) : Prop
    extends c.Positioned layout p t where
  apart : ∀ id id' m, t.position? p id = some m → t.position? p id' = some m → id = id'

namespace Extremum

/-- The other side. -/
def opposite : Extremum → Extremum
  | .min => .max
  | .max => .min

/-- One position lies beyond another one, on the side of an extremum. -/
def Beyond : Extremum → Int → Int → Prop
  | .min, n, m => m < n
  | .max, n, m => n < m

variable {e : Extremum} {n m : Int}

theorem beyond_opposite : e.opposite.Beyond m n ↔ e.Beyond n m := by
  cases e <;> exact Iff.rfl

theorem not_beyond_best {best : Int} (within : e.Within best n) : ¬ e.Beyond best n := by
  cases e <;> simp only [Within, Beyond] at * <;> omega

/-- The best one lies beyond every other one. -/
theorem eq_of_not_beyond {best : Int} (within : e.Within best n) (none : ¬ e.Beyond n best) :
    best = n := by
  cases e <;> simp only [Within, Beyond] at * <;> omega

end Extremum

/-- A position is the closest one beyond another one, on the side of an extremum. -/
structure Beside (position : Int64 → Option Int) (e : Extremum) (n m : Int) : Prop where
  beyond : e.Beyond n m
  closest : ∀ key l, position key = some l → e.Beyond n l → ¬ e.Beyond l m

/-- No position lies beyond one, on the side of an extremum. -/
def Outermost (position : Int64 → Option Int) (e : Extremum) (n : Int) : Prop :=
  ∀ key m, position key = some m → ¬ e.Beyond n m

namespace Beside

variable {position : Int64 → Option Int} {e : Extremum} {n m m' : Int} {id id' : Int64}

/-- Between two positions next to each other there is none, from whichever of them one looks. -/
theorem reversed (beside : Beside position e n m) : Beside position e.opposite m n := by
  constructor
  · exact Extremum.beyond_opposite.mpr beside.beyond
  · intro key l placed beyond beyond'
    exact beside.closest key l placed (Extremum.beyond_opposite.mp beyond')
      (Extremum.beyond_opposite.mp beyond)

theorem exchanged (beside : Beside position e n m) (a b : Int64) :
    Beside (fun key => position (exchange a b key)) e n m :=
  ⟨beside.beyond, fun key => beside.closest (exchange a b key)⟩

theorem unique (beside : Beside position e n m) (beside' : Beside position e n m')
    (placed : position id = some m) (placed' : position id' = some m') : m = m' := by
  have here := beside.closest id' m' placed' beside'.beyond
  have there := beside'.closest id m placed beside.beyond
  cases e <;> simp only [Extremum.Beyond] at here there <;> omega

theorem not_outermost (beside : Beside position e n m) (placed : position id = some m) :
    ¬ Outermost position e n := fun outermost => outermost id m placed beside.beyond

end Beside

namespace Ranking

variable {k : Ranking} {layout : TableLayout} {p : Nat} {c : Catalog} {t t' : Table}
  {r other : Record} {id otherId n m : Int64} {e : Extremum}

/-- The record of a stored row, which knows its position. -/
structure Stands (k : Ranking) (p : Nat) (t : Table) (r : Record) (id n : Int64) : Prop where
  own : r.entity = k.entity
  persisted : r.id = some id
  value : r.integer? k.column = some n
  placed : t.position? p id = some n.toInt

theorem positionOf_eq {id n : Int64} (own : r.entity = k.entity) (persisted : r.id = some id)
    (position : r.integer? k.column = some n) : k.positionOf r = .ok n := by
  have entity : k.checkEntity r = .ok () := if_pos own
  simp [positionOf, entity, Record.requireId, persisted, position]

theorem positionOf_eq_ok {n : Int64} (h : k.positionOf r = .ok n) :
    r.entity = k.entity ∧ ∃ id, r.id = some id := by
  unfold positionOf checkEntity at h
  by_cases own : r.entity = k.entity
  · cases persisted : r.id with
    | none => simp [own, Record.requireId, persisted] at h
    | some id => exact ⟨own, id, rfl⟩
  · simp [own] at h

theorem Stands.positionOf (stands : k.Stands p t r id n) : k.positionOf r = .ok n :=
  positionOf_eq stands.own stands.persisted stands.value

/-- The record that is read from a stored row. -/
structure Taken (k : Ranking) (layout : TableLayout) (p : Nat) (t : Table) (r : Record)
    (id n : Int64) : Prop extends k.Stands p t r id n where
  read : ∃ row, t.get? id = some row ∧ Record.ofRow layout row = .ok r

theorem Taken.ofRow {row : Row} (fits : k.Fits layout p) (positioned : c.Positioned layout p t)
    (stored : t.get? id = some row) (cell : row[p]? = some (.integer n)) :
    ∃ r, Record.ofRow layout row = .ok r ∧ k.Taken layout p t r id n := by
  have width : row.length = layout.columns.length := by
    rw [positioned.sound.width stored, Table.columns, positioned.same]
  obtain ⟨r, read, entity, persisted, position⟩ :=
    Record.load_ranked (.ofEntity layout.name) fits.holds width
    (positioned.sound.keyed id row stored) cell
  refine ⟨r, read, ⟨entity.trans fits.entity, persisted, ?_, Table.position?_of stored cell⟩, row,
    stored, read⟩
  rw [Record.integer?, position]
  rfl

/-- Setting the position of a stored record. -/
theorem setPosition_tracked {id : Int64} {row : Row} (found : c.tables.get? k.entity = some t)
    (sound : t.Sound) (holds : t.layout.RanksBy k.column p) (stored : t.get? id = some row)
    (m : Int64) : ∃ w, Tracked (updateById k.entity id k.column (.integer m)) c (.ok ())
      (c.withTable k.entity { t with rows := t.rows.insert id (row.set p (.integer m)) }) w := by
  obtain ⟨column, at_p, _, plain, admits⟩ := holds.holder
  have bound : p < row.length := by
    rw [sound.width stored]
    exact (List.getElem?_eq_some_iff.mp at_p).1
  have ran : c.replace k.entity id (row.set p (.integer m)) = _ := Catalog.replace_eq found
  rw [sound.replace_set stored at_p plain (admits m)] at ran
  exact ⟨_, updateById_tracked (Catalog.table_eq_ok.mpr found) stored holds.place bound
    (replace_tracked ran)⟩

theorem fetch_found {id : Int64} {row : Row} (found : c.tables.get? k.entity = some t)
    (stored : t.get? id = some row) : Tracked (k.fetch id) c (.ok row) c [] :=
  .after (fetch_tracked (Catalog.table_eq_ok.mpr found) stored) (.pure ..)

/-- Both positions are set one after the other, and the rows are read again. -/
theorem exchange_tracked (fits : k.Fits layout p) (positioned : c.Positioned layout p t)
    (placed : t.position? p id = some n.toInt) (placed' : t.position? p otherId = some m.toInt) :
    ∃ rows t' w, Tracked (do
        updateById k.entity id k.column (.integer m)
        updateById k.entity otherId k.column (.integer n)
        return (← k.fetch id, ← k.fetch otherId)) c (.ok rows) (c.withTable layout.name t') w ∧
      t'.get? id = some rows.1 ∧ t'.get? otherId = some rows.2 ∧ t.Swapped p id otherId t' := by
  have holds : t.layout.RanksBy k.column p := positioned.same ▸ fits.holds
  have known := positioned.known
  have found : c.tables.get? k.entity = some t := fits.entity ▸ positioned.found
  obtain ⟨row, x, stored, cell, _⟩ := known.row_of_position placed
  obtain ⟨row', x', stored', cell', _⟩ := known.row_of_position placed'
  -- The first record takes the position of the second.
  have moved₁ := Table.Moved.ofSet (p := p) (m := m) stored
  obtain ⟨w₁, first⟩ := setPosition_tracked found positioned.sound holds stored m
  generalize ({ t with rows := t.rows.insert id (row.set p (.integer m)) } : Table) =
    t₁ at moved₁ first
  have sound₁ := moved₁.sound positioned.sound holds known
  have known₁ := moved₁.known known
  have holds₁ : t₁.layout.RanksBy k.column p := moved₁.layout ▸ holds
  obtain ⟨_, _, stored₁⟩ := moved₁.moved otherId row' x' stored' cell'
  -- The second one takes the position that the first had.
  have moved₂ := Table.Moved.ofSet (p := p) (m := n) stored₁
  obtain ⟨w₂, second⟩ := setPosition_tracked (c.get?_withTable_self k.entity t₁) sound₁ holds₁
    stored₁ n
  rw [Catalog.withTable_withTable] at second
  generalize ({ t₁ with rows := t₁.rows.insert otherId _ } : Table) = t₂ at moved₂ second
  have found₂ := c.get?_withTable_self k.entity t₂
  obtain ⟨_, _, there⟩ := moved₁.moved id row x stored cell
  obtain ⟨y, cell₁⟩ := known₁ id _ there
  obtain ⟨_, _, there⟩ := moved₂.moved id _ y there cell₁
  obtain ⟨y', cell₁'⟩ := known₁ otherId _ stored₁
  obtain ⟨_, _, there'⟩ := moved₂.moved otherId _ y' stored₁ cell₁'
  refine ⟨(_, _), t₂, w₂ ++ w₁, ?_, there, there', .ofMoved known placed placed' moved₁ moved₂⟩
  rw [fits.entity]
  exact first.bind (second.followed
    (.after (fetch_found found₂ there) (.after (fetch_found found₂ there') (.pure ..))))

/-- After two rows were exchanged the table is sound and separated as before. -/
theorem positioned_swapped (fits : k.Fits layout p) (positioned : c.Positioned layout p t)
    (swapped : t.Swapped p id otherId t') :
    (c.withTable layout.name t').Positioned layout p t' := by
  obtain ⟨_, moved⟩ := swapped.moved
  exact positioned.moved fits.holds moved

theorem separated_swapped (fits : k.Fits layout p) (separated : c.Separated layout p t)
    (swapped : t.Swapped p id otherId t') : (c.withTable layout.name t').Separated layout p t' := by
  refine ⟨positioned_swapped fits separated.toPositioned swapped, fun a b m placed placed' => ?_⟩
  rw [swapped.position] at placed placed'
  have same := separated.apart _ _ m placed placed'
  rw [← exchange_exchange id otherId a, same, exchange_exchange]

/-- A record that is loaded from a stored row stands where the row does. -/
theorem Stands.load {row : Row} (fits : k.Fits layout p) (positioned : c.Positioned layout p t)
    (own : r.entity = k.entity) (stored : t.get? id = some row)
    (placed : t.position? p id = some n.toInt) :
    ∃ loaded, r.load layout row = .ok loaded ∧ k.Stands p t loaded id n := by
  obtain ⟨x, cell⟩ := positioned.known id row stored
  obtain rfl : x = n := by
    rw [Table.position?_of stored cell, Option.some.injEq, Int64.toInt_inj] at placed
    exact placed
  have width : row.length = layout.columns.length := by
    rw [positioned.sound.width stored, Table.columns, positioned.same]
  obtain ⟨loaded, ran, entity, persisted, position⟩ :=
    r.load_ranked fits.holds width (positioned.sound.keyed id row stored) cell
  refine ⟨loaded, ran, entity.trans own, persisted, ?_, placed⟩
  rw [Record.integer?, position]
  rfl

/-- Two records that know their positions change places. -/
theorem swap_settles (fits : k.Fits layout p) (positioned : c.Positioned layout p t)
    (stands : k.Stands p t r id n) (stands' : k.Stands p t other otherId m) :
    ∃ records t', Settles (k.swap r other) c (.ok records) (c.withTable layout.name t') ∧
      t.Swapped p id otherId t' ∧ k.Stands p t' records.1 id m ∧
        k.Stands p t' records.2 otherId n := by
  obtain ⟨rows, t', w, body, stored, stored', swapped⟩ :=
    exchange_tracked fits positioned stands.placed stands'.placed
  have found : c.table k.entity = .ok t := Catalog.table_eq_ok.mpr (fits.entity ▸ positioned.found)
  have positioned' := positioned_swapped fits positioned swapped
  have placed : t'.position? p id = some m.toInt := by
    rw [swapped.position, exchange_left]
    exact stands'.placed
  have placed' : t'.position? p otherId = some n.toInt := by
    rw [swapped.position, exchange_right]
    exact stands.placed
  obtain ⟨loaded, load, stands₁⟩ := Stands.load fits positioned' stands.own stored placed
  obtain ⟨loaded', load', stands₁'⟩ := Stands.load fits positioned' stands'.own stored' placed'
  have entity : k.checkEntity other = .ok () := if_pos stands'.own
  have ownId : r.requireId = .ok id := by rw [Record.requireId, stands.persisted]
  have otherOwnId : other.requireId = .ok otherId := by rw [Record.requireId, stands'.persisted]
  refine ⟨(loaded, loaded'), t', ?_, swapped, stands₁, stands₁'⟩
  refine .after (.ofExcept entity) (.after (.ofExcept stands.positionOf) ?_)
  refine .after (.ofExcept stands'.positionOf) (.after (.ofExcept ownId) ?_)
  refine .after (.ofExcept otherOwnId) (.after (layout_tracked found) (.after (.report ..) ?_))
  rw [positioned.same]
  exact body.transactional.followed fun d =>
    .after (.ofExcept load) (.after (.ofExcept load') (.pure ..))

/-- The neighbor in a direction is a stored record whose position no other one comes before. -/
theorem neighbor_tracked (fits : k.Fits layout p) (positioned : c.Positioned layout p t)
    (comparison : Comparison) (q : Int64) (direction : Direction) :
    ∃ result, Tracked (k.neighbor comparison q direction) c (.ok result) c [] ∧
      (result = none → ∀ id m, t.position? p id = some m →
        comparison.accepts (compare m q.toInt) = false) ∧
      ∀ other, result = some other → ∃ id n, k.Taken layout p t other id n ∧
        comparison.accepts (compare n.toInt q.toInt) = true ∧
        ∀ id m, t.position? p id = some m → comparison.accepts (compare m q.toInt) = true →
          match direction with | .ascending => n.toInt ≤ m | .descending => m ≤ n.toInt := by
  have holds : t.layout.RanksBy k.column p := positioned.same ▸ fits.holds
  have table : c.table k.entity = .ok t := Catalog.table_eq_ok.mpr (fits.entity ▸ positioned.found)
  have each : ∀ id row, t.get? id = some row →
      t.meets (.compare k.column comparison (.integer q)) row =
        .ok (comparison.accepts (compare (Table.integerAt p row) q.toInt)) := by
    intro id row stored
    obtain ⟨n, cell⟩ := positioned.known id row stored
    rw [Table.meets_compare holds.place cell, Table.integerAt_eq cell]
  obtain ⟨rows, ran, none_left, first⟩ := positioned.known.select_first holds k.entity _ each
    direction
  have seen : Tracked (Action.select ⟨k.entity, .compare k.column comparison (.integer q),
      some (k.column, direction), some 1⟩) c (.ok rows) c [] :=
    .after (.report ..) (.read (by simp [Catalog.select, table, ran]))
  cases rows with
  | nil =>
    refine ⟨none, .after (layout_tracked table) (seen.after (.pure ..)), ?_, by simp⟩
    intro _ id m placed
    obtain ⟨row, n, stored, cell, rfl⟩ := positioned.known.row_of_position placed
    rw [← Table.integerAt_eq cell]
    exact none_left rfl id row stored
  | cons row rest =>
    obtain ⟨⟨id, stored⟩, kept, best⟩ := first row rfl
    obtain ⟨n, cell⟩ := positioned.known id row stored
    obtain ⟨other, read, taken⟩ := Taken.ofRow fits positioned stored cell
    rw [← positioned.same] at read
    rw [Table.integerAt_eq cell] at kept
    refine ⟨some other, .after (layout_tracked table)
      (seen.after (.after (.ofExcept read) (.pure ..))), by simp, ?_⟩
    rintro _ ⟨⟩
    refine ⟨id, n, taken, kept, ?_⟩
    intro id' m placed accepted
    obtain ⟨row', n', stored', cell', rfl⟩ := positioned.known.row_of_position placed
    have order := best id' row' stored' (by rw [Table.integerAt_eq cell']; exact accepted)
    cases direction with
    | ascending =>
      simpa only [Table.sortKey, Table.integerAt_eq cell, Table.integerAt_eq cell'] using order
    | descending =>
      simpa only [Table.sortKey, Table.integerAt_eq cell, Table.integerAt_eq cell',
        Int.neg_le_neg_iff] using order

/-- Which positions lie on the side of an extremum. -/
def towards : Extremum → Comparison
  | .min => .lt
  | .max => .gt

/-- The order in which these positions come, from the closest one on. -/
def outwards : Extremum → Direction
  | .min => .descending
  | .max => .ascending

/-- Whether a record has the position of an extremum. -/
def atEnd (k : Ranking) (e : Extremum) (r : Record) : Action Bool := do
  let position ← Action.ofExcept (k.positionOf r)
  return (← k.extremum e) = some position

/-- The closest record on the side of an extremum. -/
def beside (k : Ranking) (e : Extremum) (r : Record) : Action (Option Record) := do
  k.neighbor (towards e) (← Action.ofExcept (k.positionOf r)) (outwards e)

/-- Moves a record by one place towards an end of the list, with the failures for a record that is
there already and for one that has no neighbor. -/
def step (k : Ranking) (e : Extremum) (already alone : Error.Precondition) (r : Record) :
    Action Record := do
  if ← k.atEnd e r then throw (.preconditionFailed already)
  match ← k.beside e r with
  | none => throw (.preconditionFailed alone)
  | some other => return (← k.swap r other).1

theorem moveUp_eq (k : Ranking) (r : Record) : k.moveUp r = k.step .min .isFirst .noPrevious r :=
  rfl

theorem moveDown_eq (k : Ranking) (r : Record) : k.moveDown r = k.step .max .isLast .noNext r := rfl

theorem accepts_towards (e : Extremum) (m n : Int) :
    (towards e).accepts (compare m n) = match e with
      | .min => decide (m < n)
      | .max => decide (n < m) := by
  cases e with
  | min => simp only [towards, Comparison.accepts, Int.compare_eq_lt]
  | max => simp only [towards, Comparison.accepts, Int.compare_eq_gt]

theorem accepts_beyond :
    (towards e).accepts (compare m.toInt n.toInt) = true ↔ e.Beyond n.toInt m.toInt := by
  rw [accepts_towards]
  cases e <;> exact decide_eq_true_iff

/-- The position of an extremum is the one beyond which there is none. -/
theorem extremum_outermost (fits : k.Fits layout p) (positioned : c.Positioned layout p t)
    (e : Extremum) :
    ∃ best, Tracked (k.extremum e) c (.ok best) c [] ∧ ∀ id n, t.position? p id = some n.toInt →
      (best = some n ↔ Outermost (t.position? p) e n.toInt) := by
  have holds : t.layout.RanksBy k.column p := positioned.same ▸ fits.holds
  obtain ⟨best, ran, empty, value⟩ := positioned.known.aggregate holds e k.entity
  refine ⟨best, extremum_seen fits positioned ran, fun id n placed => ?_⟩
  cases best with
  | none =>
    obtain ⟨_, _, stored, _⟩ := positioned.known.row_of_position placed
    cases (empty rfl id).symm.trans stored
  | some b =>
    obtain ⟨⟨key, there⟩, within⟩ := value b rfl
    rw [Option.some.injEq, ← Int64.toInt_inj]
    constructor
    · intro same key' m placed'
      rw [← same]
      exact Extremum.not_beyond_best (within key' m placed')
    · intro outermost
      exact Extremum.eq_of_not_beyond (within id _ placed) (outermost key _ there)

/-- A record is at the end of the order just if no position lies beyond its own. -/
theorem atEnd_seen (fits : k.Fits layout p) (positioned : c.Positioned layout p t)
    (stands : k.Stands p t r id n) (e : Extremum) :
    ∃ last, Tracked (k.atEnd e r) c (.ok last) c [] ∧
      (last = true ↔ Outermost (t.position? p) e n.toInt) := by
  obtain ⟨best, seen, outermost⟩ := extremum_outermost fits positioned e
  refine ⟨decide (best = some n), .after (.ofExcept stands.positionOf) (seen.after (.pure ..)), ?_⟩
  rw [decide_eq_true_eq]
  exact outermost id n stands.placed

/-- What is beside a record is the stored one whose position is the closest, unless its own is the
last. -/
theorem beside_seen (fits : k.Fits layout p) (positioned : c.Positioned layout p t)
    (stands : k.Stands p t r id n) (e : Extremum) :
    ∃ result, Tracked (k.beside e r) c (.ok result) c [] ∧
      (result = none → Outermost (t.position? p) e n.toInt) ∧
      ∀ other, result = some other → ∃ otherId m, k.Taken layout p t other otherId m ∧
        Beside (t.position? p) e n.toInt m.toInt := by
  obtain ⟨result, near, none_there, found⟩ :=
    neighbor_tracked fits positioned (towards e) n (outwards e)
  refine ⟨result, .after (.ofExcept stands.positionOf) near, ?_, ?_⟩
  · intro none key m placed beyond
    obtain ⟨_, x, _, _, rfl⟩ := positioned.known.row_of_position placed
    have outside := none_there none key _ placed
    rw [accepts_beyond.mpr beyond] at outside
    cases outside
  · intro other here
    obtain ⟨otherId, m, taken, accepted, closest⟩ := found other here
    refine ⟨otherId, m, taken, accepts_beyond.mp accepted, ?_⟩
    intro key l there beyond
    obtain ⟨_, x, _, _, rfl⟩ := positioned.known.row_of_position there
    have nearest := closest key _ there (accepts_beyond.mpr beyond)
    cases e <;> simp only [Extremum.Beyond, outwards] at nearest ⊢ <;> omega

/-- A record that has one beside it changes places with that. -/
theorem step_exchanges (fits : k.Fits layout p) (separated : c.Separated layout p t)
    (stands : k.Stands p t r id n) (near : Beside (t.position? p) e n.toInt m.toInt)
    (there : t.position? p otherId = some m.toInt) (already alone : Error.Precondition) :
    ∃ moved t', Settles (k.step e already alone r) c (.ok moved) (c.withTable layout.name t') ∧
      t.Swapped p id otherId t' ∧ k.Stands p t' moved id m := by
  have positioned := separated.toPositioned
  obtain ⟨last, tested, at_end⟩ := atEnd_seen fits positioned stands e
  obtain ⟨result, found, none_there, some_there⟩ := beside_seen fits positioned stands e
  have inner : ¬ last = true := fun h => near.not_outermost there (at_end.mp h)
  cases result with
  | none => exact absurd (none_there rfl) (near.not_outermost there)
  | some other =>
    obtain ⟨key, l, ⟨stands', _⟩, near'⟩ := some_there other rfl
    obtain rfl : m = l := Int64.toInt_inj.mp (near.unique near' there stands'.placed)
    obtain rfl : otherId = key := separated.apart otherId key _ there stands'.placed
    obtain ⟨records, t', swaps, swapped, stands₁, _⟩ := swap_settles fits positioned stands stands'
    refine ⟨records.1, t', .after tested ?_, swapped, stands₁⟩
    rw [if_neg inner]
    exact .after found (swaps.followed fun d => .pure ..)

/-- A record at the end of the order stays there. -/
theorem step_refused (fits : k.Fits layout p) (positioned : c.Positioned layout p t)
    (stands : k.Stands p t r id n) (outermost : Outermost (t.position? p) e n.toInt)
    (already alone : Error.Precondition) :
    Tracked (k.step e already alone r) c (.error (.preconditionFailed already)) c [] := by
  obtain ⟨last, tested, at_end⟩ := atEnd_seen fits positioned stands e
  refine .after tested ?_
  rw [if_pos (at_end.mpr outermost)]
  exact .bind_error (.throw ..)

/-- Any other record moves. -/
theorem step_moves (fits : k.Fits layout p) (separated : c.Separated layout p t)
    (stands : k.Stands p t r id n) (inner : ¬ Outermost (t.position? p) e n.toInt)
    (already alone : Error.Precondition) :
    ∃ moved c', Settles (k.step e already alone r) c (.ok moved) c' := by
  obtain ⟨result, _, none_there, some_there⟩ := beside_seen fits separated.toPositioned stands e
  cases result with
  | none => exact absurd (none_there rfl) inner
  | some other =>
    obtain ⟨_, _, taken, near⟩ := some_there other rfl
    obtain ⟨moved, _, moves, _⟩ := step_exchanges fits separated stands near taken.placed
      already alone
    exact ⟨moved, _, moves⟩

end Ranking
end RankedStore
