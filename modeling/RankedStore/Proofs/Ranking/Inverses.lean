import RankedStore.Proofs.Ranking.Reorder

/-! Exchanges and moves that are taken back. The second operation works on the records that the
first one gave, and a move looks for its neighbor anew. What it finds is the row that the record has
just changed places with, since no position lies between the two. -/
namespace RankedStore

open RankedStore.Action

namespace Ranking

variable {k : Ranking} {layout : TableLayout} {p : Nat} {c : Catalog} {t t' t'' : Table}
  {r other : Record} {id otherId n m : Int64} {e : Extremum} {s s₁ : Session}

/-- A second exchange of the same rows leaves the tables that there were before the first. -/
theorem withTable_back (positioned : c.Positioned layout p t) (first : t.Swapped p id otherId t')
    (second : t'.Swapped p id otherId t'') :
    (c.withTable layout.name t').withTable layout.name t'' = c := by
  rw [first.back positioned.known second, Catalog.withTable_withTable, Catalog.withTable_of_get?
    positioned.found]

theorem swap_back (fits : k.Fits layout p) (positioned : s.view.Positioned layout p t)
    (proper : s.connection.Proper) (stands : k.Stands p t r id n)
    (stands' : k.Stands p t other otherId m) :
    ∃ records s₁ records' s₂, (k.swap r other).run s = (.ok records, s₁) ∧
      (k.swap records.1 records.2).run s₁ = (.ok records', s₂) ∧ s₂.view = s.view := by
  obtain ⟨records, t', swaps, swapped, stands₁, stands₁'⟩ :=
    swap_settles fits positioned stands stands'
  obtain ⟨s₁, ran, proper₁, view₁⟩ := swaps.runs proper
  have positioned₁ := positioned_swapped fits positioned swapped
  rw [← view₁ _ rfl] at positioned₁
  obtain ⟨records', t'', swaps', swapped', _⟩ := swap_settles fits positioned₁ stands₁ stands₁'
  obtain ⟨s₂, ran', _, view₂⟩ := swaps'.runs proper₁
  refine ⟨records, s₁, records', s₂, ran, ran', ?_⟩
  rw [view₂ _ rfl, view₁ _ rfl, withTable_back positioned swapped swapped']

/-- After a move towards one end, a move towards the other one brings the record back. -/
theorem step_back (fits : k.Fits layout p) (separated : s.view.Separated layout p t)
    (proper : s.connection.Proper) (stands : k.Stands p t r id n)
    {already alone : Error.Precondition} (ran : (k.step e already alone r).run s = (.ok moved, s₁))
    (already' alone' : Error.Precondition) :
    ∃ back s₂, (k.step e.opposite already' alone' moved).run s₁ = (.ok back, s₂) ∧
    s₂.view = s.view := by
  have positioned := separated.toPositioned
  obtain ⟨result, _, none_there, some_there⟩ := beside_seen fits positioned stands e
  cases result with
  | none =>
    have refused := step_refused fits positioned stands (none_there rfl) already alone
    obtain ⟨_, ran', _⟩ := (SettlesUpTo.ofTracked refused).runs proper
    cases ran.symm.trans ran'
  | some other =>
    obtain ⟨otherId, m, ⟨stands', _⟩, near⟩ := some_there other rfl
    obtain ⟨_, t', moves, swapped, stands₁⟩ :=
      step_exchanges fits separated stands near stands'.placed already alone
    obtain ⟨_, ran', proper₁, view₁⟩ := moves.runs proper
    cases ran.symm.trans ran'
    have separated₁ := separated_swapped fits separated swapped
    rw [← view₁ _ rfl] at separated₁
    -- From its new position the record sees the other one right behind it.
    have near₁ : Beside (t'.position? p) e.opposite m.toInt n.toInt := by
      rw [funext swapped.position]
      exact (near.exchanged id otherId).reversed
    have placed₁ : t'.position? p otherId = some n.toInt := by
      rw [swapped.position, exchange_right]
      exact stands.placed
    obtain ⟨back, t'', moves', swapped', _⟩ :=
      step_exchanges fits separated₁ stands₁ near₁ placed₁ already' alone'
    obtain ⟨s₂, ran₂, _, view₂⟩ := moves'.runs proper₁
    refine ⟨back, s₂, ran₂, ?_⟩
    rw [view₂ _ rfl, view₁ _ rfl, withTable_back positioned swapped swapped']

end Ranking

namespace Registry

variable {g : Registry} {schema : EntitySchema} {reg : Registration} {k : Ranking} {p : Nat}
  {t : Table} {r : Record} {id n : Int64} {s : Session}

/-- Two records that know their positions are exchanged and exchanged back. A record that knows its
position is moved up and down again, or down and up again, if the first of these moves succeeds. All
tables are then as they were. -/
theorem swaps_and_moves_undone (registered : g.Registered schema reg) (positions : reg.Positions k)
    (place : reg.layout.index k.column = .ok p) (proper : s.connection.Proper)
    (separated : s.view.Separated reg.layout p t) (stands : k.Stands p t r id n) :
    (∀ other otherId m, k.Stands p t other otherId m → ∃ records s₁ records' s₂,
      (k.swap r other).run s = (.ok records, s₁) ∧
      (k.swap records.1 records.2).run s₁ = (.ok records', s₂) ∧ s₂.view = s.view) ∧
    (∀ moved s₁, (k.moveUp r).run s = (.ok moved, s₁) →
      ∃ back s₂, (k.moveDown moved).run s₁ = (.ok back, s₂) ∧ s₂.view = s.view) ∧
    ∀ moved s₁, (k.moveDown r).run s = (.ok moved, s₁) →
      ∃ back s₂, (k.moveUp moved).run s₁ = (.ok back, s₂) ∧ s₂.view = s.view := by
  have fits := (registered.placesAt positions place).fits
  refine ⟨fun other otherId m stands' => ?_, fun moved s₁ ran => ?_, fun moved s₁ ran => ?_⟩
  · exact Ranking.swap_back fits separated.toPositioned proper stands stands'
  · exact Ranking.step_back fits separated proper stands ran .isLast .noNext
  · exact Ranking.step_back fits separated proper stands ran .isFirst .noPrevious

end Registry

/-! Three rows with gaps between their positions, one of which is negative. -/
namespace Scattered

def positions : List (Int64 × Int64) := [(1, 10), (2, -3), (3, 5)]

def table : Table where
  layout := Gaps.registration.layout
  rows := .ofList (positions.map fun (id, n) => (id, [.integer id, .integer n]))
  nextId := 4

def session : Session := { committed := ⟨⟨Dict.empty.insert "t" table⟩, 0⟩, connection := .idle 0 }

theorem cases {id n : Int64} (member : (id, n) ∈ positions) :
    id = 1 ∧ n = 10 ∨ id = 2 ∧ n = -3 ∨ id = 3 ∧ n = 5 := by
  simpa [positions] using member

theorem entry {id : Int64} {row : Row} (stored : table.get? id = some row) :
    ∃ n, (id, n) ∈ positions ∧ row = [.integer id, .integer n] := by
  have scan : table.scan = positions.map fun (id, n) => (id, [.integer id, .integer n]) := rfl
  have there := Table.mem_scan.mpr stored
  rw [scan] at there
  obtain ⟨⟨_, n⟩, member, same⟩ := List.mem_map.mp there
  cases same
  exact ⟨n, member, rfl⟩

theorem sound : table.Sound := by
  constructor
  · intro id row stored
    obtain ⟨n, _, rfl⟩ := entry stored
    rfl
  · intro id row stored
    obtain ⟨n, _, rfl⟩ := entry stored
    rfl
  · intro id row key other stored stored' ne i c v column unique value known shared
    obtain ⟨n, _, rfl⟩ := entry stored
    obtain ⟨n', _, rfl⟩ := entry stored'
    match i with
    | 0 =>
      cases value
      cases shared
      exact ne rfl
    | 1 =>
      cases column
      cases unique
    | i + 2 => cases value

theorem separated : session.view.Separated Gaps.registration.layout 1 table := by
  refine ⟨⟨rfl, rfl, sound, fun id row stored => ?_⟩, fun id id' m placed placed' => ?_⟩
  · obtain ⟨n, _, rfl⟩ := entry stored
    exact ⟨n, rfl⟩
  · have source : ∀ {id}, table.position? 1 id = some m → ∃ n : Int64, (id, n) ∈ positions ∧
      n.toInt = m := by
      intro id placed
      cases stored : table.get? id with
      | none => cases (Table.position?_none stored).symm.trans placed
      | some row =>
        obtain ⟨n, member, rfl⟩ := entry stored
        exact ⟨n, member, Option.some.inj ((Table.position?_of stored rfl).symm.trans placed)⟩
    obtain ⟨n, member, rfl⟩ := source placed
    obtain ⟨n', member', same⟩ := source placed'
    rcases cases member with ⟨rfl, rfl⟩ | ⟨rfl, rfl⟩ | ⟨rfl, rfl⟩ <;>
      rcases cases member' with ⟨rfl, rfl⟩ | ⟨rfl, rfl⟩ | ⟨rfl, rfl⟩ <;>
      first | rfl | exact absurd same (by decide)

/-- The record of a row. -/
def read (id n : Int64) : Record :=
  let fields := Dict.empty.insert "position" (.integer n)
  { entity := "t", id := some id, fields, stored := fields }

theorem stands {id n : Int64} (member : (id, n) ∈ positions) :
    Gaps.ranking.Stands 1 table (read id n) id n := by
  refine ⟨rfl, rfl, rfl, ?_⟩
  rcases cases member with ⟨rfl, rfl⟩ | ⟨rfl, rfl⟩ | ⟨rfl, rfl⟩ <;> rfl

end Scattered

/-- The first row is the last one by its position. It changes places with the second one and back,
and goes up and down again. -/
theorem Registry.swaps_and_moves_undone_of_three :
    (∃ records s₁ records' s₂,
      (Gaps.ranking.swap (Scattered.read 1 10) (Scattered.read 2 (-3))).run Scattered.session =
        (.ok records, s₁) ∧
      (Gaps.ranking.swap records.1 records.2).run s₁ = (.ok records', s₂) ∧
      s₂.view = Scattered.session.view) ∧
    (∃ moved s₁ back s₂, (Gaps.ranking.moveUp (Scattered.read 1 10)).run Scattered.session =
      (.ok moved, s₁) ∧
      (Gaps.ranking.moveDown moved).run s₁ = (.ok back, s₂) ∧
        s₂.view = Scattered.session.view) := by
  have member : ((1, 10) : Int64 × Int64) ∈ Scattered.positions := by decide
  obtain ⟨swaps, ups, _⟩ := swaps_and_moves_undone Gaps.registered Gaps.positions (p := 1) rfl
    (.idle 0) Scattered.separated (Scattered.stands member)
  have ran : (Gaps.ranking.moveUp (Scattered.read 1 10)).run Scattered.session = (.ok _, _) := rfl
  obtain ⟨back, s₂, ran', same⟩ := ups _ _ ran
  exact ⟨swaps _ 2 (-3) (Scattered.stands (by decide)), _, _, back, s₂, ran, ran', same⟩

end RankedStore
