import RankedStore.Proofs.Ranking.Exchanges
import RankedStore.Proofs.Ranking.Inverses

/-! Going from record to record. Where no two rows have one position, the list of all records, the
smallest and the largest position, and the searches for the record before and the one after another
all follow one order, whatever the gaps are. -/
namespace RankedStore

open RankedStore.Action

namespace Action

variable {α : Type} {a : Action α} {s : Session} {x y : α}

/-- The action gives this answer, and leaves the tables as they are. -/
def Answers (a : Action α) (s : Session) (x : α) : Prop :=
  ∃ s', a.run s = (.ok x, s') ∧ s'.view = s.view

def FailsWith (a : Action α) (s : Session) (e : Error) : Prop := ∃ s', a.run s = (.error e, s')

theorem Tracked.answers (seen : Tracked a s.view (.ok x) s.view []) (proper : s.connection.Proper) :
    a.Answers s x := by
  obtain ⟨s', ran, _, view⟩ := (SettlesUpTo.ofTracked seen).runs proper
  exact ⟨s', ran, view x rfl⟩

theorem Answers.iff_eq (answers : a.Answers s x) : a.Answers s y ↔ x = y := by
  constructor
  · rintro ⟨_, ran', _⟩
    obtain ⟨_, ran, _⟩ := answers
    cases ran.symm.trans ran'
    rfl
  · rintro rfl
    exact answers

end Action

/-- The record at one end of a list. -/
def Extremum.edge : Extremum → List Record → Option Record
  | .min, records => records.head?
  | .max, records => records.getLast?

/-- No index of a list lies beyond that of its edge. -/
theorem Extremum.edge_eq (e : Extremum) (records : List Record) :
    ∃ l : Nat, e.edge records = records[l]? ∧
    ∀ i : Nat, i < records.length → l < records.length ∧ e.Within (l : Int) i := by
  cases e with
  | min =>
    refine ⟨0, List.head?_eq_getElem?, fun i bound => ?_⟩
    simp only [Within]
    omega
  | max =>
    refine ⟨records.length - 1, List.getLast?_eq_getElem?, fun i bound => ?_⟩
    simp only [Within]
    omega

namespace Ranking

variable {k : Ranking} {layout : TableLayout} {p : Nat} {c : Catalog} {t : Table}
  {records rest before : List Record} {x y : Record} {id key n m : Int64} {i j : Nat} {e : Extremum}
  {s : Session}

/-- One record is the next one to another in a list, on the side of an extremum. -/
def Borders (e : Extremum) (records : List Record) (x y : Record) : Prop :=
  ∃ i j, records[i]? = some x ∧ records[j]? = some y ∧ Adjoins e i j

theorem borders_comm : Borders .min records x y ↔ Borders .max records y x := by
  constructor
  · rintro ⟨i, j, here, there, adjoins⟩
    exact ⟨j, i, there, here, Eq.symm adjoins⟩
  · rintro ⟨j, i, there, here, adjoins⟩
    exact ⟨i, j, here, there, Eq.symm adjoins⟩

namespace Lists

theorem nodup (lists : k.Lists p t records) : records.Nodup := by
  apply lists.ascending.imp_of_mem
  rintro x y member _ ascends rfl
  obtain ⟨_, n, stands⟩ := lists.stored x member
  exact Int.lt_irrefl _ (ascends n n stands.value stands.value)

theorem lt_iff (lists : k.Lists p t records) (here : records[i]? = some x)
    (there : records[j]? = some y) (value : x.integer? k.column = some n)
    (value' : y.integer? k.column = some m) :
    n.toInt < m.toInt ↔ i < j := by
  obtain ⟨bound, rfl⟩ := List.getElem?_eq_some_iff.mp here
  obtain ⟨bound', rfl⟩ := List.getElem?_eq_some_iff.mp there
  have ascends := List.pairwise_iff_getElem.mp lists.ascending
  rcases Nat.lt_trichotomy i j with before | rfl | after
  · exact iff_of_true (ascends i j bound bound' before n m value value') before
  · cases value.symm.trans value'
    exact iff_of_false (Int.lt_irrefl _) (Nat.lt_irrefl _)
  · have descends := ascends j i bound' bound after m n value' value
    exact iff_of_false (by omega) (by omega)

/-- Positions lie beyond each other as the indices do. -/
theorem beyond_iff (lists : k.Lists p t records) (here : records[i]? = some x)
    (there : records[j]? = some y) (value : x.integer? k.column = some n)
    (value' : y.integer? k.column = some m) :
    e.Beyond n.toInt m.toInt ↔ e.Beyond (i : Int) (j : Int) := by
  cases e with
  | min => exact (lists.lt_iff there here value' value).trans Int.ofNat_lt.symm
  | max => exact (lists.lt_iff here there value value').trans Int.ofNat_lt.symm

end Lists

/-- All records of a table, in the order of their positions. -/
structure Orders (k : Ranking) (layout : TableLayout) (p : Nat) (t : Table)
    (records : List Record) : Prop extends k.Lists p t records where
  every : ∀ r, r ∈ records ↔ ∃ id n, k.Taken layout p t r id n

namespace Orders

theorem value (orders : k.Orders layout p t records) (here : records[i]? = some x) :
    ∃ id n, k.Stands p t x id n := orders.stored x (List.mem_of_getElem? here)

/-- There is a record for every position. -/
theorem placed (orders : k.Orders layout p t records) (fits : k.Fits layout p)
    (positioned : c.Positioned layout p t) {l : Int} (placed : t.position? p key = some l) :
    ∃ (j : Nat) (y : Record) (m : Int64), records[j]? = some y ∧ y.integer? k.column = some m ∧
    m.toInt = l := by
  obtain ⟨row, m, stored, cell, same⟩ := positioned.known.row_of_position placed
  obtain ⟨y, _, taken⟩ := Taken.ofRow fits positioned stored cell
  obtain ⟨j, there⟩ := List.getElem?_of_mem ((orders.every y).mpr ⟨key, m, taken⟩)
  exact ⟨j, y, m, there, taken.value, same⟩

/-- No position lies beyond that of the record at the end. -/
theorem outermost_iff (orders : k.Orders layout p t records) (fits : k.Fits layout p)
    (positioned : c.Positioned layout p t) (member : x ∈ records)
    (value : x.integer? k.column = some n) :
    Outermost (t.position? p) e n.toInt ↔ e.edge records = some x := by
  obtain ⟨i, here⟩ := List.getElem?_of_mem member
  obtain ⟨l, edge, within⟩ := e.edge_eq records
  rw [edge]
  constructor
  · intro outermost
    obtain ⟨inside, best⟩ := within i (List.getElem?_eq_some_iff.mp here).1
    have there := List.getElem?_eq_getElem inside
    obtain ⟨key, m, stands⟩ := orders.value there
    have near := outermost key _ stands.placed
    rw [orders.beyond_iff here there value stands.value] at near
    rw [Int.ofNat.inj (Extremum.eq_of_not_beyond best near), here]
  · intro here' key o placed beyond
    obtain ⟨j, y, m, there, value', rfl⟩ := orders.placed fits positioned placed
    rw [orders.beyond_iff here' there value value'] at beyond
    exact Extremum.not_beyond_best (within j (List.getElem?_eq_some_iff.mp there).1).2 beyond

/-- The record whose position is the closest one has the index next to that of the first. -/
theorem adjoins (orders : k.Orders layout p t records) (here : records[i]? = some x)
    (there : records[j]? = some y) (value : x.integer? k.column = some n)
    (value' : y.integer? k.column = some m) (near : Beside (t.position? p) e n.toInt m.toInt) :
    Adjoins e i j := by
  have beyond := (orders.beyond_iff here there value value').mp near.beyond
  -- The record at an index in between would be closer.
  have between : ∀ l, l < records.length → e.Beyond (i : Int) l → ¬ e.Beyond (l : Int) j := by
    intro l inside far
    have middle := List.getElem?_eq_getElem inside
    obtain ⟨key, o, stands⟩ := orders.value middle
    rw [← orders.beyond_iff here middle value stands.value] at far
    rw [← orders.beyond_iff middle there stands.value value']
    exact near.closest key _ stands.placed far
  have bound := (List.getElem?_eq_some_iff.mp here).1
  have bound' := (List.getElem?_eq_some_iff.mp there).1
  cases e with
  | min =>
    have := between (j + 1)
    simp only [Extremum.Beyond, Adjoins] at *
    omega
  | max =>
    have := between (i + 1)
    simp only [Extremum.Beyond, Adjoins] at *
    omega

/-- What is found beside a record is the one next to it in the list, and none if it is the last
one. -/
theorem beside_tracked (orders : k.Orders layout p t records) (fits : k.Fits layout p)
    (positioned : c.Positioned layout p t) (member : x ∈ records) (e : Extremum) :
    ∃ result, Tracked (k.beside e x) c (.ok result) c [] ∧
    (result = none ↔ e.edge records = some x) ∧
      ∀ y, result = some y ↔ Borders e records x y := by
  obtain ⟨id, n, stands⟩ := orders.stored x member
  obtain ⟨result, seen, none_there, some_there⟩ := beside_seen fits positioned stands e
  have outermost := orders.outermost_iff (e := e) fits positioned member stands.value
  cases result with
  | none =>
    have final := none_there rfl
    refine ⟨none, seen, iff_of_true rfl (outermost.mp final), fun y => iff_of_false (by simp) ?_⟩
    rintro ⟨i, j, here, there, adjoins⟩
    obtain ⟨key, m, stands'⟩ := orders.value there
    have near := final key _ stands'.placed
    rw [orders.beyond_iff here there stands.value stands'.value] at near
    cases e <;> simp only [Extremum.Beyond, Adjoins] at near adjoins <;> omega
  | some other =>
    obtain ⟨otherId, m, taken, near⟩ := some_there other rfl
    obtain ⟨j, there⟩ := List.getElem?_of_mem ((orders.every other).mpr ⟨otherId, m, taken⟩)
    have inner := near.not_outermost taken.placed
    refine ⟨some other, seen, iff_of_false (by simp) fun last => inner (outermost.mpr last),
      fun y => ?_⟩
    constructor
    · rintro ⟨⟩
      obtain ⟨i, here⟩ := List.getElem?_of_mem member
      exact ⟨i, j, here, there, orders.adjoins here there stands.value taken.value near⟩
    · rintro ⟨i, j', here, there', adjoins⟩
      have adjoins' := orders.adjoins here there stands.value taken.value near
      obtain rfl : j = j' := by cases e <;> simp only [Adjoins] at adjoins adjoins' <;> omega
      exact there.symm.trans there'

theorem mem_iff (orders : k.Orders layout p t records) (fits : k.Fits layout p)
    (positioned : c.Positioned layout p t) : x ∈ records ↔ ∃ id, c.Reads layout id x := by
  rw [orders.every]
  constructor
  · rintro ⟨id, n, _, row, stored, read⟩
    exact ⟨id, row, (Catalog.row?_of_table positioned.found id).trans stored, read⟩
  · rintro ⟨id, row, stored, read⟩
    rw [Catalog.row?_of_table positioned.found] at stored
    obtain ⟨n, cell⟩ := positioned.known id row stored
    obtain ⟨_, read', taken⟩ := Taken.ofRow fits positioned stored cell
    cases read.symm.trans read'
    exact ⟨id, n, taken⟩

/-- The first record is the one with the smallest position. -/
theorem starts {first : Record} (orders : k.Orders layout p t (first :: rest))
    (fits : k.Fits layout p) (positioned : c.Positioned layout p t) :
    ∃ n, Tracked k.minPosition c (.ok (some n)) c [] ∧
      ∀ x ∈ first :: rest, x.integer? k.column = some n ↔ x = first := by
  obtain ⟨best, seen, outermost⟩ := extremum_outermost fits positioned .min
  have smallest : ∀ x ∈ first :: rest, x.integer? k.column = best ↔ x = first := by
    intro x member
    obtain ⟨id, m, stands⟩ := orders.stored x member
    have edge := orders.outermost_iff (e := .min) fits positioned member stands.value
    rw [stands.value, eq_comm, outermost id m stands.placed, edge, eq_comm (a := x)]
    exact Option.some_inj
  have member : first ∈ first :: rest := List.mem_cons_self ..
  obtain ⟨id, n, stands⟩ := orders.stored first member
  obtain rfl : some n = best := stands.value.symm.trans ((smallest first member).mpr rfl)
  exact ⟨n, seen, smallest⟩

/-- After the last record before the rest of the list comes the first one of the rest. -/
theorem next_tracked (orders : k.Orders layout p t (before ++ x :: rest)) (fits : k.Fits layout p)
    (positioned : c.Positioned layout p t) : Tracked (k.next x) c (.ok rest.head?) c [] := by
  have member : x ∈ before ++ x :: rest := by simp
  obtain ⟨result, seen, none_iff, some_iff⟩ := orders.beside_tracked fits positioned member .max
  have found : result = rest.head? := by
    cases rest with
    | nil => exact none_iff.mpr (List.getLast?_concat ..)
    | cons y rest =>
      refine (some_iff y).mpr ⟨before.length, before.length + 1, ?_, ?_, rfl⟩
      · simp
      · simp
  exact found ▸ seen

end Orders

/-- Going from each record to the next one until there is none. -/
inductive Walks (k : Ranking) : Session → Record → List Record → Prop
  | last {s s' : Session} {x : Record} : (k.next x).run s = (.ok none, s') → Walks k s x [x]
  | onwards {s s' : Session} {x y : Record} {rest : List Record} :
      (k.next x).run s = (.ok (some y), s') → Walks k s' y rest → Walks k s x (x :: rest)

theorem Orders.walks (orders : k.Orders layout p t (before ++ x :: rest)) (fits : k.Fits layout p)
    (positioned : s.view.Positioned layout p t) (proper : s.connection.Proper) :
    k.Walks s x (x :: rest) := by
  induction rest generalizing before x s with
  | nil =>
    obtain ⟨_, ran, _⟩ := (SettlesUpTo.ofTracked (orders.next_tracked fits positioned)).runs proper
    exact .last ran
  | cons y rest ih =>
    obtain ⟨s', ran, proper', view⟩ :=
      (SettlesUpTo.ofTracked (orders.next_tracked fits positioned)).runs proper
    -- The tables are as they were, so the order is the same for the rest of the way.
    rw [← view _ rfl] at positioned
    rw [List.append_cons] at orders
    exact .onwards ran (ih orders positioned proper')

/-- Whether a record is at an end, what lies beyond it, and whether it moves further all go by where
it is. -/
structure Agree (s : Session) (atEnd : Action Bool) (beyond : Action (Option Record))
    (move : Action Record) (already : Error.Precondition) (there : Prop) : Prop where
  tested : ∃ answer, atEnd.Answers s answer ∧ (answer = true ↔ there)
  alone : ∃ result, beyond.Answers s result ∧ (result = none ↔ there)
  refused : ∀ cause, move.FailsWith s (.preconditionFailed cause) ↔ cause = already ∧ there
  moves : ¬ there → move.Succeeds s

theorem Orders.agree (orders : k.Orders layout p t records) (fits : k.Fits layout p)
    (separated : s.view.Separated layout p t) (proper : s.connection.Proper) (member : x ∈ records)
    (e : Extremum) (already alone : Error.Precondition) :
    Agree s (k.atEnd e x) (k.beside e x) (k.step e already alone x) already
      (e.edge records = some x) := by
  have positioned := separated.toPositioned
  obtain ⟨id, n, stands⟩ := orders.stored x member
  have outermost := orders.outermost_iff (e := e) fits positioned member stands.value
  obtain ⟨last, tested, last_iff⟩ := atEnd_seen fits positioned stands e
  obtain ⟨result, found, none_iff, some_iff⟩ := orders.beside_tracked fits positioned member e
  have moves : e.edge records ≠ some x → (k.step e already alone x).Succeeds s := by
    intro inner
    obtain ⟨_, _, steps⟩ := step_moves fits separated stands (mt outermost.mp inner) already alone
    exact steps.succeeds proper
  refine ⟨⟨last, tested.answers proper, last_iff.trans outermost⟩,
    ⟨result, found.answers proper, none_iff⟩,
    fun cause => ?_, moves⟩
  by_cases there : e.edge records = some x
  · have refused := step_refused fits positioned stands (outermost.mpr there) already alone
    obtain ⟨s', ran, _⟩ := (SettlesUpTo.ofTracked refused).runs proper
    constructor
    · rintro ⟨_, ran'⟩
      cases ran.symm.trans ran'
      exact ⟨rfl, there⟩
    · rintro ⟨rfl, _⟩
      exact ⟨s', ran⟩
  · refine iff_of_false ?_ fun h => there h.2
    rintro ⟨_, ran'⟩
    obtain ⟨_, _, ran⟩ := moves there
    cases ran.symm.trans ran'

end Ranking

namespace Registry

variable {g : Registry} {schema : EntitySchema} {reg : Registration} {k : Ranking} {p : Nat}
  {t : Table} {id : Int64} {row : Row} {s : Session}

/-- The list of all records is the order of navigation: the record with the smallest position comes
first, and each of them is found before and after those that it stands between. At the ends there is
nothing further to find, and to move there fails for this reason only. -/
theorem navigation_follows_order (registered : g.Registered schema reg)
    (positions : reg.Positions k) (place : reg.layout.index k.column = .ok p)
    (proper : s.connection.Proper) (separated : s.view.Separated reg.layout p t)
    (stored : t.get? id = some row) :
    ∃ records, k.ordered.Answers s records ∧ records.Nodup ∧
      (∀ x, x ∈ records ↔ ∃ id, s.view.Reads reg.layout id x) ∧
      (∃ first n, k.minPosition.Answers s (some n) ∧
        (∀ x ∈ records, x.integer? k.column = some n ↔ x = first) ∧ k.Walks s first records) ∧
      (∀ x ∈ records, ∀ y ∈ records, (k.previous x).Answers s (some y) ↔
        (k.next y).Answers s (some x)) ∧
      (∀ x ∈ records,
        Ranking.Agree s (k.isFirst x) (k.previous x) (k.moveUp x)
          .isFirst (records.head? = some x)) ∧
      ∀ x ∈ records,
        Ranking.Agree s (k.isLast x) (k.next x) (k.moveDown x)
          .isLast (records.getLast? = some x) := by
  have fits := (registered.placesAt positions place).fits
  have positioned := separated.toPositioned
  obtain ⟨records, listed, lists, every⟩ := Ranking.ordered_lists fits separated
  have orders : k.Orders reg.layout p t records := ⟨lists, every⟩
  refine ⟨records, listed.answers proper, lists.nodup, fun x => ?_, ?_,
    fun x member y member' => ?_,
    fun x member => ?_, fun x member => ?_⟩
  · exact orders.mem_iff fits positioned
  · obtain ⟨n, cell⟩ := positioned.known id row stored
    obtain ⟨_, _, taken⟩ := Ranking.Taken.ofRow fits positioned stored cell
    obtain ⟨first, rest, rfl⟩ :=
      List.exists_cons_of_ne_nil (List.ne_nil_of_mem ((every _).mpr ⟨id, n, taken⟩))
    obtain ⟨least, seen, smallest⟩ := orders.starts fits positioned
    have whole : k.Orders reg.layout p t ([] ++ first :: rest) := orders
    exact ⟨first, least, seen.answers proper, smallest, whole.walks fits positioned proper⟩
  · obtain ⟨result, seen, _, earlier⟩ := orders.beside_tracked fits positioned member .min
    obtain ⟨result', seen', _, later⟩ := orders.beside_tracked fits positioned member' .max
    have previous : (k.previous x).Answers s result := seen.answers proper
    have next : (k.next y).Answers s result' := seen'.answers proper
    rw [previous.iff_eq, next.iff_eq, earlier, later, Ranking.borders_comm]
  · exact orders.agree fits separated proper member .min .isFirst .noPrevious
  · exact orders.agree fits separated proper member .max .isLast .noNext

/-- From the second row over the third to the first, with gaps in between. -/
theorem navigation_follows_order_of_three :
    let records := [Scattered.read 2 (-3), Scattered.read 3 5, Scattered.read 1 10]
    Gaps.ranking.ordered.Answers Scattered.session records ∧
      Gaps.ranking.Walks Scattered.session (Scattered.read 2 (-3)) records := by
  have stored : Scattered.table.get? 1 = some [.integer 1, .integer 10] := rfl
  obtain ⟨records, listed, _, _, ⟨first, _, _, _, walks⟩, _⟩ :=
    navigation_follows_order Gaps.registered Gaps.positions (p := 1) rfl (.idle 0)
    Scattered.separated stored
  have answers : Gaps.ranking.ordered.Answers Scattered.session
    [Scattered.read 2 (-3), Scattered.read 3 5, Scattered.read 1 10] := ⟨_, rfl, rfl⟩
  obtain rfl := listed.iff_eq.mp answers
  cases walks with
  | onwards ran rest => exact ⟨answers, .onwards ran rest⟩

end Registry
end RankedStore
