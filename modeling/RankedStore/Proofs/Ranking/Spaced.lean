import RankedStore.Proofs.Ranking.Listed

/-! Positions with gaps. They are only numbers from 1 on, each of one id, so there is no list to
speak of, and what a change of positions has to respect is the order of the ids that it does not
name. -/
namespace RankedStore

/-- All positions are numbers from 1 on, and no two ids have the same one. -/
structure Spaced (position : Int64 → Option Int) : Prop where
  positive : ∀ id m, position id = some m → 1 ≤ m
  apart : ∀ a b m, position a = some m → position b = some m → a = b

/-- The ids that are not named are still there, and those of them that are there stand in the same
order. -/
structure Undisturbed (named : Int64 → Prop) (position position' : Int64 → Option Int) : Prop where
  same : ∀ id, ¬ named id → (position' id).isSome = (position id).isSome
  order : ∀ a b m n m' n', ¬ named a → ¬ named b → position a = some m → position b = some n →
    position' a = some m' → position' b = some n' → (m < n ↔ m' < n')

variable {position position' : Int64 → Option Int} {named : Int64 → Prop} {id other : Int64}

theorem Undisturbed.refl (named : Int64 → Prop) (position : Int64 → Option Int) :
    Undisturbed named position position := by
  constructor
  · intro id _
    rfl
  · intro a b m n m' n' _ _ first second first' second'
    rw [first, Option.some.injEq] at first'
    rw [second, Option.some.injEq] at second'
    omega

theorem Undisturbed.mono {named' : Int64 → Prop}
    (undisturbed : Undisturbed named position position') (more : ∀ id, named id → named' id) :
    Undisturbed named' position position' := by
  constructor
  · intro id other
    exact undisturbed.same id (mt (more id) other)
  · intro a b m n m' n' here there
    exact undisturbed.order a b m n m' n' (mt (more a) here) (mt (more b) there)

/-- Giving each of two ids the position of the other one. -/
theorem exchange_eq {m n : Int} {a b : Int64} (first : position a = some m)
    (second : position b = some n) (k : Int64) :
    (if k = b then some m else if k = a then some n else position k) =
      position (exchange a b k) := by
  unfold exchange
  by_cases here : k = a
  · rw [if_pos here, if_pos here, second]
    split
    case isTrue there => rw [← first, ← second, ← here, there]
    case isFalse => rfl
  · rw [if_neg here, if_neg here]
    split
    case isTrue => exact first.symm
    case isFalse => rfl

namespace Spaced

theorem congr (spaced : Spaced position) (same : ∀ id, position' id = position id) :
    Spaced position' := by
  rwa [funext same]

/-- If the others keep their order as they move, then the order that they move into is the one they
had. -/
theorem reflects {σ : Int64 → Int → Int} (spaced : Spaced position)
    (monotone : ∀ a b m n, a ≠ id → b ≠ id → position a = some m → position b = some n → m < n →
      σ a m < σ b n)
    {a b : Int64} {m n : Int} (here : a ≠ id) (there : b ≠ id) (first : position a = some m)
    (second : position b = some n) : (σ a m < σ b n → m < n) ∧ (σ a m = σ b n → a = b) := by
  rcases Int.lt_trichotomy m n with before | rfl | after
  · have := monotone a b m n here there first second before
    exact ⟨fun _ => before, fun same => by omega⟩
  · obtain rfl := spaced.apart a b m first second
    exact ⟨fun lt => by omega, fun _ => rfl⟩
  · have := monotone b a n m there here second first after
    exact ⟨fun lt => by omega, fun same => by omega⟩

/-- Whatever becomes of one id, the others may move as long as they keep their order, stay above
zero and leave its new position to it. -/
theorem change {σ : Int64 → Int → Int} (spaced : Spaced position)
    (others : ∀ k, k ≠ id → position' k = (position k).map (σ k))
    (own : ∀ q, position' id = some q → 1 ≤ q)
    (monotone : ∀ a b m n, a ≠ id → b ≠ id → position a = some m → position b = some n → m < n →
      σ a m < σ b n)
    (low : ∀ a m, a ≠ id → position a = some m → 1 ≤ σ a m)
    (clear : ∀ a m, a ≠ id → position a = some m → position' id ≠ some (σ a m)) :
    Spaced position' ∧ Undisturbed (· = id) position position' := by
  have before : ∀ a m', a ≠ id → position' a = some m' → ∃ m, position a = some m ∧ σ a m = m' := by
    intro a m' other placed
    rw [others a other] at placed
    exact Option.map_eq_some_iff.mp placed
  refine ⟨⟨?_, ?_⟩, ?_, ?_⟩
  · intro a m' placed
    by_cases here : a = id
    · subst here
      exact own m' placed
    · obtain ⟨m, was, rfl⟩ := before a m' here placed
      exact low a m here was
  · intro a b m' first second
    by_cases here : a = id
    · subst here
      by_cases there : b = a
      · exact there.symm
      · obtain ⟨n, was, rfl⟩ := before b m' there second
        exact absurd first (clear b n there was)
    by_cases there : b = id
    · subst there
      obtain ⟨m, was, rfl⟩ := before a m' here first
      exact absurd second (clear a m here was)
    · obtain ⟨m, was, rfl⟩ := before a m' here first
      obtain ⟨n, was', same⟩ := before b _ there second
      exact (spaced.reflects monotone here there was was').2 same.symm
  · intro a other
    rw [others a other, Option.isSome_map]
  · intro a b m n m' n' here there first second first' second'
    obtain ⟨_, was, rfl⟩ := before a m' here first'
    obtain ⟨_, was', rfl⟩ := before b n' there second'
    rw [first, Option.some.injEq] at was
    rw [second, Option.some.injEq] at was'
    subst was was'
    constructor
    · intro lt
      exact monotone a b m n here there first second lt
    · exact (spaced.reflects monotone here there first second).1

/-- A new id comes in, and those from its position on make room. -/
theorem opened {q : Int} (spaced : Spaced position) (low : 1 ≤ q) (own : position' id = some q)
    (others : ∀ k, k ≠ id → position' k = (position k).map fun m => if q ≤ m then m + 1 else m) :
    Spaced position' ∧ Undisturbed (· = id) position position' := by
  apply spaced.change others
  · intro m placed
    rw [own, Option.some.injEq] at placed
    exact placed ▸ low
  · intro a b m n _ _ _ _ lt
    split <;> split <;> omega
  · intro a m _ placed
    have := spaced.positive a m placed
    split <;> omega
  · intro a m _ _
    rw [own, Ne, Option.some.injEq]
    split <;> omega

/-- An id goes to another position, taken or not, and those in between make room and close the
gap. -/
theorem moved {old new : Int} (spaced : Spaced position) (placed : position id = some old)
    (low : 1 ≤ new) (own : position' id = some new)
    (others : ∀ k, k ≠ id → position' k = (position k).map fun m =>
      if old < m ∧ m ≤ new then m - 1 else if new ≤ m ∧ m < old then m + 1 else m) :
    Spaced position' ∧ Undisturbed (· = id) position position' := by
  have unlike : ∀ k m, k ≠ id → position k = some m → m ≠ old :=
    fun k m other there same => other (spaced.apart k id m there (same ▸ placed))
  have positive := spaced.positive id old placed
  apply spaced.change others
  · intro m placed
    rw [own, Option.some.injEq] at placed
    exact placed ▸ low
  · intro a b m n here there at_a at_b lt
    have left := unlike a m here at_a
    have right := unlike b n there at_b
    split <;> split <;> omega
  · intro a m other there
    have := spaced.positive a m there
    split <;> omega
  · intro a m other there
    have := unlike a m other there
    rw [own, Ne, Option.some.injEq]
    split <;> omega

/-- An id leaves, and those behind a position without another one may close the gap. -/
theorem erased {σ : Int → Int} (spaced : Spaced position) (gone : position' id = none)
    (others : ∀ k, k ≠ id → position' k = (position k).map σ)
    (closes : (∀ m, σ m = m) ∨ ∃ n, position id = some n ∧ ∀ m, σ m = if n < m then m - 1 else m) :
    Spaced position' ∧ Undisturbed (· = id) position position' := by
  apply spaced.change others
  · intro m placed
    rw [gone] at placed
    cases placed
  · intro a b m n here there at_a at_b lt
    rcases closes with same | ⟨l, placed, step⟩
    · rwa [same, same]
    · have left : m ≠ l := fun same => here (spaced.apart a id m at_a (same ▸ placed))
      have right : n ≠ l := fun same => there (spaced.apart b id n at_b (same ▸ placed))
      rw [step, step]
      split <;> split <;> omega
  · intro a m other there
    have positive := spaced.positive a m there
    rcases closes with same | ⟨l, placed, step⟩
    · rwa [same]
    · have first := spaced.positive id l placed
      rw [step]
      split <;> omega
  · intro a m _ _
    rw [gone]
    rintro ⟨⟩

/-- Two ids that exchange positions leave the others where they are. -/
theorem swap (spaced : Spaced position) (a b : Int64) :
    Spaced (fun k => position (exchange a b k)) ∧
      Undisturbed (fun k => k = a ∨ k = b) position fun k => position (exchange a b k) := by
  have elsewhere : ∀ k, ¬ (k = a ∨ k = b) → exchange a b k = k := by
    intro k other
    unfold exchange
    rw [if_neg fun here => other (.inl here), if_neg fun here => other (.inr here)]
  refine ⟨⟨?_, ?_⟩, ?_, ?_⟩
  · intro k m placed
    exact spaced.positive _ m placed
  · intro k l m first second
    have same := spaced.apart _ _ m first second
    rw [← exchange_exchange a b k, same, exchange_exchange]
  · intro k other
    rw [elsewhere k other]
  · intro k l m n m' n' here there first second first' second'
    rw [elsewhere k here, first, Option.some.injEq] at first'
    rw [elsewhere l there, second, Option.some.injEq] at second'
    omega

/-- Exchanging with a neighbor disturbs no order but that of the two. -/
theorem swap_adjacent {m n : Int} (spaced : Spaced position) {a b : Int64}
    (first : position a = some m) (second : position b = some n)
    (adjacent : ∀ k l, position k = some l → ¬ (m < l ∧ l < n) ∧ ¬ (n < l ∧ l < m)) :
    Undisturbed (· = a) position fun k => position (exchange a b k) := by
  by_cases alone : a = b
  · subst alone
    have same : (fun k => position (exchange a a k)) = position := by
      funext k
      unfold exchange
      split
      case isTrue here => rw [here]
      case isFalse => rfl
    rw [same]
    exact .refl _ position
  have unlike : ∀ k l x, position k = some x → position l = some x → k ≠ l → False :=
    fun k l x here there other => other (spaced.apart k l x here there)
  have at_a : position (exchange a b a) = some n := by rwa [exchange, if_pos rfl]
  have others : ∀ k, k ≠ a →
      position (exchange a b k) = (position k).map fun x => if k = b then m else x := by
    intro k other
    unfold exchange
    rw [if_neg other]
    split
    case isTrue here => rw [here, first, second, Option.map_some]
    case isFalse => rw [Option.map_id']
  refine (spaced.change others ?_ ?_ ?_ ?_).2
  · intro q placed
    rw [at_a, Option.some.injEq] at placed
    exact placed ▸ spaced.positive b n second
  · intro k l x y here there at_k at_l lt
    have left : x ≠ m := fun same => unlike k a m (same ▸ at_k) first here
    have right : y ≠ m := fun same => unlike l a m (same ▸ at_l) first there
    have between_k := adjacent k x at_k
    have between_l := adjacent l y at_l
    split <;> split <;> rename_i is is'
    · subst is is'
      rw [at_k, Option.some.injEq] at at_l
      omega
    · subst is
      rw [second, Option.some.injEq] at at_k
      omega
    · subst is'
      rw [second, Option.some.injEq] at at_l
      omega
    · exact lt
  · intro k x _ at_k
    split
    case isTrue => exact spaced.positive a m first
    case isFalse => exact spaced.positive k x at_k
  · intro k x other at_k
    rw [at_a, Ne, Option.some.injEq]
    split
    case isTrue => exact fun same => unlike a b n (same ▸ first) second alone
    case isFalse ne => exact fun same => unlike k b n (same ▸ at_k) second ne

/-- Numbering all ids anew from 1 on, in the order of their positions. -/
theorem renumbered (ids : List Int64) (complete : ∀ id m, position id = some m → id ∈ ids)
    (placed : ∀ (i : Nat) id, ids[i]? = some id → position' id = some ((i : Int) + 1) ∧
      ∃ m, position id = some m)
    (ascending : ∀ (i j : Nat) a b m n, ids[i]? = some a → ids[j]? = some b → position a = some m →
      position b = some n → i < j → m < n)
    (nothing : ∀ id, id ∉ ids → position' id = none) :
    Spaced position' ∧ Undisturbed (fun _ => False) position position' := by
  have index : ∀ id m', position' id = some m' → ∃ i : Nat, ids[i]? = some id ∧
    m' = (i : Int) + 1 := by
    intro id m' at_id
    by_cases member : id ∈ ids
    · obtain ⟨i, here⟩ := List.getElem?_of_mem member
      rw [(placed i id here).1, Option.some.injEq] at at_id
      exact ⟨i, here, at_id.symm⟩
    · rw [nothing id member] at at_id
      cases at_id
  refine ⟨⟨?_, ?_⟩, ?_, ?_⟩
  · intro id m' at_id
    obtain ⟨i, _, rfl⟩ := index id m' at_id
    omega
  · intro a b m' first second
    obtain ⟨i, here, rfl⟩ := index a m' first
    obtain ⟨j, there, same⟩ := index b _ second
    obtain rfl : i = j := by omega
    exact Option.some.inj (here.symm.trans there)
  · intro id _
    cases at_id : position id with
    | none =>
      have missing : id ∉ ids := by
        intro member
        obtain ⟨i, here⟩ := List.getElem?_of_mem member
        obtain ⟨_, m, was⟩ := placed i id here
        rw [at_id] at was
        cases was
      rw [nothing id missing]
    | some m =>
      obtain ⟨i, here⟩ := List.getElem?_of_mem (complete id m at_id)
      rw [(placed i id here).1]
      rfl
  · intro a b m n m' n' _ _ first second first' second'
    obtain ⟨i, here, rfl⟩ := index a m' first'
    obtain ⟨j, there, rfl⟩ := index b n' second'
    constructor
    · intro lt
      rcases Nat.lt_trichotomy i j with before | rfl | after
      · omega
      · rw [here, Option.some.injEq] at there
        subst there
        rw [first, Option.some.injEq] at second
        omega
      · have := ascending j i b a n m there here second first after
        omega
    · intro lt
      exact ascending i j a b m n here there first second (by omega)

end Spaced
end RankedStore
