import RankedStore.Integer

/-! Positions as a list of ids. The id at index `i` has position `i + 1`, so the positions are the
numbers from 1 to the length, each of them once. Each kind of change of positions is a change of the
list. -/
namespace RankedStore

/-- The ids that have a position are those of the list, each with its place as position. -/
structure Listed (order : List Int64) (position : Int64 → Option Int) : Prop where
  placed : ∀ (i : Nat) id, order[i]? = some id → position id = some ((i : Int) + 1)
  complete : ∀ id, position id ≠ none → id ∈ order

/-- The two ids change places. -/
def exchange (a b id : Int64) : Int64 := if id = a then b else if id = b then a else id

theorem exchange_exchange (a b id : Int64) : exchange a b (exchange a b id) = id := by
  unfold exchange
  split
  case isTrue here => rw [here]; split <;> simp_all
  case isFalse => split <;> simp_all

theorem exchange_comm (a b id : Int64) : exchange a b id = exchange b a id := by
  unfold exchange
  split
  case isTrue here => rw [here]; split <;> simp_all
  case isFalse => split <;> simp_all

theorem exchange_left (a b : Int64) : exchange a b a = b := if_pos rfl

theorem exchange_right (a b : Int64) : exchange a b b = a := by
  rw [exchange_comm, exchange_left]

theorem exchange_of_ne {a b id : Int64} (ne : id ≠ a) (ne' : id ≠ b) : exchange a b id = id := by
  rw [exchange, if_neg ne, if_neg ne']

namespace Listed

variable {order : List Int64} {position : Int64 → Option Int} {id : Int64} {i : Nat}

theorem congr {position' : Int64 → Option Int} (listed : Listed order position)
    (same : ∀ id, position' id = position id) : Listed order position' := by
  rwa [funext same]

theorem index (listed : Listed order position) {m : Int} (known : position id = some m) :
    ∃ i : Nat, order[i]? = some id ∧ m = (i : Int) + 1 := by
  obtain ⟨i, here⟩ := List.getElem?_of_mem (listed.complete id (by rw [known]; simp))
  rw [listed.placed i id here, Option.some.injEq] at known
  exact ⟨i, here, known.symm⟩

theorem index_unique (listed : Listed order position) {j : Nat} (here : order[i]? = some id)
    (there : order[j]? = some id) : i = j := by
  have left := listed.placed i id here
  have right := listed.placed j id there
  rw [left, Option.some.injEq] at right
  omega

theorem nodup (listed : Listed order position) : order.Nodup := by
  refine List.pairwise_iff_getElem.mpr fun i j here there lt same => ?_
  have := listed.index_unique (List.getElem?_eq_getElem here)
    (same ▸ List.getElem?_eq_getElem there)
  omega

/-- The list says which positions there are. -/
theorem position_eq {position' : Int64 → Option Int} (listed : Listed order position)
    (listed' : Listed order position') (id : Int64) : position id = position' id := by
  by_cases member : id ∈ order
  · obtain ⟨i, here⟩ := List.getElem?_of_mem member
    exact (listed.placed i id here).trans (listed'.placed i id here).symm
  · have absent := mt (listed.complete id) member
    have absent' := mt (listed'.complete id) member
    rw [Classical.not_not.mp absent, Classical.not_not.mp absent']

theorem erase_eq (listed : Listed order position) (here : order[i]? = some id) :
    order.erase id = order.eraseIdx i := by
  apply List.erase_eq_eraseIdx_of_idxOf
  have bound := List.idxOf_lt_length_of_mem (List.mem_of_getElem? here)
  have there : order[order.idxOf id]? = some id := by
    rw [List.getElem?_eq_getElem bound, List.getElem_idxOf bound]
  exact listed.index_unique there here

theorem append (listed : Listed order position) (new : position id = none) :
    Listed (order ++ [id]) fun k => if k = id then some (order.length + 1 : Int) else
      position k := by
  constructor
  · intro i k here
    rw [List.getElem?_append] at here
    split at here
    case isTrue bound =>
      have old := listed.placed i k here
      have ne : k ≠ id := by
        rintro rfl
        rw [new] at old
        cases old
      simp only [if_neg ne, old]
    case isFalse bound =>
      have last : i - order.length = 0 ∧ id = k := by simpa [List.getElem?_singleton] using here
      have same : (i : Int) = order.length := by omega
      simp only [last.2, if_true, same]
  · intro k known
    rw [List.mem_append, List.mem_singleton]
    by_cases same : k = id
    · exact .inr same
    · rw [if_neg same] at known
      exact .inl (listed.complete k known)

theorem prepend (listed : Listed order position) (new : position id = none) :
    Listed (id :: order) fun k => if k = id then some 1 else (position k).map (· + 1) := by
  constructor
  · intro i k here
    cases i with
    | zero =>
      cases here
      simp
    | succ i =>
      rw [List.getElem?_cons_succ] at here
      have old := listed.placed i k here
      have ne : k ≠ id := by
        rintro rfl
        rw [new] at old
        cases old
      simp only [if_neg ne, old, Option.map_some, Int.natCast_add, Int.cast_ofNat_Int]
  · intro k known
    by_cases same : k = id
    · exact same ▸ List.mem_cons_self ..
    · rw [if_neg same] at known
      exact List.mem_cons_of_mem _ (listed.complete k fun none => known (by rw [none]; rfl))

/-- The ids behind the one that is taken out move up. -/
theorem erase (listed : Listed order position) (here : order[i]? = some id) :
    Listed (order.erase id) fun k => if k = id then none else
      (position k).map fun m => if (i : Int) + 1 < m then m - 1 else m := by
  rw [listed.erase_eq here]
  constructor
  · intro j k there
    have old : ∃ h : Nat, order[h]? = some k ∧ h = if j < i then j else j + 1 := by
      rw [List.getElem?_eraseIdx] at there
      split at there
      case isTrue below => exact ⟨j, there, (if_pos below).symm⟩
      case isFalse above => exact ⟨j + 1, there, (if_neg above).symm⟩
    obtain ⟨h, there, index⟩ := old
    have ne : k ≠ id := by
      rintro rfl
      have := listed.index_unique here there
      split at index <;> omega
    simp only [if_neg ne, listed.placed h k there, Option.map_some, Option.some.injEq]
    split at index <;> split <;> omega
  · intro k known
    by_cases same : k = id
    · simp [same] at known
    · rw [if_neg same] at known
      rw [← listed.erase_eq here]
      exact (List.mem_erase_of_ne same).mpr
        (listed.complete k fun none => known (by rw [none]; rfl))

/-- The ids between the old and the new index move one step towards the old one. -/
theorem move (listed : Listed order position) (here : order[i]? = some id) {q : Nat}
    (bound : q < order.length) :
    Listed ((order.erase id).insertIdx q id) fun k => if k = id then some ((q : Int) + 1) else
      (position k).map fun m =>
        if (i : Int) + 1 < m ∧ m ≤ (q : Int) + 1 then m - 1
        else if (q : Int) + 1 ≤ m ∧ m < (i : Int) + 1 then m + 1
        else m := by
  have last : i < order.length := (List.getElem?_eq_some_iff.mp here).1
  have size := List.length_eraseIdx_of_lt last
  rw [listed.erase_eq here]
  constructor
  · intro j k there
    rw [List.getElem?_insertIdx] at there
    by_cases new : j = q
    · rw [if_neg (by omega), if_pos new, if_pos (by omega), Option.some.injEq] at there
      rw [if_pos there.symm, new]
    · obtain ⟨h, found, index⟩ : ∃ h : Nat, order[h]? = some k ∧ (h = j ∧ j < q ∧ j < i ∨
          h = j + 1 ∧ j < q ∧ i ≤ j ∨ h + 1 = j ∧ q < j ∧ j ≤ i ∨ h = j ∧ q < j ∧ i < j) := by
        rcases Nat.lt_or_gt_of_ne new with before | after
        · rw [if_pos before, List.getElem?_eraseIdx] at there
          split at there
          · exact ⟨j, there, by omega⟩
          · exact ⟨j + 1, there, by omega⟩
        · rw [if_neg (by omega), if_neg new, List.getElem?_eraseIdx] at there
          split at there
          · exact ⟨j - 1, there, by omega⟩
          · exact ⟨j, by rwa [Nat.sub_add_cancel (by omega)] at there, by omega⟩
      have ne : k ≠ id := by
        rintro rfl
        have := listed.index_unique here found
        omega
      simp only [if_neg ne, listed.placed h k found, Option.map_some, Option.some.injEq]
      split
      · omega
      · split <;> omega
  · intro k known
    rw [← listed.erase_eq here, List.mem_insertIdx (by rw [listed.erase_eq here]; omega)]
    by_cases same : k = id
    · exact .inl same
    · rw [if_neg same] at known
      exact .inr ((List.mem_erase_of_ne same).mpr
        (listed.complete k fun none => known (by rw [none]; rfl)))

/-- Exchanging the positions of two ids is exchanging the ids. -/
theorem swap (listed : Listed order position) (a b : Int64) :
    Listed (order.map (exchange a b)) fun k => position (exchange a b k) := by
  constructor
  · intro i k here
    rw [List.getElem?_map] at here
    obtain ⟨old, there, rfl⟩ := Option.map_eq_some_iff.mp here
    rw [exchange_exchange]
    exact listed.placed i old there
  · intro k known
    rw [← exchange_exchange a b k]
    exact List.mem_map_of_mem (listed.complete _ known)

end Listed

end RankedStore
