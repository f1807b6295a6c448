import RankedStore.Sort

/-! What insertion sort does by a comparison that is a weak order on the elements of the list:
nothing comes after an element that it goes before, and elements that the comparison does not tell
apart stay in the order that they had. -/
namespace RankedStore

variable {before : α → α → Bool} {R : α → α → Prop} {x : α} {xs sorted : List α}

/-- An element goes in behind those that it does not go before, all of which came earlier. -/
theorem insertFromEnd_arranged (asymm : ∀ y ∈ sorted, before x y = true → before y x = false)
    (through : ∀ y ∈ sorted, ∀ z ∈ sorted, before x y = false → before y z = false →
      before x z = false) (earlier : ∀ y ∈ sorted, R y x)
    (down : sorted.Pairwise fun a b => before a b = false ∧ (before b a = true ∨ R b a)) :
    (insertFromEnd before x sorted).Pairwise fun a b => before a b = false ∧
    (before b a = true ∨ R b a) := by
  induction sorted with
  | nil => exact List.pairwise_singleton ..
  | cons y rest ih =>
    obtain ⟨first, down⟩ := List.pairwise_cons.mp down
    have asymmRest := fun z (member : z ∈ rest) => asymm z (List.mem_cons_of_mem _ member)
    have throughRest := fun z (member : z ∈ rest) w (member' : w ∈ rest) =>
      through z (List.mem_cons_of_mem _ member) w (List.mem_cons_of_mem _ member')
    have earlierRest := fun z (member : z ∈ rest) => earlier z (List.mem_cons_of_mem _ member)
    have here := List.mem_cons_self (a := y) (l := rest)
    unfold insertFromEnd
    split
    case isTrue goes =>
      refine List.pairwise_cons.mpr ⟨fun z member => ?_, ih asymmRest throughRest earlierRest down⟩
      rcases List.mem_cons.mp ((insertFromEnd_perm before x rest).mem_iff.mp member)
        with rfl | member
      · exact ⟨asymm y here goes, .inl goes⟩
      · exact first z member
    case isFalse stays =>
      have stays : before x y = false := by simpa using stays
      have down := List.pairwise_cons.mpr ⟨first, down⟩
      refine List.pairwise_cons.mpr ⟨fun z member => ⟨?_, .inr (earlier z member)⟩, down⟩
      rcases List.mem_cons.mp member with rfl | later
      · exact stays
      · exact through y here z member stays (first z later).1

theorem insertionSort_arranged (asymm : ∀ x ∈ xs, ∀ y ∈ xs, before x y = true → before y x = false)
    (through : ∀ x ∈ xs, ∀ y ∈ xs, ∀ z ∈ xs, before x y = false → before y z = false →
      before x z = false) (ordered : xs.Pairwise R) :
    (insertionSort before xs).Pairwise fun a b => before b a = false ∧
    (before a b = true ∨ R a b) := by
  -- the rest of the list goes into what is sorted so far, all of which came earlier
  suffices down : ∀ ys : List α, (∀ x ∈ ys, x ∈ xs) → ys.Pairwise R → ∀ sorted : List α,
      (∀ x ∈ sorted, x ∈ xs) → (∀ x ∈ sorted, ∀ y ∈ ys, R x y) →
      (sorted.Pairwise fun a b => before a b = false ∧ (before b a = true ∨ R b a)) →
      (ys.foldl (fun sorted x => insertFromEnd before x sorted) sorted).Pairwise
        fun a b => before a b = false ∧ (before b a = true ∨ R b a) from
    List.pairwise_reverse.mpr (down xs (fun _ member => member) ordered [] (by simp) (by simp) .nil)
  intro ys
  induction ys with
  | nil => exact fun _ _ sorted _ _ down => down
  | cons x ys ih =>
    intro among ordered sorted within earlier down
    obtain ⟨first, ordered⟩ := List.pairwise_cons.mp ordered
    have here := among x (List.mem_cons_self ..)
    have inserted : ∀ {y}, y ∈ insertFromEnd before x sorted → y = x ∨ y ∈ sorted := fun member =>
      List.mem_cons.mp ((insertFromEnd_perm before x sorted).mem_iff.mp member)
    refine ih (fun y member => among y (List.mem_cons_of_mem _ member)) ordered _ ?_ ?_
      (insertFromEnd_arranged (fun y member => asymm x here y (within y member))
        (fun y member z member' => through x here y (within y member) z (within z member'))
        (fun y member => earlier y member x (List.mem_cons_self ..)) down)
    · intro y member
      rcases inserted member with rfl | member
      · exact here
      · exact within y member
    · intro y member z later
      rcases inserted member with rfl | member
      · exact first z later
      · exact earlier y member z (List.mem_cons_of_mem _ later)

theorem insertFromEnd_map {before : β → β → Bool} (f : α → β) (x : α) (sorted : List α) :
    insertFromEnd before (f x) (sorted.map f) =
      (insertFromEnd (fun a b => before (f a) (f b)) x sorted).map f := by
  induction sorted with
  | nil => rfl
  | cons y rest ih =>
    rw [List.map_cons, insertFromEnd, insertFromEnd, ih]
    split <;> rfl

/-- Elements are sorted by what the comparison sees of them. -/
theorem insertionSort_map {before : β → β → Bool} (f : α → β) (xs : List α) :
    insertionSort before (xs.map f) = (insertionSort (fun a b => before (f a) (f b)) xs).map f := by
  suffices folded : ∀ sorted : List α,
      (xs.map f).foldl (fun sorted x => insertFromEnd before x sorted) (sorted.map f) =
        (xs.foldl (fun sorted x => insertFromEnd (fun a b => before (f a) (f b)) x sorted)
          sorted).map f by
    rw [insertionSort, insertionSort, List.map_reverse]
    exact congrArg List.reverse (folded [])
  induction xs with
  | nil => exact fun _ => rfl
  | cons x rest ih =>
    intro sorted
    rw [List.map_cons, List.foldl_cons, List.foldl_cons, insertFromEnd_map]
    exact ih _

end RankedStore
