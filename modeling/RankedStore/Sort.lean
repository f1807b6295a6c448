/-! Stable insertion sort. An element moves back from the end past those that it goes before, so
equal elements stay in the order in which they came. -/
namespace RankedStore

/-- Puts an element into a list that is sorted from last to first. -/
def insertFromEnd (before : α → α → Bool) (x : α) : List α → List α
  | [] => [x]
  | y :: rest => if before x y then y :: insertFromEnd before x rest else x :: y :: rest

def insertionSort (before : α → α → Bool) (xs : List α) : List α :=
  (xs.foldl (fun sorted x => insertFromEnd before x sorted) []).reverse

theorem insertFromEnd_perm (before : α → α → Bool) (x : α) (l : List α) :
    (insertFromEnd before x l).Perm (x :: l) := by
  induction l with
  | nil => exact .refl _
  | cons y rest ih =>
    unfold insertFromEnd
    split
    · exact (ih.cons y).trans (.swap ..)
    · exact .refl _

theorem insertionSort_perm (before : α → α → Bool) (xs : List α) :
    (insertionSort before xs).Perm xs := by
  suffices h : ∀ sorted, (xs.foldl (fun sorted x => insertFromEnd before x sorted) sorted).Perm
      (sorted ++ xs) from (List.reverse_perm _).trans (by simpa using h [])
  induction xs with
  | nil => simp
  | cons x rest ih =>
    intro sorted
    refine (ih _).trans ?_
    exact ((insertFromEnd_perm before x sorted).append_right rest).trans
      (List.perm_middle.symm)

end RankedStore
