import RankedStore.Proofs.Binary64.Arithmetic
import RankedStore.Proofs.History

/-! The order of values. Values of one kind are totally ordered, and NULL comes after all of them.
Integers and floats compare as well, but an integer is rounded for that, while two integers are
compared as they are. So integers that are rounded to one float are both equal to it and not to each
other, and there is no other way in which the order fails to be one. -/
namespace RankedStore

namespace Binary64

variable {x y : Binary64} {m n : Nat} {i j : Int}

theorem toNat_bits (x : Binary64) :
    x.bits.toNat = if x.isNegative then x.magnitude + signWeight else x.magnitude := by
  have bound : x.bits.toNat < 2 * signWeight := x.bits.toNat_lt
  unfold isNegative magnitude
  split
  case isTrue negative =>
    have le : signWeight ≤ x.bits.toNat := of_decide_eq_true negative
    rw [Nat.mod_eq_sub_mod le, Nat.mod_eq_of_lt (by omega), Nat.sub_add_cancel le]
  case isFalse positive =>
    have lt : x.bits.toNat < signWeight := by simpa using positive
    exact (Nat.mod_eq_of_lt lt).symm

/-- Each pattern has a place of its own in the total order. -/
theorem orderKey_injective : Function.Injective orderKey := by
  intro x y same
  obtain ⟨negative, magnitude⟩ : x.isNegative = y.isNegative ∧ x.magnitude = y.magnitude := by
    unfold orderKey at same
    split at same <;> split at same <;> simp_all <;> omega
  have bits : x.bits.toNat = y.bits.toNat := by rw [toNat_bits, toNat_bits, negative, magnitude]
  cases x
  cases y
  exact congrArg mk (UInt64.toNat_inj.mp bits)

theorem orderKey_ofMagnitude {negative : Bool} (small : m < signWeight) :
    (ofMagnitude negative m).orderKey = if negative then -(m : Int) - 1 else m := by
  rw [orderKey, isNegative_ofMagnitude small, magnitude_ofMagnitude small]

/-- Rounding keeps the order of integers, but it may make two of them one. -/
theorem ofInt_mono (le : i ≤ j) : (ofInt i).orderKey ≤ (ofInt j).orderKey := by
  have magnitudes : ∀ {m n : Nat}, m ≤ n →
      nearestMagnitude (m * unitsPerOne) 1 ≤ nearestMagnitude (n * unitsPerOne) 1 :=
    fun le => nearestMagnitude_mono (by decide) (Nat.mul_le_mul_right _ le)
  unfold ofInt ofRatio
  rw [orderKey_ofMagnitude (nearestMagnitude_lt ..), orderKey_ofMagnitude (nearestMagnitude_lt ..)]
  by_cases negative : i < 0 <;> by_cases negative' : j < 0 <;>
    simp only [negative, negative', decide_true, decide_false, if_true, Bool.false_eq_true,
      if_false]
  · have := magnitudes (m := j.natAbs) (n := i.natAbs) (by omega)
    omega
  · omega
  · omega
  · have := magnitudes (m := i.natAbs) (n := j.natAbs) (by omega)
    omega

theorem exact_two_pow : Exact (2 ^ 53) := by decide +kernel

/-- Integers of 53 bits are floats. -/
theorem ofInt_injective (small : i.natAbs ≤ 2 ^ 53) (small' : j.natAbs ≤ 2 ^ 53)
    (same : ofInt i = ofInt j) :
    i = j := by
  have exact : ∀ {n : Nat}, n ≤ 2 ^ 53 → Exact n := fun le =>
    (Nat.lt_or_eq_of_le le).elim exact_of_lt fun last => last ▸ exact_two_pow
  have units : ∀ i : Int, (ofInt i).units = (ofNat i.natAbs).units := fun i => by
    simp only [Binary64.units, ofInt, ofNat, ofRatio, magnitude_ofMagnitude
      (nearestMagnitude_lt ..)]
  have sign : decide (i < 0) = decide (j < 0) := by
    have signs := congrArg isNegative same
    rwa [ofInt, ofInt, ofRatio, ofRatio, isNegative_ofMagnitude (nearestMagnitude_lt ..),
      isNegative_ofMagnitude (nearestMagnitude_lt ..)] at signs
  have size : i.natAbs = j.natAbs := by
    have value := congrArg Binary64.units same
    rw [units, units, exact small, exact small'] at value
    exact Nat.eq_of_mul_eq_mul_right unitsPerOne_pos value
  have signs := decide_eq_decide.mp sign
  omega

theorem compare_eq_iff : x.compare y = .eq ↔ x = y :=
  Int.compare_eq_eq.trans orderKey_injective.eq_iff

end Binary64

namespace Value

variable {v w a b c : Value} {m n : Int64} {x : Binary64}

def isNumber : Value → Bool
  | .integer _ | .float _ => true
  | _ => false

/-- Values compare if they are of one kind or both are numbers. -/
def Kindred (v w : Value) : Prop := v.kind = w.kind ∨ v.isNumber = true ∧ w.isNumber = true

/-- One of the values is an integer, and the other one the float that it is rounded to. -/
def Rounded (v w : Value) : Prop :=
  ∃ n : Int64, v = .integer n ∧ w = .float (.ofInt n.toInt) ∨ w = .integer n ∧
    v = .float (.ofInt n.toInt)

/-- The values compare, and the second one does not go before the first one. -/
def AtMost (v w : Value) : Prop := ∃ o, v.order? w = some o ∧ o ≠ .gt

theorem order?_swap (v w : Value) : w.order? v = (v.order? w).map Ordering.swap := by
  cases v <;> cases w <;> first
    | rfl
    | exact congrArg some Std.OrientedOrd.eq_swap

theorem order?_self (v : Value) : v.order? v = some .eq := by
  cases v <;> simp [order?, Binary64.compare]

theorem order?_isSome (v w : Value) :
    (v.order? w).isSome = true ↔ v = .null ∨ w = .null ∨ v.Kindred w := by
  cases v <;> cases w <;> simp [order?, Kindred, kind, isNumber]

/-- What the order does not tell apart is the same, or it is an integer and its float. -/
theorem order?_eq_iff : v.order? w = some .eq ↔ v = w ∨ v.Rounded w := by
  cases v <;> cases w <;> simp [order?, Rounded, Binary64.compare_eq_iff]
  case integer.float n x => exact eq_comm

theorem atMost_iff : v.AtMost w ↔ (v.order? w).any (·.isLE) = true := by
  unfold AtMost
  cases v.order? w <;> simp [Ordering.isLE_iff_ne_gt]

/-- Two integers that are rounded to one float, with the larger one before it and the smaller one
after it. -/
def Crosses (a b c : Value) : Prop :=
  ∃ m n : Int64, n < m ∧ Binary64.ofInt m.toInt = .ofInt n.toInt ∧ a = .integer m ∧
    b = .float (.ofInt m.toInt) ∧ c = .integer n

theorem Crosses.order? (crosses : a.Crosses b c) : a.order? c = some .gt := by
  obtain ⟨m, n, less, _, rfl, _, rfl⟩ := crosses
  exact congrArg some (Std.compare_eq_gt.mpr less)

/-- Around a float two integers are in order, or they are both rounded to it. -/
theorem atMost_or_crosses (first : (Binary64.ofInt m.toInt).orderKey ≤ x.orderKey)
    (second : x.orderKey ≤ (Binary64.ofInt n.toInt).orderKey) :
    m ≤ n ∨ (integer m).Crosses (float x) (integer n) := by
  by_cases le : m ≤ n
  · exact .inl le
  have less : n < m := Int64.not_le.mp le
  have rounded := Binary64.ofInt_mono (Int64.le_iff_toInt_le.mp (Int64.le_of_lt less))
  have above : Binary64.ofInt m.toInt = x :=
    Binary64.orderKey_injective (Int.le_antisymm first (Int.le_trans second rounded))
  have below : Binary64.ofInt n.toInt = x :=
    Binary64.orderKey_injective (Int.le_antisymm (Int.le_trans rounded first) second)
  exact .inr ⟨m, n, less, above.trans below.symm, rfl, congrArg float above.symm, rfl⟩

/-- The order is transitive, except around a float. -/
theorem AtMost.trans (first : a.AtMost b) (second : b.AtMost c) : a.AtMost c ∨ a.Crosses b c := by
  rw [atMost_iff] at first second ⊢
  have rounded : ∀ {m n : Int64}, m ≤ n →
    (Binary64.ofInt m.toInt).orderKey ≤ (Binary64.ofInt n.toInt).orderKey :=
    fun le => Binary64.ofInt_mono (Int64.le_iff_toInt_le.mp le)
  cases a <;> cases b <;> cases c <;>
    simp only [order?, Binary64.compare, Std.isLE_compare, Option.any_some, Option.any_none,
      Ordering.isLE_lt, Ordering.isLE_eq, Ordering.isLE_gt, Bool.false_eq_true,
      true_or] at first second ⊢
  case integer.integer.integer => exact .inl (Int64.le_trans first second)
  case integer.float.integer => exact atMost_or_crosses first second
  case integer.integer.float => exact .inl (Int.le_trans (rounded first) second)
  case float.integer.integer => exact .inl (Int.le_trans first (rounded second))
  case boolean.boolean.boolean | text.text.text => exact .inl (Std.TransOrd.isLE_trans first second)
  all_goals exact .inl (Int.le_trans first second)

/-- Integers that are rounded to one float need more than 53 bits. -/
theorem Crosses.large (crosses : a.Crosses b c) : ∃ m n : Int64, a = .integer m ∧ c = .integer n ∧
    (2 ^ 53 < m.toInt.natAbs ∨ 2 ^ 53 < n.toInt.natAbs) := by
  obtain ⟨m, n, less, same, rfl, _, rfl⟩ := crosses
  refine ⟨m, n, rfl, rfl, ?_⟩
  by_contra small
  obtain ⟨first, second⟩ := not_or.mp small
  have equal := Binary64.ofInt_injective (Nat.not_lt.mp first) (Nat.not_lt.mp second) same
  exact Int64.lt_irrefl (Int64.toInt_inj.mp equal ▸ less)

theorem compare_eq_ok {o : Ordering} : v.compare w = .ok o ↔ v.order? w = some o := by
  unfold Value.compare
  cases v.order? w <;> simp

/-- Values that compare are ordered from both sides alike, every value is equal to itself, and from
a value that is at most a second one, which is at most a third one, it follows that the first one is
at most the third one, unless both are integers that are rounded to the second one. That takes an
integer of more than 53 bits. -/
theorem compare_preorder_iff (a b c : Value) :
    (∀ o, a.compare b = .ok o → b.compare a = .ok o.swap) ∧ a.compare a = .ok .eq ∧
      (∀ o o', a.compare b = .ok o → b.compare c = .ok o' → o ≠ .gt → o' ≠ .gt →
        ∃ o'', a.compare c = .ok o'' ∧ (o'' = .gt ↔ a.Crosses b c)) ∧
      (a.Crosses b c → ∃ m n : Int64, a = .integer m ∧ c = .integer n ∧
        (2 ^ 53 < m.toInt.natAbs ∨ 2 ^ 53 < n.toInt.natAbs)) := by
  refine ⟨fun o compared => ?_, compare_eq_ok.mpr (order?_self a),
    fun o o' first second le le' => ?_,
    fun crosses => crosses.large⟩
  · rw [compare_eq_ok] at compared ⊢
    rw [order?_swap, compared, Option.map_some]
  · rw [compare_eq_ok] at first second
    rcases AtMost.trans ⟨o, first, le⟩ ⟨o', second, le'⟩ with ⟨o'', third, le''⟩ | crosses
    · refine ⟨o'', compare_eq_ok.mpr third, iff_of_false le'' fun crosses => ?_⟩
      exact le'' (Option.some.inj (third.symm.trans crosses.order?))
    · exact ⟨.gt, compare_eq_ok.mpr crosses.order?, iff_of_true rfl crosses⟩

end Value

/-! A float between the two integers that are rounded to it. -/
namespace Meeting

def larger : Value := .integer 9007199254740993

def between : Value := .float ⟨0x4340000000000000⟩

def smaller : Value := .integer 9007199254740992

/-- The larger integer comes first, then the float and the smaller one. -/
def steps : List Store.Step :=
  [.connect "a", .ask "a" (.createTable ⟨"t", [.id, { name := "x", type := .float }]⟩),
    .ask "a" (.insert "t" [.null, larger]), .ask "a" (.insert "t" [.null, between]),
    .ask "a" (.insert "t" [.null, smaller])]

end Meeting

open Meeting in
/-- Both integers are equal to the float, and one is greater than the other. Rows that are sorted in
ascending order by such values keep the larger integer in front of the smaller one. -/
theorem Value.comparison_fails_around_float :
    larger.compare between = .ok .eq ∧ between.compare smaller = .ok .eq ∧
    larger.compare smaller = .ok .gt ∧
      (((Store.ofCatalog .empty).play steps).step
        (.ask "a" (.select { table := "t", order := some ("x", .ascending) }))).1 =
          some (.ok (.rows [[.integer 1, larger], [.integer 2, between],
            [.integer 3, smaller]])) := by
  decide +kernel

end RankedStore
