import RankedStore.Proofs.Order
import RankedStore.Proofs.Ranking.Queries

/-! A selection filters the rows of a table, sorts them by a column, and takes the first ones.
Before sorting, the first value that is not NULL is compared with all others. To be comparable is
the same from all sides, so after that no two values fail to compare. Still they may have no order,
as around a float to which unequal integers are rounded, and then the sort of many rows fails. -/
namespace RankedStore

namespace Value

variable {u v w : Value}

theorem isNull_iff : v.isNull = true ↔ v = .null := by
  cases v <;> simp [isNull]

theorem isNull_eq_false (known : v ≠ .null) : v.isNull = false := by
  rw [← Bool.not_eq_true, isNull_iff]
  exact known

/-- The order of values of one kind, with NULL after everything else. -/
inductive Below : Value → Value → Prop
  | integers {m n : Int64} (less : m < n) : Below (.integer m) (.integer n)
  | floats {x y : Binary64} (less : x.orderKey < y.orderKey) : Below (.float x) (.float y)
  | texts {s t : String} (less : s < t) : Below (.text s) (.text t)
  | booleans : Below (.boolean false) (.boolean true)
  | null {v : Value} (known : v ≠ .null) : Below v .null

theorem Below.asymm (below : v.Below w) : ¬ w.Below v := by
  intro above
  cases below with
  | integers less =>
    cases above with
    | integers more => exact Int64.lt_asymm less more
  | floats less =>
    cases above with
    | floats more => exact Int.lt_asymm less more
  | texts less =>
    cases above with
    | texts more => exact String.lt_asymm less more
  | booleans => cases above
  | null known =>
    cases above with
    | null known => exact known rfl

/-- Values that are not of two kinds. -/
def Alike (v w : Value) : Prop := v ≠ .null → w ≠ .null → v.kind = w.kind

theorem Alike.order?_eq_lt (alike : v.Alike w) : v.order? w = some .lt ↔ v.Below w := by
  have texts : ∀ {s t : String}, Ord.compare s t = .lt ↔ s < t := compareOfLessAndEq_eq_lt
  constructor
  · intro less
    cases v <;> cases w <;>
      simp only [order?, Binary64.compare, Option.some.injEq, reduceCtorEq] at less
    case integer.null | float.null | boolean.null | text.null => exact .null (by simp)
    case integer.integer => exact .integers (Std.compare_eq_lt.mp less)
    case float.float => exact .floats (Int.compare_eq_lt.mp less)
    case text.text => exact .texts (texts.mp less)
    case boolean.boolean a b =>
      cases a <;> cases b
      case false.true => exact .booleans
      all_goals exact absurd less (by decide)
    all_goals simp [Alike, kind] at alike
  · intro below
    cases below with
    | integers less => exact congrArg some (Std.compare_eq_lt.mpr less)
    | floats less => exact congrArg some (Int.compare_eq_lt.mpr less)
    | texts less => exact congrArg some (texts.mpr less)
    | booleans => rfl
    | null known =>
      cases v with
      | null => exact absurd rfl known
      | _ => rfl

theorem Alike.comparable (alike : v.Alike w) : (v.order? w).isSome = true := by
  rw [order?_isSome]
  by_cases known : v = .null
  · exact .inl known
  by_cases known' : w = .null
  · exact .inr (.inl known')
  exact .inr (.inr (.inl (alike known known')))

theorem Rounded.not_alike (rounded : v.Rounded w) : ¬ v.Alike w := by
  obtain ⟨n, ⟨rfl, rfl⟩ | ⟨rfl, rfl⟩⟩ := rounded <;> simp [Alike, kind]

theorem Alike.symm (alike : v.Alike w) : w.Alike v := fun known known' => (alike known' known).symm

theorem Alike.eq_of_not_below (alike : v.Alike w) (notBelow : ¬ v.Below w)
    (notAbove : ¬ w.Below v) : v = w := by
  rw [← alike.order?_eq_lt] at notBelow
  rw [← alike.symm.order?_eq_lt, order?_swap] at notAbove
  obtain ⟨o, order⟩ := Option.isSome_iff_exists.mp alike.comparable
  rw [order] at notBelow notAbove
  cases o with
  | lt => exact absurd rfl notBelow
  | gt => exact absurd rfl notAbove
  | eq => exact (order?_eq_iff.mp order).resolve_right fun rounded => rounded.not_alike alike

theorem Alike.atMost_iff (alike : v.Alike w) : w.AtMost v ↔ ¬ v.Below w := by
  obtain ⟨o, order⟩ := Option.isSome_iff_exists.mp alike.comparable
  have swapped : w.order? v = some o.swap := by rw [order?_swap, order, Option.map_some]
  rw [← alike.order?_eq_lt, order, Option.some.injEq, AtMost, swapped]
  simp [Ordering.swap_eq_gt]

/-- Only a float can stand in the way of this, which is no integer. -/
theorem Alike.not_below_trans (first : u.Alike v) (second : v.Alike w) (ends : u.Alike w)
    (notFirst : ¬ u.Below v) (notSecond : ¬ v.Below w) : ¬ u.Below w := by
  rw [← ends.atMost_iff]
  rcases AtMost.trans (second.atMost_iff.mpr notSecond) (first.atMost_iff.mpr notFirst)
    with atMost | crosses
  · exact atMost
  · obtain ⟨m, n, _, _, rfl, rfl, rfl⟩ := crosses
    exact absurd second (Rounded.not_alike ⟨m, .inr ⟨rfl, rfl⟩⟩)

theorem order?_eq_none_iff : v.order? w = none ↔ v ≠ .null ∧ w ≠ .null ∧ ¬ v.Kindred w := by
  rw [← Option.not_isSome_iff_eq_none, order?_isSome, not_or, not_or]

theorem Kindred.of_order? (known : v ≠ .null) (known' : w ≠ .null)
    (ordered : (v.order? w).isSome = true) :
    v.Kindred w := by
  rcases (order?_isSome ..).mp ordered with null | null | kindred
  · exact absurd null known
  · exact absurd null known'
  · exact kindred

/-- Around a float the order is not transitive. -/
theorem Crosses.atMost (crosses : u.Crosses v w) : u.AtMost v ∧ v.AtMost w ∧ ¬ u.AtMost w := by
  have greater := crosses.order?
  obtain ⟨m, n, _, same, rfl, rfl, rfl⟩ := crosses
  refine ⟨⟨.eq, order?_eq_iff.mpr (.inr ⟨m, .inl ⟨rfl, rfl⟩⟩), by decide⟩,
    ⟨.eq, order?_eq_iff.mpr (.inr ⟨n, .inr ⟨rfl, congrArg float same⟩⟩), by decide⟩, ?_⟩
  rintro ⟨o, order, le⟩
  exact le (Option.some.inj (order.symm.trans greater))

/-- Values that compare with a third one compare with each other. -/
theorem Kindred.trans (first : u.Kindred v) (second : u.Kindred w) : v.Kindred w := by
  unfold Kindred at *
  cases u <;> cases v <;> cases w <;> simp_all [kind, isNumber]

end Value

/-- One value goes before another one in a direction. In descending order NULL goes before
everything else. -/
def Direction.Before : Direction → Value → Value → Prop
  | .ascending, v, w => v.Below w
  | .descending, v, w => w.Below v

namespace Direction

variable {d : Direction} {u v w : Value}

theorem Before.asymm (before : d.Before v w) : ¬ d.Before w v := by
  cases d <;> exact Value.Below.asymm before

theorem not_before_trans (first : u.Alike v) (second : v.Alike w) (ends : u.Alike w)
    (notFirst : ¬ d.Before u v) (notSecond : ¬ d.Before v w) : ¬ d.Before u w := by
  cases d with
  | ascending => exact first.not_below_trans second ends notFirst notSecond
  | descending => exact second.symm.not_below_trans first.symm ends.symm notSecond notFirst

theorem eq_of_not_before (alike : v.Alike w) (notBefore : ¬ d.Before v w)
    (notAfter : ¬ d.Before w v) : v = w := by
  cases d with
  | ascending => exact alike.eq_of_not_below notBefore notAfter
  | descending => exact alike.eq_of_not_below notAfter notBefore

end Direction

/-- As many of the rows as a statement asks for, from the front. -/
def Select.first (q : Select) (rows : List Row) : List Row :=
  match q.limit with
  | none => rows
  | some limit => rows.take limit

namespace Table

variable {t : Table} {i : Nat} {direction : Direction} {rows : List Row} {a b c : Row}
  {first : Value}

/-- The first value at a place that is not NULL. -/
def firstValue? (i : Nat) (rows : List Row) : Option Value :=
  (rows.map (valueAt i)).find? fun v => !v.isNull

/-- A value at a place that is not NULL, or nothing if there is none. -/
inductive Sample (i : Nat) (rows : List Row) : Option Value → Prop
  | unknown (all : ∀ row ∈ rows, valueAt i row = .null) : Sample i rows none
  | known (row : Row) (member : row ∈ rows) (known : valueAt i row ≠ .null) :
    Sample i rows (some (valueAt i row))

/-- The rows that meet a filter with their ids, which are in order. -/
def matching (t : Table) (f : Filter) : List (Int64 × Row) :=
  t.scan.filter fun e => (t.meets f e.2).toOption = some true

/-- Two of the rows have values at a place that are of kinds which cannot be compared. -/
def Mixed (i : Nat) (rows : List Row) : Prop :=
  ∃ a ∈ rows, ∃ b ∈ rows, valueAt i a ≠ .null ∧ valueAt i b ≠ .null ∧
    ¬ (valueAt i a).Kindred (valueAt i b)

/-- The order of the values of the rows at a place is transitive. -/
def Ordered (i : Nat) (rows : List Row) : Prop :=
  ∀ a ∈ rows, ∀ b ∈ rows, ∀ c ∈ rows, (valueAt i a).AtMost (valueAt i b) →
    (valueAt i b).AtMost (valueAt i c) → (valueAt i a).AtMost (valueAt i c)

/-- The rows are few, or their values have an order. -/
def Sortable (i : Nat) (rows : List Row) : Prop := rows.length ≤ insertionLimit ∨ Ordered i rows

/-- The values of the rows at a place are of one kind, apart from those that are NULL. -/
def OfOneKind (i : Nat) (rows : List Row) : Prop :=
  ∃ kind, ∀ row ∈ rows, valueAt i row ≠ .null → (valueAt i row).kind = kind

/-- One row goes before another one by its value at a place, or by its id if the values are
equal. -/
def SortsBefore (direction : Direction) (i : Nat) (a b : Int64 × Row) : Prop :=
  direction.Before (valueAt i a.2) (valueAt i b.2) ∨ valueAt i a.2 = valueAt i b.2 ∧ a.1 < b.1

theorem SortsBefore.asymm {a b : Int64 × Row} (before : SortsBefore direction i a b) :
    ¬ SortsBefore direction i b a := by
  have irrefl : ∀ {v : Value}, ¬ direction.Before v v := fun before => before.asymm before
  rintro (after | ⟨same, more⟩)
  · rcases before with before | ⟨same, _⟩
    · exact before.asymm after
    · exact irrefl (same ▸ after)
  · rcases before with before | ⟨_, less⟩
    · exact irrefl (same ▸ before)
    · exact Int64.lt_asymm less more

theorem cellAt_eq (wide : i < a.length) : t.cellAt a i = .ok (valueAt i a) := by
  unfold cellAt valueAt
  rw [List.getElem?_eq_getElem wide]
  rfl

theorem comparable_of_not_mixed (uniform : ¬ Mixed i rows) (left : a ∈ rows) (right : b ∈ rows) :
    ((valueAt i a).order? (valueAt i b)).isSome = true := by
  by_contra unordered
  rw [Option.not_isSome_iff_eq_none, Value.order?_eq_none_iff] at unordered
  exact uniform ⟨a, left, b, right, unordered⟩

/-- Where all values compare with one value, no two of them fail to compare. -/
theorem not_mixed_of_kindred {v : Value}
    (kindred : ∀ row ∈ rows, valueAt i row ≠ .null → v.Kindred (valueAt i row)) :
    ¬ Mixed i rows := by
  rintro ⟨a, left, b, right, known, known', apart⟩
  exact apart ((kindred a left known).trans (kindred b right known'))

theorem firstValue?_sample (i : Nat) (rows : List Row) : Sample i rows (firstValue? i rows) := by
  unfold firstValue?
  cases found : (rows.map (valueAt i)).find? fun v => !v.isNull with
  | none =>
    refine .unknown fun row member => ?_
    simpa [Value.isNull_iff] using List.find?_eq_none.mp found _ (List.mem_map_of_mem member)
  | some v =>
    obtain ⟨row, member, rfl⟩ := List.mem_map.mp (List.mem_of_find?_eq_some found)
    refine .known row member ?_
    rw [ne_eq, ← Value.isNull_iff]
    simpa using List.find?_some found

theorem firstKnown?_eq (wide : ∀ row ∈ rows, i < row.length) :
    t.firstKnown? i rows = .ok (firstValue? i rows) := by
  induction rows with
  | nil => rfl
  | cons row rest ih =>
    obtain ⟨here, wide⟩ := List.forall_mem_cons.mp wide
    rw [firstValue?, List.map_cons, List.find?_cons]
    simp only [firstKnown?, cellAt_eq here, Except.ok_bind]
    cases (valueAt i row).isNull with
    | true => exact ih wide
    | false => rfl

/-- The values are compared with the first one until one does not compare. -/
theorem checkComparable_cases (wide : ∀ row ∈ rows, i < row.length) :
    (∀ row ∈ rows, (first.order? (valueAt i row)).isSome = true) ∧
    t.checkComparable i first rows = .ok () ∨
      (∃ row ∈ rows, first.order? (valueAt i row) = none) ∧
        ∃ left right, t.checkComparable i first rows =
          .error (.typeMismatch (.incomparable left right)) := by
  induction rows with
  | nil => exact .inl ⟨by simp, rfl⟩
  | cons row rest ih =>
    obtain ⟨here, wide⟩ := List.forall_mem_cons.mp wide
    simp only [checkComparable, cellAt_eq here, Value.compare, Except.ok_bind]
    cases order : first.order? (valueAt i row) with
    | none => exact .inr ⟨⟨row, List.mem_cons_self .., order⟩, _, _, rfl⟩
    | some o =>
      rcases ih wide with ⟨all, passed⟩ | ⟨⟨other, member, none⟩, failed⟩
      · exact .inl ⟨List.forall_mem_cons.mpr ⟨by rw [order]; rfl, all⟩, passed⟩
      · exact .inr ⟨⟨other, List.mem_cons_of_mem _ member, none⟩, failed⟩

theorem mem_roundedTo {x : Binary64} {values : List Value} {n : Int64} :
    n ∈ roundedTo x values ↔ .integer n ∈ values ∧ Binary64.ofInt n.toInt = x := by
  have integer : n ∈ values.filterMap Value.integer? ↔ .integer n ∈ values := by
    rw [List.mem_filterMap]
    constructor
    · rintro ⟨v, member, found⟩
      cases v <;> cases found
      exact member
    · exact fun member => ⟨_, member, rfl⟩
  rw [roundedTo, List.mem_filter, integer, decide_eq_true_iff]

/-- Values are torn around a float between two integers that are both rounded to it. -/
theorem any_isTorn_iff {values : List Value} : values.any (isTorn values) = true ↔
    ∃ a ∈ values, ∃ b ∈ values, ∃ c ∈ values, a.Crosses b c := by
  rw [List.any_eq_true]
  constructor
  · rintro ⟨v, middle, torn⟩
    cases v with
    | float x =>
      obtain ⟨m, first, second⟩ := List.any_eq_true.mp torn
      obtain ⟨n, second, differ⟩ := List.any_eq_true.mp second
      obtain ⟨left, rounded⟩ := mem_roundedTo.mp first
      obtain ⟨right, rounded'⟩ := mem_roundedTo.mp second
      by_cases less : n < m
      · exact ⟨_, left, _, middle, _, right, m, n, less, rounded.trans rounded'.symm, rfl,
          congrArg Value.float rounded.symm, rfl⟩
      · have more := Int64.lt_of_le_of_ne (Int64.not_lt.mp less) (of_decide_eq_true differ)
        exact ⟨_, right, _, middle, _, left, n, m, more, rounded'.trans rounded.symm, rfl,
          congrArg Value.float rounded'.symm, rfl⟩
    | null | integer | boolean | text => cases torn
  · rintro ⟨_, left, _, middle, _, right, m, n, less, same, rfl, rfl, rfl⟩
    refine ⟨_, middle, List.any_eq_true.mpr ⟨m, mem_roundedTo.mpr ⟨left, rfl⟩, ?_⟩⟩
    refine List.any_eq_true.mpr ⟨n, mem_roundedTo.mpr ⟨right, same.symm⟩, ?_⟩
    exact decide_eq_true fun equal => Int64.lt_irrefl (equal ▸ less)

/-- The rows are given up if and only if the order of their values is not transitive. -/
theorem ordered_iff :
    Ordered i rows ↔ (rows.map (valueAt i)).any (isTorn (rows.map (valueAt i))) = false := by
  rw [← Bool.not_eq_true, any_isTorn_iff]
  constructor
  · rintro ordered ⟨_, left, _, middle, _, right, crosses⟩
    obtain ⟨a, here, rfl⟩ := List.mem_map.mp left
    obtain ⟨b, there, rfl⟩ := List.mem_map.mp middle
    obtain ⟨c, behind, rfl⟩ := List.mem_map.mp right
    obtain ⟨first, second, third⟩ := crosses.atMost
    exact third (ordered a here b there c behind first second)
  · intro whole a left b middle c right first second
    refine (first.trans second).resolve_right fun crosses => whole ?_
    exact ⟨_, List.mem_map_of_mem left, _, List.mem_map_of_mem middle, _, List.mem_map_of_mem right,
      crosses⟩

theorem OfOneKind.ordered (one : OfOneKind i rows) : Ordered i rows := by
  obtain ⟨kind, one⟩ := one
  intro a left b middle c right first second
  refine (first.trans second).resolve_right ?_
  rintro ⟨m, _, _, _, here, there, _⟩
  have integer := one a left (by simp [here])
  have float := one b middle (by simp [there])
  rw [here] at integer
  rw [there, ← integer] at float
  simp [Value.kind] at float

/-- Once all values compare, the rows are sorted if they can be. -/
theorem sortRows_sortable (t : Table) (direction : Direction) {first : Option Value}
    (found : t.firstKnown? i rows = .ok first)
    (compared : ∀ v, first = some v → t.checkComparable i v rows = .ok ()) :
    Sortable i rows ∧
        t.sortRows i direction rows = .ok (insertionSort (isBefore i direction) rows) ∨
      ¬ Sortable i rows ∧ t.sortRows i direction rows = .error (.damage (.unordered t.name)) := by
  rw [t.sortRows_compared direction found compared, Sortable, ordered_iff]
  cases (rows.map (valueAt i)).any (isTorn (rows.map (valueAt i))) with
  | false => simp
  | true =>
    by_cases few : rows.length ≤ insertionLimit
    · simp [few, Nat.not_lt.mpr few]
    · simp [few, Nat.not_le.mp few]

/-- Comparing with the first value that is not NULL finds out whether any two of them do not
compare. -/
theorem sortRows_cases (t : Table) (direction : Direction) (wide : ∀ row ∈ rows, i < row.length) :
    ¬ Mixed i rows ∧
        (Sortable i rows ∧
            t.sortRows i direction rows = .ok (insertionSort (isBefore i direction) rows) ∨
          ¬ Sortable i rows ∧
            t.sortRows i direction rows = .error (.damage (.unordered t.name))) ∨
      Mixed i rows ∧ ∃ left right,
        t.sortRows i direction rows = .error (.typeMismatch (.incomparable left right)) := by
  have sample := firstValue?_sample i rows
  have found : t.firstKnown? i rows = .ok (firstValue? i rows) := firstKnown?_eq wide
  generalize firstValue? i rows = first at sample found
  cases sample with
  | unknown all =>
    refine .inl ⟨?_, t.sortRows_sortable direction found (by rintro _ ⟨⟩)⟩
    rintro ⟨a, member, _, _, known, _⟩
    exact known (all a member)
  | known origin there known =>
    have checked : _ ∧ t.checkComparable i (valueAt i origin) rows = _ ∨ _ :=
      checkComparable_cases wide
    rcases checked with
      ⟨all, passed⟩ | ⟨⟨row, member, none⟩, left, right, failed⟩
    · refine .inl ⟨not_mixed_of_kindred (v := valueAt i origin) fun row member known' => ?_,
        t.sortRows_sortable direction found ?_⟩
      · exact .of_order? known known' (all row member)
      · rintro _ ⟨⟩
        exact passed
    · refine .inr ⟨⟨origin, there, row, member, Value.order?_eq_none_iff.mp none⟩, left, right, ?_⟩
      simp [sortRows, found, failed]

/-! The comparison of the sort, on values of one kind. -/

theorem isBefore_iff (alike : (valueAt i a).Alike (valueAt i b)) :
    isBefore i direction a b = true ↔ direction.Before (valueAt i a) (valueAt i b) := by
  obtain ⟨o, order⟩ := Option.isSome_iff_exists.mp alike.comparable
  have here : orderAt i a b = o := congrArg (fun order => order.getD .eq) order
  have swapped : (valueAt i b).order? (valueAt i a) = some o.swap := by
    rw [Value.order?_swap, order, Option.map_some]
  cases direction with
  | ascending =>
    simp only [isBefore, here, Direction.Before, ← alike.order?_eq_lt, order, Option.some.injEq,
      decide_eq_true_iff]
  | descending =>
    simp only [isBefore, here, Direction.Before, ← alike.symm.order?_eq_lt, swapped,
      Option.some.injEq, decide_eq_true_iff, Ordering.swap_eq_lt]

/-- Rows in the order of their ids are sorted by their values, and by their ids where the values are
equal. -/
theorem insertionSort_sortsBefore (direction : Direction) {entries : List (Int64 × Row)}
    (one : OfOneKind i (entries.map (·.2))) (ids : entries.Pairwise fun a b => a.1 < b.1) :
    (insertionSort (fun a b => isBefore i direction a.2 b.2) entries).Pairwise
      (SortsBefore direction i) := by
  obtain ⟨kind, one⟩ := one
  have each := List.forall_mem_map.mp one
  have alike : ∀ {a b}, a ∈ entries → b ∈ entries → (valueAt i a.2).Alike (valueAt i b.2) :=
    fun left right known known' => (each _ left known).trans (each _ right known').symm
  have before_iff : ∀ {a b}, a ∈ entries → b ∈ entries → (isBefore i direction a.2 b.2 = true ↔
      direction.Before (valueAt i a.2) (valueAt i b.2)) :=
        fun left right => isBefore_iff (alike left right)
  have not_before_iff : ∀ {a b}, a ∈ entries → b ∈ entries → (isBefore i direction a.2 b.2 = false ↔
      ¬ direction.Before (valueAt i a.2) (valueAt i b.2)) := fun left right => by
    rw [← before_iff left right, Bool.not_eq_true]
  refine (insertionSort_arranged ?_ ?_ ids).imp_of_mem fun {a b} left right => ?_
  · intro a left b right before
    exact (not_before_iff right left).mpr ((before_iff left right).mp before).asymm
  · intro a left b right c last first second
    exact (not_before_iff left last).mpr (Direction.not_before_trans (alike left right)
      (alike right last) (alike left last) ((not_before_iff left right).mp first)
      ((not_before_iff right last).mp second))
  · have left := (insertionSort_perm _ entries).mem_iff.mp left
    have right := (insertionSort_perm _ entries).mem_iff.mp right
    rintro ⟨notAfter, before | earlier⟩
    · exact .inl ((before_iff left right).mp before)
    · by_cases before : direction.Before (valueAt i a.2) (valueAt i b.2)
      · exact .inl before
      · have notAfter := (not_before_iff right left).mp notAfter
        exact .inr ⟨Direction.eq_of_not_before (alike left right) before notAfter, earlier⟩

theorem matching_ids (t : Table) (f : Filter) : (t.matching f).Pairwise fun a b => a.1 < b.1 :=
  t.rows.sorted.filter _

theorem filterRows_matching {f : Filter}
    (decided : ∀ id row, t.get? id = some row → ∃ keeps, t.meets f row = .ok keeps) :
    t.filterRows f t.scan = .ok (t.matching f) := by
  apply @filterRows_eq t f t.scan fun row => decide ((t.meets f row).toOption = some true)
  intro e member
  obtain ⟨keeps, decision⟩ := decided e.1 e.2 (Dict.mem_entries_iff.mp member)
  rw [decision]
  cases keeps <;> rfl

theorem mem_of_matching {f : Filter} {row : Row} (member : row ∈ (t.matching f).map (·.2)) :
    ∃ id, t.get? id = some row := by
  obtain ⟨e, kept, rfl⟩ := List.mem_map.mp member
  exact ⟨e.1, Dict.mem_entries_iff.mp (List.mem_filter.mp kept).1⟩

theorem select_unordered {q : Select}
    (decided : ∀ id row, t.get? id = some row → ∃ keeps, t.meets q.filter row = .ok keeps)
    (unordered : q.order = none) :
    t.select q = .ok (q.first ((t.matching q.filter).map (·.2))) := by
  rw [select, filterRows_matching decided, unordered]
  rfl

theorem select_ordered {q : Select} {column : String}
    (decided : ∀ id row, t.get? id = some row → ∃ keeps, t.meets q.filter row = .ok keeps)
    (ordered : q.order = some (column, direction)) (place : t.columns.index? column = some i) :
    t.select q = (t.sortRows i direction ((t.matching q.filter).map (·.2))).map q.first := by
  have index : t.layout.index column = .ok i := by
    have place : t.layout.columns.index? column = some i := place
    rw [TableLayout.index, place]
  rw [select, filterRows_matching decided, ordered]
  simp only [index, Except.ok_bind]
  cases t.sortRows i direction ((t.matching q.filter).map (·.2)) <;> rfl

end Table

namespace Action

open Table

variable {s : Session} {q : Select} {t : Table}

/-- A query that is reported answers as the tables that are seen. -/
theorem reported_read_answer (level : Trace.Level) (message : String)
    (fields : List (String × String)) (f : Catalog → Except Error α) (s : Session) :
    ((report level message fields >>= fun _ => read f).run s).1 = f s.view := by
  rw [run_bind, run_report]
  exact congrArg Prod.fst (run_read f _)

theorem select_answer (found : s.view.table q.table = .ok t) :
    ((select q).run s).1 = t.select q := by
  have answer : ((select q).run s).1 = s.view.select q := reported_read_answer ..
  rw [answer, Catalog.select, found]
  rfl

/-- Of the rows that meet the filter a selection gives the first ones. They are in the order of
their ids if the statement asks for no other one. By a column they cannot be sorted if two of its
values are of kinds that do not compare. Otherwise no two values fail to compare, and there is an
answer if the rows are few or the order of the values is transitive. Nothing else than the lack of
such an order is an error then. If the values are of one kind, the order of the answer is the only
one in which the rows are arranged by them, with NULL last or, in descending order, first, and in
which rows with equal values are in the order of their ids. -/
theorem select_sorts_stably (found : s.view.table q.table = .ok t)
    (wide : ∀ id row, t.get? id = some row → row.length = t.columns.length)
    (decided : ∀ id row, t.get? id = some row → ∃ keeps, t.meets q.filter row = .ok keeps) :
    let entries := t.matching q.filter
    let rows := entries.map (·.2)
    let answer := ((select q).run s).1
    entries.Pairwise (fun a b => a.1 < b.1) ∧ (q.order = none → answer = .ok (q.first rows)) ∧
      ∀ column direction i, q.order = some (column, direction) → t.columns.index? column = some i →
        (Mixed i rows → ∃ left right, answer = .error (.typeMismatch (.incomparable left right))) ∧
        (¬ Mixed i rows →
          (∀ a ∈ rows, ∀ b ∈ rows, ∃ o, (valueAt i a).compare (valueAt i b) = .ok o) ∧
          (Sortable i rows →
            ∃ sorted : List Row, sorted.Perm rows ∧ answer = .ok (q.first sorted)) ∧
          ∀ e, answer = .error e → ¬ Sortable i rows ∧ e = .damage (.unordered t.name)) ∧
        (OfOneKind i rows → ∃ sorted : List (Int64 × Row),
          answer = .ok (q.first (sorted.map (·.2))) ∧
          ∀ other : List (Int64 × Row),
            other.Perm entries ∧ other.Pairwise (SortsBefore direction i) ↔ other = sorted) := by
  intro entries rows answer
  refine ⟨t.matching_ids q.filter, fun unordered => ?_, fun column direction i ordered place => ?_⟩
  · exact (select_answer found).trans (select_unordered decided unordered)
  have ran : answer = (t.sortRows i direction rows).map q.first :=
    (select_answer found).trans (select_ordered decided ordered place)
  have wide : ∀ row ∈ rows, i < row.length := by
    intro row member
    obtain ⟨id, stored⟩ := mem_of_matching member
    rw [wide id row stored]
    exact (List.findIdx?_eq_some_iff_getElem.mp place).1
  have perm : (insertionSort (isBefore i direction) rows).Perm rows := insertionSort_perm _ rows
  rw [ran]
  rcases t.sortRows_cases direction wide with ⟨uniform, sorts⟩ | ⟨mixed, left, right, failed⟩
  · refine ⟨fun mixed => absurd mixed uniform, fun _ => ⟨fun a left b right => ?_, ?_⟩,
      fun one => ?_⟩
    · obtain ⟨o, order⟩ := Option.isSome_iff_exists.mp (comparable_of_not_mixed uniform left right)
      exact ⟨o, Value.compare_eq_ok.mpr order⟩
    · rcases sorts with ⟨_, sorts⟩ | ⟨unsorted, failed⟩
      · rw [sorts]
        exact ⟨fun _ => ⟨_, perm, rfl⟩, by rintro _ ⟨⟩⟩
      · rw [failed]
        refine ⟨fun sortable => absurd sortable unsorted, ?_⟩
        rintro _ ⟨⟩
        exact ⟨unsorted, rfl⟩
    · obtain ⟨_, sorts⟩ := sorts.resolve_right fun unsorted => unsorted.1 (.inr one.ordered)
      rw [sorts]
      have perm := insertionSort_perm (fun a b => isBefore i direction a.2 b.2) entries
      have arranged := insertionSort_sortsBefore direction one (t.matching_ids q.filter)
      refine ⟨_, by rw [insertionSort_map]; rfl, fun other => ⟨fun fits => ?_, ?_⟩⟩
      · exact List.Perm.eq_of_pairwise (fun a b _ _ before after => absurd after before.asymm)
          fits.2 arranged (fits.1.trans perm.symm)
      · rintro rfl
        exact ⟨perm, arranged⟩
  · rw [failed]
    refine ⟨fun _ => ⟨left, right, rfl⟩, fun uniform => absurd mixed uniform, fun ⟨kind, one⟩ => ?_⟩
    obtain ⟨a, left, b, right, known, known', apart⟩ := mixed
    exact absurd (.inl ((one a left known).trans (one b right known').symm)) apart

end Action

/-! Three rows. The first one has rank 2, the second one has none, and the last one has what is
given. -/
namespace Shelf

def table (last : Value) : Table where
  layout := ⟨"items", [Column.id, { name := "rank", type := .integer }]⟩
  rows := ((Dict.empty.insert 1 [.integer 1, .integer 2]).insert 2 [.integer 2, .null]).insert 3
    [.integer 3, last]
  nextId := 4

def holding (t : Table) : Session :=
  { committed := ⟨⟨Dict.empty.insert "items" t⟩, 0⟩, connection := .idle 0 }

def session (last : Value) : Session := holding (table last)

/-- The first two rows in descending order of the ranks. -/
def query : Select := { table := "items", order := some ("rank", .descending), limit := some 2 }

theorem wide (last : Value) (id : Int64) (row : Row) (stored : (table last).get? id = some row) :
    row.length = (table last).columns.length := by
  have each : ∀ e ∈ (table last).rows.entries, e.2.length = (table last).columns.length := by
    show ∀ e ∈ [(1, [_, _]), (2, [_, _]), (3, [_, _])], _
    simp only [List.forall_mem_cons]
    exact ⟨rfl, rfl, rfl, List.forall_mem_nil _⟩
  exact each (id, row) (Dict.mem_entries_iff.mpr stored)

theorem mixed : Table.Mixed 1 (table (.text "x")).rows.values := by
  refine ⟨[.integer 1, .integer 2], by decide, [.integer 3, .text "x"], by decide, by decide,
    by decide, ?_⟩
  show ¬ Value.Kindred (.integer 2) (.text "x")
  simp [Value.Kindred, Value.kind, Value.isNumber]

open Meeting in
/-- Two integers and, many times, the float that both are rounded to and the smaller one of them. -/
def ranks : List Value :=
  larger :: smaller :: (List.replicate 8 between ++ List.replicate 11 smaller)

/-- A row for each of these ranks. -/
def crowd : Table where
  layout := (table .null).layout
  rows := (ranks.zipIdx 1).foldl
    (fun rows (rank, id) => rows.insert (.ofNat id) [.integer (.ofNat id), rank]) .empty
  nextId := 22

end Shelf

open RankedStore.Shelf in
/-- The row without a rank comes first, and of those with equal ranks the one with the smaller id. A
rank that is a text is an error. -/
theorem Action.select_sorts_stably_ranks :
    ((select query).run (session (.integer 2))).1 =
      .ok [[.integer 2, .null], [.integer 1, .integer 2]] ∧
      ∃ left right,
        ((select query).run (session (.text "x"))).1 =
          .error (.typeMismatch (.incomparable left right)) := by
  constructor
  · obtain ⟨_, _, ordered⟩ := select_sorts_stably (s := session (.integer 2)) (q := query) rfl
      (wide _) fun _ _ _ => ⟨true, rfl⟩
    obtain ⟨sorted, answer, only⟩ :=
      (ordered "rank" .descending 1 rfl rfl).2.2 ⟨"INTEGER", by decide⟩
    have listed := (only [(2, [.integer 2, .null]), (1, [.integer 1, .integer 2]),
      (3, [.integer 3, .integer 2])]).mp ⟨by decide, ?_⟩
    · exact answer.trans (by rw [← listed]; rfl)
    · simp only [List.pairwise_cons, List.forall_mem_cons]
      have first : ∀ n, Table.SortsBefore .descending 1 (2, [.integer 2, .null])
        (n, [.integer n, .integer 2]) :=
        fun n => .inl (.null (show Value.integer 2 ≠ .null by decide))
      exact ⟨⟨first 1, first 3, List.forall_mem_nil _⟩,
        ⟨.inr ⟨rfl, by decide⟩, List.forall_mem_nil _⟩, List.forall_mem_nil _, .nil⟩
  · obtain ⟨_, _, ordered⟩ := select_sorts_stably (s := session (.text "x")) (q := query) rfl
      (wide _) fun _ _ _ => ⟨true, rfl⟩
    exact (ordered "rank" .descending 1 rfl rfl).1 mixed

open RankedStore.Shelf in
/-- All rows have one cell for each column, and all ranks compare. Still the rows are not sorted:
both integers are equal to the float, and one is greater than the other. -/
theorem Action.select_fails_around_float :
    (∀ row ∈ crowd.rows.values, row.length = crowd.columns.length) ∧
      crowd.columns.index? "rank" = some 1 ∧
      (∀ a ∈ crowd.rows.values, ∀ b ∈ crowd.rows.values,
        ((Table.valueAt 1 a).compare (Table.valueAt 1 b)).isOk = true) ∧
      ((select { table := "items", order := some ("rank", .ascending) }).run (holding crowd)).1 =
        .error (.damage (.unordered "items")) := by
  decide +kernel

end RankedStore
