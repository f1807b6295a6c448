import RankedStore.Proofs.Select

/-! The extrema of a column and its order. An extremum is found by a walk that keeps the best value
so far and compares each other one with it, while a sort compares all values with the first one
before it starts. To be comparable is the same from all sides, so both find out about values that do
not compare. Among values of one kind the best one is the only one that no other goes before, so it
is the first value of the sorted rows that is not NULL. -/
namespace RankedStore

/-- The order in which the best values come first, apart from NULL. -/
def Extremum.direction : Extremum → Direction
  | .min => .ascending
  | .max => .descending

namespace Value

variable {v w : Value} {e : Extremum}

theorem Kindred.comm : v.Kindred w ↔ w.Kindred v := by
  simp only [Kindred, eq_comm, and_comm]

/-- Of two values of one kind, the better one goes before the other one. -/
theorem Alike.better_iff (alike : v.Alike w) :
    v.order? w = some e.better ↔ e.direction.Before v w := by
  cases e with
  | min => exact alike.order?_eq_lt
  | max =>
    rw [order?_swap, Option.map_eq_some_iff]
    simp only [Extremum.better, Ordering.swap_eq_gt, exists_eq_right, alike.symm.order?_eq_lt]
    rfl

end Value

namespace Table

variable {t : Table} {e : Extremum} {d : Direction} {i : Nat} {row : Row}
  {rows seen rest : List Row} {best : Option Value} {v w : Value}

/-- The rows have integers as well as floats at a place. -/
def MixesNumbers (i : Nat) (rows : List Row) : Prop :=
  ∃ a ∈ rows, ∃ b ∈ rows, ∃ n x, valueAt i a = .integer n ∧ valueAt i b = .float x

/-- No value of the rows goes before this one, apart from NULL. -/
def Leads (d : Direction) (i : Nat) (rows : List Row) (v : Value) : Prop :=
  ∀ row ∈ rows, valueAt i row ≠ .null → ¬ d.Before (valueAt i row) v

theorem Sample.none_iff (sample : Sample i rows best) :
    best = none ↔ ∀ row ∈ rows, valueAt i row = .null := by
  cases sample with
  | unknown all => exact iff_of_true rfl all
  | known row member known => exact iff_of_false (by simp) fun all => known (all row member)

theorem Sample.perm {rows' : List Row} (sample : Sample i rows best) (perm : rows.Perm rows') :
    Sample i rows' best := by
  cases sample with
  | unknown all => exact .unknown fun row member => all row (perm.mem_iff.mpr member)
  | known row member known => exact .known row (perm.mem_iff.mp member) known

theorem OfOneKind.mono {rows' : List Row} (one : OfOneKind i rows')
    (within : ∀ row ∈ rows, row ∈ rows') :
    OfOneKind i rows := by
  obtain ⟨kind, one⟩ := one
  exact ⟨kind, fun row member => one row (within row member)⟩

theorem OfOneKind.alike {a b : Row} (one : OfOneKind i rows) (left : a ∈ rows) (right : b ∈ rows) :
    (valueAt i a).Alike (valueAt i b) := by
  obtain ⟨kind, one⟩ := one
  intro known known'
  rw [one a left known, one b right known']

/-- Values are of one kind if they compare and are not integers and floats. -/
theorem ofOneKind_iff : OfOneKind i rows ↔ ¬ Mixed i rows ∧ ¬ MixesNumbers i rows := by
  constructor
  · intro one
    constructor
    · rintro ⟨a, left, b, right, known, known', apart⟩
      exact apart (.inl (one.alike left right known known'))
    · rintro ⟨a, left, b, right, n, x, here, there⟩
      have same := one.alike left right
      rw [here, there] at same
      exact absurd (same (by simp) (by simp)) (by simp [Value.kind])
  · rintro ⟨uniform, apart⟩
    by_cases unknown : ∀ row ∈ rows, valueAt i row = .null
    · exact ⟨"NULL", fun row member known => absurd (unknown row member) known⟩
    simp only [not_forall] at unknown
    obtain ⟨a, left, known⟩ := unknown
    refine ⟨(valueAt i a).kind, fun b right known' => ?_⟩
    by_contra different
    have kindred : (valueAt i a).Kindred (valueAt i b) := by
      by_contra unrelated
      exact uniform ⟨a, left, b, right, known, known', unrelated⟩
    rcases kindred with same | ⟨number, number'⟩
    · exact different same.symm
    · cases here : valueAt i a <;> cases there : valueAt i b <;>
        simp only [here, there, Value.isNumber, Bool.false_eq_true] at number number'
      case integer.integer | float.float => exact different (by rw [here, there]; rfl)
      case integer.float n x => exact apart ⟨a, left, b, right, n, x, here, there⟩
      case float.integer x n => exact apart ⟨b, right, a, left, n, x, there, here⟩

/-! What one row does to the best value so far. -/

theorem bestOf_null (wide : i < row.length) (null : valueAt i row = .null) :
    t.bestOf e i best (row :: rest) = t.bestOf e i best rest := by
  simp [bestOf, cellAt_eq wide, null, Value.isNull]

theorem bestOf_first (wide : i < row.length) (known : valueAt i row ≠ .null) :
    t.bestOf e i none (row :: rest) = t.bestOf e i (some (valueAt i row)) rest := by
  simp [bestOf, cellAt_eq wide, Value.isNull_eq_false known]

theorem bestOf_against (wide : i < row.length) (known : valueAt i row ≠ .null) :
    t.bestOf e i (some v) (row :: rest) =
      match (valueAt i row).order? v with
      | some o => t.bestOf e i (some (if o = e.better then valueAt i row else v)) rest
      | none => .error (.typeMismatch (.incomparable (valueAt i row).kind v.kind)) := by
  simp only [bestOf, cellAt_eq wide, Value.isNull_eq_false known, Bool.false_eq_true, if_false,
    Value.compare, Except.ok_bind]
  cases (valueAt i row).order? v <;> rfl

/-- What is known of the rows behind the walk: their values compare, and the best one is one of
them. -/
structure Best (e : Extremum) (i : Nat) (seen : List Row) (best : Option Value) : Prop where
  uniform : ¬ Mixed i seen
  sample : Sample i seen best
  leads : OfOneKind i seen → ∀ v, best = some v → Leads e.direction i seen v

namespace Best

theorem start : Best e i [] none where
  uniform := by simp [Mixed]
  sample := .unknown (by simp)
  leads := by simp

/-- A row without a value changes nothing. -/
theorem skip (known : Best e i seen best) (null : valueAt i row = .null) :
    Best e i (seen ++ [row]) best := by
  have earlier : ∀ a ∈ seen ++ [row], valueAt i a ≠ .null → a ∈ seen := by
    intro a member known
    rcases List.mem_append.mp member with member | last
    · exact member
    · rw [List.mem_singleton.mp last] at known
      exact absurd null known
  constructor
  case uniform =>
    rintro ⟨a, left, b, right, known', known'', apart⟩
    exact known.uniform ⟨a, earlier a left known', b, earlier b right known'', known',
      known'', apart⟩
  case sample =>
    cases known.sample with
    | unknown all =>
      refine .unknown fun a member => ?_
      by_contra known'
      exact known' (all a (earlier a member known'))
    | known a member known' => exact .known a (List.mem_append_left _ member) known'
  case leads =>
    intro one v found a member known'
    exact known.leads (one.mono fun a => List.mem_append_left _) v found a
      (earlier a member known') known'

/-- The first value is the best one. -/
theorem first (known : Best e i seen none) (value : valueAt i row ≠ .null) :
    Best e i (seen ++ [row]) (some (valueAt i row)) := by
  have unknown := known.sample.none_iff.mp rfl
  have only : ∀ a ∈ seen ++ [row], valueAt i a ≠ .null → a = row := by
    intro a member known
    rcases List.mem_append.mp member with member | last
    · exact absurd (unknown a member) known
    · exact List.mem_singleton.mp last
  constructor
  case uniform =>
    rintro ⟨a, left, b, right, known', known'', apart⟩
    rw [only a left known', only b right known''] at apart
    exact apart (.inl rfl)
  case sample => exact .known row (by simp) value
  case leads =>
    intro one v found a member known' before
    cases found
    rw [only a member known'] at before
    exact before.asymm before

/-- A value that compares with the best one compares with all others, and the better one of the two
is the best. -/
theorem against {origin : Row} {o : Ordering} (known : Best e i seen (some (valueAt i origin)))
    (there : origin ∈ seen) (before : valueAt i origin ≠ .null) (value : valueAt i row ≠ .null)
    (order : (valueAt i row).order? (valueAt i origin) = some o) :
    Best e i (seen ++ [row]) (some (if o = e.better then valueAt i row else valueAt i origin)) := by
  have here : row ∈ seen ++ [row] := by simp
  have earlier : ∀ {a}, a ∈ seen → a ∈ seen ++ [row] := List.mem_append_left _
  constructor
  case uniform =>
    refine not_mixed_of_kindred (v := valueAt i origin) fun a member known' => ?_
    rcases List.mem_append.mp member with member | last
    · exact .of_order? before known' (comparable_of_not_mixed known.uniform there member)
    · rw [List.mem_singleton.mp last, Value.Kindred.comm]
      exact .of_order? value before (by rw [order]; rfl)
  case sample =>
    split
    · exact .known row here value
    · exact .known origin (earlier there) before
  case leads =>
    intro one v found a member known'
    cases found
    have alike := one.alike here (earlier there)
    have goes : o = e.better ↔ e.direction.Before (valueAt i row) (valueAt i origin) := by
      rw [← alike.better_iff, order, Option.some.injEq]
    have led := known.leads (one.mono fun a => earlier) _ rfl
    split
    case isTrue better =>
      rcases List.mem_append.mp member with member | last
      · exact Direction.not_before_trans (one.alike (earlier member) (earlier there)) alike.symm
          (one.alike (earlier member) here) (led a member known') (goes.mp better).asymm
      · rw [List.mem_singleton.mp last]
        exact fun goes => goes.asymm goes
    case isFalse worse =>
      rcases List.mem_append.mp member with member | last
      · exact led a member known'
      · rw [List.mem_singleton.mp last]
        exact fun before => worse (goes.mpr before)

end Best

/-- The walk over the rest of the rows ends with the best value of all rows, or at a value that does
not compare with the best one so far. -/
theorem bestOf_cases (t : Table) (known : Best e i seen best)
    (wide : ∀ row ∈ rest, i < row.length) :
    (∃ result, t.bestOf e i best rest = .ok result ∧ Best e i (seen ++ rest) result) ∨
      Mixed i (seen ++ rest) ∧
        ∃ left right, t.bestOf e i best rest =
          .error (.typeMismatch (.incomparable left right)) := by
  induction rest generalizing seen best with
  | nil => exact .inl ⟨best, rfl, by rwa [List.append_nil]⟩
  | cons row rest ih =>
    obtain ⟨here, wide⟩ := List.forall_mem_cons.mp wide
    rw [List.append_cons]
    by_cases null : valueAt i row = .null
    · rw [bestOf_null here null]
      exact ih (known.skip null) wide
    cases known.sample with
    | unknown =>
      rw [bestOf_first here null]
      exact ih (known.first null) wide
    | known origin there before =>
      rw [bestOf_against here null]
      cases order : (valueAt i row).order? (valueAt i origin) with
      | some o => exact ih (known.against there before null order) wide
      | none =>
        exact .inr ⟨⟨row, by simp, origin, by simp [there], Value.order?_eq_none_iff.mp order⟩,
          _, _, rfl⟩

/-! The first value of rows in an order. -/

theorem firstValue?_leads (sorted : rows.Pairwise fun a b => ¬ d.Before (valueAt i b) (valueAt i a))
    (found : firstValue? i rows = some v) : Leads d i rows v := by
  induction rows with
  | nil => cases found
  | cons row rest ih =>
    obtain ⟨here, sorted⟩ := List.pairwise_cons.mp sorted
    unfold firstValue? at found ih
    rw [List.map_cons, List.find?_cons] at found
    by_cases null : valueAt i row = .null
    · simp only [null, Value.isNull, Bool.not_true] at found
      exact List.forall_mem_cons.mpr ⟨fun known => absurd null known, ih sorted found⟩
    · simp only [Value.isNull_eq_false null, Bool.not_false, Option.some.injEq] at found
      subst found
      exact List.forall_mem_cons.mpr ⟨fun _ before => before.asymm before, fun a member _ =>
        here a member⟩

/-- Among values of one kind there is one best value, which stands first in rows that are in
order. -/
theorem Best.eq_firstValue? {sorted : List Row} (known : Best e i rows best)
    (one : OfOneKind i rows) (perm : sorted.Perm rows)
    (inOrder : sorted.Pairwise fun a b => ¬ e.direction.Before (valueAt i b) (valueAt i a)) :
    best = firstValue? i sorted := by
  have first := (firstValue?_sample i sorted).perm perm
  have leads : ∀ v, firstValue? i sorted = some v → Leads e.direction i rows v :=
    fun v found row member => firstValue?_leads inOrder found row (perm.mem_iff.mpr member)
  generalize firstValue? i sorted = head at first leads
  cases known.sample with
  | unknown all => exact (first.none_iff.mpr all).symm
  | known a left value =>
    cases first with
    | unknown all => exact absurd (all a left) value
    | known b right value' =>
      have led := known.leads one _ rfl
      exact congrArg some (Direction.eq_of_not_before (one.alike left right)
        (leads _ rfl a left value) (led b right value'))

theorem insertionSort_inOrder {entries : List (Int64 × Row)} (one : OfOneKind i (entries.map (·.2)))
    (ids : entries.Pairwise fun a b => a.1 < b.1) :
    (insertionSort (isBefore i d) (entries.map (·.2))).Pairwise
      fun a b => ¬ d.Before (valueAt i b) (valueAt i a) := by
  rw [insertionSort_map, List.pairwise_map]
  refine (insertionSort_sortsBefore d one ids).imp ?_
  rintro a b (before | ⟨same, _⟩) after
  · exact before.asymm after
  · rw [same] at after
    exact after.asymm after

theorem matching_all (t : Table) : (t.matching .all).map (·.2) = t.rows.values :=
  congrArg (List.map Prod.snd) (List.filter_eq_self.mpr fun _ _ => rfl)

end Table

namespace Action

open Table

variable {s : Session} {t : Table} {name column : String} {i : Nat}

theorem aggregate_answer {a : Aggregate} (found : s.view.table a.table = .ok t) :
    ((aggregate a).run s).1 = t.aggregate a := by
  have answer : ((aggregate a).run s).1 = s.view.aggregate a := reported_read_answer ..
  rw [answer, Catalog.aggregate, found]
  rfl

section

variable (found : s.view.table name = .ok t) (wide : ∀ row ∈ t.rows.values, i < row.length)
  (place : t.columns.index? column = some i)

include found wide place

theorem aggregate_cases (e : Extremum) :
    (∃ result, ((aggregate ⟨e, name, column⟩).run s).1 = .ok result ∧
      Best e i t.rows.values result) ∨
      Mixed i t.rows.values ∧ ∃ left right,
        ((aggregate ⟨e, name, column⟩).run s).1 =
          .error (.typeMismatch (.incomparable left right)) := by
  have index : t.layout.index column = .ok i := by rw [TableLayout.index, ← columns, place]
  have walked : ((aggregate ⟨e, name, column⟩).run s).1 = t.bestOf e i none t.rows.values :=
    (aggregate_answer found).trans (by rw [Table.aggregate, index]; rfl)
  rw [walked]
  exact t.bestOf_cases .start wide

theorem select_cases (d : Direction) (limit : Option Nat) :
    let q : Select := { table := name, order := some (column, d), limit }
    ¬ Mixed i t.rows.values ∧
        (Sortable i t.rows.values ∧
            ((select q).run s).1 = .ok (q.first (insertionSort (isBefore i d) t.rows.values)) ∨
          ¬ Sortable i t.rows.values ∧
            ((select q).run s).1 = .error (.damage (.unordered t.name))) ∨
      Mixed i t.rows.values ∧ ∃ left right,
        ((select q).run s).1 = .error (.typeMismatch (.incomparable left right)) := by
  intro q
  have ran : ((select q).run s).1 = (t.sortRows i d t.rows.values).map q.first := by
    rw [← t.matching_all]
    exact (select_answer found).trans (select_ordered (fun _ _ _ => ⟨true, rfl⟩) rfl place)
  rw [ran]
  rcases t.sortRows_cases d wide with
    ⟨uniform, ⟨sortable, sorts⟩ | ⟨unsorted, failed⟩⟩ | ⟨mixed, left, right, failed⟩
  · exact .inl ⟨uniform, .inl ⟨sortable, by rw [sorts]; rfl⟩⟩
  · exact .inl ⟨uniform, .inr ⟨unsorted, by rw [failed]; rfl⟩⟩
  · exact .inr ⟨mixed, left, right, by rw [failed]; rfl⟩

theorem aggregate_fails_iff (e : Extremum) :
    (∃ cause, ((aggregate ⟨e, name, column⟩).run s).1 = .error (.typeMismatch cause)) ↔
    Mixed i t.rows.values := by
  rcases aggregate_cases found wide place e with ⟨result, answer, known⟩ | ⟨mixed, left,
    right, failed⟩
  · rw [answer]
    exact iff_of_false (by simp) known.uniform
  · exact iff_of_true ⟨_, failed⟩ mixed

theorem select_fails_iff (d : Direction) (limit : Option Nat) :
    (∃ cause, ((select { table := name, order := some (column, d), limit }).run s).1 =
      .error (.typeMismatch cause)) ↔ Mixed i t.rows.values := by
  rcases select_cases found wide place d limit with
    ⟨uniform, ⟨_, answer⟩ | ⟨_, answer⟩⟩ | ⟨mixed, left, right, failed⟩
  · rw [answer]
    exact iff_of_false (by simp) uniform
  · rw [answer]
    exact iff_of_false (by simp) uniform
  · exact iff_of_true ⟨_, failed⟩ mixed

end

/-- The extrema of a column cannot be found for values that do not compare if and only if the rows
cannot be sorted by it for such values, which is if two of its values are of kinds that do not
compare. Otherwise there is an extremum unless all values are NULL. If the column does not have both
integers and floats, the rows can be sorted, the minimum is the first value that is not NULL of the
rows in ascending order, and the maximum that of the rows in descending order. -/
theorem extrema_agree_with_order (found : s.view.table name = .ok t)
    (wide : ∀ id row, t.get? id = some row → row.length = t.columns.length)
    (place : t.columns.index? column = some i) :
    let best := fun e => ((aggregate ⟨e, name, column⟩).run s).1
    let sorted := fun direction limit =>
      ((select { table := name, order := some (column, direction), limit }).run s).1
    (∀ e direction limit, (∃ cause, best e = .error (.typeMismatch cause)) ↔
        ∃ cause, sorted direction limit = .error (.typeMismatch cause)) ∧
      (∀ e, (∃ cause, best e = .error (.typeMismatch cause)) ↔ Mixed i t.rows.values) ∧
      (¬ Mixed i t.rows.values → ∀ e,
        (∃ result, best e = .ok result ∧
          (result = none ↔ ∀ row ∈ t.rows.values, valueAt i row = .null)) ∧
        (¬ MixesNumbers i t.rows.values →
          (∀ direction limit, ∃ rows, sorted direction limit = .ok rows) ∧
          ∃ rows, sorted e.direction none = .ok rows ∧ best e = .ok (firstValue? i rows))) := by
  intro best sorted
  have wide : ∀ row ∈ t.rows.values, i < row.length := by
    intro row member
    obtain ⟨id, stored⟩ := Dict.mem_values.mp member
    rw [wide id row stored]
    exact (List.findIdx?_eq_some_iff_getElem.mp place).1
  have noExtremum := aggregate_fails_iff found wide place
  have noOrder := select_fails_iff found wide place
  refine ⟨fun e d limit => (noExtremum e).trans (noOrder d limit).symm, noExtremum,
    fun uniform e => ?_⟩
  obtain ⟨result, answer, known⟩ :=
    (aggregate_cases found wide place e).resolve_right fun mixed => uniform mixed.1
  refine ⟨⟨result, answer, known.sample.none_iff⟩, fun apart => ?_⟩
  have one := ofOneKind_iff.mpr ⟨uniform, apart⟩
  have sorts := fun d limit =>
    (((select_cases found wide place d limit).resolve_right fun mixed =>
      uniform mixed.1).2.resolve_right
      fun unsorted => unsorted.1 (.inr one.ordered)).2
  have inOrder := insertionSort_inOrder (d := e.direction) one t.rows.sorted
  have first := known.eq_firstValue? one (insertionSort_perm _ _) inOrder
  exact ⟨fun d limit => ⟨_, sorts d limit⟩, _, sorts e.direction none,
    answer.trans (congrArg Except.ok first)⟩

end Action

open RankedStore.Shelf in
/-- The greatest rank comes first in descending order, behind the row without a rank. With a text
among the ranks there is neither a greatest one nor an order. -/
theorem Action.extrema_agree_with_order_ranks :
    ((select { table := "items", order := some ("rank", .descending) }).run
      (session (.integer 5))).1 =
        .ok [[.integer 2, .null], [.integer 3, .integer 5], [.integer 1, .integer 2]] ∧
      ((aggregate ⟨.max, "items", "rank"⟩).run (session (.integer 5))).1 = .ok (some (.integer 5)) ∧
      ∃ cause, ((aggregate ⟨.max, "items", "rank"⟩).run (session (.text "x"))).1 =
        .error (.typeMismatch cause) := by
  have found : ∀ last, (session last).view.table "items" = .ok (table last) := fun _ => rfl
  have place : ∀ last, (table last).columns.index? "rank" = some 1 := fun _ => rfl
  have sorted : ((select { table := "items", order := some ("rank", .descending) }).run
    (session (.integer 5))).1 =
      .ok [[.integer 2, .null], [.integer 3, .integer 5], [.integer 1, .integer 2]] := by
        decide +kernel
  refine ⟨sorted, ?_, ?_⟩
  · have one : Table.OfOneKind 1 (table (.integer 5)).rows.values := ⟨"INTEGER", by decide⟩
    obtain ⟨uniform, apart⟩ := Table.ofOneKind_iff.mp one
    obtain ⟨_, _, agree⟩ := extrema_agree_with_order (found (.integer 5)) (wide _) (place _)
    obtain ⟨_, rows, answer, best⟩ := (agree uniform .max).2 apart
    cases sorted.symm.trans answer
    exact best
  · obtain ⟨_, fails, _⟩ := extrema_agree_with_order (found (.text "x")) (wide _) (place _)
    exact (fails .max).mpr mixed

end RankedStore
