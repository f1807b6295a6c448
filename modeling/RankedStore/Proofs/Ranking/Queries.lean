import RankedStore.Ranking
import RankedStore.Proofs.Record
import RankedStore.Proofs.Sort
import RankedStore.Proofs.Ranking.Shift

/-! What the queries of a ranking find in a table with positions 1 to N: its extrema are 1 and N,
and its rows sorted by position are the list. -/
namespace RankedStore

section

variable {before : α → α → Bool} {key : α → Int} {R : α → α → Prop} {xs : List α}

/-- Sorting by a comparison of keys puts the keys in order, and equal ones stay in the order that
they had. -/
theorem insertionSort_stable (keyed : ∀ x ∈ xs, ∀ y ∈ xs, before x y = decide (key x < key y))
    (ordered : xs.Pairwise R) :
    (insertionSort before xs).Pairwise fun a b => key a < key b ∨ key a = key b ∧ R a b := by
  have le : ∀ {x y}, x ∈ xs → y ∈ xs → (before x y = false ↔ key y ≤ key x) := by
    intro x y here there
    rw [keyed x here y there, decide_eq_false_iff_not, Int.not_lt]
  refine (insertionSort_arranged ?_ ?_ ordered).imp_of_mem fun {a b} here there => ?_
  · intro x here y there goes
    rw [keyed x here y there, decide_eq_true_iff] at goes
    exact (le there here).mpr (Int.le_of_lt goes)
  · intro x here y there z last first second
    exact (le here last).mpr (Int.le_trans ((le there last).mp second) ((le here there).mp first))
  · have here := (insertionSort_perm before xs).mem_iff.mp here
    have there := (insertionSort_perm before xs).mem_iff.mp there
    rw [le there here, keyed a here b there, decide_eq_true_iff]
    rintro ⟨notAfter, first | earlier⟩
    · exact .inl first
    · exact (Int.lt_or_eq_of_le notAfter).imp_right fun same => ⟨same, earlier⟩

theorem insertionSort_pairwise (keyed : ∀ x ∈ xs, ∀ y ∈ xs, before x y = decide (key x < key y)) :
    (insertionSort before xs).Pairwise fun a b => key a ≤ key b := by
  have unordered : xs.Pairwise fun _ _ => True := List.pairwise_of_forall fun _ _ => trivial
  refine (insertionSort_stable keyed unordered).imp ?_
  rintro a b (lt | ⟨same, _⟩) <;> omega

end

/-- A value that is no better than another one. -/
def Extremum.Within : Extremum → Int → Int → Prop
  | .min, best, n => best ≤ n
  | .max, best, n => n ≤ best

theorem Extremum.within_of_better {e : Extremum} {n a : Int} (better : compare n a = e.better) :
    e.Within n a := by
  cases e
  · exact Int.le_of_lt (Int.compare_eq_lt.mp better)
  · exact Int.le_of_lt (Int.compare_eq_gt.mp better)

theorem Extremum.within_of_not_better {e : Extremum} {n a : Int} (worse : compare n a ≠ e.better) :
    e.Within a n := by
  cases e
  · exact Int.not_lt.mp fun lt => worse (Int.compare_eq_lt.mpr lt)
  · exact Int.not_lt.mp fun lt => worse (Int.compare_eq_gt.mpr lt)

theorem Extremum.within_refl (e : Extremum) (n : Int) : e.Within n n := by
  cases e <;> exact Int.le_refl n

theorem Extremum.Within.trans {e : Extremum} {a b c : Int} (first : e.Within a b)
    (second : e.Within b c) : e.Within a c := by
  cases e <;> simp only [Within] at * <;> omega

theorem compare_integers (a b : Int64) :
    Value.compare (.integer a) (.integer b) = .ok (compare a.toInt b.toInt) := by
  rw [Value.compare, Value.order?, compare_toInt]

namespace Table

variable {t : Table} {p : Nat} {id : Int64} {row : Row} {n : Int64} {order : List Int64}
  {column : String} {rows : List Row}

/-- The best one after a row is its own integer or the best one before. -/
theorem bestOf_cons (t : Table) (e : Extremum) (best : Option Int64) (rest : List Row)
    (cell : row[p]? = some (.integer n)) : ∃ b : Int64,
      t.bestOf e p (best.map .integer) (row :: rest) = t.bestOf e p (some (.integer b)) rest ∧
      (best = some b ∨ b = n) ∧ (∀ a, best = some a → e.Within b.toInt a.toInt) ∧
      e.Within b.toInt n.toInt := by
  have value : t.cellAt row p = .ok (.integer n) := by rw [cellAt, cell]
  cases best with
  | none =>
    refine ⟨n, ?_, .inr rfl, by simp, e.within_refl _⟩
    simp [bestOf, value, Value.isNull]
  | some a =>
    have ran : t.bestOf e p (some (.integer a)) (row :: rest) = t.bestOf e p
        (some (if compare n.toInt a.toInt = e.better then .integer n else .integer a)) rest := by
      simp only [bestOf, value, Value.isNull, Bool.false_eq_true, if_false, compare_integers,
        Except.ok_bind]
    by_cases better : compare n.toInt a.toInt = e.better
    · refine ⟨n, by rw [Option.map_some, ran, if_pos better], .inr rfl, ?_, e.within_refl _⟩
      rintro _ ⟨⟩
      exact Extremum.within_of_better better
    · refine ⟨a, by rw [Option.map_some, ran, if_neg better], .inl rfl, ?_,
        Extremum.within_of_not_better better⟩
      rintro _ ⟨⟩
      exact e.within_refl _

theorem bestOf_integers (t : Table) (e : Extremum) (best : Option Int64)
    (known : ∀ row ∈ rows, ∃ n, row[p]? = some (.integer n)) :
    ∃ result : Option Int64,
      t.bestOf e p (best.map .integer) rows = .ok (result.map .integer) ∧
      (result = none → best = none ∧ rows = []) ∧
      ∀ b, result = some b → (best = some b ∨ ∃ row ∈ rows, row[p]? = some (.integer b)) ∧
        (∀ a, best = some a → e.Within b.toInt a.toInt) ∧
        ∀ row ∈ rows, ∀ n, row[p]? = some (.integer n) → e.Within b.toInt n.toInt := by
  induction rows generalizing best with
  | nil =>
    refine ⟨best, by cases best <;> rfl, fun none => ⟨none, rfl⟩, fun b found =>
      ⟨.inl found, ?_, ?_⟩⟩
    · intro a found'
      rw [found, Option.some.injEq] at found'
      subst found'
      exact e.within_refl _
    · simp
  | cons row rest ih =>
    obtain ⟨n, cell⟩ := known row (List.mem_cons_self ..)
    obtain ⟨b, ran, source, bounds, bound⟩ := t.bestOf_cons e best rest cell
    obtain ⟨result, ran', some_result, spec⟩ :=
      ih (some b) fun row member => known row (List.mem_cons_of_mem _ member)
    refine ⟨result, ran.trans ran', fun none => absurd (some_result none).1 (by simp), ?_⟩
    intro r found
    obtain ⟨origin, within, all⟩ := spec r found
    have least := within b rfl
    refine ⟨?_, fun a before => least.trans (bounds a before), ?_⟩
    · rcases origin with same | ⟨row', member, cell'⟩
      · rw [Option.some.injEq] at same
        subst same
        rcases source with before | rfl
        · exact .inl before
        · exact .inr ⟨row, List.mem_cons_self .., cell⟩
      · exact .inr ⟨row', List.mem_cons_of_mem _ member, cell'⟩
    · intro row' member m cell'
      rcases List.mem_cons.mp member with rfl | member
      · rw [cell, Option.some.injEq, Value.integer.injEq] at cell'
        exact cell' ▸ least.trans bound
      · exact all row' member m cell'

/-- An extremum of the positions is one of them, and all others are within it. -/
theorem Known.aggregate (known : t.Known p) (holds : t.layout.RanksBy column p) (e : Extremum)
    (name : String) : ∃ result : Option Int64,
      t.aggregate ⟨e, name, column⟩ = .ok (result.map .integer) ∧
      (result = none → ∀ id, t.get? id = none) ∧
      ∀ b, result = some b → (∃ id, t.position? p id = some b.toInt) ∧
        ∀ id m, t.position? p id = some m → e.Within b.toInt m := by
  have known' : ∀ row ∈ t.rows.values, ∃ n, row[p]? = some (.integer n) := by
    intro row member
    obtain ⟨id, stored⟩ := Dict.mem_values.mp member
    exact known id row stored
  obtain ⟨result, ran, none_result, spec⟩ := t.bestOf_integers e none known'
  refine ⟨result, ?_, ?_, ?_⟩
  · rw [Option.map_none] at ran
    simp [Table.aggregate, holds.place, ran]
  · intro none id
    cases stored : t.get? id with
    | none => rfl
    | some row =>
      have there : row ∈ t.rows.values := Dict.mem_values.mpr ⟨id, stored⟩
      rw [(none_result none).2] at there
      cases there
  · intro b found
    obtain ⟨origin, _, all⟩ := spec b found
    constructor
    · rcases origin with ⟨⟨⟩⟩ | ⟨row, member, cell⟩
      obtain ⟨id, stored⟩ := Dict.mem_values.mp member
      exact ⟨id, position?_of stored cell⟩
    · intro id m placed
      obtain ⟨row, n, stored, cell, rfl⟩ := known.row_of_position placed
      exact all row (Dict.mem_values.mpr ⟨id, stored⟩) n cell

/-- The extrema of positions 1 to N are 1 and N. -/
theorem Ranks.aggregate (ranks : t.Ranks p order) (holds : t.layout.RanksBy column p) (e : Extremum)
    (name : String) : ∃ result : Option Int64,
      t.aggregate ⟨e, name, column⟩ = .ok (result.map .integer) ∧ (result = none ↔ order = []) ∧
      ∀ b, result = some b → b.toInt = match e with | .min => 1 | .max => (order.length : Int) := by
  obtain ⟨result, ran, none_result, spec⟩ := ranks.known.aggregate holds e name
  have bounds : ∀ b, result = some b →
      (∃ i : Nat, i < order.length ∧ b.toInt = (i : Int) + 1) ∧
      ∀ i : Nat, i < order.length → e.Within b.toInt ((i : Int) + 1) := by
    intro b found
    obtain ⟨⟨id, placed⟩, within⟩ := spec b found
    constructor
    · obtain ⟨i, here, value⟩ := ranks.listed.index placed
      exact ⟨i, (List.getElem?_eq_some_iff.mp here).1, value⟩
    · intro i bound
      exact within _ _ (ranks.listed.placed i _ (List.getElem?_eq_getElem bound))
  refine ⟨result, ran, ⟨fun none => ?_, fun empty => ?_⟩, fun b found => ?_⟩
  · apply List.eq_nil_iff_forall_not_mem.mpr
    intro id member
    obtain ⟨row, stored⟩ := ranks.mem_iff.mp member
    rw [none_result none id] at stored
    cases stored
  · cases found : result with
    | none => rfl
    | some b =>
      obtain ⟨⟨i, bound, _⟩, _⟩ := bounds b found
      rw [empty] at bound
      cases bound
  · obtain ⟨⟨i, bound, value⟩, within⟩ := bounds b found
    cases e with
    | min =>
      have least : b.toInt ≤ (0 : Nat) + 1 := within 0 (by omega)
      show b.toInt = 1
      omega
    | max =>
      have greatest : ((order.length - 1 : Nat) : Int) + 1 ≤ b.toInt :=
        within (order.length - 1) (by omega)
      show b.toInt = order.length
      omega

/-- The integer at a place of a row. -/
def integerAt (p : Nat) (row : Row) : Int :=
  (((row[p]?).bind Value.integer?).map Int64.toInt).getD 0

theorem integerAt_eq (cell : row[p]? = some (.integer n)) : integerAt p row = n.toInt := by
  simp only [integerAt, cell, Option.bind_some, Value.integer?, Option.map_some, Option.getD_some]

theorem valueAt_eq {v : Value} (cell : row[p]? = some v) : valueAt p row = v := by
  rw [valueAt, cell, Option.getD_some]

theorem filterRows_eq (t : Table) (f : Filter) {entries : List (Int64 × Row)} {keeps : Row → Bool}
    (each : ∀ e ∈ entries, t.meets f e.2 = .ok (keeps e.2)) :
    t.filterRows f entries = .ok (entries.filter fun e => keeps e.2) := by
  induction entries with
  | nil => rfl
  | cons e rest ih =>
    obtain ⟨id, row⟩ := e
    have here := each (id, row) (List.mem_cons_self ..)
    replace ih := ih fun e member => each e (List.mem_cons_of_mem _ member)
    cases kept : keeps row <;>
      simp [filterRows, here, kept, ih]

/-- The key by which rows with integers are sorted. -/
def sortKey (p : Nat) : Direction → Row → Int
  | .ascending, row => integerAt p row
  | .descending, row => -integerAt p row

theorem isBefore_eq {a b : Row} {m : Int64} (direction : Direction)
    (left : a[p]? = some (.integer n)) (right : b[p]? = some (.integer m)) :
    isBefore p direction a b = decide (sortKey p direction a < sortKey p direction b) := by
  have order : orderAt p a b = compare n.toInt m.toInt := by
    simp only [orderAt, valueAt_eq left, valueAt_eq right, Option.getD_some, Value.order?,
      compare_toInt]
  cases direction with
  | ascending =>
    simp only [isBefore, order, sortKey, integerAt_eq left, integerAt_eq right, Int.compare_eq_lt]
  | descending =>
    simp only [isBefore, order, sortKey, integerAt_eq left, integerAt_eq right, Int.compare_eq_gt,
      Int.neg_lt_neg_iff]

theorem checkComparable_integers (t : Table)
    (known : ∀ row ∈ rows, ∃ n, row[p]? = some (.integer n)) :
    t.checkComparable p (.integer n) rows = .ok () := by
  induction rows with
  | nil => rfl
  | cons row rest ih =>
    obtain ⟨m, cell⟩ := known row (List.mem_cons_self ..)
    have value : t.cellAt row p = .ok (.integer m) := by rw [cellAt, cell]
    simp only [checkComparable, value, compare_integers, Except.ok_bind]
    exact ih fun row member => known row (List.mem_cons_of_mem _ member)

/-- Without floats there is an order. -/
theorem not_isTorn (values : List Value) (kept : ∀ v ∈ values, ∀ x, v ≠ .float x) :
    values.any (isTorn values) = false := by
  refine List.any_eq_false.mpr fun v member => ?_
  cases v with
  | float x => exact absurd rfl (kept _ member x)
  | null | integer | boolean | text => exact Bool.false_ne_true

/-- What the sort does once all values compare. -/
theorem sortRows_compared (t : Table) (direction : Direction) {first : Option Value}
    (found : t.firstKnown? p rows = .ok first)
    (compared : ∀ v, first = some v → t.checkComparable p v rows = .ok ()) :
    t.sortRows p direction rows =
      if insertionLimit < rows.length &&
          (rows.map (valueAt p)).any (isTorn (rows.map (valueAt p))) then
        .error (.damage (.unordered t.name))
      else .ok (insertionSort (isBefore p direction) rows) := by
  cases first with
  | none =>
    simp only [sortRows, found, Except.ok_bind]
    rfl
  | some v =>
    simp only [sortRows, found, compared v rfl, Except.ok_bind]
    rfl

theorem sortRows_eq (t : Table) (direction : Direction) {first : Option Value}
    (found : t.firstKnown? p rows = .ok first)
    (compared : ∀ v, first = some v → t.checkComparable p v rows = .ok ())
    (kept : ∀ row ∈ rows, ∀ x, valueAt p row ≠ .float x) :
    t.sortRows p direction rows = .ok (insertionSort (isBefore p direction) rows) := by
  rw [t.sortRows_compared direction found compared, not_isTorn _ (List.forall_mem_map.mpr kept),
    Bool.and_false]
  rfl

/-- Rows with integers at a place can be sorted by it. -/
theorem sortRows_integers (t : Table) (direction : Direction)
    (known : ∀ row ∈ rows, ∃ n, row[p]? = some (.integer n)) :
    ∃ sorted, t.sortRows p direction rows = .ok sorted ∧ sorted.Perm rows ∧
      sorted.Pairwise fun a b => sortKey p direction a ≤ sortKey p direction b := by
  refine ⟨_, ?_, insertionSort_perm (isBefore p direction) rows, insertionSort_pairwise ?_⟩
  · have kept : ∀ row ∈ rows, ∀ x, valueAt p row ≠ .float x := by
      intro row member x
      obtain ⟨n, cell⟩ := known row member
      simp [valueAt_eq cell]
    cases rows with
    | nil => rfl
    | cons row rest =>
      obtain ⟨n, cell⟩ := known row (List.mem_cons_self ..)
      have value : t.cellAt row p = .ok (.integer n) := by rw [cellAt, cell]
      have found : t.firstKnown? p (row :: rest) = .ok (some (.integer n)) := by
        simp [firstKnown?, value, Value.isNull]
      refine t.sortRows_eq direction found ?_ kept
      rintro _ ⟨⟩
      exact t.checkComparable_integers known
  · intro a left b right
    obtain ⟨n, cell⟩ := known a left
    obtain ⟨m, cell'⟩ := known b right
    exact isBefore_eq direction cell cell'

/-! The filters that a ranking uses decide by position, and one of them by id. -/

theorem index?_eq {layout : TableLayout} (place : layout.index column = .ok p) :
    layout.columns.index? column = some p := by
  unfold TableLayout.index at place
  split at place
  case h_1 i found =>
    cases place
    exact found
  case h_2 => cases place

theorem relate_integer {columns : Columns} (place : columns.index? column = some p)
    (cell : row[p]? = some (.integer n)) (name : String) (q : Int64) :
    Filter.relate columns name row column (.integer q) = .ok (some (compare n.toInt q.toInt)) := by
  simp [Filter.relate, Filter.cell, place, cell, Value.isNull, compare_integers]

theorem meets_compare (place : t.layout.index column = .ok p) (cell : row[p]? = some (.integer n))
    (comparison : Comparison) (q : Int64) :
    t.meets (.compare column comparison (.integer q)) row =
      .ok (comparison.accepts (compare n.toInt q.toInt)) := by
  have related := relate_integer (index?_eq place) cell t.name q
  simp [meets, Filter.holds, columns, related]

/-- The rows from a position on. -/
theorem decides_from (holds : t.layout.RanksBy column p) (q : Int64) :
    t.Decides (.compare column .gte (.integer q)) p fun _ m => decide (q.toInt ≤ m) := by
  intro id row n stored cell
  rw [meets_compare holds.place cell]
  simp only [Comparison.accepts, ne_eq, Int.compare_eq_lt, Int.not_lt]

/-- The rows behind a position. -/
theorem decides_behind (holds : t.layout.RanksBy column p) (q : Int64) :
    t.Decides (.compare column .gt (.integer q)) p fun _ m => decide (q.toInt < m) := by
  intro id row n stored cell
  rw [meets_compare holds.place cell]
  simp only [Comparison.accepts, Int.compare_eq_gt]

/-- The rows from one position to another, apart from the one with the given id. -/
theorem decides_between (sound : t.Sound) (place : t.layout.index column = .ok p)
    (first : t.layout.columns[0]? = some Column.id) (low high own : Int64) :
    t.Decides (.ofList [.between column (.integer low) (.integer high),
      .compare Column.idName .ne (.integer own)]) p
      fun id m => decide (low.toInt ≤ m ∧ m ≤ high.toInt ∧ id ≠ own) := by
  intro id row n stored cell
  have place : t.columns.index? column = some p := index?_eq place
  have above := relate_integer place cell t.name low
  have below := relate_integer place cell t.name high
  have front : t.columns.index? Column.idName = some 0 := by
    unfold columns Columns.index?
    cases layout : t.layout.columns with
    | nil => rw [layout] at first; cases first
    | cons c rest =>
      rw [layout] at first
      cases first
      rfl
  have apart := relate_integer front (sound.keyed id row stored) t.name own
  have filter : Filter.ofList [.between column (.integer low) (.integer high),
      .compare Column.idName .ne (.integer own)] =
      .conj [.between column (.integer low) (.integer high),
      .compare Column.idName .ne (.integer own)] := rfl
  have between : (Filter.between column (.integer low) (.integer high)).holds t.columns t.name row =
      .ok (decide (low.toInt ≤ n.toInt ∧ n.toInt ≤ high.toInt)) := by
    simp only [Filter.holds, above, below, Option.any_some, ne_eq, Int.compare_eq_lt,
      Int.compare_eq_gt, Int.not_lt, Bool.decide_and, Except.ok_bind, Except.pure_eq_ok]
  have other : (Filter.compare Column.idName .ne (.integer own)).holds t.columns t.name row =
      .ok (decide (id ≠ own)) := by
    simp [Filter.holds, apart, Comparison.accepts, Int64.toInt_inj]
  rw [meets, filter, Filter.holds, Filter.allHold, between]
  by_cases inside : low.toInt ≤ n.toInt ∧ n.toInt ≤ high.toInt
  · by_cases same : id = own <;>
      simp [inside, same, Filter.allHold, other]
  · have outside : ¬ (low.toInt ≤ n.toInt ∧ n.toInt ≤ high.toInt ∧ id ≠ own) :=
      fun both => inside ⟨both.1, both.2.1⟩
    simp [inside, outside]

/-- Selecting in the order of positions. -/
theorem Known.select (known : t.Known p) (holds : t.layout.RanksBy column p) (name : String)
    (f : Filter) {keeps : Row → Bool}
    (each : ∀ id row, t.get? id = some row → t.meets f row = .ok (keeps row))
    (direction : Direction) (limit : Option Nat) :
    ∃ sorted, t.select ⟨name, f, some (column, direction), limit⟩ =
        .ok (match limit with | none => sorted | some k => sorted.take k) ∧
      sorted.Perm (t.rows.values.filter keeps) ∧
      sorted.Pairwise fun a b => sortKey p direction a ≤ sortKey p direction b := by
  have integers : ∀ row ∈ t.rows.values.filter keeps, ∃ n, row[p]? = some (.integer n) := by
    intro row member
    obtain ⟨id, stored⟩ := Dict.mem_values.mp (List.mem_filter.mp member).1
    exact known id row stored
  have filtered := t.filterRows_eq f fun e member => each e.1 e.2 (Sound.mem_scan.mp member)
  have same : (t.scan.filter fun e => keeps e.2).map (·.2) = t.rows.values.filter keeps := by
    rw [Dict.values, List.filter_map]
    rfl
  obtain ⟨sorted, ran, perm, inOrder⟩ := t.sortRows_integers direction integers
  refine ⟨sorted, ?_, perm, inOrder⟩
  simp only [Table.select, filtered, same, holds.place, ran, Except.ok_bind]
  cases limit <;> rfl

/-- The first row of a selection is one that meets the filter, and none of these comes before it. -/
theorem Known.select_first (known : t.Known p) (holds : t.layout.RanksBy column p)
    (name : String) (f : Filter) {keeps : Row → Bool}
    (each : ∀ id row, t.get? id = some row → t.meets f row = .ok (keeps row))
    (direction : Direction) :
    ∃ rows, t.select ⟨name, f, some (column, direction), some 1⟩ = .ok rows ∧
      (rows = [] → ∀ id row, t.get? id = some row → keeps row = false) ∧
      ∀ row, rows.head? = some row → (∃ id, t.get? id = some row) ∧ keeps row = true ∧
        ∀ id other, t.get? id = some other → keeps other = true →
          sortKey p direction row ≤ sortKey p direction other := by
  obtain ⟨sorted, ran, perm, inOrder⟩ := known.select holds name f each direction (some 1)
  have members : ∀ row, row ∈ sorted ↔ (∃ id, t.get? id = some row) ∧ keeps row = true := by
    intro row
    rw [perm.mem_iff, List.mem_filter, Dict.mem_values]
    rfl
  refine ⟨_, ran, fun empty id row stored => ?_, fun row first => ?_⟩
  · cases sorted with
    | cons other rest => cases empty
    | nil =>
      cases kept : keeps row with
      | false => rfl
      | true =>
        have := (members row).mpr ⟨⟨id, stored⟩, kept⟩
        cases this
  · cases sorted with
    | nil => cases first
    | cons other rest =>
      cases first
      obtain ⟨stored, kept⟩ := (members row).mp (List.mem_cons_self ..)
      refine ⟨stored, kept, fun id other stored' kept' => ?_⟩
      rcases List.mem_cons.mp ((members other).mpr ⟨⟨id, stored'⟩, kept'⟩) with rfl | later
      · exact Int.le_refl _
      · exact (List.pairwise_cons.mp inOrder).1 other later

/-- If no two ids have the same position, no two rows have. -/
theorem Known.positions_nodup (known : t.Known p)
    (apart : ∀ a b m, t.position? p a = some m → t.position? p b = some m → a = b) :
    (t.rows.values.map (integerAt p)).Nodup := by
  have own : ∀ e ∈ t.scan, t.position? p e.1 = some (integerAt p e.2) := by
    intro e member
    have stored := Sound.mem_scan.mp member
    obtain ⟨n, cell⟩ := known e.1 e.2 stored
    rw [position?_of stored cell, integerAt_eq cell]
  rw [Dict.values, List.map_map]
  refine List.pairwise_map.mpr (t.rows.sorted.imp_of_mem ?_)
  intro a b here there lt same
  have placed := own b there
  rw [← show integerAt p a.2 = integerAt p b.2 from same] at placed
  rw [apart a.1 b.1 _ (own a here) placed] at lt
  exact Key.irrefl _ lt

/-- The positions are the numbers from 1 on, each of them once. -/
theorem Ranks.positions (ranks : t.Ranks p order) :
    (t.rows.values.map (integerAt p)).Perm
      ((List.range order.length).map fun (i : Nat) => (i : Int) + 1) := by
  have left : (t.rows.values.map (integerAt p)).Nodup := by
    apply ranks.known.positions_nodup
    intro a b m first second
    obtain ⟨i, here, rfl⟩ := ranks.listed.index first
    obtain ⟨j, there, same⟩ := ranks.listed.index second
    obtain rfl : i = j := by omega
    exact Option.some.inj (here.symm.trans there)
  have right : ((List.range order.length).map fun (i : Nat) => (i : Int) + 1).Nodup := by
    refine List.pairwise_map.mpr (List.pairwise_lt_range.imp ?_)
    intro i j lt same
    omega
  refine (List.perm_ext_iff_of_nodup left right).mpr fun k => ?_
  rw [List.mem_map, List.mem_map]
  constructor
  · rintro ⟨row, member, rfl⟩
    obtain ⟨id, stored⟩ := Dict.mem_values.mp member
    obtain ⟨n, cell⟩ := ranks.known id row stored
    obtain ⟨i, here, value⟩ := ranks.index stored cell
    rw [integerAt_eq cell]
    exact ⟨i, List.mem_range.mpr (List.getElem?_eq_some_iff.mp here).1, value.symm⟩
  · rintro ⟨i, bound, rfl⟩
    obtain ⟨row, n, stored, cell, value⟩ :=
      ranks.row_at (List.getElem?_eq_getElem (List.mem_range.mp bound))
    exact ⟨row, Dict.mem_values.mpr ⟨_, stored⟩, by rw [integerAt_eq cell, value]⟩

/-- Selecting all rows in the order of their positions. -/
theorem Known.select_all (known : t.Known p) (holds : t.layout.RanksBy column p) (name : String) :
    ∃ rows, t.select ⟨name, .all, some (column, .ascending), none⟩ = .ok rows ∧
      rows.Perm t.rows.values ∧ (rows.map (integerAt p)).Pairwise (· ≤ ·) := by
  obtain ⟨rows, ran, perm, inOrder⟩ := known.select holds name .all
    (fun id row stored => show t.meets .all row = .ok ((fun _ => true) row) from rfl)
      .ascending none
  rw [List.filter_eq_self.mpr fun _ _ => rfl] at perm
  exact ⟨rows, ran, perm, List.pairwise_map.mpr inOrder⟩

/-- All rows in the order of their positions have the positions from 1 on. -/
theorem Ranks.sorted_positions (ranks : t.Ranks p order) (perm : rows.Perm t.rows.values)
    (ascending : (rows.map (integerAt p)).Pairwise (· ≤ ·)) :
    rows.map (integerAt p) = (List.range order.length).map fun (i : Nat) => (i : Int) + 1 := by
  refine List.Perm.eq_of_pairwise ?_ ascending ?_ ((perm.map _).trans ranks.positions)
  · exact fun a b _ _ => Int.le_antisymm
  · refine List.pairwise_map.mpr (List.pairwise_lt_range.imp ?_)
    intro i j lt
    omega

end Table
end RankedStore
