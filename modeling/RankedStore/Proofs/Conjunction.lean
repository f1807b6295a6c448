import RankedStore.Proofs.Select

/-! Conjunctions of filters. A filter stands for the list of its parts, which are tried from left to
right, and the conjunction of two filters for one list after the other, however they are nested. So
filters can be added to a statement one by one: a row is tried by them in turn, up to the first one
that it does not meet or that cannot be decided. -/
namespace RankedStore

namespace Filter

variable {columns : Columns} {table : String} {row : Row} {f g h : Filter} {fs gs : List Filter}
  {result : Except Error Bool}

/-- The filters that a conjunction tries. -/
def parts : Filter → List Filter
  | .all => []
  | .conj fs => fs
  | f => [f]

theorem and_all (f : Filter) : f.and .all = f := by
  cases f <;> rfl

theorem and_eq_conj (left : f ≠ .all) (right : g ≠ .all) :
    f.and g = .conj (f.parts ++ g.parts) := by
  cases f <;> cases g <;> first
    | rfl
    | exact absurd rfl left
    | exact absurd rfl right

theorem parts_and (f g : Filter) : (f.and g).parts = f.parts ++ g.parts := by
  by_cases first : f = .all
  · rw [first]
    rfl
  by_cases second : g = .all
  · rw [second, and_all]
    exact (List.append_nil _).symm
  rw [and_eq_conj first second]
  rfl

theorem and_assoc (f g h : Filter) : (f.and g).and h = f.and (g.and h) := by
  by_cases first : f = .all
  · rw [first]
    rfl
  by_cases second : g = .all
  · rw [second, and_all]
    rfl
  by_cases third : h = .all
  · rw [third, and_all, and_all]
  -- what is left are three lists of parts, one after the other
  rw [and_eq_conj first second, and_eq_conj second third, and_eq_conj (by simp) third,
    and_eq_conj first (by simp)]
  simp only [parts, List.append_assoc]

/-! What a conjunction decides. -/

theorem allHold_cons : allHold columns table row (f :: fs) =
    match f.holds columns table row with
    | .ok true => allHold columns table row fs
    | .ok false => .ok false
    | .error e => .error e := by
  rw [allHold]
  rcases f.holds columns table row with e | _ | _ <;> rfl

theorem allHold_append : allHold columns table row (fs ++ gs) =
    match allHold columns table row fs with
    | .ok true => allHold columns table row gs
    | .ok false => .ok false
    | .error e => .error e := by
  induction fs with
  | nil => rw [allHold, List.nil_append]
  | cons f fs ih =>
    rw [List.cons_append, allHold_cons, allHold_cons, ih]
    rcases f.holds columns table row with e | _ | _ <;> rfl

theorem holds_eq_allHold (f : Filter) :
    f.holds columns table row = allHold columns table row f.parts := by
  cases f with
  | all => rw [holds, parts, allHold]
  | conj fs => rw [holds, parts]
  | compare column comparison value =>
    show _ = allHold columns table row [_]
    rw [allHold_cons, allHold]
    split <;> assumption
  | between column low high =>
    show _ = allHold columns table row [_]
    rw [allHold_cons, allHold]
    split <;> assumption

theorem holds_and (f g : Filter) : (f.and g).holds columns table row =
    match f.holds columns table row with
    | .ok true => g.holds columns table row
    | .ok false => .ok false
    | .error e => .error e := by
  simp only [holds_eq_allHold, parts_and, allHold_append]

/-- A row is tried by filters in turn. The first one that it does not meet, or that fails,
decides. -/
inductive Tried (columns : Columns) (table : String) (row : Row) :
    List Filter → Except Error Bool → Prop
  | done : Tried columns table row [] (.ok true)
  | met {first rest answer} : first.holds columns table row = .ok true →
    Tried columns table row rest answer →
      Tried columns table row (first :: rest) answer
  | stopped {first rest answer} : first.holds columns table row = answer → answer ≠ .ok true →
      Tried columns table row (first :: rest) answer

theorem tried_iff : Tried columns table row fs result ↔ allHold columns table row fs = result := by
  constructor
  · intro tried
    induction tried with
    | done => rw [allHold]
    | met met _ ih => rw [allHold_cons, met, ih]
    | @stopped f fs result decided stops =>
      rw [allHold_cons, decided]
      rcases result with e | _ | _
      · rfl
      · rfl
      · exact absurd rfl stops
  · rintro rfl
    induction fs with
    | nil =>
      rw [allHold]
      exact .done
    | cons f fs ih =>
      rw [allHold_cons]
      rcases decided : f.holds columns table row with e | _ | _
      · exact .stopped decided (by simp)
      · exact .stopped decided (by simp)
      · exact .met decided ih

theorem Tried.all_met_iff :
    Tried columns table row fs (.ok true) ↔ ∀ f ∈ fs, f.holds columns table row = .ok true := by
  induction fs with
  | nil => exact iff_of_true .done (by simp)
  | cons f fs ih =>
    rw [List.forall_mem_cons, ← ih]
    constructor
    · intro tried
      cases tried with
      | met met rest => exact ⟨met, rest⟩
      | stopped _ stops => exact absurd rfl stops
    · exact fun ⟨here, rest⟩ => .met here rest

/-- Filters that are added one after the other are tried one after the other. -/
theorem parts_foldl_and (f : Filter) (fs : List Filter) :
    (fs.foldl and f).parts = f.parts ++ fs.flatMap parts := by
  induction fs generalizing f with
  | nil => exact (List.append_nil _).symm
  | cons g fs ih => rw [List.foldl_cons, ih, parts_and, List.flatMap_cons, List.append_assoc]

theorem allHold_flatMap_parts (fs : List Filter) :
    allHold columns table row (fs.flatMap parts) = allHold columns table row fs := by
  induction fs with
  | nil => rfl
  | cons f fs ih => rw [List.flatMap_cons, allHold_append, allHold_cons, ih, holds_eq_allHold]

theorem holds_foldl_and (f : Filter) (fs : List Filter) :
    (fs.foldl and f).holds columns table row = allHold columns table row (f :: fs) := by
  rw [holds_eq_allHold, parts_foldl_and, ← List.flatMap_cons, allHold_flatMap_parts]

end Filter

theorem Select.foldl_filtered (q : Select) (fs : List Filter) :
    fs.foldl filtered q = { q with filter := fs.foldl Filter.and q.filter } := by
  induction fs generalizing q with
  | nil => rfl
  | cons f fs ih => rw [List.foldl_cons, ih]; rfl

theorem Update.foldl_filtered (u : Update) (fs : List Filter) :
    fs.foldl filtered u = { u with filter := fs.foldl Filter.and u.filter } := by
  induction fs generalizing u with
  | nil => rfl
  | cons f fs ih => rw [List.foldl_cons, ih]; rfl

/-- A row is matched by the filter that a statement has after filters were added to it if it meets
all of them. -/
theorem Table.mem_matching_foldl (t : Table) (f : Filter) (fs : List Filter) (e : Int64 × Row) :
    e ∈ t.matching (fs.foldl Filter.and f) ↔ e ∈ t.scan ∧
    ∀ g ∈ f :: fs, t.meets g e.2 = .ok true := by
  have met : (t.meets (fs.foldl Filter.and f) e.2).toOption = some true ↔
    ∀ g ∈ f :: fs, t.meets g e.2 = .ok true := by
    unfold meets
    rw [Filter.holds_foldl_and, ← Filter.Tried.all_met_iff, Filter.tried_iff]
    cases Filter.allHold t.columns t.name e.2 (f :: fs) <;> simp [Except.toOption]
  rw [matching, List.mem_filter, decide_eq_true_iff, met]

/-- The conjunction of filters is one that is decided from left to right: it fails if the first
filter fails, is not met if that is not met, and else does what the second filter does. It is
associative, and the filter that all rows meet changes nothing on either side. A statement to which
filters were added one by one tries each row by all of them in turn, after the filter that it had,
up to the first one that is not met or fails, and it is about the rows that meet them all. -/
theorem filters_conjoin :
    (∀ (f g : Filter) columns table row, (f.and g).holds columns table row =
      match f.holds columns table row with
      | .ok true => g.holds columns table row
      | .ok false => .ok false
      | .error e => .error e) ∧
    (∀ f g h : Filter, (f.and g).and h = f.and (g.and h)) ∧
    (∀ f : Filter, Filter.all.and f = f ∧ f.and .all = f) ∧
    (∀ (q : Select) (fs : List Filter), ∃ filter, fs.foldl Select.filtered q = { q with filter } ∧
      (∀ columns table row result,
        filter.holds columns table row = result ↔
          Filter.Tried columns table row (q.filter :: fs) result) ∧
      ∀ (t : Table) e, e ∈ t.matching filter ↔ e ∈ t.scan ∧
        ∀ f ∈ q.filter :: fs, t.meets f e.2 = .ok true) ∧
    (∀ (u : Update) (fs : List Filter), ∃ filter, fs.foldl Update.filtered u = { u with filter } ∧
      (∀ columns table row result,
        filter.holds columns table row = result ↔
          Filter.Tried columns table row (u.filter :: fs) result) ∧
      ∀ (t : Table) e, e ∈ t.matching filter ↔ e ∈ t.scan ∧
        ∀ f ∈ u.filter :: fs, t.meets f e.2 = .ok true) := by
  have tries : ∀ (f : Filter) (fs : List Filter) columns table row result,
      (fs.foldl Filter.and f).holds columns table row = result ↔
        Filter.Tried columns table row (f :: fs) result := by
    intro f fs columns table row result
    rw [Filter.holds_foldl_and, Filter.tried_iff]
  refine ⟨fun f g _ _ _ => f.holds_and g, Filter.and_assoc, fun f => ⟨rfl, f.and_all⟩, fun q fs =>
    ?_, fun u fs => ?_⟩
  · exact ⟨_, q.foldl_filtered fs, tries q.filter fs, fun t => t.mem_matching_foldl q.filter fs⟩
  · exact ⟨_, u.foldl_filtered fs, tries u.filter fs, fun t => t.mem_matching_foldl u.filter fs⟩

end RankedStore
