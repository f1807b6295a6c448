import RankedStore.Entity.Record
import RankedStore.Proofs.Ranking.Ranks

/-! Records between memory and store: what a record writes into a row, what it reads from one, and
which of its fields it takes for changed. -/
namespace RankedStore

/-- In a list with each key once, looking up a key after a selection is selecting what it has. -/
theorem find?_filterMap {l : List (String × α)} (keys : l.Pairwise fun a b => a.1 < b.1)
    (f : String → α → Option β) (k : String) :
    ((l.filterMap fun e => (f e.1 e.2).map fun b => (e.1, b)).find? (fun e => e.1 = k)).map (·.2) =
      ((l.find? (fun e => e.1 = k)).map (·.2)).bind (f k) := by
  induction l with
  | nil => rfl
  | cons e rest ih =>
    obtain ⟨later, keys⟩ := List.pairwise_cons.mp keys
    by_cases same : e.1 = k
    · have absent : (rest.filterMap fun e => (f e.1 e.2).map fun b => (e.1, b)).find?
          (fun e => e.1 = k) = none := by
        rw [List.find?_eq_none]
        intro x member
        obtain ⟨y, source, found⟩ := List.mem_filterMap.mp member
        obtain ⟨b, _, rfl⟩ := Option.map_eq_some_iff.mp found
        intro equal
        have lt := later y source
        rw [same, ← of_decide_eq_true equal] at lt
        exact Key.irrefl _ lt
      rw [List.find?_cons_of_pos (by simpa using same), ← same]
      cases found : f e.1 e.2 with
      | none =>
        rw [List.filterMap_cons_none (by rw [found]; rfl), same, absent]
        simp only [Option.map_none, Option.map_some, Option.bind_some, ← same, found]
      | some b =>
        rw [List.filterMap_cons_some (by rw [found]; rfl), List.find?_cons_of_pos (by simp)]
        simp only [Option.map_some, Option.bind_some, found]
    · rw [List.find?_cons_of_neg (by simpa using same), ← ih keys]
      cases found : f e.1 e.2 with
      | none => rw [List.filterMap_cons_none (by rw [found]; rfl)]
      | some b =>
        rw [List.filterMap_cons_some (by rw [found]; rfl), List.find?_cons_of_neg
          (by simpa using same)]

theorem Value.integer?_eq_some {v : Value} {n : Int64} (h : v.integer? = some n) :
    v = .integer n := by
  cases v <;> cases h
  rfl

namespace Record

/-- What a program has in its hands was made by these operations. -/
inductive Obtained : Record → Prop
  | created (entity : String) : Obtained (.ofEntity entity)
  | changed {r r' : Record} {field : String} {v : Value} :
      Obtained r → r.set field v = .ok r' → Obtained r'
  | loaded {r r' : Record} {layout : TableLayout} {row : Row} :
      r.load layout row = .ok r' → Obtained r'
  | saved {r : Record} (id : Int64) : Obtained r → Obtained (r.withId id).markClean
  | written {r : Record} : Obtained r → Obtained r.markClean
  | removed {r : Record} : Obtained r → Obtained r.detach

variable {r r' : Record} {field column : String} {layout : TableLayout} {row : Row} {p : Nat}
  {cs : Columns}

theorem id_of_requireId {id : Int64} (own : r.requireId = .ok id) : r.id = some id := by
  unfold requireId at own
  split at own
  case h_1 found =>
    cases own
    exact found
  case h_2 => cases own

theorem change?_eq (r : Record) (field : String) : r.change? field =
    (r.get? field).bind fun v =>
      if r.storedValue field = v then none else some (r.storedValue field, v) := by
  have found := find?_filterMap r.fields.sorted
    (fun k v => if r.storedValue k = v then none else some (r.storedValue k, v)) field
  have same : r.changes = r.fields.entries.filterMap fun e =>
      (if r.storedValue e.1 = e.2 then none else some (r.storedValue e.1, e.2)).map
        fun b => (e.1, b) := by
    refine congrArg (List.filterMap · r.fields.entries) (funext fun e => ?_)
    by_cases unchanged : r.storedValue e.1 = e.2 <;> simp [unchanged]
  rw [change?, same, found]
  rfl

theorem change?_eq_some (h : r.change? field = some (old, new)) :
    r.storedValue field = old ∧ r.get? field = some new := by
  rw [change?_eq] at h
  obtain ⟨v, found, changed⟩ := Option.bind_eq_some_iff.mp h
  split at changed
  case isTrue => cases changed
  case isFalse =>
    cases changed
    exact ⟨rfl, found⟩

theorem storedValue_of_unchanged (h : r.change? field = none) (found : r.get? field = some v) :
    r.storedValue field = v := by
  rw [change?_eq, found, Option.bind_some] at h
  split at h
  case isTrue same => exact same
  case isFalse => cases h

theorem change?_of_clean (clean : r.isDirty = false) (field : String) : r.change? field = none := by
  have none_changed : r.changes = [] := by simpa [isDirty] using clean
  rw [change?, none_changed]
  rfl

/-- A field that was stored is never missing. -/
theorem Obtained.kept (obtained : Obtained r) : ∀ field v, r.stored.get? field = some v →
    ∃ w, r.get? field = some w := by
  induction obtained with
  | created entity => rintro field v ⟨⟩
  | @changed r field value r' _ changed ih =>
    intro other v stored
    unfold set at changed
    split at changed
    case isTrue => cases changed
    case isFalse =>
      cases changed
      obtain ⟨w, found⟩ := ih other v stored
      simp only [get?, Dict.get?_insert] at found ⊢
      split
      · exact ⟨_, rfl⟩
      · exact ⟨w, found⟩
  | loaded loaded =>
    intro field v stored
    unfold load at loaded
    split at loaded
    case isTrue => cases loaded
    case isFalse =>
      cases loaded
      exact ⟨v, stored⟩
  | saved id _ ih => exact fun field v stored => ⟨v, stored⟩
  | written _ ih => exact fun field v stored => ⟨v, stored⟩
  | removed _ ih => rintro field v ⟨⟩

theorem loadCells_entity (r : Record) (cs : Columns) (row : Row) :
    (r.loadCells cs row).entity = r.entity := by
  induction cs generalizing r row with
  | nil => rfl
  | cons c cs ih =>
    cases row with
    | nil => rfl
    | cons v row =>
      rw [loadCells, ih]
      split <;> rfl

theorem load_entity (loaded : r.load layout row = .ok r') : r'.entity = r.entity := by
  unfold load at loaded
  split at loaded <;> cases loaded
  exact loadCells_entity ..

/-- Columns of other names do not touch a field. -/
theorem loadCells_get?_of_ne (r : Record) (row : Row) (apart : ∀ c ∈ cs, c.name ≠ field) :
    (r.loadCells cs row).get? field = r.get? field := by
  induction cs generalizing r row with
  | nil => rfl
  | cons c cs ih =>
    cases row with
    | nil => rfl
    | cons v row =>
      rw [loadCells, ih _ row fun d member => apart d (List.mem_cons_of_mem _ member)]
      split
      · rfl
      · exact Dict.get?_insert_of_ne _ _ (apart c (List.mem_cons_self ..))

theorem loadCells_id_of_ne (r : Record) (row : Row) (apart : ∀ c ∈ cs, c.name ≠ Column.idName) :
    (r.loadCells cs row).id = r.id := by
  induction cs generalizing r row with
  | nil => rfl
  | cons c cs ih =>
    cases row with
    | nil => rfl
    | cons v row =>
      rw [loadCells, ih _ row fun d member => apart d (List.mem_cons_of_mem _ member),
        if_neg (apart c (List.mem_cons_self ..))]

theorem loadCells_get? (r : Record) {c : Column} {v : Value} (at_p : cs[p]? = some c)
    (named : c.name = field) (ne : field ≠ Column.idName)
    (only : ∀ (i : Nat) (d : Column), cs[i]? = some d → d.name = field → i = p)
    (cell : row[p]? = some v) : (r.loadCells cs row).get? field = some v := by
  induction cs generalizing r row p with
  | nil => cases at_p
  | cons d cs ih =>
    cases row with
    | nil => cases cell
    | cons w row =>
      rw [loadCells]
      cases p with
      | zero =>
        cases at_p
        cases cell
        rw [loadCells_get?_of_ne, if_neg (named ▸ ne), ← named]
        · exact Dict.get?_insert_self ..
        · intro d member same
          obtain ⟨i, there⟩ := List.getElem?_of_mem member
          exact absurd (only (i + 1) d there same) (Nat.succ_ne_zero i)
      | succ p =>
        refine ih _ at_p (fun i e there same => ?_) cell
        exact Nat.succ.inj (only (i + 1) e there same)

theorem loadCells_id (r : Record) {c : Column} {v : Value} (first : cs[0]? = some c)
    (named : c.name = Column.idName)
    (only : ∀ (i : Nat) (d : Column), cs[i]? = some d → d.name = Column.idName → i = 0)
    (cell : row[0]? = some v) : (r.loadCells cs row).id = v.integer? := by
  cases cs with
  | nil => cases first
  | cons d cs =>
    cases row with
    | nil => cases cell
    | cons w row =>
      cases first
      cases cell
      rw [loadCells, if_pos named, loadCells_id_of_ne]
      intro d member same
      obtain ⟨i, there⟩ := List.getElem?_of_mem member
      exact absurd (only (i + 1) d there same) (Nat.succ_ne_zero i)

/-- A stored row is read as a record with its id and its position. -/
theorem load_ranked (r : Record) (ranks : layout.RanksBy column p)
    (width : row.length = layout.columns.length) {id n : Int64}
    (keyed : row[0]? = some (.integer id)) (cell : row[p]? = some (.integer n)) :
    ∃ r', r.load layout row = .ok r' ∧ r'.entity = r.entity ∧ r'.id = some id ∧
      r'.get? column = some (.integer n) := by
  obtain ⟨c, at_p, named, _⟩ := ranks.holder
  let loaded := (ofEntity r.entity).loadCells layout.columns row
  refine ⟨{ loaded with stored := loaded.fields }, ?_, loadCells_entity .., ?_, ?_⟩
  · rw [load, if_neg (by simpa using width)]
  · exact loadCells_id _ ranks.first rfl ranks.onlyId keyed
  · exact loadCells_get? _ at_p named ranks.ne_id ranks.only cell

/-- A record is written as the row of its cells, if its fields have columns. -/
theorem toRow_eq_ok (h : r.toRow layout = .ok row) : row = layout.columns.map r.cellOf := by
  unfold toRow at h
  cases fields : checkFields layout r.fields.keys with
  | error e => simp [fields] at h
  | ok _ =>
    simp only [fields, Except.ok.injEq, Except.ok_bind, Except.pure_eq_ok] at h
    exact h.symm

/-- The id comes first, NULL for a new record. -/
theorem toRow_id (ranks : layout.RanksBy column p) (h : r.toRow layout = .ok row) :
    row[0]? = some ((r.id.map .integer).getD .null) := by
  rw [toRow_eq_ok h, List.getElem?_map, ranks.first]
  exact congrArg some (if_pos rfl)

theorem toRow_position (ranks : layout.RanksBy column p) (h : r.toRow layout = .ok row) :
    row[p]? = some ((r.get? column).getD .null) := by
  obtain ⟨c, at_p, named, _⟩ := ranks.holder
  rw [toRow_eq_ok h, List.getElem?_map, at_p, Option.map_some, cellOf, named, if_neg ranks.ne_id]

end Record
end RankedStore
