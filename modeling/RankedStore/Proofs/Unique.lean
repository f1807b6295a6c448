import RankedStore.Proofs.Constraints
import RankedStore.Proofs.Order

/-! Which rows a value of a unique column finds. Rows that are written are kept apart by the
equality of values, and a filter finds rows by their order, in which an integer is equal to the
float that it is rounded to. So a number may find several rows, all with different cells. -/
namespace RankedStore

namespace Table

variable {t : Table} {id : Int64} {row : Row} {i : Nat} {v w : Value} {name : String}

/-- What is done to a table. An update puts a row in the place of the one with the id. -/
inductive Edit
  | insert (row : Row)
  | update (id : Int64) (row : Row)
  | delete (id : Int64)

/-- The table after an edit. One that fails or finds no row leaves it as it was. -/
def edit (t : Table) : Edit → Table
  | .insert row => match t.insert row with
    | .ok (_, t') => t'
    | .error _ => t
  | .update id row => match t.replace id row with
    | .ok (some (_, t')) => t'
    | _ => t
  | .delete id => match t.delete id with
    | some (_, t') => t'
    | none => t

def edits (t : Table) (es : List Edit) : Table := es.foldl edit t

/-- An edit keeps the columns, and all rows still pass their checks. -/
theorem Valid.edit (valid : t.Valid) (e : Edit) :
    (t.edit e).Valid ∧ (t.edit e).layout = t.layout := by
  cases e with
  | insert row =>
    dsimp only [Table.edit]
    split
    case h_1 id t' written =>
      obtain ⟨_, _, _, _, _, _, rfl⟩ := insert_eq_ok written
      exact ⟨valid.insert written, rfl⟩
    case h_2 => exact ⟨valid, rfl⟩
  | update id row =>
    dsimp only [Table.edit]
    split
    case h_1 old t' written =>
      obtain ⟨_, _, _, rfl⟩ := replace_eq_some written
      exact ⟨valid.replace written, rfl⟩
    case h_2 => exact ⟨valid, rfl⟩
  | delete id =>
    dsimp only [Table.edit]
    split
    case h_1 old t' deleted =>
      obtain ⟨_, _, same⟩ := Option.map_eq_some_iff.mp deleted
      cases same
      exact ⟨valid.erase id, rfl⟩
    case h_2 => exact ⟨valid, rfl⟩

theorem Valid.edits (valid : t.Valid) (es : List Edit) :
    (t.edits es).Valid ∧ (t.edits es).layout = t.layout := by
  induction es generalizing t with
  | nil => exact ⟨valid, rfl⟩
  | cons e rest ih =>
    obtain ⟨here, same⟩ := valid.edit e
    obtain ⟨after, layout⟩ := ih here
    exact ⟨after, layout.trans same⟩

/-- A row is found by a value that its cell equals in the order of values. -/
theorem meets_eq_iff (place : t.columns.index? name = some i) (cell : row[i]? = some w)
    (known : v.isNull = false) :
    t.meets (.compare name .eq v) row = .ok true ↔ w = v ∨ w.Rounded v := by
  rw [← Value.order?_eq_iff]
  have found : Filter.cell t.columns t.name row name = .ok w := by
    simp only [Filter.cell, place, cell]
  simp only [meets, Filter.holds, Filter.relate, found, known, Bool.or_false, Except.ok_bind]
  cases null : w.isNull with
  | true =>
    cases w <;> cases null
    cases v <;> cases known <;> simp [pure, Except.pure, Value.order?]
  | false =>
    unfold Value.compare
    cases w.order? v <;> simp [pure, Except.pure, Comparison.accepts]

/-- Two cells that differ and that one value finds are numbers, and integers only if the value is a
float. -/
theorem number_of_found {type : ColumnType} {w' : Value} (ne : w ≠ w') (found : w = v ∨ w.Rounded v)
    (found' : w' = v ∨ w'.Rounded v) (admits : type.admits w = true)
    (admits' : type.admits w' = true) :
    type = .float ∨ type = .integer ∧ ∃ x, v = .float x := by
  rcases found with rfl | ⟨n, ⟨rfl, rfl⟩ | ⟨rfl, rfl⟩⟩
  · rcases found' with rfl | ⟨n, ⟨rfl, rfl⟩ | ⟨rfl, rfl⟩⟩
    · exact absurd rfl ne
    all_goals
      cases type <;> cases admits <;> cases admits'
      exact .inl rfl
  · cases type <;> cases admits
    · exact .inr ⟨rfl, _, rfl⟩
    · exact .inl rfl
  · cases type <;> cases admits
    exact .inl rfl

/-- A table starts empty, and rows are inserted, updated and deleted, where it fails or not. Then a
value finds two rows by a unique column if and only if their cells differ and each is the value, or
one of the two is an integer and the other one the float that it is rounded to. This needs a column
of floats, or a float that integers are found by. -/
theorem unique_column_finds_two_iff (layout : TableLayout) (es : List Edit) {t : Table} {c : Column}
    {other : Row} {key : Int64} (reached : t = (Table.ofLayout layout).edits es)
    (place : layout.columns.index? name = some i) (column : layout.columns[i]? = some c)
    (unique : c.unique = true) (known : v.isNull = false) (stored : t.get? id = some row)
    (stored' : t.get? key = some other) (ne : id ≠ key) :
    let Found := fun row => t.meets (.compare name .eq v) row = .ok true
    (Found row ∧ Found other ↔ ∃ w w', row[i]? = some w ∧ other[i]? = some w' ∧ w ≠ w' ∧
      (w = v ∨ w.Rounded v) ∧ (w' = v ∨ w'.Rounded v)) ∧
      (Found row ∧ Found other → c.type = .float ∨ c.type = .integer ∧ ∃ x, v = .float x) := by
  obtain ⟨valid, same⟩ := Valid.edits (.ofEmpty (t := Table.ofLayout layout) rfl) es
  rw [← reached] at valid same
  have columns : t.columns = layout.columns := congrArg TableLayout.columns same
  rw [← columns] at place column
  have cell : ∀ {id row}, t.get? id = some row → ∃ w, row[i]? = some w ∧
    c.type.admits w = true := by
    intro id row stored
    obtain ⟨bound, _⟩ := List.getElem?_eq_some_iff.mp column
    have inside : i < row.length := by rwa [valid.width stored]
    have there : row[i]? = some row[i] := List.getElem?_eq_getElem inside
    exact ⟨_, there, (admits_of_check (checkRow_get (valid.checked id row stored) column there)).1⟩
  obtain ⟨w, here, admits⟩ := cell stored
  obtain ⟨w', here', admits'⟩ := cell stored'
  have apart : w = v ∨ w.Rounded v → w ≠ w' := by
    rintro found rfl
    have some : w.isNull = false := by
      rcases found with rfl | ⟨n, ⟨rfl, _⟩ | ⟨_, rfl⟩⟩
      · exact known
      all_goals rfl
    exact valid.apart id row key other stored stored' ne i c w column unique here some here'
  dsimp only
  rw [meets_eq_iff place here known, meets_eq_iff place here' known]
  refine ⟨⟨fun ⟨found, found'⟩ => ⟨w, w', here, here', apart found, found, found'⟩, ?_⟩,
    fun ⟨found, found'⟩ =>
    number_of_found (apart found) found found' admits admits'⟩
  rintro ⟨_, _, cell, cell', _, found, found'⟩
  cases here.symm.trans cell
  cases here'.symm.trans cell'
  exact ⟨found, found'⟩

end Table

/-! A table with one unique column for numbers. -/
namespace Numbered

def layout (type : ColumnType) : TableLayout := ⟨"t", [.id, { name := "n", type, unique := true }]⟩

/-- Both values are inserted, and the first one once more, which fails. -/
def edits (v w : Value) : List Table.Edit :=
  [.insert [.null, v], .insert [.null, w], .insert [.null, v]]

end Numbered

open Meeting in
/-- A float finds two integers in a column of integers, which are different and both rounded to
it. -/
theorem Table.unique_column_finds_two_iff_integers : ∃ t row other,
    t = (Table.ofLayout (Numbered.layout .integer)).edits (Numbered.edits smaller larger) ∧
      t.get? 1 = some row ∧ t.get? 2 = some other ∧
      row[1]? = some smaller ∧ other[1]? = some larger ∧
      t.meets (.compare "n" .eq between) row = .ok true ∧
      t.meets (.compare "n" .eq between) other = .ok true := by
  let layout := Numbered.layout .integer
  let t := (Table.ofLayout layout).edits (Numbered.edits smaller larger)
  have stored : t.get? 1 = some [.integer 1, smaller] := by decide +kernel
  have stored' : t.get? 2 = some [.integer 2, larger] := by decide +kernel
  have place : layout.columns.index? "n" = some 1 := rfl
  have rounded : smaller.Rounded between := ⟨9007199254740992, .inl ⟨rfl, by decide +kernel⟩⟩
  have rounded' : larger.Rounded between := ⟨9007199254740993, .inl ⟨rfl, by decide +kernel⟩⟩
  obtain ⟨both, _⟩ := unique_column_finds_two_iff layout _ rfl place rfl rfl (v := between) rfl
    stored stored' (by decide)
  exact ⟨t, _, _, rfl, stored, stored', rfl, rfl,
    both.mpr ⟨smaller, larger, rfl, rfl, by decide, .inr rounded, .inr rounded'⟩⟩

/-- The integer 1 finds itself and the float 1.0 in a unique column of floats. -/
theorem Table.unique_column_holds_one_twice : ∃ t,
    t = (Table.ofLayout (Numbered.layout .float)).edits
      (Numbered.edits (.integer 1) (.float ⟨0x3ff0000000000000⟩)) ∧
    t.scan = [(1, [.integer 1, .integer 1]), (2, [.integer 2, .float ⟨0x3ff0000000000000⟩])] ∧
      ∀ e ∈ t.scan, t.meets (.compare "n" .eq (.integer 1)) e.2 = .ok true :=
  ⟨_, rfl, by decide +kernel, by decide +kernel⟩

end RankedStore
