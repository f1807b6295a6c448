import RankedStore.Proofs.Presence
import RankedStore.Proofs.Ranking.Shift

/-! What an update does to a table whose rows pass the checks of its columns: it gives all rows that
meet its filter their new value, or none. The exception is a column whose values are unique. Rows
are checked against the table as it is by then, and those before the first one whose new value is
taken by another row keep theirs. -/
namespace RankedStore

/-- The value that takes the place of another one. -/
inductive Assignment.Gives : Assignment → Value → Value → Prop
  | set (value old : Value) : Gives (.set value) old value
  | unknown (delta : Int64) : Gives (.shift delta) .null .null
  | sum {delta n m : Int64} : m.toInt = n.toInt + delta.toInt →
      Gives (.shift delta) (.integer n) (.integer m)

theorem TableLayout.column_of_index {layout : TableLayout} {column : String} {i : Nat}
    (place : layout.index column = .ok i) : ∃ c, layout.columns[i]? = some c ∧ c.name = column := by
  unfold TableLayout.index at place
  split at place
  case h_1 j found =>
    cases place
    obtain ⟨bound, named, _⟩ := List.findIdx?_eq_some_iff_getElem.mp found
    exact ⟨_, List.getElem?_eq_getElem bound, by simpa using named⟩
  case h_2 => cases place

namespace Table

variable {t t' : Table} {u : Update} {id : Int64} {row : Row} {i : Nat} {v : Value} {c : Column}
  {entries pending replaced : List (Int64 × Row)} {except : Option Int64}

/-- The ids of the rows that meet a filter, in their order. -/
def meeting (t : Table) (f : Filter) : List Int64 :=
  (t.scan.filter fun e => t.meets f e.2 matches .ok true).map (·.1)

/-- The rows under these ids have their column assigned. Nothing else is different. -/
structure Assigns (t : Table) (u : Update) (ids : List Int64) (t' : Table) : Prop where
  layout : t'.layout = t.layout
  nextId : t'.nextId = t.nextId
  assigned : ∀ id ∈ ids, ∃ i row old new, t.layout.index u.column = .ok i ∧ t.get? id = some row ∧
    row[i]? = some old ∧ u.assignment.Gives old new ∧ t'.get? id = some (row.set i new)
  others : ∀ id, id ∉ ids → t'.get? id = t.get? id

/-- The value that the update has for a row is taken: its column is unique, and by now another row
has the value there. -/
def Shares (t : Table) (u : Update) (id : Int64) (v : Value) (t' : Table) : Prop :=
  ∃ i c row old, t.layout.index u.column = .ok i ∧ t.columns[i]? = some c ∧ c.unique = true ∧
    t.get? id = some row ∧ row[i]? = some old ∧ u.assignment.Gives old v ∧ v.isNull = false ∧
    ∃ key other, key ≠ id ∧ t'.get? key = some other ∧ other[i]? = some v

theorem gives_of_assigned {old : Value} (value : assigned u id old = .ok v) :
    u.assignment.Gives old v := by
  unfold assigned at value
  split at value
  case h_1 set =>
    cases value
    rw [set]
    exact .set ..
  case h_2 shift =>
    cases value
    rw [shift]
    exact .unknown _
  case h_3 delta n shift =>
    cases sum : addChecked n delta with
    | none =>
      rw [sum] at value
      cases value
    | some m =>
      rw [sum] at value
      cases value
      rw [shift]
      exact .sum (addChecked_eq_some sum)
  case h_4 => cases value

/-- The plan has a new row for each one that meets the filter. -/
theorem plan_ids (planned : t.plan u i entries = .ok pending) : pending.map (·.1) =
    (entries.filter fun e => t.meets u.filter e.2 matches .ok true).map (·.1) := by
  induction entries generalizing pending with
  | nil =>
    cases planned
    rfl
  | cons first rest ih =>
    obtain ⟨id, row⟩ := first
    obtain ⟨met, holds, planned⟩ := Except.bind_eq_ok planned
    cases met with
    | false =>
      rw [ih planned, List.filter_cons_of_neg (by simp [holds])]
    | true =>
      obtain ⟨old, _, planned⟩ := Except.bind_eq_ok planned
      obtain ⟨v, _, planned⟩ := Except.bind_eq_ok planned
      obtain ⟨later, remaining, last⟩ := Except.bind_eq_ok planned
      cases last
      rw [List.filter_cons_of_pos (by simp [holds]), List.map_cons, List.map_cons, ih remaining]

/-! Writing a plan. -/

/-- Where a row cannot be written, those before it have been. -/
theorem replaceAll_stopped (ran : t.replaceAll pending = (.error e, t')) :
    ∃ done first rest replaced, pending = done ++ first :: rest ∧
      t.replaceAll done = (.ok replaced, t') ∧ t'.replace first.1 first.2 = .error e := by
  induction pending generalizing t with
  | nil => cases ran
  | cons first rest ih =>
    obtain ⟨id, new⟩ := first
    unfold replaceAll at ran
    split at ran
    case h_1 failed =>
      cases ran
      exact ⟨[], (id, new), rest, [], rfl, rfl, failed⟩
    case h_2 absent =>
      obtain ⟨done, next, later, replaced, rfl, written, failed⟩ := ih ran
      refine ⟨(id, new) :: done, next, later, replaced, rfl, ?_, failed⟩
      rw [replaceAll, absent]
      exact written
    case h_3 old middle first =>
      rcases later : middle.replaceAll rest with ⟨e | others, last⟩ <;> rw [later] at ran <;>
        cases ran
      obtain ⟨done, next, last, replaced, rfl, written, failed⟩ := ih later
      refine ⟨(id, new) :: done, next, last, (id, old) :: replaced, rfl, ?_, failed⟩
      rw [replaceAll, first]
      simp only [written, Except.map]

theorem Valid.replaceAll (valid : t.Valid) (pending : List (Int64 × Row)) :
    (t.replaceAll pending).2.Valid := by
  induction pending generalizing t with
  | nil => exact valid
  | cons first rest ih =>
    obtain ⟨id, new⟩ := first
    unfold Table.replaceAll
    split
    case h_1 => exact valid
    case h_2 => exact ih valid
    case h_3 written => exact ih (valid.replace written)

/-! A row that cannot be written. -/

/-- A row that fails the check against the other rows has a value that one of them has, too. -/
theorem checkUniqueFrom_failed {cs : Columns} (wide : ∀ e ∈ t.scan, i + cs.length ≤ e.2.length)
    (failed : t.checkUniqueFrom except i cs row = .error e) : ∃ (j : Nat) (c : Column) (v : Value),
      cs[j]? = some c ∧ c.unique = true ∧ row[j]? = some v ∧ v.isNull = false ∧
      e = .constraintViolation (.notUnique c.name v) ∧
      ∃ x ∈ t.scan, some x.1 ≠ except ∧ x.2[i + j]? = some v := by
  induction cs generalizing i row with
  | nil => cases failed
  | cons c cs ih =>
    cases row with
    | nil => cases failed
    | cons v row =>
      simp only [List.length_cons] at wide
      have taken : t.isTaken i v except t.scan = _ := t.isTaken_eq v except fun e member => by
        have := wide e member
        omega
      have later : t.checkUniqueFrom except (i + 1) cs row = .error e → _ := ih fun e member => by
        have := wide e member
        omega
      unfold checkUniqueFrom at failed
      by_cases active : (c.unique && !v.isNull) = true
      · rw [if_pos active, taken] at failed
        obtain ⟨unique, known⟩ : c.unique = true ∧ v.isNull = false := by simpa using active
        by_cases shared : ∃ x ∈ t.scan, some x.1 ≠ except ∧ x.2[i]? = some v
        · simp only [decide_eq_true shared, if_true, Except.ok_bind] at failed
          cases failed
          exact ⟨0, c, v, rfl, unique, rfl, known, rfl, shared⟩
        · simp only [decide_eq_false shared, Bool.false_eq_true, if_false, Except.ok_bind] at failed
          obtain ⟨j, d, w, column, rest⟩ := later failed
          refine ⟨j + 1, d, w, column, ?_⟩
          simpa only [List.getElem?_cons_succ, Nat.add_assoc, Nat.add_comm 1] using rest
      · rw [if_neg active] at failed
        obtain ⟨j, d, w, column, rest⟩ := later failed
        refine ⟨j + 1, d, w, column, ?_⟩
        simpa only [List.getElem?_cons_succ, Nat.add_assoc, Nat.add_comm 1] using rest

/-- In a valid table a stored row with one cell set fails the checks for the value of that cell
alone. -/
theorem Valid.replace_failed (valid : t.Valid) (stored : t.get? id = some row)
    (column : t.columns[i]? = some c) (admitted : c.check v = .ok ())
    (failed : t.replace id (row.set i v) = .error e) :
    e = .constraintViolation (.notUnique c.name v) ∧ c.unique = true ∧ v.isNull = false ∧
      ∃ key other, key ≠ id ∧ t.get? key = some other ∧ other[i]? = some v := by
  have wide : ∀ x ∈ t.scan, 0 + t.columns.length ≤ x.2.length := fun x member => by
    have := valid.width (mem_scan.mp member)
    omega
  have bound : i < row.length := by
    rw [valid.width stored]
    exact (List.getElem?_eq_some_iff.mp column).1
  have unique : t.checkUnique (row.set i v) (some id) = .error e := by
    unfold Table.replace at failed
    simp only [stored, checkRow_set (valid.checked id row stored) column admitted,
      Except.ok_bind] at failed
    rcases unique : t.checkUnique (row.set i v) (some id) with e' | _ <;> rw [unique] at failed <;>
      cases failed
    rfl
  obtain ⟨j, c', v', column', plain, cell, known, rfl, ⟨key, other⟩, member, own, shared⟩ :=
    checkUniqueFrom_failed wide unique
  rw [Nat.zero_add] at shared
  have ne : key ≠ id := by simpa using own
  have there := mem_scan.mp member
  by_cases same : i = j
  · subst same
    rw [List.getElem?_set_self bound, Option.some.injEq] at cell
    rw [column, Option.some.injEq] at column'
    subst cell column'
    exact ⟨rfl, plain, known, key, other, ne, there, shared⟩
  · rw [List.getElem?_set_ne same] at cell
    exact absurd shared (valid.apart id row key other stored there ne.symm j c' v' column' plain
      cell known)

/-- The rows of a plan that are written have their column assigned. -/
theorem assigns_of_written {done : List (Int64 × Row)} (rest : List (Int64 × Row))
    (place : t.layout.index u.column = .ok i) (planned : t.plan u i t.scan = .ok (done ++ rest))
    (ran : t.replaceAll done = (.ok replaced, t')) : replaced.length = done.length ∧
      t.Assigns u (done.map (·.1)) t' := by
  obtain ⟨ids, source⟩ := plan_source planned
  have first : done.Sublist (done ++ rest) := List.sublist_append_left ..
  have source : ∀ e ∈ done, ∃ row old v, t.get? e.1 = some row ∧ row[i]? = some old ∧
      assigned u e.1 old = .ok v ∧ e.2 = row.set i v := by
    intro e member
    obtain ⟨row, old, v, there, more⟩ := source e (first.subset member)
    exact ⟨row, old, v, mem_scan.mp there, more⟩
  obtain ⟨count, layout, nextId, there, others⟩ :=
    replaceAll_written (t.scan_nodup.sublist ((first.map _).trans ids)) (fun e member => by
      obtain ⟨row, _, _, stored, _⟩ := source e member
      exact ⟨row, stored⟩) ran
  refine ⟨count, layout, nextId, ?_, others⟩
  intro id member
  obtain ⟨e, planned, rfl⟩ := List.mem_map.mp member
  obtain ⟨row, old, v, stored, cell, value, new⟩ := source e planned
  exact ⟨i, row, old, v, place, stored, cell, gives_of_assigned value, by rw [there e planned, new]⟩

/-- If the column does not admit the value for some row, no row was written before that one: a value
that is set is the same for all of them, and a shift gives none that the column does not admit. -/
theorem Valid.nothing_written {done rest : List (Int64 × Row)} {old : Value} (valid : t.Valid)
    (place : t.layout.index u.column = .ok i) (column : t.columns[i]? = some c)
    (planned : t.plan u i t.scan = .ok (done ++ rest))
    (ran : t.replaceAll done = (.ok replaced, t')) (stored : t.get? id = some row)
    (cell : row[i]? = some old) (value : assigned u id old = .ok v) (refused : c.check v ≠ .ok ()) :
    done = [] := by
  cases done with
  | nil => rfl
  | cons first more =>
    refine absurd ?_ refused
    cases assignment : u.assignment with
    | shift delta =>
      exact check_assigned assignment value (checkRow_get (valid.checked id row stored) column cell)
    | set w =>
      have same : v = w := by
        simp only [assigned, assignment, Except.ok.injEq] at value
        exact value.symm
      obtain ⟨_, assigns⟩ := assigns_of_written _ place planned ran
      have valid' : t'.Valid := by simpa only [ran] using valid.replaceAll (first :: more)
      obtain ⟨j, row', old', w', place', _, cell', gives, there⟩ :=
        assigns.assigned first.1 (List.mem_map.mpr ⟨first, List.mem_cons_self .., rfl⟩)
      cases place.symm.trans place'
      rw [assignment] at gives
      cases gives
      have bound : i < row'.length := (List.getElem?_eq_some_iff.mp cell').1
      have column' : t'.columns[i]? = some c := by rwa [columns, assigns.layout]
      rw [same]
      exact checkRow_get (valid'.checked _ _ there) column' (List.getElem?_set_self bound)

/-- In a valid table an update changes all rows that meet its filter, or none, unless it comes to a
row whose new value is taken. Then it has changed the rows before that one. -/
theorem Valid.updateWhere (valid : t.Valid) (u : Update) :
    (∃ replaced t', t.updateWhere u = (.ok replaced, t') ∧
      replaced.length = (t.meeting u.filter).length ∧ t.Assigns u (t.meeting u.filter) t') ∨
    (∃ e, t.updateWhere u = (.error e, t)) ∨
    ∃ v done id rest t',
      t.updateWhere u = (.error (.constraintViolation (.notUnique u.column v)), t') ∧
      t.meeting u.filter = done ++ id :: rest ∧ t.Assigns u done t' ∧ t.Shares u id v t' := by
  rcases t.updateWhere_spec u with ⟨e, failed⟩ | ⟨i, pending, place, planned, ran⟩
  · exact .inr (.inl ⟨e, failed⟩)
  rw [ran]
  have ids : pending.map (·.1) = t.meeting u.filter := plan_ids planned
  rcases written : t.replaceAll pending with ⟨e | replaced, t'⟩
  case ok =>
    obtain ⟨count, assigns⟩ := assigns_of_written [] place (by rwa [List.append_nil]) written
    refine .inl ⟨replaced, t', rfl, ?_, ids ▸ assigns⟩
    rw [count, ← ids, List.length_map]
  case error =>
    obtain ⟨done, ⟨id, new⟩, rest, replaced, rfl, before, failed⟩ := replaceAll_stopped written
    obtain ⟨_, assigns⟩ := assigns_of_written _ place planned before
    obtain ⟨row, old, v, there, cell, value, rfl⟩ :=
      (plan_source planned).2 (id, new) (by simp)
    have stored := mem_scan.mp there
    obtain ⟨c, column, named⟩ := TableLayout.column_of_index place
    have fresh : id ∉ done.map (·.1) := by
      have nodup := t.scan_nodup.sublist (plan_source planned).1
      rw [List.map_append, List.nodup_append] at nodup
      exact fun member => nodup.2.2 id member id (by simp) rfl
    have own : t'.get? id = some row := by rw [assigns.others id fresh, stored]
    have valid' : t'.Valid := by simpa only [before] using valid.replaceAll done
    have column' : t'.columns[i]? = some c := by rwa [columns, assigns.layout]
    by_cases admitted : c.check v = .ok ()
    · obtain ⟨rfl, unique, known, shared⟩ := valid'.replace_failed own column' admitted failed
      refine .inr (.inr ⟨v, done.map (·.1), id, rest.map (·.1), t', ?_, ?_, assigns, ?_⟩)
      · rw [named]
      · rw [← ids, List.map_append, List.map_cons]
      · exact ⟨i, c, row, old, place, column, unique, stored, cell, gives_of_assigned value,
          known, shared⟩
    · obtain rfl := valid.nothing_written place column planned before stored cell value admitted
      cases before
      exact .inr (.inl ⟨e, rfl⟩)

end Table

variable {c c' : Catalog} {u : Update} {s : Session}

/-- What comes of an update: all rows that meet its filter are changed and counted, or nothing
changes, or the rows before the first one whose new value is taken are changed. -/
inductive Catalog.Updates (c : Catalog) (u : Update) : Except Error Nat → Catalog → Prop
  | all {t t' : Table} : c.tables.get? u.table = some t → t.Assigns u (t.meeting u.filter) t' →
      Updates c u (.ok (t.meeting u.filter).length) (c.withTable u.table t')
  | none (e : Error) : Updates c u (.error e) c
  | upTo {t t' : Table} {v : Value} {done : List Int64} {id : Int64} {rest : List Int64} :
      c.tables.get? u.table = some t → t.meeting u.filter = done ++ id :: rest →
        t.Assigns u done t' →
      t.Shares u id v t' →
      Updates c u (.error (.constraintViolation (.notUnique u.column v))) (c.withTable u.table t')

theorem Action.updateWhere_updates (c : Catalog) (u : Update)
    (valid : ∀ t, c.tables.get? u.table = some t → t.Valid) : ∃ answer c' written,
      (updateWhere u).Acts c answer c' written ∧ c.Updates u answer c' := by
  cases found : c.tables.get? u.table with
  | none =>
    have ran : c.updateWhere u = (.error (.tableNotFound u.table), c) := by
      simp only [Catalog.updateWhere, Catalog.table, found]
    exact ⟨_, c, _, updateWhere_acts_error ran, .none _⟩
  | some t =>
    have ran : c.updateWhere u = ((t.updateWhere u).1,
      c.withTable u.table (t.updateWhere u).2) := by
      simp only [Catalog.updateWhere, Catalog.table, found]
    rcases (valid t found).updateWhere u with
      ⟨replaced, t', updated, count, assigns⟩ | ⟨e, failed⟩ | ⟨v, done, id, rest, t', stopped,
        meeting, further⟩
    · rw [updated] at ran
      refine ⟨_, _, _, (updateWhere_tracked ran).toActs, ?_⟩
      rw [count]
      exact .all found assigns
    · rw [failed, Catalog.withTable_of_get? found] at ran
      exact ⟨_, _, _, updateWhere_acts_error ran, .none e⟩
    · rw [stopped] at ran
      exact ⟨_, _, _, updateWhere_acts_error ran, .upTo found meeting further.1 further.2⟩

/-- Inside a transaction or outside of any, an update of a valid table assigns its column in exactly
the rows that meet its filter, or it fails and leaves every row as it was, unless the new value of a
row is taken in a unique column: it then leaves the rows before that one changed. -/
theorem Session.update_assigns_all_or_stops (u : Update) (proper : s.connection.Proper)
    (valid : ∀ t, s.view.tables.get? u.table = some t → t.Valid) :
    ∃ answer s', (Action.updateWhere u).run s = (answer, s') ∧ s.view.Updates u answer s'.view ∧
      (s.workspace.isSome → s'.committed = s.committed) := by
  obtain ⟨answer, c', written, acts, updates⟩ := Action.updateWhere_updates s.view u valid
  obtain ⟨s', ran, view, committed⟩ := acts.run proper
  exact ⟨answer, s', ran, view ▸ updates, committed⟩

/-! A table whose rows have tags, no two of them the same. -/
namespace Tagged

def table : Table where
  layout := ⟨"t", [Column.id, { name := "tag", type := .integer, unique := true }]⟩
  rows := (Dict.empty.insert 1 [.integer 1, .integer 3]).insert 2 [.integer 2, .null]
  nextId := 3

def catalog : Catalog := ⟨Dict.empty.insert "t" table⟩

theorem valid (t : Table) (found : catalog.tables.get? "t" = some t) : t.Valid := by
  cases found
  let before : Table :=
    { table with rows := Dict.empty.insert 1 [.integer 1, .integer 3], nextId := 2 }
  have first : (Table.ofLayout table.layout).insert [.null, .integer 3] = .ok (1, before) := rfl
  have second : before.insert [.null, .null] = .ok (2, table) := by
    have given : before.idOf [.null, .null] = .ok 2 := rfl
    have checked : before.checkRow [.integer 2, .null] = .ok () := rfl
    have apart : before.checkUnique [.integer 2, .null] none = .ok () := rfl
    have following : addChecked 2 1 = some 3 := by decide
    exact Table.insert_of given checked rfl apart following
  exact ((Table.Valid.ofEmpty rfl).insert first).insert second

end Tagged

/-- In a transaction within another one, a tag is raised and a row without one stays without. -/
theorem Session.update_assigns_all_or_stops_inside :
    ∃ (s s' : Session) (u : Update), s.log.depth = 2 ∧
      (∀ t, s.view.tables.get? u.table = some t → t.Valid) ∧
      (Action.updateWhere u).run s = (.ok 2, s') ∧
      s'.view.row? "t" 1 = some [.integer 1, .integer 4] ∧
      s.view.Updates u (.ok 2) s'.view ∧ s'.committed = s.committed := by
  let s : Session := ⟨⟨.empty, 0⟩, .inside ⟨Tagged.catalog, 0⟩ [[], []] 0, []⟩
  let u : Update := ⟨"t", "tag", .shift 1, .all⟩
  obtain ⟨answer, s', ran, updates, committed⟩ :=
    update_assigns_all_or_stops (s := s) u (.inside ..) Tagged.valid
  have raised : (Action.updateWhere u).run s = (.ok 2, _) := rfl
  cases ran.symm.trans raised
  exact ⟨s, _, u, rfl, Tagged.valid, raised, by decide, updates, committed rfl⟩

/-- Two rows cannot have the same tag, but the update that fails for that has given it to the first
one. -/
theorem Session.failed_update_leaves_row_changed :
    ∃ (s s' : Session) (u : Update) (e : Error) (id : Int64),
    s.connection.Proper ∧ (∀ t, s.view.tables.get? u.table = some t → t.Valid) ∧
      (Action.updateWhere u).run s = (.error e, s') ∧
        s'.view.row? u.table id ≠ s.view.row? u.table id := by
  let s : Session := ⟨⟨Tagged.catalog, 0⟩, .idle 0, []⟩
  let u : Update := ⟨"t", "tag", .set (.integer 7), .all⟩
  have failed : (Action.updateWhere u).run s = (.error _, _) := rfl
  exact ⟨s, _, u, _, 1, .idle 0, Tagged.valid, failed, by decide⟩

end RankedStore
