import RankedStore.Proofs.BulkUpdate
import RankedStore.Proofs.Loaded
import RankedStore.Proofs.Ranking.Moves
import RankedStore.Proofs.Ranking.Untouched

/-! When records can be moved. Positions are set one row after the other, and each row is checked
against the others as they are by then. A unique column of positions refuses every way from one
order to another, since on all of them two rows have one position for a while. -/
namespace RankedStore

open RankedStore.Action

namespace Action

/-- The action answers without an error. -/
def Succeeds (a : Action α) (s : Session) : Prop := ∃ x s', a.run s = (.ok x, s')

variable {ρ : Table → Table → Prop} {a : Action α} {s : Session}

theorem SettlesUpTo.succeeds (settles : SettlesUpTo ρ a s.view (.ok x) c')
    (proper : s.connection.Proper) :
    a.Succeeds s := by
  obtain ⟨s', ran, _⟩ := settles.runs proper
  exact ⟨x, s', ran⟩

/-- The action fails, whatever comes before its failure. -/
abbrev Refuses (ρ : Table → Table → Prop) (a : Action α) (c : Catalog) : Prop :=
  Completes ρ a c fun _ _ => False

theorem Completes.not_succeeds (stable : Table.Stable ρ) (refuses : Refuses ρ a s.view)
    (proper : s.connection.Proper) : ¬ a.Succeeds s := by
  rintro ⟨x, s', ran⟩
  obtain ⟨_, _, ran', _, _, achieved, _⟩ := refuses.run stable proper
  cases ran.symm.trans ran'
  exact achieved x rfl

end Action

/-- The record is the row under an id, as it is read. -/
def Catalog.Reads (c : Catalog) (layout : TableLayout) (id : Int64) (r : Record) : Prop :=
  ∃ row, c.row? layout.name id = some row ∧ Record.ofRow layout row = .ok r

/-! Rows and their values in a unique column. -/
namespace Table

variable {t t' : Table} {p : Nat} {id key : Int64} {row other : Row} {v : Value} {col : Column}

/-- No row is written with a value in a unique column that another row has. -/
theorem Valid.replace_taken (valid : t.Valid) (column : t.columns[p]? = some col)
    (unique : col.unique = true) (cell : row[p]? = some v) (known : v.isNull = false)
    (ne : key ≠ id) (there : t.get? key = some other) (shared : other[p]? = some v) :
    t.replace id row ≠ .ok (some (old, t')) := by
  intro replaced
  obtain ⟨_, _, free, _⟩ := replace_eq_some replaced
  exact valid.checkUnique_iff.mp free key other there (by simpa using ne) p col v column unique cell
    known shared

theorem Valid.afterUpdate (valid : t.Valid) (u : Update) : (t.updateWhere u).2.Valid := by
  rcases t.updateWhere_spec u with ⟨e, failed⟩ | ⟨i, pending, _, _, ran⟩
  · rw [failed]
    exact valid
  · rw [ran]
    exact valid.replaceAll pending

/-- A filter that decides by positions is met by the rows that it chooses. -/
theorem mem_meeting {f : Filter} {P : Int64 → Int → Bool} (decides : t.Decides f p P)
    (stored : t.get? id = some row) (cell : row[p]? = some (.integer n)) : id ∈ t.meeting f ↔
    P id n.toInt = true := by
  have meets := decides id row n stored cell
  constructor
  · intro member
    obtain ⟨⟨_, row'⟩, kept, rfl⟩ := List.mem_map.mp member
    obtain ⟨there, met⟩ := List.mem_filter.mp kept
    obtain rfl := Option.some.inj (stored.symm.trans (mem_scan.mp there))
    rw [meets] at met
    split at met
    case h_1 same => exact Except.ok.inj same
    case h_2 => cases met
  · intro chosen
    refine List.mem_map.mpr ⟨(id, row), List.mem_filter.mpr ⟨mem_scan.mpr stored, ?_⟩, rfl⟩
    simp only [meets, chosen]

/-- A chosen integer is shifted. -/
theorem Assigns.shifted {u : Update} {ids : List Int64} {delta n : Int64}
    (assigns : t.Assigns u ids t') (shift : u.assignment = .shift delta)
    (place : t.layout.index u.column = .ok p) (chosen : id ∈ ids) (stored : t.get? id = some row)
    (cell : row[p]? = some (.integer n)) :
    ∃ m : Int64, m.toInt = n.toInt + delta.toInt ∧ t'.get? id = some (row.set p (.integer m)) := by
  obtain ⟨i, row', old, new, place', stored', cell', gives, there⟩ := assigns.assigned id chosen
  obtain rfl := Except.ok.inj (place.symm.trans place')
  cases stored.symm.trans stored'
  cases cell.symm.trans cell'
  rw [shift] at gives
  cases gives with
  | sum total => exact ⟨_, total, there⟩

theorem filterRows_source {f : Filter} {entries kept : List (Int64 × Row)}
    (filtered : t.filterRows f entries = .ok kept) :
    ∀ e ∈ kept, e ∈ entries ∧ t.meets f e.2 = .ok true := by
  induction entries generalizing kept with
  | nil =>
    cases filtered
    simp
  | cons first rest ih =>
    obtain ⟨id, row⟩ := first
    obtain ⟨met, holds, filtered⟩ := Except.bind_eq_ok filtered
    cases met with
    | false =>
      intro e member
      obtain ⟨there, meets⟩ := ih filtered e member
      exact ⟨List.mem_cons_of_mem _ there, meets⟩
    | true =>
      obtain ⟨later, remaining, last⟩ := Except.bind_eq_ok filtered
      cases last
      intro e member
      rcases List.mem_cons.mp member with rfl | member
      · exact ⟨List.mem_cons_self .., holds⟩
      · obtain ⟨there, meets⟩ := ih remaining e member
        exact ⟨List.mem_cons_of_mem _ there, meets⟩

theorem sortRows_perm {rows sorted : List Row} (ran : t.sortRows i direction rows = .ok sorted) :
    sorted.Perm rows := by
  obtain ⟨first, _, ran⟩ := Except.bind_eq_ok ran
  have last : ∀ {torn : Bool}, (if torn then throw (.damage (.unordered t.name))
      else return insertionSort (isBefore i direction) rows : Except Error (List Row)) =
        .ok sorted →
      sorted.Perm rows := by
    intro torn ran
    cases torn <;> cases ran
    exact insertionSort_perm ..
  cases first with
  | none => exact last ran
  | some v =>
    obtain ⟨_, _, ran⟩ := Except.bind_eq_ok ran
    exact last ran

/-- The rows of a selection are stored ones that meet its filter. -/
theorem select_source {s : Select} {rows : List Row} (selected : t.select s = .ok rows) :
    ∀ row ∈ rows, ∃ id, t.get? id = some row ∧ t.meets s.filter row = .ok true := by
  obtain ⟨kept, filtered, selected⟩ := Except.bind_eq_ok selected
  have source : ∀ row ∈ kept.map (·.2), ∃ id, t.get? id = some row ∧
    t.meets s.filter row = .ok true := by
    intro row member
    obtain ⟨⟨id, row⟩, there, rfl⟩ := List.mem_map.mp member
    obtain ⟨stored, meets⟩ := filterRows_source filtered _ there
    exact ⟨id, mem_scan.mp stored, meets⟩
  intro row member
  cases order : s.order with
  | none =>
    rw [order] at selected
    cases selected
    split at member
    · exact source row member
    · exact source row (List.mem_of_mem_take member)
  | some sorting =>
    rw [order] at selected
    obtain ⟨i, _, selected⟩ := Except.bind_eq_ok selected
    obtain ⟨sorted, ran, selected⟩ := Except.bind_eq_ok selected
    cases selected
    have sorted_source : ∀ row ∈ sorted, ∃ id, t.get? id = some row ∧
      t.meets s.filter row = .ok true :=
      fun row there => source row ((sortRows_perm ran).mem_iff.mp there)
    split at member
    · exact sorted_source row member
    · exact sorted_source row (List.mem_of_mem_take member)

end Table

namespace Ranking

variable {ρ : Table → Table → Prop} {k : Ranking} {layout : TableLayout} {p : Nat} {col : Column}
  {c : Catalog} {t : Table} {order : List Int64} {r other : Record} {id : Int64}

/-- What is found beyond a position is read from a row that is there. -/
theorem neighbor_reads (k : Ranking) (comparison : Comparison) (q : Int64) (direction : Direction)
    (c : Catalog) : ∃ answer, Tracked (k.neighbor comparison q direction) c answer c [] ∧
      ∀ other, answer = .ok (some other) → ∃ t id row, c.tables.get? k.entity = some t ∧
        t.get? id = some row ∧ t.meets (.compare k.column comparison (.integer q)) row = .ok true ∧
        Record.ofRow t.layout row = .ok other := by
  have lookup : Tracked (Action.layout k.entity) c (c.table k.entity |>.map (·.layout)) c [] :=
    .read (by cases c.table k.entity <;> rfl)
  cases found : c.table k.entity with
  | error e =>
    rw [found] at lookup
    exact ⟨_, lookup.bind_error, by rintro _ ⟨⟩⟩
  | ok t =>
    rw [found] at lookup
    let statement : Select :=
      ⟨k.entity, .compare k.column comparison (.integer q), some (k.column, direction), some 1⟩
    have seen : Tracked (Action.select statement) c (t.select statement) c [] :=
      .after (.report ..) (.read (by simp [Catalog.select, statement, found]))
    cases selected : t.select statement with
    | error e =>
      rw [selected] at seen
      exact ⟨_, lookup.after seen.bind_error, by rintro _ ⟨⟩⟩
    | ok rows =>
      rw [selected] at seen
      cases rows with
      | nil => exact ⟨_, lookup.after (seen.after (.pure ..)), by rintro _ ⟨⟩⟩
      | cons row rest =>
        cases read : Record.ofRow t.layout row with
        | error e =>
          exact ⟨_, lookup.after (seen.after (.bind_error (.ofExcept read))), by rintro _ ⟨⟩⟩
        | ok other =>
          refine ⟨_, lookup.after (seen.after (.after (.ofExcept read) (.pure ..))), ?_⟩
          rintro _ ⟨⟩
          obtain ⟨id, stored, meets⟩ := Table.select_source selected row (List.mem_cons_self ..)
          exact ⟨t, id, row, Catalog.table_eq_ok.mp found, stored, meets, read⟩

/-- The ranking keeps its positions in a column of the table that is not the id, and all columns
have names of their own. -/
structure Keeps (k : Ranking) (layout : TableLayout) (p : Nat) (col : Column) : Prop where
  entity : layout.name = k.entity
  distinct : layout.Distinct
  column : layout.columns[p]? = some col
  named : col.name = k.column
  other : k.column ≠ Column.idName

namespace Keeps

theorem value {row : Row} {v : Value} (keeps : k.Keeps layout p col) (shows : r.Shows layout id row)
    (cell : row[p]? = some v) : r.get? k.column = some v :=
  keeps.named ▸ shows.cells p col v keeps.column (keeps.named ▸ keeps.other) cell

theorem place (keeps : k.Keeps layout p col) : layout.index k.column = .ok p :=
  keeps.named ▸ keeps.distinct.index keeps.column

/-- A record that is read from a row stands where the row does. -/
theorem shows (keeps : k.Keeps layout p col) (positioned : c.Positioned layout p t)
    (reads : c.Reads layout id r) :
    ∃ row n, t.get? id = some row ∧ row[p]? = some (.integer n) ∧ r.Shows layout id row ∧
      k.Stands p t r id n := by
  obtain ⟨row, stored, read⟩ := reads
  rw [Catalog.row?_of_table positioned.found] at stored
  obtain ⟨n, cell⟩ := positioned.known id row stored
  have shows := Record.shows_of_ofRow keeps.distinct (positioned.sound.keyed id row stored) read
  refine ⟨row, n, stored, cell, shows, shows.entity.trans keeps.entity, shows.persisted, ?_,
    Table.position?_of stored cell⟩
  rw [Record.integer?, keeps.value shows cell]
  rfl

theorem stands (keeps : k.Keeps layout p col) (positioned : c.Positioned layout p t)
    (reads : c.Reads layout id r) : ∃ n, k.Stands p t r id n := by
  obtain ⟨_, n, _, _, _, stands⟩ := keeps.shows positioned reads
  exact ⟨n, stands⟩

/-- A record that is read from the row at an index of the list has its position. -/
theorem reads {i : Nat} (keeps : k.Keeps layout p col) (ranked : c.Ranked layout p t order)
    (here : order[i]? = some id) (reads : c.Reads layout id r) : ∃ row n, t.get? id = some row ∧
      row[p]? = some (.integer n) ∧ n.toInt = (i : Int) + 1 ∧ r.Shows layout id row ∧
      r.integer? k.column = some n ∧ k.positionOf r = .ok n := by
  obtain ⟨row, n, stored, cell, shows, stands⟩ := keeps.shows ranked.positioned reads
  have place := stands.placed.symm.trans (ranked.ranks.listed.placed i id here)
  exact ⟨row, n, stored, cell, Option.some.inj place, shows, stands.value, stands.positionOf⟩

end Keeps

/-- A record that is read from a row does not know its id as a position. -/
theorem positionOf_id (named : k.column = Column.idName) (reads : c.Reads layout id r) (n : Int64) :
    k.positionOf r ≠ .ok n := by
  obtain ⟨row, _, read⟩ := reads
  intro position
  obtain ⟨_, _, position⟩ := Except.bind_eq_ok position
  obtain ⟨_, _, position⟩ := Except.bind_eq_ok position
  rw [Record.integer?, named, Record.ofRow_noId read] at position
  cases position

/-! A unique column. -/

/-- No record gets a position that the row of another one has. -/
theorem setPosition_refused (stable : Table.Stable ρ) (keeps : k.Keeps layout p col)
    (ranked : c.Ranked layout p t order) (unique : col.unique = true) {key m : Int64} {row : Row}
    (ne : key ≠ id) (there : t.get? key = some row) (taken : row[p]? = some (.integer m)) :
    Tries ρ (updateById k.entity id k.column (.integer m)) c fun _ _ => False := by
  have found : c.tables.get? k.entity = some t := keeps.entity ▸ ranked.found
  have column : t.columns[p]? = some col := by rw [Table.columns, ranked.same, keeps.column]
  rcases updateById_cases k.entity id k.column (.integer m) c with
    ⟨e, failed⟩ | ⟨t', own, i, old, c', found', stored, place, ran, _⟩
  · exact .ofTracked stable failed (by rintro x ⟨⟩)
  · obtain rfl := Except.ok.inj ((Catalog.table_eq_ok.mpr found).symm.trans found')
    rw [ranked.same, keeps.place, Except.ok.injEq] at place
    subst place
    have bound : p < own.length := by
      rw [ranked.sound.width stored]
      exact (List.getElem?_eq_some_iff.mp column).1
    obtain ⟨t', _, found', replaced, _⟩ := Catalog.replace_eq_some ran
    cases found.symm.trans found'
    exact absurd replaced (ranked.sound.valid.replace_taken column unique
      (List.getElem?_set_self bound) rfl ne there taken)

/-- An exchange that cannot begin is none. -/
theorem swap_refused (stable : Table.Stable ρ)
    (first : ∀ n m id otherId, k.positionOf r = .ok n → k.positionOf other = .ok m →
      r.id = some id → other.id = some otherId →
      Tries ρ (updateById k.entity id k.column (.integer m)) c fun _ _ => False) :
    Refuses ρ (k.swap r other) c := by
  apply swap_of
  refine (exchangeRows_of stable (Q := fun _ _ _ => False) ?_).weaken fun _ _ no => no.elim
  intro n m id otherId _ position position' persisted persisted' _
  exact .bind stable (first n m id otherId position position' persisted persisted')
    fun _ _ no => no.elim

/-- No record gets the position of another one by an exchange. -/
theorem swap_taken (stable : Table.Stable ρ) (keeps : k.Keeps layout p col)
    (ranked : c.Ranked layout p t order) (unique : col.unique = true) {key : Int64}
    (member : key ∈ order) (reads : c.Reads layout key other) (apart : r.id ≠ some key) :
    Refuses ρ (k.swap r other) c := by
  obtain ⟨j, there⟩ := List.getElem?_of_mem member
  obtain ⟨row, m, stored, cell, _, _, _, position⟩ := keeps.reads ranked there reads
  apply swap_refused stable
  intro n m' id _ _ position' persisted _
  cases position.symm.trans position'
  have ne : key ≠ id := by
    rintro rfl
    exact apart persisted
  exact setPosition_refused stable keeps ranked unique ne stored cell

/-- What a record finds beside it has another position, and that is taken. -/
theorem step_taken (stable : Table.Stable ρ) (keeps : k.Keeps layout p col)
    (ranked : c.Ranked layout p t order) (unique : col.unique = true) {i : Nat}
    (here : order[i]? = some id) (reads : c.Reads layout id r) (e : Extremum)
    (already alone : Error.Precondition) : Refuses ρ (k.step e already alone r) c := by
  obtain ⟨row, n, stored, cell, _, shows, _, position⟩ := keeps.reads ranked here reads
  obtain ⟨answer, near, found⟩ := neighbor_reads k (towards e) n (outwards e) c
  apply move_of stable already alone (.bind (.ofExcept _) fun _ => .bind (k.extremum_looks e)
    fun _ => .pure _) (.after (.ofExcept position) near)
  intro other seen
  obtain ⟨t', key, row', found', stored', meets, read⟩ := found other seen
  cases (keeps.entity ▸ ranked.found).symm.trans found'
  have reads' : c.Reads layout key other := by
    refine ⟨row', ?_, ranked.same ▸ read⟩
    rw [Catalog.row?_of_table ranked.found, stored']
  refine swap_taken stable keeps ranked unique (ranked.ranks.mem_iff.mpr ⟨row', stored'⟩) reads' ?_
  rw [shows.persisted]
  rintro ⟨⟩
  cases stored.symm.trans stored'
  have place : t.layout.index k.column = .ok p := ranked.same ▸ keeps.place
  rw [Table.meets_compare place cell, accepts_towards] at meets
  cases e <;> simp at meets

/-- The update by which the others give way to a record that goes from one position to another. -/
def givingWay (k : Ranking) (id old new : Int64) : Update where
  table := k.entity
  column := k.column
  assignment := .shift (if old < new then -1 else 1)
  filter := .ofList [.between k.column (.integer (min old new)) (.integer (max old new)),
    .compare Column.idName .ne (.integer id)]

/-- Next to a record, on the side where it is going, there is one that would get its position. -/
theorem next_in_line {i : Nat} {old new : Int64} (ranks : t.Ranks p order)
    (here : order[i]? = some id) (place : old.toInt = (i : Int) + 1) (low : 1 ≤ new.toInt)
    (high : new.toInt ≤ order.length) (moves : new ≠ old) :
    ∃ key row n, key ≠ id ∧ t.get? key = some row ∧ row[p]? = some (.integer n) ∧
      (min old new).toInt ≤ n.toInt ∧ n.toInt ≤ (max old new).toInt ∧
      n.toInt + (if old < new then -1 else 1 : Int64).toInt = old.toInt := by
  have bound : i < order.length := (List.getElem?_eq_some_iff.mp here).1
  have apart : new.toInt ≠ old.toInt := fun same => moves (Int64.toInt_inj.mp same)
  have minus : (-1 : Int64).toInt = -1 := by decide
  have one : (1 : Int64).toInt = 1 := rfl
  simp only [Int64.lt_iff_toInt_lt, toInt_min, toInt_max]
  have at_index : ∀ j, j < order.length → j ≠ i → ∃ key row n, key ≠ id ∧ t.get? key = some row ∧
      row[p]? = some (.integer n) ∧ n.toInt = (j : Int) + 1 := by
    intro j inside other
    have there := List.getElem?_eq_getElem inside
    obtain ⟨row, n, stored, cell, value⟩ := ranks.row_at there
    refine ⟨order[j], row, n, ?_, stored, cell, value⟩
    intro same
    exact other (ranks.listed.index_unique (same ▸ there) here)
  by_cases down : old.toInt < new.toInt
  · obtain ⟨key, row, n, ne, stored, cell, value⟩ := at_index (i + 1) (by omega) (by omega)
    refine ⟨key, row, n, ne, stored, cell, ?_⟩
    rw [if_pos down]
    omega
  · obtain ⟨key, row, n, ne, stored, cell, value⟩ := at_index (i - 1) (by omega) (by omega)
    refine ⟨key, row, n, ne, stored, cell, ?_⟩
    rw [if_neg down]
    omega

/-- The one that comes next would get the position of the record, which still has it. -/
theorem givingWay_fails (keeps : k.Keeps layout p col) (ranked : c.Ranked layout p t order)
    (unique : col.unique = true) {i : Nat} {old new : Int64} (here : order[i]? = some id)
    (place : old.toInt = (i : Int) + 1) (low : 1 ≤ new.toInt) (high : new.toInt ≤ order.length)
    (moves : new ≠ old) : t.updateWhere (k.givingWay id old new) ≠ (.ok replaced, t') := by
  have same : t.layout.index k.column = .ok p := ranked.same ▸ keeps.place
  have decides := Table.decides_between ranked.sound same (ranked.same ▸ keeps.distinct.first)
    (min old new) (max old new) id
  obtain ⟨own, n, stored, cell, value⟩ := ranked.ranks.row_at here
  obtain rfl : n = old := Int64.toInt_inj.mp (by omega)
  obtain ⟨key, row, m, ne, stored', cell', above, below, sum⟩ :=
    next_in_line ranked.ranks here place low high moves
  intro ran
  have valid' : t'.Valid := by
    have after := ranked.sound.valid.afterUpdate (k.givingWay id n new)
    rwa [ran] at after
  rcases ranked.sound.valid.updateWhere (k.givingWay id n new) with
    ⟨replaced', t₁, ran', _, assigns⟩ | ⟨e, failed⟩ | ⟨_, _, _, _, _, failed, _⟩
  · cases ran.symm.trans ran'
    have chosen : key ∈ t.meeting (k.givingWay id n new).filter :=
      (Table.mem_meeting decides stored' cell').mpr (decide_eq_true ⟨above, below, ne⟩)
    have spared : id ∉ t.meeting (k.givingWay id n new).filter := by
      rw [givingWay, Table.mem_meeting decides stored cell]
      simp
    obtain ⟨m', total, there⟩ := assigns.shifted rfl same chosen stored' cell'
    obtain rfl : m' = n := Int64.toInt_inj.mp (total.trans sum)
    have bound : p < row.length := (List.getElem?_eq_some_iff.mp cell').1
    have column : t'.columns[p]? = some col := by
      rw [Table.columns, assigns.layout, ranked.same, keeps.column]
    have stays : t'.get? id = some own := (assigns.others id spared).trans stored
    exact valid'.apart id own key _ stays there ne.symm p col _ column unique cell rfl
      (List.getElem?_set_self bound)
  · cases ran.symm.trans failed
  · cases ran.symm.trans failed

theorem shiftBetween_refused (keeps : k.Keeps layout p col) (ranked : c.Ranked layout p t order)
    (unique : col.unique = true) {i : Nat} {old new : Int64} (here : order[i]? = some id)
    (place : old.toInt = (i : Int) + 1) (low : 1 ≤ new.toInt) (high : new.toInt ≤ order.length)
    (moves : new ≠ old) : Tries Table.SameIds (k.shiftBetween id old new) c fun _ _ => False := by
  have stable := Table.sameIds_stable
  have found : c.tables.get? k.entity = some t := keeps.entity ▸ ranked.found
  have fails : ∀ replaced c', c.updateWhere (k.givingWay id old new) = (.ok replaced, c') →
    False := by
    intro replaced c' ran
    rw [Catalog.updateWhere_eq found] at ran
    exact givingWay_fails keeps ranked unique here place low high moves
      (Prod.ext (Prod.mk.inj ran).1 rfl)
  have update : Tries Table.SameIds (updateWhere (k.givingWay id old new)) c fun _ _ => False :=
    .updateWhere stable (c.updateWhere_sameIds _) fails
  exact .bind stable update fun _ _ no => no.elim

end Ranking

theorem TableLayout.distinct_ofColumns {columns : Columns} (named : EntitySchema.Named columns)
    (name : String) :
    (ofColumns name columns).Distinct := by
  rw [ofColumns_named named]
  exact ⟨rfl, .cons (fun c member same => named.2 c member same.symm) named.1⟩

namespace Registry

variable {g : Registry} {schema : EntitySchema} {reg : Registration} {k : Ranking} {p : Nat}
  {col : Column} {c : Catalog} {t : Table} {order : List Int64} {r r' : Record} {id q : Int64}
  {i : Nat} {s : Session}

/-- A record cannot be saved with the position of another one. -/
theorem save_taken (known : g.find? k.entity = .ok reg) (ranking : reg.ranking = some k)
    (keeps : k.Keeps reg.layout p col) (ranked : c.Ranked reg.layout p t order)
    (unique : col.unique = true) (here : order[i]? = some id) (reads : c.Reads reg.layout id r)
    (set : r.set k.column (.integer q) = .ok r') (low : 1 ≤ q.toInt) (high : q.toInt ≤ order.length)
    (moves : q.toInt ≠ (i : Int) + 1) : Refuses Table.SameIds (g.save r') c := by
  have stable := Table.sameIds_stable
  obtain ⟨row, n, stored, cell, place, shows, position, _⟩ := keeps.reads ranked here reads
  have ne : q ≠ n := by
    rintro rfl
    exact moves place
  have changed : r'.change? k.column = some (.integer n, .integer q) :=
    shows.change?_set (keeps.value shows cell) set (by simpa using ne.symm)
  obtain ⟨entity, same, _⟩ := Record.set_same set
  have known' : g.find? r'.entity = .ok reg := by rwa [entity, shows.entity, keeps.entity]
  have persisted' : r'.id = some id := same.trans shows.persisted
  have isOld : r'.isNew = false := by rw [Record.isNew, persisted']; rfl
  have inserting : ∀ reg', g.find? r'.entity = .ok reg' → r'.isNew = true →
      Tries Table.SameIds (reg'.onEvent .beforeInsert r') c fun _ _ => False := by
    intro _ _ new
    cases isOld.symm.trans new
  have updating : ∀ reg', g.find? r'.entity = .ok reg' → r'.isNew = false →
      Tries Table.SameIds (reg'.onEvent .beforeUpdate r') c fun placed _ => False ∧
        r' = placed := by
    intro reg' found old
    cases known'.symm.trans found
    apply Registration.update_hook stable ranking old
    apply Ranking.reposition_tries stable
    · intro unchanged
      cases changed.symm.trans unchanged
    · intro id' old new persisted changed' _
      cases changed.symm.trans changed'
      cases persisted'.symm.trans persisted
      exact Ranking.shiftBetween_refused keeps ranked unique here place low high ne
  apply save_completes stable inserting updating
  · intro _ clean
    cases changed.symm.trans (Record.change?_of_clean clean k.column)
  · intro _ _ _ _ _ _ _ _ no
    exact no.elim
  · intro _ _ _ _ _ _ _ _ no
    exact no.elim

/-! A column that is not unique. -/

/-- A record that was read may be given any position of the list and saved. It goes there, and
nothing but positions changes. -/
theorem save_moves (places : g.Places reg k p) (keeps : k.Keeps reg.layout p col)
    (ranked : c.Ranked reg.layout p t order) (here : order[i]? = some id)
    (reads : c.Reads reg.layout id r) (set : r.set k.column (.integer q) = .ok r')
    (low : 1 ≤ q.toInt) (high : q.toInt ≤ order.length) :
    ∃ saved t', Settles (g.save r') c (.ok saved) (c.withTable reg.layout.name t') ∧
    (∃ σ, t.Moved p σ t') ∧
      (q.toInt = (i : Int) + 1 ∧ t'.Ranks p order ∨
        t'.Ranks p ((order.erase id).insertIdx (q.toInt.toNat - 1) id)) := by
  obtain ⟨row, n, stored, cell, place, shows, _, _⟩ := keeps.reads ranked here reads
  have column : t.columns[p]? = some col := by rw [Table.columns, ranked.same, keeps.column]
  have obtained : r'.Obtained := .changed shows.obtained set
  have written : r'.toRow reg.layout = .ok (row.set p (.integer q)) :=
    shows.toRow_set keeps.distinct keeps.column (keeps.named ▸ set)
  obtain ⟨entity, same, remembered, after⟩ := Record.set_same set
  have own : r'.entity = k.entity := entity.trans (shows.entity.trans keeps.entity)
  have persisted : r'.id = some id := same.trans shows.persisted
  have changed : n ≠ q → r'.change? k.column = some (.integer n, .integer q) := fun ne =>
    shows.change?_set (keeps.value shows cell) set (by simpa using ne)
  cases dirty : r'.isDirty with
  | false =>
    have kept : n = q := by
      apply Classical.byContradiction
      intro ne
      cases (changed ne).symm.trans (Record.change?_of_clean dirty k.column)
    refine ⟨r', t, ?_, ⟨_, .refl t p⟩, .inl ⟨kept ▸ place, ranked.ranks⟩⟩
    rw [Catalog.withTable_of_get? ranked.found]
    exact save_clean (own ▸ places.known) persisted dirty c
  | true =>
    have fresh : k.Fresh p t r' := by
      intro id' row' persisted' stored'
      cases persisted.symm.trans persisted'
      cases stored.symm.trans stored'
      rw [cell, remembered, shows.storedValue (keeps.value shows cell)]
    rcases save_writes places ranked own persisted dirty fresh with ⟨_, saved, t', saves,
      writes⟩ | ⟨refused, _⟩
    · refine ⟨saved, t', saves, writes.moved stored cell written, ?_⟩
      have ranks := (writes.ranked places.fits.holds ranked obtained fresh persisted).ranks
      unfold Ranking.rearranged at ranks
      by_cases kept : n = q
      · have unchanged : r'.change? k.column = none := by
          rw [Record.change?_eq, after, remembered,
            shows.storedValue (keeps.value shows cell), kept]
          exact if_pos rfl
        rw [unchanged] at ranks
        exact .inl ⟨kept ▸ place, ranks⟩
      · rw [changed kept] at ranks
        exact .inr ranks
    · obtain ⟨col', column', named, plain, admits⟩ := places.fits.holds.holder
      cases keeps.column.symm.trans column'
      refine absurd ⟨?_, id, _, _, _, persisted, written,
        ranked.sound.replace_set stored column plain (admits q)⟩ refused
      intro old new changed
      cases after.symm.trans (Record.change?_eq_some changed).2
      exact ⟨q, rfl, low, high⟩

/-! Registered types. -/

/-- The ranking of a registered type keeps its positions in a column of the table, unless in the
ids. -/
theorem Registered.keeps (registered : g.Registered schema reg) (ranking : reg.ranking = some k)
    (place : reg.layout.index k.column = .ok p) (other : k.column ≠ Column.idName) :
    ∃ col, k.Keeps reg.layout p col := by
  obtain ⟨entity, name, _⟩ := registered.place ranking
  obtain ⟨col, column, named⟩ := TableLayout.column_of_index place
  obtain ⟨found, _, h⟩ := Except.bind_eq_ok registered.made
  cases found with
  | none =>
    cases h
    cases ranking
  | some k' =>
    obtain ⟨columns, added, h⟩ := Except.bind_eq_ok h
    cases h
    obtain rfl : k' = k := Option.some.inj ranking
    have names := (Registration.addColumn_named (EntitySchema.named registered.checked) other
      added).1
    exact ⟨col, name.trans entity.symm, TableLayout.distinct_ofColumns names _, column,
      named, other⟩

/-- Positions are kept in a plain column, or as the ids, or in a unique column. -/
theorem Registered.column_cases (registered : g.Registered schema reg)
    (ranking : reg.ranking = some k) (place : reg.layout.index k.column = .ok p) :
    (∃ col, reg.Positions k ∧ g.Places reg k p ∧ k.Keeps reg.layout p col) ∨
    ¬ reg.Positions k ∧ k.column = Column.idName ∨
    ∃ col, ¬ reg.Positions k ∧ k.Keeps reg.layout p col ∧ col.unique = true := by
  by_cases named : k.column = Column.idName
  · exact .inr (.inl ⟨fun positions => positions.named named, named⟩)
  obtain ⟨col, keeps⟩ := registered.keeps ranking place named
  cases unique : col.unique with
  | true =>
    refine .inr (.inr ⟨col, fun positions => ?_, keeps, unique⟩)
    have plain := positions.plain col (List.mem_of_getElem? keeps.column) keeps.named
    cases unique.symm.trans plain
  | false =>
    have plain : ∀ d ∈ reg.layout.columns, d.name = k.column → d.unique = false := by
      intro d member called
      obtain ⟨j, there⟩ := List.getElem?_of_mem member
      obtain rfl := keeps.distinct.unique there keeps.column (called.trans keeps.named.symm)
      cases there.symm.trans keeps.column
      exact unique
    have positions : reg.Positions k := ⟨ranking, named, plain⟩
    exact .inl ⟨col, positions, registered.placesAt positions place, keeps⟩

theorem swap_succeeds_iff (registered : g.Registered schema reg) (ranking : reg.ranking = some k)
    (place : reg.layout.index k.column = .ok p) (proper : s.connection.Proper)
    (ranked : s.view.Ranked reg.layout p t order) (here : order[i]? = some id)
    (reads : s.view.Reads reg.layout id r) {j : Nat} {otherId : Int64} {other : Record}
    (apart : j ≠ i) (there : order[j]? = some otherId)
    (reads' : s.view.Reads reg.layout otherId other) :
    (k.swap r other).Succeeds s ↔ reg.Positions k := by
  have stable := Table.sameIds_stable
  rcases registered.column_cases ranking place with
    ⟨col, positions, places, keeps⟩ | ⟨refused, named⟩ | ⟨col, refused, keeps, unique⟩
  · refine iff_of_true ?_ positions
    obtain ⟨n, stands⟩ := keeps.stands ranked.positioned reads
    obtain ⟨m, stands'⟩ := keeps.stands ranked.positioned reads'
    obtain ⟨_, _, _, swaps, _⟩ := Ranking.swap_stored places.fits ranked stands stands'
    exact swaps.succeeds proper
  · refine iff_of_false (Completes.not_succeeds stable ?_ proper) refused
    apply Ranking.swap_refused stable
    intro n _ _ _ position
    exact absurd position (Ranking.positionOf_id named reads n)
  · refine iff_of_false (Completes.not_succeeds stable ?_ proper) refused
    obtain ⟨_, _, _, _, _, shows, _⟩ := keeps.reads ranked here reads
    apply Ranking.swap_taken stable keeps ranked unique (List.mem_of_getElem? there) reads'
    rw [shows.persisted]
    rintro ⟨⟩
    exact apart (ranked.ranks.listed.index_unique there here)

theorem step_succeeds_iff (registered : g.Registered schema reg) (ranking : reg.ranking = some k)
    (place : reg.layout.index k.column = .ok p) (proper : s.connection.Proper)
    (ranked : s.view.Ranked reg.layout p t order) (here : order[i]? = some id)
    (reads : s.view.Reads reg.layout id r) {j : Nat} {e : Extremum} (inside : j < order.length)
    (adjoins : Ranking.Adjoins e i j) (already alone : Error.Precondition) :
    (k.step e already alone r).Succeeds s ↔ reg.Positions k := by
  have stable := Table.sameIds_stable
  rcases registered.column_cases ranking place with
    ⟨col, positions, places, keeps⟩ | ⟨refused, named⟩ | ⟨col, refused, keeps, unique⟩
  · refine iff_of_true ?_ positions
    obtain ⟨n, stands⟩ := keeps.stands ranked.positioned reads
    obtain ⟨_, _, _, moves, _⟩ := Ranking.step_stored places.fits ranked stands here
      (List.getElem?_eq_getElem inside) adjoins already alone
    exact moves.succeeds proper
  · refine iff_of_false (Completes.not_succeeds stable ?_ proper) refused
    cases position : k.positionOf r with
    | ok n => exact absurd position (Ranking.positionOf_id named reads n)
    | error error =>
      exact .ofReading stable (.bind_error (.bind_error (.ofExcept position))) (by rintro _ ⟨⟩)
  · exact iff_of_false (Completes.not_succeeds stable
      (Ranking.step_taken stable keeps ranked unique here reads e already alone) proper) refused

theorem save_succeeds_iff (registered : g.Registered schema reg) (ranking : reg.ranking = some k)
    (place : reg.layout.index k.column = .ok p) (proper : s.connection.Proper)
    (ranked : s.view.Ranked reg.layout p t order) (here : order[i]? = some id)
    (reads : s.view.Reads reg.layout id r) (low : 1 ≤ q.toInt) (high : q.toInt ≤ order.length) :
    (∃ r', r.set k.column (.integer q) = .ok r' ∧ (g.save r').Succeeds s) ↔
      reg.Positions k ∨ k.column ≠ Column.idName ∧ q.toInt = (i : Int) + 1 := by
  rcases registered.column_cases ranking place with
    ⟨col, positions, places, keeps⟩ | ⟨refused, named⟩ | ⟨col, refused, keeps, unique⟩
  · refine iff_of_true ?_ (.inl positions)
    have set : ∃ r', r.set k.column (.integer q) = .ok r' := ⟨_, if_neg keeps.other⟩
    obtain ⟨r', set⟩ := set
    obtain ⟨_, _, saves, _⟩ := save_moves places keeps ranked here reads set low high
    exact ⟨r', set, saves.succeeds proper⟩
  · refine iff_of_false ?_ ?_
    · rintro ⟨r', set, _⟩
      exact (Record.set_eq_ok set).1 named
    · rintro (positions | ⟨other, _⟩)
      · exact refused positions
      · exact other named
  · have known : g.find? k.entity = .ok reg := (registered.place ranking).1 ▸ registered.known
    constructor
    · rintro ⟨r', set, saves⟩
      refine .inr ⟨keeps.other, Classical.byContradiction fun moves => ?_⟩
      exact (save_taken known ranking keeps ranked unique here reads set low high
        moves).not_succeeds Table.sameIds_stable proper saves
    · rintro (positions | ⟨_, same⟩)
      · exact absurd positions refused
      · obtain ⟨row, n, stored, cell, value, shows, _⟩ := keeps.reads ranked here reads
        obtain rfl : n = q := Int64.toInt_inj.mp (value.trans same.symm)
        have kept : r.set k.column (.integer n) = .ok r := by
          rw [Record.set, if_neg keeps.other, Dict.insert_of_get? (keeps.value shows cell)]
        have entity : r.entity = k.entity := shows.entity.trans keeps.entity
        exact ⟨r, kept, (save_clean (entity ▸ known) shows.persisted shows.clean _).succeeds proper⟩

/-- Records that are read in a table with the positions 1 to N can be exchanged, moved by one place
and moved by a save if and only if the positions are in a column that is neither unique nor the id.
The only other save of a position that succeeds is one that leaves it as it is. -/
theorem reordering_succeeds_iff (registered : g.Registered schema reg)
    (ranking : reg.ranking = some k) (place : reg.layout.index k.column = .ok p)
    (proper : s.connection.Proper) (ranked : s.view.Ranked reg.layout p t order)
    (here : order[i]? = some id) (reads : s.view.Reads reg.layout id r) :
    (∀ (j : Nat) otherId other, j ≠ i → order[j]? = some otherId →
      s.view.Reads reg.layout otherId other →
      ((k.swap r other).Succeeds s ↔ reg.Positions k)) ∧
    (0 < i → ((k.moveUp r).Succeeds s ↔ reg.Positions k)) ∧
    (i + 1 < order.length → ((k.moveDown r).Succeeds s ↔ reg.Positions k)) ∧
    ∀ q : Int64, 1 ≤ q.toInt → q.toInt ≤ order.length →
      ((∃ r', r.set k.column (.integer q) = .ok r' ∧ (g.save r').Succeeds s) ↔
        reg.Positions k ∨ k.column ≠ Column.idName ∧ q.toInt = (i : Int) + 1) := by
  have bound : i < order.length := (List.getElem?_eq_some_iff.mp here).1
  refine ⟨fun j otherId other => ?_, fun later => ?_, fun earlier => ?_, fun q => ?_⟩
  · exact swap_succeeds_iff registered ranking place proper ranked here reads
  · have before : Ranking.Adjoins .min i (i - 1) := Nat.sub_add_cancel later
    have inside : i - 1 < order.length := by omega
    exact step_succeeds_iff registered ranking place proper ranked here reads inside before
      .isFirst .noPrevious
  · have after : Ranking.Adjoins .max i (i + 1) := rfl
    exact step_succeeds_iff registered ranking place proper ranked here reads earlier after
      .isLast .noNext
  · exact save_succeeds_iff registered ranking place proper ranked here reads

end Registry

/-! A type whose column of positions is declared by hand, and two records of it. -/
namespace Declared

def position (unique : Bool) : Column := { name := "position", type := .integer, unique }

def schema (unique : Bool) : EntitySchema :=
  { name := "t", columns := [position unique], behaviors := [Behavior.plain] }

def ranking : Ranking := ⟨"t", {}⟩

def registration (unique : Bool) : Registration :=
  { schema := schema unique, layout := ⟨"t", [Column.id, position unique]⟩,
    ranking := some ranking }

def registry (unique : Bool) : Registry := ⟨Dict.empty.insert "t" (registration unique)⟩

theorem registered (unique : Bool) :
    (registry unique).Registered (schema unique) (registration unique) := by
  cases unique <;> exact ⟨by rfl, by rfl, rfl⟩

def table (unique : Bool) : Table where
  layout := (registration unique).layout
  rows := (Dict.empty.insert 1 [.integer 1, .integer 1]).insert 2 [.integer 2, .integer 2]
  nextId := 3

def session (unique : Bool) : Session :=
  { committed := ⟨⟨Dict.empty.insert "t" (table unique)⟩, 0⟩, connection := .idle 0 }

theorem sound (unique : Bool) : (table unique).Sound := by
  let before : Table :=
    { table unique with rows := Dict.empty.insert 1 [.integer 1, .integer 1], nextId := 2 }
  have first : (Table.ofLayout (table unique).layout).insert [.null, .integer 1] =
    .ok (1, before) := by
    cases unique <;> rfl
  have second : before.insert [.null, .integer 2] = .ok (2, table unique) := by
    have given : before.idOf [.null, .integer 2] = .ok 2 := rfl
    have checked : before.checkRow [.integer 2, .integer 2] = .ok () := by cases unique <;> rfl
    have apart : before.checkUnique [.integer 2, .integer 2] none = .ok () := by
      cases unique <;> rfl
    have following : addChecked 2 1 = some 3 := by decide
    exact Table.insert_of given checked rfl apart following
  exact ((Table.Sound.ofEmpty rfl).insert first).insert second

theorem ranks (unique : Bool) : (table unique).Ranks 1 [1, 2] := by
  have rows : ∀ id row, (table unique).get? id = some row →
      id ∈ ([1, 2] : List Int64) ∧ row = [.integer id, .integer id] := by
    intro id row stored
    have scan : (table unique).scan = [(1, [.integer 1, .integer 1]),
      (2, [.integer 2, .integer 2])] := rfl
    have there := Table.mem_scan.mpr stored
    rw [scan] at there
    simp only [List.mem_cons, Prod.mk.injEq, List.not_mem_nil, or_false] at there
    rcases there with ⟨rfl, rfl⟩ | ⟨rfl, rfl⟩ <;> simp
  refine ⟨⟨?_, ?_⟩, ?_⟩
  · rintro (_ | _ | i) id here
    · cases here
      rfl
    · cases here
      rfl
    · cases here
  · intro id placed
    cases stored : (table unique).get? id with
    | none => exact absurd (Table.position?_none stored) placed
    | some row => exact (rows id row stored).1
  · intro id row stored
    obtain ⟨_, rfl⟩ := rows id row stored
    exact ⟨id, rfl⟩

theorem ranked (unique : Bool) :
    (session unique).view.Ranked (registration unique).layout 1 (table unique) [1, 2] :=
  ⟨rfl, rfl, sound unique, ranks unique⟩

/-- The record of a row. -/
def read (n : Int64) : Record :=
  let fields := Dict.empty.insert "position" (.integer n)
  { entity := "t", id := some n, fields, stored := fields }

theorem reads_first (unique : Bool) :
    (session unique).view.Reads (registration unique).layout 1 (read 1) :=
  ⟨_, rfl, rfl⟩

theorem reads_second (unique : Bool) :
    (session unique).view.Reads (registration unique).layout 2 (read 2) :=
  ⟨_, rfl, rfl⟩

end Declared

/-- Positions in a plain column that is declared by hand: the records change places in all four
ways. -/
theorem Registry.reordering_succeeds_iff_plain :
    (Declared.ranking.swap (Declared.read 1) (Declared.read 2)).Succeeds (Declared.session false) ∧
    (Declared.ranking.moveUp (Declared.read 2)).Succeeds (Declared.session false) ∧
    (Declared.ranking.moveDown (Declared.read 1)).Succeeds (Declared.session false) ∧
    ∃ r', (Declared.read 1).set "position" (.integer 2) = .ok r' ∧
      ((Declared.registry false).save r').Succeeds (Declared.session false) := by
  have positions : (Declared.registration false).Positions Declared.ranking :=
    ⟨rfl, by decide, by decide⟩
  have first : ([1, 2] : List Int64)[0]? = some 1 := rfl
  have second : ([1, 2] : List Int64)[1]? = some 2 := rfl
  obtain ⟨swaps, _, lowers, saves⟩ := reordering_succeeds_iff (Declared.registered false) rfl rfl
    (.idle 0) (Declared.ranked false) first (Declared.reads_first false)
  obtain ⟨_, raises, _⟩ := reordering_succeeds_iff (Declared.registered false) rfl rfl (.idle 0)
    (Declared.ranked false) second (Declared.reads_second false)
  exact ⟨(swaps 1 2 _ (by decide) second (Declared.reads_second false)).mpr positions,
    (raises (by decide)).mpr positions, (lowers (by decide)).mpr positions,
    (saves 2 (by decide) (by decide)).mpr (.inl positions)⟩

/-- Positions in a unique column: two records that were just read cannot change places. -/
theorem Registry.unique_positions_refuse_swap :
    ∃ (g : Registry) (schema : EntitySchema) (reg : Registration) (k : Ranking) (s : Session)
      (p : Nat) (t : Table) (order : List Int64) (id otherId : Int64) (r other : Record)
      (e : Error) (s' : Session),
      g.Registered schema reg ∧ reg.ranking = some k ∧ reg.layout.index k.column = .ok p ∧
      s.connection.Proper ∧ s.view.Ranked reg.layout p t order ∧
      id ≠ otherId ∧ id ∈ order ∧ otherId ∈ order ∧
      s.view.Reads reg.layout id r ∧ s.view.Reads reg.layout otherId other ∧
      (k.swap r other).run s = (.error e, s') := by
  have failed : (Declared.ranking.swap (Declared.read 1) (Declared.read 2)).run
      (Declared.session true) = (.error _, _) := rfl
  exact ⟨_, _, _, _, _, 1, _, _, 1, 2, _, _, _, _, Declared.registered true, rfl, rfl, .idle 0,
    Declared.ranked true, by decide, by decide, by decide, Declared.reads_first true,
    Declared.reads_second true,
    failed⟩

end RankedStore
