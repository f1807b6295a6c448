import RankedStore.Proofs.Ranking.Navigation
import RankedStore.Proofs.WellFormed

/-! Renumbering a table whatever its positions are: with gaps, equal ones, negative ones, and rows
without any. The rows come in the order of their positions, those without one come last, and where
this leaves a choice the ids decide. Each then gets its index in this list as its position, counted
from 1. -/
namespace RankedStore

/-- One id comes before another: its position is less, or only it has one, or the id itself is
less. -/
def ComesBefore (position : Int64 → Option Int) (a b : Int64) : Prop :=
  match position a, position b with
  | some m, some n => m < n ∨ m = n ∧ a < b
  | some _, none => True
  | none, some _ => False
  | none, none => a < b

/-- No integer of 64 bits is as large as what stands for a missing position. -/
theorem comesBefore_of_keys {position : Int64 → Option Int} {a b : Int64}
    (bounded : ∀ id m, position id = some m → m < 0x8000000000000000)
    (keys : (position a).getD 0x8000000000000000 < (position b).getD 0x8000000000000000 ∨
      (position a).getD 0x8000000000000000 = (position b).getD 0x8000000000000000 ∧ a < b) :
    ComesBefore position a b := by
  unfold ComesBefore
  cases first : position a with
  | none =>
    cases second : position b with
    | none => simpa [first, second] using keys
    | some n =>
      have := bounded b n second
      simp only [first, second, Option.getD_none, Option.getD_some] at keys
      omega
  | some m =>
    cases second : position b with
    | none => trivial
    | some n => simpa [first, second] using keys

theorem ComesBefore.ne {position : Int64 → Option Int} {a b : Int64}
    (comes : ComesBefore position a b) : a ≠ b := by
  rintro rfl
  unfold ComesBefore at comes
  split at comes
  case h_1 m n first second =>
    cases first.symm.trans second
    rcases comes with lt | ⟨_, lt⟩
    · exact Int.lt_irrefl _ lt
    · exact Int64.lt_irrefl lt
  case h_2 first second => cases first.symm.trans second
  case h_3 => exact comes
  case h_4 => exact Int64.lt_irrefl comes

namespace Table

variable {t t₁ t' : Table} {p : Nat} {id : Int64} {row : Row} {n : Int64} {rows : List Row}
  {first : Int} {order : List Int64}

theorem position?_lt (t : Table) (p : Nat) {m : Int} (placed : t.position? p id = some m) :
    m < 0x8000000000000000 := by
  obtain ⟨n, _, rfl⟩ := Option.map_eq_some_iff.mp placed
  exact n.toInt_lt

/-! Sorting rows that have an integer or NULL at a place. -/

/-- What rows are sorted by: NULL comes after every integer. -/
def sortKeyOrLast (p : Nat) (row : Row) : Int :=
  (((row[p]?).bind Value.integer?).map Int64.toInt).getD 0x8000000000000000

theorem sortKeyOrLast_eq (stored : t.get? id = some row) :
    sortKeyOrLast p row = (t.position? p id).getD 0x8000000000000000 := by
  rw [sortKeyOrLast, position?, stored, Option.bind_some]

/-- The row has an integer or NULL at the place. -/
def IntegerOrNull (p : Nat) (row : Row) : Prop :=
  row[p]? = some .null ∨ ∃ n, row[p]? = some (.integer n)

theorem isBefore_orLast {a b : Row} (left : IntegerOrNull p a) (right : IntegerOrNull p b) :
    isBefore p .ascending a b = decide (sortKeyOrLast p a < sortKeyOrLast p b) := by
  rcases left with left | ⟨m, left⟩ <;> rcases right with right | ⟨n, right⟩
  · simp [isBefore, orderAt, valueAt, sortKeyOrLast, left, right, Value.order?, Value.integer?]
  · have := n.toInt_lt
    simp [isBefore, orderAt, valueAt, sortKeyOrLast, left, right, Value.order?, Value.integer?]
    omega
  · have := m.toInt_lt
    simp [isBefore, orderAt, valueAt, sortKeyOrLast, left, right, Value.order?, Value.integer?]
    omega
  · simp [isBefore, orderAt, valueAt, sortKeyOrLast, left, right, Value.order?, Value.integer?,
      compare_toInt, Int.compare_eq_lt]

theorem firstKnown?_orNull (t : Table) (each : ∀ row ∈ rows, IntegerOrNull p row) :
    t.firstKnown? p rows = .ok none ∨ ∃ n, t.firstKnown? p rows = .ok (some (.integer n)) := by
  induction rows with
  | nil => exact .inl rfl
  | cons row rest ih =>
    replace ih := ih fun row member => each row (List.mem_cons_of_mem _ member)
    rcases each row (List.mem_cons_self ..) with cell | ⟨n, cell⟩
    · have value : t.cellAt row p = .ok .null := by rw [cellAt, cell]
      simpa [firstKnown?, value, Value.isNull] using ih
    · have value : t.cellAt row p = .ok (.integer n) := by rw [cellAt, cell]
      exact .inr ⟨n, by simp [firstKnown?, value, Value.isNull]⟩

theorem checkComparable_orNull (t : Table) (n : Int64) (each : ∀ row ∈ rows, IntegerOrNull p row) :
    t.checkComparable p (.integer n) rows = .ok () := by
  induction rows with
  | nil => rfl
  | cons row rest ih =>
    have later := ih fun row member => each row (List.mem_cons_of_mem _ member)
    rcases each row (List.mem_cons_self ..) with cell | ⟨m, cell⟩
    · have value : t.cellAt row p = .ok .null := by rw [cellAt, cell]
      simpa [checkComparable, value, Value.compare, Value.order?] using later
    · have value : t.cellAt row p = .ok (.integer m) := by rw [cellAt, cell]
      simpa [checkComparable, value, compare_integers] using later

/-- The rows of a table in the order of a column of integers, where rows with equal cells come in
the order of their ids. -/
theorem Sound.select_orNull (sound : t.Sound) (integral : ∀ id row, t.get? id = some row →
    IntegerOrNull p row) {column : String} (place : t.layout.index column = .ok p) (name : String) :
    ∃ rows, t.select ⟨name, .all, some (column, .ascending), none⟩ = .ok rows ∧
    rows.Perm t.rows.values ∧
      rows.Pairwise fun a b => sortKeyOrLast p a < sortKeyOrLast p b ∨
        sortKeyOrLast p a = sortKeyOrLast p b ∧ integerAt 0 a < integerAt 0 b := by
  have each : ∀ row ∈ t.rows.values, IntegerOrNull p row := by
    intro row member
    obtain ⟨id, stored⟩ := Dict.mem_values.mp member
    exact integral id row stored
  have ids : t.rows.values.Pairwise fun a b => integerAt 0 a < integerAt 0 b := by
    refine List.pairwise_map.mpr (t.rows.sorted.imp_of_mem ?_)
    intro a b here there lt
    rw [integerAt_eq (sound.keyed a.1 a.2 (mem_scan.mp here)),
      integerAt_eq (sound.keyed b.1 b.2 (mem_scan.mp there))]
    exact Int64.lt_iff_toInt_lt.mp lt
  refine ⟨_, ?_, insertionSort_perm (isBefore p .ascending) _,
    insertionSort_stable (fun a left b right => isBefore_orLast (each a left) (each b right)) ids⟩
  have all : t.filterRows .all t.scan = .ok t.scan := by
    have kept := @filterRows_eq t .all t.scan (fun _ => true) fun _ _ => rfl
    rwa [List.filter_eq_self.mpr fun _ _ => rfl] at kept
  have sorts : t.sortRows p .ascending t.rows.values =
      .ok (insertionSort (isBefore p .ascending) t.rows.values) := by
    have kept : ∀ row ∈ t.rows.values, ∀ x, valueAt p row ≠ .float x := by
      intro row member x
      rcases each row member with cell | ⟨n, cell⟩ <;> simp [valueAt_eq cell]
    rcases t.firstKnown?_orNull each with none | ⟨n, first⟩
    · exact t.sortRows_eq .ascending none (by rintro _ ⟨⟩) kept
    · refine t.sortRows_eq .ascending first ?_ kept
      rintro _ ⟨⟩
      exact t.checkComparable_orNull n each
  have values : t.scan.map (·.2) = t.rows.values := rfl
  simp [Table.select, all, values, place, sorts]

/-! Giving rows new positions. -/

/-- The rows of the listed ids have the positions from `first` on, and nothing else has changed. -/
structure Numbered (t : Table) (p : Nat) (first : Int) (order : List Int64) (t' : Table) :
    Prop where
  layout : t'.layout = t.layout
  nextId : t'.nextId = t.nextId
  listed : ∀ (i : Nat) id, order[i]? = some id → ∃ row m, t.get? id = some row ∧
    m.toInt = first + i ∧
    t'.get? id = some (row.set p (.integer m))
  unlisted : ∀ id, id ∉ order → t'.get? id = t.get? id

/-- A sound table stays sound if a position is set. -/
theorem Sound.set_behind {column : String} (sound : t.Sound) (holds : t.layout.RanksBy column p)
    (stored : t.get? id = some row) (m : Int64) :
    Sound { t with rows := t.rows.insert id (row.set p (.integer m)) } := by
  obtain ⟨c, at_p, _, plain, admits⟩ := holds.holder
  apply sound.replace (sound.replace_set stored at_p plain (admits m))
  rw [List.getElem?_set_ne (Nat.ne_of_gt holds.behind)]
  exact sound.keyed id row stored

namespace Numbered

theorem nil (t : Table) (p : Nat) (first : Int) : t.Numbered p first [] t :=
  ⟨rfl, rfl, nofun, fun _ _ => rfl⟩

theorem ofSet (stored : t.get? id = some row) (p : Nat) (m : Int64) :
    t.Numbered p m.toInt [id] { t with rows := t.rows.insert id (row.set p (.integer m)) } := by
  constructor
  · rfl
  · rfl
  · intro i key here
    obtain ⟨rfl, rfl⟩ : i = 0 ∧ key = id := by simpa [List.getElem?_singleton, eq_comm] using here
    exact ⟨row, m, stored, by simp, Dict.get?_insert_self ..⟩
  · intro key missing
    exact Dict.get?_insert_of_ne _ _ (by simpa [eq_comm] using missing)

variable {next : Int}

theorem other (single : t.Numbered p first [id] t₁) {key : Int64} (ne : key ≠ id) :
    t₁.get? key = t.get? key :=
  single.unlisted key (by simpa using ne)

/-- The first of the ids has its new position, and the others get theirs. -/
theorem cons (single : t.Numbered p first [id] t₁) (fresh : id ∉ order)
    (more : order ≠ [] → next = first + 1) (numbered : t₁.Numbered p next order t') :
    t.Numbered p first (id :: order) t' := by
  constructor
  · exact numbered.layout.trans single.layout
  · exact numbered.nextId.trans single.nextId
  · intro i key here
    cases i with
    | zero =>
      cases here
      obtain ⟨row, m, stored, value, there⟩ := single.listed 0 id rfl
      exact ⟨row, m, stored, value, (numbered.unlisted id fresh).trans there⟩
    | succ i =>
      obtain ⟨row, m, stored, value, there⟩ := numbered.listed i key here
      have ne : key ≠ id := by
        rintro rfl
        exact fresh (List.mem_of_getElem? here)
      rw [single.other ne] at stored
      refine ⟨row, m, stored, ?_, there⟩
      rw [value, more (List.ne_nil_of_mem (List.mem_of_getElem? here))]
      push_cast
      omega
  · intro key missing
    obtain ⟨ne, unlisted⟩ := not_or.mp (mt List.mem_cons.mpr missing)
    rw [numbered.unlisted key unlisted, single.other ne]

/-- The positions after it. -/
theorem position? {column : String} (numbered : t.Numbered p first order t') (sound : t.Sound)
    (holds : t.layout.RanksBy column p) {i : Nat} (here : order[i]? = some id) :
    t'.position? p id = some (first + i) := by
  obtain ⟨row, m, stored, value, there⟩ := numbered.listed i id here
  obtain ⟨c, at_p, _⟩ := holds.holder
  rw [← value]
  apply position?_of there (List.getElem?_set_self _)
  rw [sound.width stored]
  exact (List.getElem?_eq_some_iff.mp at_p).1

/-- How many of the ids have another position than before. -/
def moved (t t' : Table) (p : Nat) (order : List Int64) : Nat :=
  order.countP fun id => t'.position? p id ≠ t.position? p id

theorem moved_cons (single : t.Numbered p first [id] t₁) (fresh : id ∉ order)
    (numbered : t₁.Numbered p next order t') : moved t t' p (id :: order) =
      moved t₁ t' p order + if t₁.position? p id = t.position? p id then 0 else 1 := by
  have rest : moved t t' p order = moved t₁ t' p order := by
    refine List.countP_congr fun key member => ?_
    have ne : key ≠ id := by
      rintro rfl
      exact fresh member
    have same : t₁.position? p key = t.position? p key := by
      rw [Table.position?, Table.position?, single.other ne]
    rw [same]
  have head : t'.position? p id = t₁.position? p id := by
    rw [Table.position?, Table.position?, numbered.unlisted id fresh]
  unfold moved at rest ⊢
  rw [List.countP_cons, rest, head]
  by_cases same : t₁.position? p id = t.position? p id <;> simp [same]

end Numbered
end Table

namespace Ranking

open RankedStore.Action

variable {k : Ranking} {layout : TableLayout} {p : Nat} {c : Catalog} {t : Table} {id : Int64}
  {r : Record} {entries : List (Int64 × Record)} {expected : Int64}

/-- The record has an id and remembers the position, or that there is none, that is stored under
it. -/
structure Recalls (k : Ranking) (p : Nat) (t : Table) (id : Int64) (r : Record) : Prop where
  persisted : r.id = some id
  position : ∃ row v, t.get? id = some row ∧ row[p]? = some v ∧ r.get? k.column = some v

theorem Recalls.position? (recalls : k.Recalls p t id r) :
    t.position? p id = (r.integer? k.column).map Int64.toInt := by
  obtain ⟨row, v, stored, cell, value⟩ := recalls.position
  simp only [Table.position?, stored, Option.bind_some, cell, Record.integer?, value]

theorem Recalls.congr {t' : Table} (recalls : k.Recalls p t id r) (same : t'.get? id = t.get? id) :
    k.Recalls p t' id r := by
  obtain ⟨persisted, row, v, stored, rest⟩ := recalls
  exact ⟨persisted, row, v, same.trans stored, rest⟩

/-- One record gets its position, unless it has it already. -/
theorem renumber_cons (found : c.tables.get? k.entity = some t) (sound : t.Sound)
    (holds : t.layout.RanksBy k.column p) (recalls : k.Recalls p t id r) (expected : Int64) :
    ∃ t₁, t₁.Sound ∧ t.Numbered p expected.toInt [id] t₁ ∧ ∀ rest n c' w,
      Tracked (k.renumber (expected + 1) rest) (c.withTable k.entity t₁) (.ok n) c' w →
      ∃ w', Tracked (k.renumber expected (r :: rest)) c
        (.ok (n + if t₁.position? p id = t.position? p id then 0 else 1)) c' w' := by
  obtain ⟨row, v, stored, cell, value⟩ := recalls.position
  have single := Table.Numbered.ofSet stored p expected
  obtain ⟨w₁, sets⟩ := setPosition_tracked found sound holds stored expected
  have own := single.position? sound holds (i := 0) rfl
  refine ⟨_, sound.set_behind holds stored expected, single, fun rest n c' w ran => ?_⟩
  rw [own, recalls.position?]
  unfold renumber
  by_cases same : r.integer? k.column = some expected
  · have kept : row.set p (.integer expected) = row := by
      obtain rfl : v = .integer expected :=
        Value.integer?_eq_some (by simpa [Record.integer?, value] using same)
      obtain ⟨bound, equal⟩ := List.getElem?_eq_some_iff.mp cell
      rw [← equal]
      exact List.set_getElem_self bound
    rw [kept, Dict.insert_of_get? stored, Catalog.withTable_of_get? found] at ran
    refine ⟨w, ?_⟩
    simpa [same] using ran
  · have other : ¬ (some (expected.toInt + (0 : Nat)) = (r.integer? k.column).map Int64.toInt) := by
      rintro placed
      obtain ⟨m, at_r, equal⟩ := Option.map_eq_some_iff.mp placed.symm
      exact same (at_r.trans (congrArg some (Int64.toInt_inj.mp (by simpa using equal))))
    refine ⟨w ++ w₁, ?_⟩
    rw [if_neg same, if_neg other]
    apply Tracked.after (.ofExcept (by rw [Record.requireId, recalls.persisted]))
    exact sets.bind (ran.followed (.pure ..))

/-- The number after this one is in range if there is a record for it. -/
theorem room_next {n : Nat} (room : expected.toInt + (n + 1 : Nat) ≤ 0x8000000000000000) :
    (n ≠ 0 → (expected + 1).toInt = expected.toInt + 1) ∧
    (expected + 1).toInt + n ≤ 0x8000000000000000 := by
  have next : n ≠ 0 → (expected + 1).toInt = expected.toInt + 1 := by
    intro more
    have least := expected.le_toInt
    have one : (1 : Int64).toInt = 1 := rfl
    rw [Int64.toInt_add, one, Int.bmod_eq_of_le (by omega) (by omega)]
  refine ⟨next, ?_⟩
  have greatest := (expected + 1).toInt_lt
  by_cases last : n = 0
  · omega
  · rw [next last]
    omega

/-- Renumbering gives the records of a list their indices for positions, and counts those that had
another one or none. -/
theorem renumber_numbers (found : c.tables.get? k.entity = some t) (sound : t.Sound)
    (holds : t.layout.RanksBy k.column p) (recalls : ∀ e ∈ entries, k.Recalls p t e.1 e.2)
    (nodup : (entries.map (·.1)).Nodup)
    (room : expected.toInt + entries.length ≤ 0x8000000000000000) :
    ∃ t' w, Tracked (k.renumber expected (entries.map (·.2))) c
        (.ok (Table.Numbered.moved t t' p (entries.map (·.1)))) (c.withTable k.entity t') w ∧
      t'.Sound ∧ t.Numbered p expected.toInt (entries.map (·.1)) t' := by
  induction entries generalizing expected c t with
  | nil =>
    refine ⟨t, [], ?_, sound, .nil ..⟩
    rw [Catalog.withTable_of_get? found]
    exact .pure ..
  | cons e rest ih =>
    obtain ⟨id, r⟩ := e
    obtain ⟨fresh, nodup⟩ := List.nodup_cons.mp nodup
    obtain ⟨next, room'⟩ := room_next room
    obtain ⟨t₁, sound₁, single, writes⟩ :=
      renumber_cons found sound holds (recalls (id, r) (List.mem_cons_self ..)) expected
    have recalls' : ∀ e ∈ rest, k.Recalls p t₁ e.1 e.2 := by
      intro e member
      apply (recalls e (List.mem_cons_of_mem _ member)).congr
      apply single.other
      intro same
      exact fresh (List.mem_map.mpr ⟨e, member, same⟩)
    obtain ⟨t', w, ran, sound', numbered⟩ := ih (c.get?_withTable_self k.entity t₁) sound₁
      (single.layout ▸ holds) recalls' nodup room'
    rw [Catalog.withTable_withTable] at ran
    obtain ⟨w', ran'⟩ := writes _ _ _ w ran
    have more : rest.map (·.1) ≠ [] → (expected + 1).toInt = expected.toInt + 1 :=
      fun some => next fun none => some (by rw [List.length_eq_zero_iff.mp none]; rfl)
    refine ⟨t', w', ?_, sound', single.cons fresh more numbered⟩
    rw [← single.moved_cons fresh numbered] at ran'
    exact ran'

/-- The records of all rows with their ids, in the order that rows come in. -/
structure Arranges (layout : TableLayout) (p : Nat) (t : Table) (entries : List (Int64 × Record)) :
    Prop where
  read : ∀ e ∈ entries, ∃ row, t.get? e.1 = some row ∧ Record.ofRow layout row = .ok e.2
  every : ∀ id, t.get? id ≠ none → id ∈ entries.map (·.1)
  sorted : (entries.map (·.1)).Pairwise (ComesBefore (t.position? p))

theorem Arranges.nodup (arranges : Arranges layout p t entries) : (entries.map (·.1)).Nodup :=
  arranges.sorted.imp ComesBefore.ne

/-- A row is read as a record that has its id and remembers its position. -/
theorem Recalls.ofRow (fits : k.Fits layout p) (distinct : layout.Distinct)
    (same : t.layout = layout) (sound : t.Sound) {row : Row} (stored : t.get? id = some row) :
    ∃ r, Record.ofRow layout row = .ok r ∧ k.Recalls p t id r := by
  have width : row.length = layout.columns.length := same ▸ sound.width stored
  obtain ⟨column, at_p, named, _⟩ := fits.holds.holder
  have inside : p < row.length := width ▸ (List.getElem?_eq_some_iff.mp at_p).1
  have read : Record.ofRow layout row = .ok _ := if_neg (not_not_intro width)
  have shows := Record.shows_of_ofRow distinct (sound.keyed id row stored) read
  have cell := List.getElem?_eq_getElem inside
  refine ⟨_, read, shows.persisted, row, row[p], stored, cell, ?_⟩
  have value := shows.cells p column row[p] at_p (named ▸ fits.holds.ne_id) cell
  rwa [named] at value

/-- The records of sorted rows, with the ids that they have. -/
theorem arranges_of_rows {rows : List Row} {records : List Record} (sound : t.Sound)
    (perm : rows.Perm t.rows.values)
    (sorted : rows.Pairwise fun a b => Table.sortKeyOrLast p a < Table.sortKeyOrLast p b ∨
      Table.sortKeyOrLast p a = Table.sortKeyOrLast p b ∧ Table.integerAt 0 a < Table.integerAt 0 b)
    (count : records.length = rows.length)
    (alike : ∀ (i : Nat) r, records[i]? = some r → ∃ row, rows[i]? = some row ∧
      t.get? (r.id.getD 0) = some row ∧
      Record.ofRow layout row = .ok r) :
    Arranges layout p t (records.map fun r => (r.id.getD 0, r)) where
  read := by
    refine List.forall_mem_map.mpr fun r listed => ?_
    obtain ⟨i, here⟩ := List.getElem?_of_mem listed
    obtain ⟨row, _, read⟩ := alike i r here
    exact ⟨row, read⟩
  every id there := by
    obtain ⟨row, stored⟩ := Option.ne_none_iff_exists'.mp there
    obtain ⟨i, here⟩ := List.getElem?_of_mem (perm.mem_iff.mpr (Dict.mem_values.mpr ⟨id, stored⟩))
    have inside : i < records.length := count ▸ (List.getElem?_eq_some_iff.mp here).1
    obtain ⟨row', here', stored', _⟩ := alike i records[i] (List.getElem?_eq_getElem inside)
    cases here.symm.trans here'
    cases (sound.keyed id row stored).symm.trans (sound.keyed _ row stored')
    rw [List.map_map]
    exact List.mem_map.mpr ⟨records[i], List.getElem_mem inside, rfl⟩
  sorted := by
    rw [List.map_map, List.pairwise_map]
    refine List.pairwise_iff_getElem.mpr fun i j left right before => ?_
    obtain ⟨a, at_i, stored, _⟩ := alike i records[i] (List.getElem?_eq_getElem left)
    obtain ⟨b, at_j, stored', _⟩ := alike j records[j] (List.getElem?_eq_getElem right)
    obtain ⟨bound, rfl⟩ := List.getElem?_eq_some_iff.mp at_i
    obtain ⟨bound', rfl⟩ := List.getElem?_eq_some_iff.mp at_j
    have keys := List.pairwise_iff_getElem.mp sorted i j bound bound' before
    rw [Table.sortKeyOrLast_eq stored, Table.sortKeyOrLast_eq stored',
      Table.integerAt_eq (sound.keyed _ _ stored),
      Table.integerAt_eq (sound.keyed _ _ stored'), ← Int64.lt_iff_toInt_lt] at keys
    exact comesBefore_of_keys (fun _ _ placed => t.position?_lt p placed) keys

/-- All records are listed by position, whatever the positions are. -/
theorem ordered_arranges (fits : k.Fits layout p) (distinct : layout.Distinct)
    (found : c.tables.get? layout.name = some t) (same : t.layout = layout) (sound : t.Sound)
    (integral : ∀ id row, t.get? id = some row → Table.IntegerOrNull p row) :
    ∃ entries, Tracked k.ordered c (.ok (entries.map (·.2))) c [] ∧ Arranges layout p t entries ∧
      (∀ e ∈ entries, k.Recalls p t e.1 e.2) ∧ entries.length = t.rowCount := by
  have table : c.table k.entity = .ok t := Catalog.table_eq_ok.mpr (fits.entity ▸ found)
  obtain ⟨rows, ran, perm, sorted⟩ := sound.select_orNull integral (same ▸ fits.holds.place)
    k.entity
  have seen : Tracked (Action.select ⟨k.entity, .all, some (k.column, .ascending), none⟩) c
    (.ok rows) c [] :=
    .after (.report ..) (.read (by simp [Catalog.select, table, ran]))
  have each : ∀ row ∈ rows, ∃ r, Tracked (Action.ofExcept (Record.ofRow layout row)) c
    (.ok r) c [] ∧
      (t.get? (r.id.getD 0) = some row ∧ Record.ofRow layout row = .ok r) ∧
        k.Recalls p t (r.id.getD 0) r := by
    intro row member
    obtain ⟨id, stored⟩ := Dict.mem_values.mp (perm.mem_iff.mp member)
    obtain ⟨r, read, recalls⟩ := Recalls.ofRow fits distinct same sound stored
    refine ⟨r, .ofExcept read, ?_⟩
    rw [recalls.persisted]
    exact ⟨⟨stored, read⟩, recalls⟩
  obtain ⟨records, read, count, alike⟩ := Tracked.mapM each
  rw [← same] at read
  refine ⟨records.map fun r => (r.id.getD 0, r), ?_, arranges_of_rows sound perm sorted count
    ?_, ?_, ?_⟩
  · rw [List.map_map, List.map_id'']
    · exact .after (layout_tracked table) (seen.after read)
    · exact fun _ => rfl
  · intro i r here
    obtain ⟨row, from_row, stored, _⟩ := alike i r here
    exact ⟨row, from_row, stored⟩
  · refine List.forall_mem_map.mpr fun r listed => ?_
    obtain ⟨i, here⟩ := List.getElem?_of_mem listed
    obtain ⟨_, _, _, recalls⟩ := alike i r here
    exact recalls
  · rw [List.length_map, count, perm.length_eq]
    exact List.length_map ..

/-- With its rows renumbered, a table has the positions from 1 to N. -/
theorem ranked_of_numbered (fits : k.Fits layout p) (same : t.layout = layout) (sound : t.Sound)
    (arranges : Arranges layout p t entries) {t' : Table} (sound' : t'.Sound)
    (numbered : t.Numbered p 1 (entries.map (·.1)) t') :
    (c.withTable layout.name t').Ranked layout p t' (entries.map (·.1)) := by
  have position : ∀ (i : Nat) id, (entries.map (·.1))[i]? = some id →
    t'.position? p id = some ((i : Int) + 1) := by
    intro i id here
    rw [numbered.position? sound (same ▸ fits.holds) here, Int.add_comm]
  have member : ∀ id row, t'.get? id = some row → id ∈ entries.map (·.1) := by
    intro id row stored
    by_cases listed : id ∈ entries.map (·.1)
    · exact listed
    · rw [numbered.unlisted id listed] at stored
      exact arranges.every id (Option.ne_none_iff_exists'.mpr ⟨row, stored⟩)
  refine ⟨c.get?_withTable_self .., numbered.layout.trans same, sound', ⟨⟨position, ?_⟩, ?_⟩⟩
  · intro id placed
    cases stored : t'.get? id with
    | none => exact absurd (Table.position?_none stored) placed
    | some row => exact member id row stored
  · intro id row stored
    obtain ⟨i, here⟩ := List.getElem?_of_mem (member id row stored)
    have placed := position i id here
    rw [Table.position?, stored, Option.bind_some] at placed
    obtain ⟨n, integer, _⟩ := Option.map_eq_some_iff.mp placed
    obtain ⟨v, cell, integer⟩ := Option.bind_eq_some_iff.mp integer
    exact ⟨n, Value.integer?_eq_some integer ▸ cell⟩

/-- Renumbering takes any positions, and counts the rows that have other ones afterwards. -/
theorem compact_arranges (fits : k.Fits layout p) (distinct : layout.Distinct)
    (found : c.tables.get? layout.name = some t) (same : t.layout = layout) (sound : t.Sound)
    (integral : ∀ id row, t.get? id = some row → Table.IntegerOrNull p row)
    (few : t.rowCount < 0x8000000000000000) :
    ∃ entries t', Tracked k.ordered c (.ok (entries.map (·.2))) c [] ∧ Arranges layout p t entries ∧
      Settles k.compact c (.ok (Table.Numbered.moved t t' p (entries.map (·.1))))
        (c.withTable layout.name t') ∧
      t.Numbered p 1 (entries.map (·.1)) t' ∧
      (c.withTable layout.name t').Ranked layout p t' (entries.map (·.1)) := by
  obtain ⟨entries, read, arranges, recalls, count⟩ :=
    ordered_arranges fits distinct found same sound integral
  have one : (1 : Int64).toInt = 1 := rfl
  have room : (1 : Int64).toInt + entries.length ≤ 0x8000000000000000 := by omega
  obtain ⟨t', w, ran, sound', numbered⟩ :=
    renumber_numbers (fits.entity ▸ found) sound (same ▸ fits.holds) recalls arranges.nodup room
  rw [← fits.entity] at ran
  refine ⟨entries, t', read, arranges, ?_, numbered, ranked_of_numbered fits same sound arranges
    sound' numbered⟩
  exact .after read (ran.transactional.followed fun d => .after (.report ..) (.pure ..))

end Ranking

namespace Registry

open RankedStore.Action

variable {g : Registry} {schema : EntitySchema} {reg : Registration} {k : Ranking}

/-- In the table of a registered type, names are apart, and the column of positions has integers. -/
theorem Registered.distinct (registered : g.Registered schema reg) (positions : reg.Positions k) :
    reg.layout.Distinct ∧ ∃ c ∈ reg.layout.columns, c.name = k.column ∧ c.type = .integer := by
  obtain ⟨found, _, made⟩ := Except.bind_eq_ok registered.made
  cases found with
  | none =>
    cases made
    cases positions.ranking
  | some ranking =>
    obtain ⟨columns, added, made⟩ := Except.bind_eq_ok made
    cases made
    obtain rfl : ranking = k := Option.some.inj positions.ranking
    obtain ⟨named, c, member, called, type⟩ := Registration.addColumn_named
      (EntitySchema.named registered.checked) positions.named added
    exact ⟨TableLayout.distinct_ofColumns named schema.name, c,
      (TableLayout.ofColumns_sublist schema.name columns).subset member, called, type⟩

/-- A row that was checked has an integer or NULL for its position. -/
theorem Registered.integerOrNull {p : Nat} {t : Table} (registered : g.Registered schema reg)
    (positions : reg.Positions k) (place : reg.layout.index k.column = .ok p)
    (same : t.layout = reg.layout) (sound : t.Sound) {id : Int64} {row : Row}
    (stored : t.get? id = some row) : Table.IntegerOrNull p row := by
  have holds := (registered.placesAt positions place).fits.holds
  obtain ⟨_, c, member, named, type⟩ := registered.distinct positions
  obtain ⟨i, here⟩ := List.getElem?_of_mem member
  obtain rfl : i = p := holds.only i c here named
  rw [← same] at here
  have inside : i < row.length := sound.width stored ▸ (List.getElem?_eq_some_iff.mp here).1
  have cell := List.getElem?_eq_getElem inside
  have checked := Table.checkRow_get (sound.checked id row stored) here cell
  rw [Table.IntegerOrNull, cell]
  cases value : row[i] with
  | null => exact .inl rfl
  | integer n => exact .inr ⟨n, rfl⟩
  | _ => simp [Column.check, value, type, Value.isNull, ColumnType.admits] at checked

/-- Renumbering works on every sound table of a registered type, whatever its positions are. All
rows get their indices in the list of all records, counted from 1, nothing else changes, and the
number of rows that moved is the answer. After this there is nothing to renumber. -/
theorem compact_renumbers {p : Nat} {t : Table} {s : Session} (registered : g.Registered schema reg)
    (positions : reg.Positions k) (place : reg.layout.index k.column = .ok p)
    (proper : s.connection.Proper) (found : s.view.tables.get? schema.name = some t)
    (same : t.layout = reg.layout) (sound : t.Sound) (few : t.rowCount < 0x8000000000000000) :
    ∃ entries t' s₁ s₂, k.ordered.Answers s (entries.map (·.2)) ∧
      Ranking.Arranges reg.layout p t entries ∧
      k.compact.run s = (.ok (Table.Numbered.moved t t' p (entries.map (·.1))), s₁) ∧
      s₁.view = s.view.withTable schema.name t' ∧ t.Numbered p 1 (entries.map (·.1)) t' ∧
      (∀ (i : Nat) id, (entries.map (·.1))[i]? = some id →
        t'.position? p id = some ((i : Int) + 1)) ∧
      k.compact.run s₁ = (.ok 0, s₂) ∧ s₂.view = s₁.view := by
  have fits := (registered.placesAt positions place).fits
  have name := Registration.ofSchema_name registered.made
  rw [← name] at found
  obtain ⟨entries, t', read, arranges, settles, numbered, ranked⟩ :=
    Ranking.compact_arranges fits (registered.distinct positions).1 found same sound
      (fun _ _ => registered.integerOrNull positions place same sound) few
  obtain ⟨s₁, ran, proper₁, view₁⟩ := settles.runs proper
  have seen := view₁ _ rfl
  obtain ⟨s₂, again, _, view₂⟩ := (Ranking.compact_stored fits (seen ▸ ranked)).runs proper₁
  exact ⟨entries, t', s₁, s₂, read.answers proper, arranges, ran, name ▸ seen, numbered,
    ranked.ranks.listed.placed, again, view₂ _ rfl⟩

end Registry

/-! Five records. One has a negative position, two have the same one, one has a position after a
gap, and one has none. -/
namespace Uneven

def cells : List (Int64 × Value) :=
  [(1, .integer 10), (2, .null), (3, .integer (-3)), (4, .integer 2), (5, .integer 2)]

def table : Table where
  layout := (Declared.registration false).layout
  rows := .ofList (cells.map fun (id, v) => (id, [.integer id, v]))
  nextId := 6

def session : Session := { committed := ⟨⟨Dict.empty.insert "t" table⟩, 0⟩, connection := .idle 0 }

theorem entry {id : Int64} {row : Row} (stored : table.get? id = some row) :
    ∃ v, (id, v) ∈ cells ∧ row = [.integer id, v] := by
  have scan : table.scan = cells.map fun (id, v) => (id, [.integer id, v]) := rfl
  have there := Table.mem_scan.mpr stored
  rw [scan] at there
  obtain ⟨⟨_, v⟩, member, same⟩ := List.mem_map.mp there
  cases same
  exact ⟨v, member, rfl⟩

theorem sound : table.Sound := by
  constructor
  · intro id row stored
    obtain ⟨v, member, rfl⟩ := entry stored
    simp only [cells, List.mem_cons, Prod.mk.injEq, List.not_mem_nil, or_false] at member
    rcases member with ⟨_, rfl⟩ | ⟨_, rfl⟩ | ⟨_, rfl⟩ | ⟨_, rfl⟩ | ⟨_, rfl⟩ <;> rfl
  · intro id row stored
    obtain ⟨_, _, rfl⟩ := entry stored
    rfl
  · intro id row key other stored stored' ne i c v column unique value known shared
    obtain ⟨_, _, rfl⟩ := entry stored
    obtain ⟨_, _, rfl⟩ := entry stored'
    match i with
    | 0 =>
      cases value
      cases shared
      exact ne rfl
    | 1 =>
      cases column
      cases unique
    | i + 2 => cases value

end Uneven

/-- The fourth record has its position already, and the other four get theirs. -/
theorem Registry.compact_renumbers_uneven : ∃ s₁ s₂ t',
    Declared.ranking.compact.run Uneven.session = (.ok 4, s₁) ∧ s₁.view.tables.get? "t" = some t' ∧
      ([3, 4, 5, 1, 2].map (t'.position? 1)) = [some 1, some 2, some 3, some 4, some 5] ∧
      Declared.ranking.compact.run s₁ = (.ok 0, s₂) ∧ s₂.view = s₁.view := by
  have positions : (Declared.registration false).Positions Declared.ranking :=
    ⟨rfl, by decide, by decide⟩
  obtain ⟨_, t', s₁, s₂, _, _, ran, view, _, _, again, same⟩ :=
    compact_renumbers (Declared.registered false) positions (p := 1) rfl (s := Uneven.session)
    (.idle 0) rfl rfl Uneven.sound (by decide)
  have ran' : Declared.ranking.compact.run Uneven.session = (.ok 4, _) := rfl
  obtain ⟨_, rfl⟩ := Prod.mk.inj (ran.symm.trans ran')
  exact ⟨_, s₂, _, ran', rfl, rfl, again, same⟩

end RankedStore
