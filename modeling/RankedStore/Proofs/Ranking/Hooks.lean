import RankedStore.Registry
import RankedStore.Proofs.Atomic
import RankedStore.Proofs.Ranking.Queries
import RankedStore.Proofs.Ranking.Steps

/-! What a ranking does around the writes of its records, on tables whose positions are 1 to N. -/
namespace RankedStore

open RankedStore.Action

/-- A ranking and the table of its records. -/
structure Ranking.Fits (k : Ranking) (layout : TableLayout) (p : Nat) : Prop where
  entity : layout.name = k.entity
  holds : layout.RanksBy k.column p

/-- The tables hold a sound one with this layout, all of whose rows have a position. -/
structure Catalog.Positioned (c : Catalog) (layout : TableLayout) (p : Nat) (t : Table) : Prop where
  found : c.tables.get? layout.name = some t
  same : t.layout = layout
  sound : t.Sound
  known : t.Known p

/-- The tables hold a sound one with this layout, whose rows are those of the list. -/
structure Catalog.Ranked (c : Catalog) (layout : TableLayout) (p : Nat) (t : Table)
    (order : List Int64) : Prop where
  found : c.tables.get? layout.name = some t
  same : t.layout = layout
  sound : t.Sound
  ranks : t.Ranks p order

namespace Catalog

variable {c : Catalog} {t : Table} {name : String} {id : Int64} {row : Row}

theorem Ranked.ofEmpty {layout : TableLayout} (found : c.tables.get? layout.name = some t)
    (same : t.layout = layout) (empty : t.rows = .empty) (p : Nat) : c.Ranked layout p t [] :=
  ⟨found, same, .ofEmpty empty, .ofEmpty empty p⟩

theorem Ranked.positioned {layout : TableLayout} {p : Nat} {order : List Int64}
    (ranked : c.Ranked layout p t order) : c.Positioned layout p t :=
  ⟨ranked.found, ranked.same, ranked.sound, ranked.ranks.known⟩

theorem Positioned.moved {layout : TableLayout} {p : Nat} {column : String} {σ : Int64 → Int → Int}
    {t' : Table} (positioned : c.Positioned layout p t) (holds : layout.RanksBy column p)
    (moved : t.Moved p σ t') :
    (c.withTable layout.name t').Positioned layout p t' := by
  constructor
  · exact c.get?_withTable_self layout.name t'
  · exact moved.layout.trans positioned.same
  · exact moved.sound positioned.sound (positioned.same ▸ holds) positioned.known
  · exact moved.known positioned.known

theorem Ranked.absent {layout : TableLayout} {p : Nat} {order : List Int64}
    (ranked : c.Ranked layout p t order) (missing : id ∉ order) : t.get? id = none := by
  cases stored : t.get? id with
  | none => rfl
  | some row => exact absurd (ranked.ranks.mem_iff.mpr ⟨row, stored⟩) missing

theorem insert_eq (found : c.tables.get? name = some t) : c.insert name row =
    match t.insert row with
    | .error e => (.error e, c)
    | .ok (id, t') => (.ok id, c.withTable name t') := by
  cases inserted : t.insert row <;>
    simp [insert, table_eq_ok.mpr found, inserted]

theorem replace_eq (found : c.tables.get? name = some t) : c.replace name id row =
    match t.replace id row with
    | .error e => (.error e, c)
    | .ok none => (.ok none, c)
    | .ok (some (old, t')) => (.ok (some old), c.withTable name t') := by
  rcases replaced : t.replace id row with _ | _ | _ <;>
    simp [replace, table_eq_ok.mpr found, replaced]

theorem delete_eq (found : c.tables.get? name = some t) : c.delete name id =
    match t.delete id with
    | none => (.ok none, c)
    | some (old, t') => (.ok (some old), c.withTable name t') := by
  cases deleted : t.delete id <;> simp only [delete, table_eq_ok.mpr found, deleted]

theorem updateWhere_eq (found : c.tables.get? u.table = some t) : c.updateWhere u =
    ((t.updateWhere u).1, c.withTable u.table (t.updateWhere u).2) := by
  simp only [updateWhere, table_eq_ok.mpr found]

end Catalog

namespace Ranking

variable {k : Ranking} {layout : TableLayout} {p : Nat} {c : Catalog} {t : Table}
  {order : List Int64} {r : Record} {P : Int64 → Int → Bool}

/-- Asking for an extremum of the positions succeeds and changes nothing. -/
theorem extremum_seen (fits : k.Fits layout p) (positioned : c.Positioned layout p t) {e : Extremum}
    {result : Option Int64}
    (ran : t.aggregate ⟨e, k.entity, k.column⟩ = .ok (result.map .integer)) :
    Tracked (k.extremum e) c (.ok result) c [] := by
  have found : c.table k.entity = .ok t := Catalog.table_eq_ok.mpr (fits.entity ▸ positioned.found)
  have seen : Tracked (Action.aggregate ⟨e, k.entity, k.column⟩) c
    (.ok (result.map .integer)) c [] :=
    .after (.report ..) (.read (by simp [Catalog.aggregate, found, ran]))
  cases result with
  | none => exact seen.after (.pure ..)
  | some b => exact seen.after (.pure ..)

theorem extremum_tracked (fits : k.Fits layout p) (ranked : c.Ranked layout p t order)
    (e : Extremum) : ∃ result : Option Int64, Tracked (k.extremum e) c (.ok result) c [] ∧
      (result = none ↔ order = []) ∧
      ∀ b, result = some b → b.toInt = match e with | .min => 1 | .max => (order.length : Int) := by
  have holds : t.layout.RanksBy k.column p := ranked.same ▸ fits.holds
  obtain ⟨result, ran, none_iff, value⟩ := ranked.ranks.aggregate holds e k.entity
  exact ⟨result, extremum_seen fits ranked.positioned ran, none_iff, value⟩

/-- The largest position is the number of rows. -/
theorem maxPosition_tracked (fits : k.Fits layout p) (ranked : c.Ranked layout p t order) :
    ∃ last : Option Int64, Tracked k.maxPosition c (.ok last) c [] ∧
      (last.getD 0).toInt = order.length := by
  obtain ⟨last, seen, none_iff, value⟩ := extremum_tracked fits ranked .max
  refine ⟨last, seen, ?_⟩
  cases last with
  | none =>
    rw [none_iff.mp rfl]
    rfl
  | some b => exact value b rfl

/-- A bulk shift of positions. -/
theorem shift_tracked (fits : k.Fits layout p) (positioned : c.Positioned layout p t) {f : Filter}
    (decides : t.Decides f p P) (delta : Int64) :
    (∃ count t' w, Tracked (updateWhere ⟨k.entity, k.column, .shift delta, f⟩) c (.ok count)
      (c.withTable layout.name t') w ∧ t.Moved p (Table.shifted P delta) t') ∨
    ∃ e, Tracked (updateWhere ⟨k.entity, k.column, .shift delta, f⟩) c (.error e) c [] ∧
      ∃ id row n, t.get? id = some row ∧ row[p]? = some (.integer n) ∧ P id n.toInt = true ∧
        addChecked n delta = none := by
  have holds : t.layout.RanksBy k.column p := positioned.same ▸ fits.holds
  have found : c.tables.get? k.entity = some t := fits.entity ▸ positioned.found
  have ran : c.updateWhere ⟨k.entity, k.column, .shift delta, f⟩ = _ := Catalog.updateWhere_eq found
  rcases Table.updateWhere_shift positioned.sound holds positioned.known f decides k.entity
    delta with
    ⟨replaced, t', shifts, moved⟩ | ⟨e, fails, beyond⟩
  · rw [shifts] at ran
    rw [fits.entity]
    exact .inl ⟨_, t', _, updateWhere_tracked ran, moved⟩
  · rw [fails] at ran
    dsimp only at ran
    rw [Catalog.withTable_of_get? found] at ran
    exact .inr ⟨e, .ofActs (updateWhere_acts_error ran), beyond⟩

/-- There is a position after the last one. -/
def Room (order : List Int64) : Prop := ∃ n : Int64, n.toInt = order.length + 1

theorem room_of_addChecked {last next : Int64} (count : last.toInt = order.length)
    (sum : addChecked last 1 = some next) : next.toInt = order.length + 1 := by
  rw [addChecked_eq_some sum, count]
  rfl

theorem addChecked_of_room (room : Room order) {n : Int64} (bound : n.toInt ≤ order.length) :
    ∃ sum, addChecked n 1 = some sum := by
  obtain ⟨last, count⟩ := room
  have one : (1 : Int64).toInt = 1 := rfl
  have above : n.toInt ≤ n.toInt + (1 : Int64).toInt := by omega
  have below : n.toInt + (1 : Int64).toInt ≤ last.toInt := by omega
  exact addChecked_of_le above below

/-- The position of a new record. -/
def Target (k : Ranking) (order : List Int64) (q : Int64) : Prop :=
  match k.config.newPosition with
  | .top => q = 1
  | .bottom => q.toInt = order.length + 1

theorem newPosition_tracked (fits : k.Fits layout p) (ranked : c.Ranked layout p t order) :
    (∃ q, Tracked k.newPosition c (.ok q) c [] ∧ k.Target order q) ∨
      ∃ e, Tracked k.newPosition c (.error e) c [] ∧ ¬ Room order := by
  unfold newPosition Target
  cases k.config.newPosition with
  | top => exact .inl ⟨1, .pure 1 c, rfl⟩
  | bottom =>
    obtain ⟨last, seen, count⟩ := maxPosition_tracked fits ranked
    cases sum : addChecked (last.getD 0) 1 with
    | some next =>
      exact .inl ⟨next, seen.after (by simp only [sum]; exact .pure ..),
        room_of_addChecked count sum⟩
    | none =>
      refine .inr ⟨_, seen.after (by simp only [sum]; exact .throw ..), fun room => ?_⟩
      obtain ⟨next, found⟩ := addChecked_of_room room (Int.le_of_eq count)
      rw [sum] at found
      cases found

/-- Room is made at a position unless the largest one is taken. -/
theorem makeRoom_tracked (fits : k.Fits layout p) (ranked : c.Ranked layout p t order) (q : Int64) :
    (∃ t' w, Tracked (k.makeRoom q) c (.ok ()) (c.withTable layout.name t') w ∧
      t.Moved p (Table.shifted (fun _ m => decide (q.toInt ≤ m)) 1) t') ∨
    ∃ e, Tracked (k.makeRoom q) c (.error e) c [] ∧ ¬ Room order := by
  have holds : t.layout.RanksBy k.column p := ranked.same ▸ fits.holds
  rcases shift_tracked fits ranked.positioned (Table.decides_from holds q) 1 with
    ⟨count, t', w, shifts, moved⟩ | ⟨e, fails, id, row, n, stored, cell, _, beyond⟩
  · exact .inl ⟨t', w, shifts.followed (.report ..), moved⟩
  · refine .inr ⟨e, fails.bind_error, fun room => ?_⟩
    obtain ⟨i, here, place⟩ := ranked.ranks.index stored cell
    have bound := (List.getElem?_eq_some_iff.mp here).1
    obtain ⟨sum, found⟩ := addChecked_of_room room (n := n) (by omega)
    rw [beyond] at found
    cases found

/-- A changed position is an integer from 1 to the number of rows. -/
def InRange (k : Ranking) (order : List Int64) (r : Record) : Prop :=
  ∀ old new, r.change? k.column = some (old, new) →
    ∃ q : Int64, new = .integer q ∧ 1 ≤ q.toInt ∧ q.toInt ≤ order.length

/-- The rows that move when a stored one goes from one position to another. -/
def between (old new id : Int64) (k : Int64) (m : Int) : Bool :=
  decide ((min old new).toInt ≤ m ∧ m ≤ (max old new).toInt ∧ k ≠ id)

theorem shiftBetween_tracked (fits : k.Fits layout p) (ranked : c.Ranked layout p t order)
    (id old new : Int64) :
    (∃ t' w, Tracked (k.shiftBetween id old new) c (.ok ()) (c.withTable layout.name t') w ∧
      t.Moved p (Table.shifted (between old new id) (if old < new then -1 else 1)) t') ∨
    ∃ e, Tracked (k.shiftBetween id old new) c (.error e) c [] ∧
      t.position? p id ≠ some old.toInt := by
  have holds : t.layout.RanksBy k.column p := ranked.same ▸ fits.holds
  have decides := Table.decides_between ranked.sound holds.place holds.first (min old new)
    (max old new) id
  rcases shift_tracked fits ranked.positioned decides (if old < new then -1 else 1) with
    ⟨count, t', w, shifts, moved⟩ | ⟨e, fails, key, row, n, stored, cell, chosen, beyond⟩
  · exact .inl ⟨t', w, shifts.followed (.report ..), moved⟩
  · refine .inr ⟨e, fails.bind_error, fun own => ?_⟩
    simp only [decide_eq_true_eq, toInt_min, toInt_max] at chosen
    obtain ⟨above, below, other⟩ := chosen
    have apart : n.toInt ≠ old.toInt := by
      intro same
      obtain ⟨i, here, place⟩ := ranked.ranks.index stored cell
      obtain ⟨j, there, place'⟩ := ranked.ranks.listed.index own
      obtain rfl : i = j := by omega
      rw [here, Option.some.injEq] at there
      exact other there
    obtain ⟨sum, found⟩ : ∃ sum, addChecked n (if old < new then -1 else 1) = some sum := by
      by_cases down : old < new
      · have lt := Int64.lt_iff_toInt_lt.mp down
        have minus : (-1 : Int64).toInt = -1 := by decide
        rw [if_pos down]
        have low : old.toInt ≤ n.toInt + (-1 : Int64).toInt := by omega
        have high : n.toInt + (-1 : Int64).toInt ≤ n.toInt := by omega
        exact addChecked_of_le low high
      · have le := Int.not_lt.mp fun lt => down (Int64.lt_iff_toInt_lt.mpr lt)
        have one : (1 : Int64).toInt = 1 := rfl
        rw [if_neg down]
        have low : n.toInt ≤ n.toInt + (1 : Int64).toInt := by omega
        have high : n.toInt + (1 : Int64).toInt ≤ old.toInt := by omega
        exact addChecked_of_le low high
    rw [beyond] at found
    cases found

/-- The other rows have given way to a stored record with a new position, if it has one. -/
def GaveWay (k : Ranking) (p : Nat) (order : List Int64) (r : Record) (id : Int64) (t t' : Table) :
    Prop :=
  r.change? k.column = none ∧ t' = t ∨
    ∃ old new : Int64, r.change? k.column = some (.integer old, .integer new) ∧
      1 ≤ new.toInt ∧ new.toInt ≤ order.length ∧
      t.Moved p (Table.shifted (between old new id) (if old < new then -1 else 1)) t'

theorem reposition_tracked {id : Int64} (fits : k.Fits layout p)
    (ranked : c.Ranked layout p t order) (persisted : r.id = some id) :
    (∃ t' w, Tracked (k.reposition r) c (.ok ()) (c.withTable layout.name t') w ∧
      k.GaveWay p order r id t t') ∨
    ∃ e, Tracked (k.reposition r) c (.error e) c [] ∧
      ∀ old : Int64, r.storedValue k.column = .integer old → t.position? p id = some old.toInt →
        ¬ k.InRange order r := by
  have own : r.requireId = .ok id := by rw [Record.requireId, persisted]
  unfold reposition InRange GaveWay
  cases changed : r.change? k.column with
  | none =>
    refine .inl ⟨t, [], ?_, .inl ⟨rfl, rfl⟩⟩
    rw [Catalog.withTable_of_get? ranked.found]
    exact .report ..
  | some change =>
    obtain ⟨old, new⟩ := change
    have before := (Record.change?_eq_some changed).1
    by_cases integers : ∃ o n : Int64, old = .integer o ∧ new = .integer n
    · obtain ⟨o, n, rfl, rfl⟩ := integers
      obtain ⟨last, seen, count⟩ := maxPosition_tracked fits ranked
      by_cases outside : (n < 1 || last.getD 0 < n) = true
      · refine .inr ⟨.invalidArgument (.positionOutOfRange k.column n (last.getD 0)),
          .after (.ofExcept own) (.after seen ?_), ?_⟩
        · rw [if_pos outside]
          exact .bind_error (.throw ..)
        · intro _ _ _ range
          obtain ⟨q, same, low, high⟩ := range _ _ rfl
          cases same
          simp only [Bool.or_eq_true, decide_eq_true_eq, Int64.lt_iff_toInt_lt] at outside
          have one : (1 : Int64).toInt = 1 := rfl
          omega
      · have range : 1 ≤ n.toInt ∧ n.toInt ≤ order.length := by
          simp only [Bool.or_eq_true, decide_eq_true_eq, Int64.lt_iff_toInt_lt] at outside
          have one : (1 : Int64).toInt = 1 := rfl
          omega
        rcases shiftBetween_tracked fits ranked id o n with ⟨t', w, shifts, moved⟩ | ⟨e,
          fails, absent⟩
        · refine .inl ⟨t', w, .after (.ofExcept own) (.after seen ?_),
            .inr ⟨o, n, rfl, range.1, range.2, moved⟩⟩
          rw [if_neg outside]
          exact shifts
        · refine .inr ⟨e, .after (.ofExcept own) (.after seen ?_), ?_⟩
          · rw [if_neg outside]
            exact fails
          · intro old stored placed
            rw [before] at stored
            cases stored
            exact absurd placed absent
    · refine .inr ⟨.invalidArgument (.positionNotInteger k.column k.entity),
        .after (.ofExcept own) ?_, ?_⟩
      · cases old <;> cases new <;> first | exact .throw .. | exact absurd ⟨_, _, rfl, rfl⟩ integers
      · intro o stored _ range
        obtain ⟨q, rfl, _⟩ := range _ _ rfl
        exact integers ⟨o, q, before.symm.trans stored, rfl⟩

/-- The rows behind a stored one close the gap that it is going to leave. -/
theorem release_tracked {id n : Int64} {row : Row} (fits : k.Fits layout p)
    (ranked : c.Ranked layout p t order) (closes : k.config.compactOnDelete = true)
    (entity : k.checkEntity r = .ok ()) (persisted : r.id = some id)
    (stored : t.get? id = some row) (cell : row[p]? = some (.integer n)) :
    ∃ t' w, Tracked (k.release r) c (.ok ()) (c.withTable layout.name t') w ∧
      t.Moved p (Table.shifted (fun _ m => decide (n.toInt < m)) (-1)) t' := by
  have own : r.requireId = .ok id := by rw [Record.requireId, persisted]
  have holds : t.layout.RanksBy k.column p := ranked.same ▸ fits.holds
  have found : c.table k.entity = .ok t := Catalog.table_eq_ok.mpr (fits.entity ▸ ranked.found)
  obtain ⟨count, t', w, shifts, moved⟩ : ∃ count t' w,
      Tracked (updateWhere ⟨k.entity, k.column, .shift (-1), .compare k.column .gt (.integer n)⟩) c
        (.ok count) (c.withTable layout.name t') w ∧
      t.Moved p (Table.shifted (fun _ m => decide (n.toInt < m)) (-1)) t' := by
    rcases shift_tracked fits ranked.positioned (Table.decides_behind holds n) (-1) with
      shifts | ⟨e, _, key, other, m, _, _, after, beyond⟩
    · exact shifts
    · have minus : (-1 : Int64).toInt = -1 := by decide
      have lt : n.toInt < m.toInt := of_decide_eq_true after
      have low : n.toInt ≤ m.toInt + (-1 : Int64).toInt := by omega
      have high : m.toInt + (-1 : Int64).toInt ≤ m.toInt := by omega
      obtain ⟨sum, within⟩ := addChecked_of_le low high
      rw [beyond] at within
      cases within
  refine ⟨t', w, ?_, moved⟩
  unfold release
  rw [closes, if_neg (by decide)]
  refine .after (.ofExcept entity) (.after (.ofExcept own) (.after (fetch_tracked found stored) ?_))
  refine .after (layout_tracked found) (.after (.ofExcept holds.place) ?_)
  simp only [cell]
  exact shifts.followed (.pure ..)

theorem release_missing {id : Int64} (fits : k.Fits layout p) (ranked : c.Ranked layout p t order)
    (closes : k.config.compactOnDelete = true) (entity : k.checkEntity r = .ok ())
    (persisted : r.id = some id) (absent : t.get? id = none) :
    Tracked (k.release r) c (.ok ()) c [] := by
  have own : r.requireId = .ok id := by rw [Record.requireId, persisted]
  have found : c.table k.entity = .ok t := Catalog.table_eq_ok.mpr (fits.entity ▸ ranked.found)
  unfold release
  rw [closes, if_neg (by decide)]
  exact .after (.ofExcept entity) (.after (.ofExcept own)
    (.after (fetch_tracked found absent) (.pure ..)))

end Ranking
namespace Registration

variable {g : Registration} {k : Ranking} {r : Record} {event : Lifecycle}

theorem run_onEvent (ranking : g.ranking = some k) (event : Lifecycle) (r : Record) (s : Session) :
    (g.onEvent event r).run s =
      ((k.onEvent event r s).1.1.map fun _ => (k.onEvent event r s).1.2,
        (k.onEvent event r s).2) := by
  have lifted : (liftM (k.onEvent event r) : Action _).run s =
      (.ok (k.onEvent event r s).1, (k.onEvent event r s).2) := rfl
  simp only [onEvent, ranking, run_bind, lifted]
  rcases (k.onEvent event r s).1.1 with e | _ <;> rfl

/-- Reports that a hook is called. -/
def hooked (k : Ranking) (event : Lifecycle) : Action Unit :=
  report .trace "sortable hook" [("entity", k.entity), ("event", event.display)]

theorem onEvent_insert (ranking : g.ranking = some k) (own : k.checkEntity r = .ok ())
    (new : r.isNew = true) : g.onEvent .beforeInsert r = (do
      hooked k .beforeInsert
      let placed ← k.place r
      k.makeRoom placed.2
      return placed.1) := by
  funext s
  refine (run_onEvent ranking ..).trans ?_
  show _ = (_ : Action Record).run s
  rw [run_bind, hooked, run_report]
  dsimp only
  rw [run_bind]
  have hook : k.onEvent .beforeInsert r s = k.assign r (s.report ⟨.trace, "sortable hook",
    [("entity", k.entity), ("event", Lifecycle.beforeInsert.display)]⟩) := rfl
  rw [hook]
  generalize s.report _ = s₁
  simp only [Ranking.assign, own, new, if_true, bind, StateT.bind, pure]
  rcases (k.place r).run s₁ with ⟨e | placed, s₂⟩
  · rfl
  · show _ = (k.makeRoom placed.2 >>= fun _ => (Pure.pure placed.1 : Action Record)).run s₂
    rw [run_bind]
    dsimp only [StateT.bind]
    rcases (k.makeRoom placed.2).run s₂ with ⟨e | _, s₃⟩ <;> rfl

/-- A hook that leaves the record as it is. -/
theorem onEvent_eq (ranking : g.ranking = some k) {a : Action Unit}
    (does : ∀ s, k.onEvent event r s = (((a.run (s.report ⟨.trace, "sortable hook",
      [("entity", k.entity), ("event", event.display)]⟩)).1, r), (a.run (s.report ⟨.trace,
      "sortable hook", [("entity", k.entity), ("event", event.display)]⟩)).2)) :
    g.onEvent event r = (do hooked k event; a; return r) := by
  funext s
  refine (run_onEvent ranking ..).trans ?_
  show _ = (_ : Action Record).run s
  rw [run_bind, hooked, run_report, does]
  dsimp only
  rw [run_bind]
  generalize s.report _ = s₁
  rcases a.run s₁ with ⟨e | _, s₂⟩ <;> rfl

theorem onEvent_update (ranking : g.ranking = some k) (own : k.checkEntity r = .ok ())
    (stored : r.isNew = false) : g.onEvent .beforeUpdate r = (do
      hooked k .beforeUpdate
      k.reposition r
      return r) := by
  refine onEvent_eq ranking fun s => ?_
  have hook : k.onEvent .beforeUpdate r s = k.assign r (s.report ⟨.trace, "sortable hook",
    [("entity", k.entity), ("event", Lifecycle.beforeUpdate.display)]⟩) := rfl
  rw [hook]
  generalize s.report _ = s₁
  simp only [Ranking.assign, own, stored, Bool.false_eq_true, if_false]
  rfl

theorem onEvent_remove (ranking : g.ranking = some k) (r : Record) :
    g.onEvent .beforeRemove r = (do
      hooked k .beforeRemove
      k.release r
      return r) :=
  onEvent_eq ranking fun _ => rfl

end Registration
end RankedStore
