import RankedStore.Proofs.Completes
import RankedStore.Proofs.InPlace

/-! The operations on records, on whatever tables. Only a bulk shift of positions may leave behind
what its notes do not tell, so all else follows from what is known of such shifts. -/
namespace RankedStore

open RankedStore.Action

variable {ρ : Table → Table → Prop} {S : Catalog → Prop}

namespace Ranking

variable {k : Ranking} {c : Catalog} {r other : Record}

/-- Shifts of the positions try to reach tables with a property. -/
def Shifts (k : Ranking) (ρ : Table → Table → Prop) (c : Catalog) (S : Catalog → Prop) : Prop :=
  ∀ delta f, Tries ρ (updateWhere ⟨k.entity, k.column, .shift delta, f⟩) c fun _ c' => S c'

/-- Updates that leave related tables even where they fail need no notes to lead back to them. -/
theorem shifts_related (stable : Table.Stable ρ) (k : Ranking)
    (updates : ∀ u, c.Related ρ (c.updateWhere u).2) : k.Shifts ρ c (c.Related ρ) := by
  intro delta f
  have related := updates ⟨k.entity, k.column, .shift delta, f⟩
  refine .updateWhere stable related fun replaced c' ran => ?_
  rwa [ran] at related

theorem extremum_looks (k : Ranking) (e : Extremum) : Looks (k.extremum e) := by
  refine .bind (.bind .report fun _ => .read _) fun best => ?_
  split
  · exact .pure _
  · exact .pure _
  · exact .throw _

theorem newPosition_looks (k : Ranking) : Looks k.newPosition := by
  unfold newPosition
  split
  case h_1 => exact .pure _
  case h_2 =>
    refine .bind (k.extremum_looks .max) fun last => ?_
    split
    · exact .pure _
    · exact .throw _

theorem neighbor_looks (k : Ranking) (comparison : Comparison) (position : Int64)
    (direction : Direction) : Looks (k.neighbor comparison position direction) := by
  refine .bind (.read _) fun layout => .bind (.bind .report fun _ => .read _) fun rows => ?_
  split
  · exact .pure _
  · exact .bind (.ofExcept _) fun _ => .pure _

theorem isFirst_looks (k : Ranking) (r : Record) : Looks (k.isFirst r) :=
  .bind (.ofExcept _) fun _ => .bind (k.extremum_looks .min) fun _ => .pure _

theorem isLast_looks (k : Ranking) (r : Record) : Looks (k.isLast r) :=
  .bind (.ofExcept _) fun _ => .bind (k.extremum_looks .max) fun _ => .pure _

theorem next_looks (k : Ranking) (r : Record) : Looks (k.next r) :=
  .bind (.ofExcept _) fun _ => k.neighbor_looks _ _ _

theorem previous_looks (k : Ranking) (r : Record) : Looks (k.previous r) :=
  .bind (.ofExcept _) fun _ => k.neighbor_looks _ _ _

theorem ordered_looks (k : Ranking) : Looks k.ordered := by
  refine .bind (.read _) fun layout => .bind (.bind .report fun _ => .read _) fun rows => ?_
  exact .mapM (fun _ => .ofExcept _) rows

theorem fetch_looks (k : Ranking) (id : Int64) : Looks (k.fetch id) := by
  refine .bind (.read _) fun stored => ?_
  cases stored with
  | none => exact .throw _
  | some row => exact .pure row

theorem makeRoom_tries (stable : Table.Stable ρ) {position : Int64}
    (shifts : Tries ρ (updateWhere ⟨k.entity, k.column, .shift 1,
      .compare k.column .gte (.integer position)⟩) c fun _ c' => S c') :
    Tries ρ (k.makeRoom position) c fun _ c' => S c' := by
  refine .bind stable shifts fun shifted c' holds => ?_
  exact .report stable _ _ _ holds

/-- Only a position that was changed from one integer to another one shifts others, and only if it
is not too small. -/
theorem reposition_tries (stable : Table.Stable ρ) (r : Record)
    (unchanged : r.change? k.column = none → S c)
    (shifts : ∀ id old new, r.id = some id →
      r.change? k.column = some (.integer old, .integer new) → ¬ new < 1 →
      Tries ρ (k.shiftBetween id old new) c fun _ c' => S c') :
    Tries ρ (k.reposition r) c fun _ c' => S c' := by
  unfold reposition
  split
  case h_1 same => exact .report stable _ _ _ (unchanged same)
  case h_2 old new changed =>
    refine .after stable (.ofExcept rfl) fun id own => ?_
    have persisted := Record.id_of_requireId own
    dsimp only
    split
    case h_1 n m was is =>
      obtain ⟨_, seen⟩ := k.extremum_looks .max c
      refine .after stable seen fun last _ => ?_
      split
      case isTrue => exact .ofTracked stable (.bind_error (.throw ..)) (by rintro x ⟨⟩)
      case isFalse inside =>
        rw [Value.integer?_eq_some was, Value.integer?_eq_some is] at changed
        exact shifts id n m persisted changed fun low => inside (by simp [low])
    case h_2 => exact .throw stable _ c

/-- Only the row of the record itself tells which others are shifted. -/
theorem release_tries (stable : Table.Stable ρ) (r : Record) (start : S c)
    (shifts : ∀ id row i n, k.config.compactOnDelete = true → r.id = some id →
      (∃ t, c.table k.entity = .ok t ∧ t.get? id = some row ∧ t.layout.index k.column = .ok i) →
      row[i]? = some (.integer n) →
      Tries ρ (updateWhere ⟨k.entity, k.column, .shift (-1), .compare k.column .gt (.integer n)⟩) c
        fun _ c' => S c') : Tries ρ (k.release r) c fun _ c' => S c' := by
  unfold release
  split
  case isTrue => exact .pure stable start
  case isFalse closes =>
    refine .after stable (.ofExcept rfl) fun _ _ => .after stable (.ofExcept rfl) fun id own => ?_
    have persisted := Record.id_of_requireId own
    refine .after stable (.read rfl) fun stored fetched => ?_
    obtain ⟨t, found, there⟩ := Except.bind_eq_ok fetched
    cases there
    cases stored : t.get? id with
    | none => exact .pure stable start
    | some row =>
      refine .after stable (layout_tracked found) fun layout same => ?_
      cases same
      refine .after stable (.ofExcept rfl) fun i place => ?_
      split
      case h_1 => exact .throw stable _ c
      case h_2 n cell =>
        have shift := shifts id row i n (by simpa using closes) persisted
          ⟨t, found, stored, place⟩ cell
        exact .bind stable shift fun shifted c' holds => .pure stable holds
      case h_3 => exact .pure stable start

end Ranking

namespace Registration

variable {reg : Registration} {c : Catalog} {r : Record}

/-- The same of the ranking of an entity type, if it has one. -/
def Shifts (reg : Registration) (ρ : Table → Table → Prop) (c : Catalog) (S : Catalog → Prop) :
    Prop :=
  ∀ k, reg.ranking = some k → k.Shifts ρ c S

/-- What a new record may have become before it is inserted. -/
def Prepared (reg : Registration) (r placed : Record) : Prop :=
  match reg.ranking with
  | none => placed = r
  | some k => ∃ v, r.set k.column v = .ok placed

theorem onEvent_refused {k : Ranking} {event : Lifecycle} (ranking : reg.ranking = some k)
    (other : k.checkEntity r = .error e) (writes : event ≠ .beforeRemove) :
    reg.onEvent event r = (do hooked k event; throw e) := by
  funext s
  refine (run_onEvent ranking ..).trans ?_
  cases event with
  | beforeRemove => exact absurd rfl writes
  | beforeInsert | beforeUpdate =>
    simp only [Ranking.onEvent, Ranking.assign, other]
    rfl

/-- A new record gets a position, and the others make room there. -/
theorem insert_hook (stable : Table.Stable ρ) {k : Ranking} (ranking : reg.ranking = some k)
    (new : r.isNew = true) {T : Int64 → Prop} {H : Int64 → Catalog → Prop}
    (position : Tries ρ k.newPosition c fun q c' => c' = c ∧ T q)
    (room : ∀ q, T q → Tries ρ (k.makeRoom q) c fun _ c' => H q c') :
    Tries ρ (reg.onEvent .beforeInsert r) c fun placed c' =>
      ∃ q, r.set k.column (.integer q) = .ok placed ∧ H q c' := by
  cases own : k.checkEntity r with
  | error e =>
    rw [onEvent_refused ranking own (by simp)]
    exact .after stable (.report ..) fun _ _ => .throw stable e c
  | ok _ =>
    rw [onEvent_insert ranking own new]
    refine .after stable (.report ..) fun _ _ => ?_
    have place : Tries ρ (k.place r) c fun placed c' =>
        c' = c ∧ T placed.2 ∧ r.set k.column (.integer placed.2) = .ok placed.1 := by
      refine .bind stable position ?_
      rintro q _ ⟨rfl, right⟩
      refine .after stable (.ofExcept rfl) fun placed set => ?_
      exact .pure stable ⟨rfl, right, set⟩
    refine .bind stable place ?_
    rintro placed _ ⟨rfl, right, set⟩
    refine .bind stable (room placed.2 right) fun _ c' holds => ?_
    exact .pure stable ⟨placed.2, set, holds⟩

theorem update_hook (stable : Table.Stable ρ) {k : Ranking} (ranking : reg.ranking = some k)
    (stored : r.isNew = false) (repositions : Tries ρ (k.reposition r) c fun _ c' => S c') :
    Tries ρ (reg.onEvent .beforeUpdate r) c fun placed c' => S c' ∧ r = placed := by
  cases own : k.checkEntity r with
  | error e =>
    rw [onEvent_refused ranking own (by simp)]
    exact .after stable (.report ..) fun _ _ => .throw stable e c
  | ok _ =>
    rw [onEvent_update ranking own stored]
    refine .after stable (.report ..) fun _ _ => .bind stable repositions fun _ c' holds => ?_
    exact .pure stable ⟨holds, rfl⟩

theorem remove_hook (stable : Table.Stable ρ) {k : Ranking} (ranking : reg.ranking = some k)
    (releases : Tries ρ (k.release r) c fun _ c' => S c') :
    Tries ρ (reg.onEvent .beforeRemove r) c fun placed c' => S c' ∧ r = placed := by
  rw [onEvent_remove ranking]
  refine .after stable (.report ..) fun _ _ => .bind stable releases fun _ c' holds => ?_
  exact .pure stable ⟨holds, rfl⟩

theorem beforeInsert_tries (stable : Table.Stable ρ) (shifts : reg.Shifts ρ c S) (start : S c)
    (new : r.isNew = true) :
    Tries ρ (reg.onEvent .beforeInsert r) c fun placed c' => S c' ∧ reg.Prepared r placed := by
  cases ranking : reg.ranking with
  | none =>
    simp only [onEvent, Prepared, ranking]
    exact .pure stable ⟨start, rfl⟩
  | some k =>
    obtain ⟨_, seen⟩ := k.newPosition_looks c
    have position : Tries ρ k.newPosition c fun _ c' => c' = c ∧ True :=
      .ofTracked stable seen fun _ _ => ⟨rfl, trivial⟩
    have hook := insert_hook stable ranking new position fun q _ =>
      Ranking.makeRoom_tries stable (shifts k ranking _ _)
    refine hook.weaken ?_
    rintro placed c' ⟨q, set, holds⟩
    simp only [Prepared, ranking]
    exact ⟨holds, _, set⟩

theorem beforeUpdate_tries (stable : Table.Stable ρ) (shifts : reg.Shifts ρ c S) (start : S c)
    (stored : r.isNew = false) :
    Tries ρ (reg.onEvent .beforeUpdate r) c fun placed c' => S c' ∧ r = placed := by
  cases ranking : reg.ranking with
  | none =>
    simp only [onEvent, ranking]
    exact .pure stable ⟨start, rfl⟩
  | some k =>
    apply update_hook stable ranking stored
    apply Ranking.reposition_tries stable r
    · exact fun _ => start
    · intro id old new _ _ _
      exact .bind stable (shifts k ranking _ _) fun shifted c' holds => .report stable _ _ _ holds

theorem beforeRemove_tries (stable : Table.Stable ρ) (shifts : reg.Shifts ρ c S) (start : S c)
    (r : Record) : Tries ρ (reg.onEvent .beforeRemove r) c fun placed c' => S c' ∧ r = placed := by
  cases ranking : reg.ranking with
  | none =>
    simp only [onEvent, ranking]
    exact .pure stable ⟨start, rfl⟩
  | some k =>
    apply remove_hook stable ranking
    apply Ranking.release_tries stable r start
    intro _ _ _ _ _ _ _ _
    exact shifts k ranking _ _

end Registration

namespace Registry

variable {g : Registry} {reg : Registration} {c : Catalog} {r : Record}
  {Q : Record → Catalog → Prop}

theorem insertRecord_tries (stable : Table.Stable ρ) {H : Record → Catalog → Prop}
    (hook : Tries ρ (reg.onEvent .beforeInsert r) c H)
    (inserted : ∀ placed row id c₁ c', H placed c₁ → placed.toRow reg.layout = .ok row →
      c₁.insert reg.layout.name row = (.ok id, c') → Q (placed.withId id) c') :
    Tries ρ (insertRecord reg r) c Q := by
  refine .bind stable hook fun placed c₁ holds => ?_
  refine .after stable (.ofExcept rfl) fun row written => ?_
  refine .bind stable (.insert stable fun id c' ran => inserted placed row id c₁ c' holds
    written ran)
    fun id c' achieved => ?_
  exact .after stable (.report ..) fun _ _ => .pure stable achieved

theorem updateRecord_tries (stable : Table.Stable ρ)
    (hook : Tries ρ (reg.onEvent .beforeUpdate r) c fun placed c' => S c' ∧ r = placed)
    (replaced : ∀ id row old c₁ c', r.id = some id → S c₁ → r.toRow reg.layout = .ok row →
      c₁.replace reg.layout.name id row = (.ok (some old), c') → Q r c') :
    Tries ρ (updateRecord reg r) c Q := by
  refine .after stable (.ofExcept rfl) fun id own => ?_
  have persisted := Record.id_of_requireId own
  refine .bind stable hook ?_
  rintro _ c₁ ⟨holds, rfl⟩
  refine .after stable (.ofExcept rfl) fun row written => ?_
  refine .bind stable (.replace stable (Q := fun _ c' => Q r c') fun old c' ran =>
    replaced id row old c₁ c' persisted holds written ran) fun _ c' achieved => ?_
  exact .after stable (.report ..) fun _ _ => .pure stable achieved

/-- Saving a record inserts or replaces one row after the hook of its type, or does nothing, or
fails. -/
theorem save_completes (stable : Table.Stable ρ) {H : Registration → Record → Catalog → Prop}
    {H' : Registration → Catalog → Prop}
    (inserting : ∀ reg, g.find? r.entity = .ok reg → r.isNew = true →
      Tries ρ (reg.onEvent .beforeInsert r) c (H reg))
    (updating : ∀ reg, g.find? r.entity = .ok reg → r.isNew = false →
      Tries ρ (reg.onEvent .beforeUpdate r) c fun placed c' => H' reg c' ∧ r = placed)
    (clean : r.isNew = false → r.isDirty = false → Q r c)
    (inserted : ∀ reg placed row id c₁ c', g.find? r.entity = .ok reg → r.isNew = true →
      H reg placed c₁ → placed.toRow reg.layout = .ok row →
      c₁.insert reg.layout.name row = (.ok id, c') → Q (placed.withId id).markClean c')
    (replaced : ∀ reg id row old c₁ c', g.find? r.entity = .ok reg → r.id = some id → H' reg c₁ →
      r.toRow reg.layout = .ok row → c₁.replace reg.layout.name id row = (.ok (some old), c') →
      Q r.markClean c') : Completes ρ (g.save r) c Q := by
  refine .after stable (.ofExcept rfl) fun reg known => ?_
  cases new : r.isNew with
  | true =>
    simp only [Bool.not_true, Bool.false_and, Bool.false_eq_true, if_false, if_true]
    have body : Tries ρ (insertRecord reg r) c fun saved c' => Q saved.markClean c' :=
      insertRecord_tries stable (inserting reg known new) fun placed row id c₁ c' =>
        inserted reg placed row id c₁ c' known new
    refine .followed (body.transactional stable) fun saved c' achieved => ?_
    exact ⟨saved.markClean, fun d => .pure .., achieved⟩
  | false =>
    cases dirty : r.isDirty with
    | false =>
      simp only [Bool.not_false, Bool.and_self, if_true]
      refine .ofReading stable (.pure r c) ?_
      rintro _ ⟨⟩
      exact clean new dirty
    | true =>
      simp only [Bool.not_false, Bool.not_true, Bool.and_false, Bool.false_eq_true, if_false]
      have body : Tries ρ (updateRecord reg r) c fun saved c' => Q saved.markClean c' :=
        updateRecord_tries stable (updating reg known new) fun id row old c₁ c' =>
          replaced reg id row old c₁ c' known
      refine .followed (body.transactional stable) fun saved c' achieved => ?_
      exact ⟨saved.markClean, fun d => .pure .., achieved⟩

/-- Removing a record deletes one row after the hook of its type, or fails. -/
theorem remove_completes (stable : Table.Stable ρ) {H : Registration → Catalog → Prop}
    (removing : ∀ reg, g.find? r.entity = .ok reg →
      Tries ρ (reg.onEvent .beforeRemove r) c fun placed c' => H reg c' ∧ r = placed)
    (deleted : ∀ reg id old c₁ c', g.find? r.entity = .ok reg → r.id = some id → H reg c₁ →
      c₁.delete reg.layout.name id = (.ok (some old), c') → Q r.detach c') :
    Completes ρ (g.remove r) c Q := by
  refine .after stable (.ofExcept rfl) fun reg known => .after stable (.ofExcept rfl)
    fun id own => ?_
  have persisted := Record.id_of_requireId own
  have body : Tries ρ (do
      let record ← reg.onEvent .beforeRemove r
      if ← Action.delete reg.layout.name id then return record
      else throw (.entityNotFound reg.layout.name id)) c fun record c' => Q record.detach c' := by
    refine .bind stable (removing reg known) ?_
    rintro _ c₁ ⟨holds, rfl⟩
    refine .bind stable (.delete stable (Q := fun there c' => there = true → Q _ c')
      (fun old c' ran _ => deleted reg id old c₁ c' known persisted holds ran) (by simp)) ?_
    intro there c' achieved
    cases there with
    | true => exact .pure stable (achieved rfl)
    | false => exact .throw stable _ c'
  refine .followed (body.transactional stable) fun record c' achieved => ?_
  exact ⟨record.detach, fun d => .after (.report ..) (.pure ..), achieved⟩

end Registry

namespace Ranking

variable {k : Ranking} {c : Catalog} {r other : Record}

/-- The row that was written last has the width of its table. -/
theorem width_of_replace {name : String} {id : Int64} {row old : Row}
    (h : c.replace name id row = (.ok (some old), c')) : ∃ t t', c.tables.get? name = some t ∧
      c' = c.withTable name t' ∧ t'.layout = t.layout ∧ row.length = t.layout.columns.length ∧
      ∀ key, t'.get? key = if id = key then some row else t.get? key := by
  obtain ⟨t, _, found, replaced, rfl⟩ := Catalog.replace_eq_some h
  obtain ⟨_, checked, _, rfl⟩ := Table.replace_eq_some replaced
  exact ⟨t, _, found, rfl, rfl, Table.width_of_checkRow checked, fun key => Dict.get?_insert ..⟩

/-- The table of the ranking has this layout, and its rows of these ids are as wide. -/
def Wide (k : Ranking) (layout : TableLayout) (ids : List Int64) (c : Catalog) : Prop :=
  ∃ t, c.tables.get? k.entity = some t ∧ t.layout = layout ∧
    ∀ id ∈ ids, ∀ row, t.get? id = some row → row.length = layout.columns.length

theorem setPosition_wide (stable : Table.Stable ρ) {layout : TableLayout} {ids : List Int64}
    (wide : k.Wide layout ids c) (id : Int64) (value : Value) :
    Tries ρ (updateById k.entity id k.column value) c fun _ c' => k.Wide layout (id :: ids) c' := by
  refine .updateById stable fun row old c' ran => ?_
  obtain ⟨t, found, same, widths⟩ := wide
  obtain ⟨t₀, t', found₀, rfl, same', width, rows⟩ := width_of_replace ran
  rw [found] at found₀
  cases found₀
  refine ⟨t', c.get?_withTable_self k.entity t', same'.trans same, ?_⟩
  intro key member stored at_key
  rw [rows] at at_key
  split at at_key
  case isTrue =>
    cases at_key
    exact same ▸ width
  case isFalse other =>
    rcases List.mem_cons.mp member with same | member
    · exact absurd same.symm other
    · exact widths key member stored at_key

theorem fetch_wide (stable : Table.Stable ρ) {layout : TableLayout} {ids : List Int64} {id : Int64}
    (wide : k.Wide layout ids c) (member : id ∈ ids) :
    Tries ρ (k.fetch id) c fun row c' => c' = c ∧ row.length = layout.columns.length := by
  obtain ⟨t, found, _, widths⟩ := wide
  refine .after stable (fetch_tracked (Catalog.table_eq_ok.mpr found) rfl) ?_
  rintro stored ⟨⟩
  cases stored : t.get? id with
  | none => exact .throw stable _ c
  | some row => exact .pure stable ⟨rfl, widths id member row stored⟩

/-- Once an exchange has looked at the two records, all that is left is what it does to their
rows. -/
theorem exchangeRows_of (stable : Table.Stable ρ) {Q : TableLayout → Row × Row → Catalog → Prop}
    (body : ∀ n m id otherId t, k.positionOf r = .ok n → k.positionOf other = .ok m →
      r.id = some id → other.id = some otherId → c.table k.entity = .ok t → Tries ρ (do
        updateById k.entity id k.column (.integer m)
        updateById k.entity otherId k.column (.integer n)
        return (← k.fetch id, ← k.fetch otherId)) c (Q t.layout)) :
    Completes ρ (k.exchangeRows r other) c fun result c' => Q result.1 result.2 c' := by
  refine .after stable (.ofExcept rfl) fun _ _ => .after stable (.ofExcept rfl) fun n position => ?_
  refine .after stable (.ofExcept rfl) fun m position' => .after stable (.ofExcept rfl)
    fun id own => ?_
  refine .after stable (.ofExcept rfl) fun otherId own' => ?_
  have persisted := Record.id_of_requireId own
  have persisted' := Record.id_of_requireId own'
  refine .after stable (.read rfl) fun layout seen => ?_
  obtain ⟨t, found, same⟩ := Except.bind_eq_ok seen
  cases same
  have tries := body n m id otherId t position position' persisted persisted' found
  refine .after stable (.report ..) fun _ _ => .followed (tries.transactional stable) ?_
  exact fun rows c' achieved => ⟨(t.layout, rows), fun d => .pure .., achieved⟩

/-- The rows are as wide as the layout says, so they can be loaded. -/
def Fit (layout : TableLayout) (rows : Row × Row) : Prop :=
  rows.1.length = layout.columns.length ∧ rows.2.length = layout.columns.length

/-- An exchange gives rows that can be loaded. -/
theorem exchangeRows_completes (stable : Table.Stable ρ) (k : Ranking) (r other : Record)
    (c : Catalog) :
    Completes ρ (k.exchangeRows r other) c fun result _ => Fit result.1 result.2 := by
  apply exchangeRows_of stable (Q := fun layout rows _ => Fit layout rows)
  intro n m id otherId t _ _ _ _ found
  have start : k.Wide t.layout [] c := ⟨t, Catalog.table_eq_ok.mp found, rfl, by simp⟩
  refine .bind stable (setPosition_wide stable start id _) fun _ c₁ wide => ?_
  refine .bind stable (setPosition_wide stable wide otherId _) fun _ c₂ wide => ?_
  refine .bind stable (fetch_wide stable wide (by simp)) ?_
  rintro row _ ⟨rfl, width⟩
  refine .bind stable (fetch_wide stable wide (by simp)) ?_
  rintro otherRow _ ⟨rfl, otherWidth⟩
  exact .pure stable ⟨width, otherWidth⟩

theorem load_eq_ok {r : Record} {layout : TableLayout} {row : Row}
    (width : row.length = layout.columns.length) : ∃ loaded, r.load layout row = .ok loaded := by
  unfold Record.load
  rw [if_neg (by simpa using width)]
  exact ⟨_, rfl⟩

/-- Loading the two records adds nothing to the exchange, and it does not fail. -/
theorem swap_loads {Q : TableLayout → Row × Row → Catalog → Prop}
    (exchanges : Completes ρ (k.exchangeRows r other) c fun result c' =>
      Fit result.1 result.2 ∧ Q result.1 result.2 c') :
    Completes ρ (k.swap r other) c fun records c' => ∃ layout rows,
      r.load layout rows.1 = .ok records.1 ∧
      other.load layout rows.2 = .ok records.2 ∧ Q layout rows c' := by
  rw [swap_eq]
  refine .followed exchanges ?_
  rintro ⟨layout, row, otherRow⟩ c' ⟨⟨width, otherWidth⟩, holds⟩
  obtain ⟨loaded, load⟩ := load_eq_ok (r := r) width
  obtain ⟨otherLoaded, otherLoad⟩ := load_eq_ok (r := other) otherWidth
  exact ⟨(loaded, otherLoaded), fun d => .after (.ofExcept load)
    (.after (.ofExcept otherLoad) (.pure ..)), layout, (row, otherRow), load, otherLoad, holds⟩

theorem swap_of {Q : Catalog → Prop}
    (exchanges : Completes ρ (k.exchangeRows r other) c fun result c' =>
      Fit result.1 result.2 ∧ Q c') : Completes ρ (k.swap r other) c fun _ c' => Q c' := by
  refine (swap_loads (Q := fun _ _ c' => Q c') exchanges).weaken ?_
  rintro _ c' ⟨_, _, _, _, holds⟩
  exact holds

/-- Two records change places and are both loaded, or nothing happens. -/
theorem swap_completes (stable : Table.Stable ρ) (k : Ranking) (r other : Record) (c : Catalog) :
    Completes ρ (k.swap r other) c fun _ _ => True := by
  apply swap_of
  exact (k.exchangeRows_completes stable r other c).weaken fun _ _ fit => ⟨fit, trivial⟩

/-- A move towards an end is an exchange with what is found there, or it only looks. -/
theorem move_of (stable : Table.Stable ρ) {atEnd : Record → Action Bool}
    {neighbor : Record → Action (Option Record)} (already alone : Error.Precondition)
    {Q : Catalog → Prop} (ends : Looks (atEnd r)) {answer : Except Error (Option Record)}
    (near : Tracked (neighbor r) c answer c [])
    (swaps : ∀ other, answer = .ok (some other) → Completes ρ (k.swap r other) c fun _ c' => Q c') :
    Completes ρ (do
      if ← atEnd r then throw (.preconditionFailed already)
      match ← neighbor r with
      | none => throw (.preconditionFailed alone)
      | some other => return (← k.swap r other).1) c fun _ c' => Q c' := by
  refine .looking stable ends fun ended => ?_
  cases ended with
  | true => exact .ofReading stable (.bind_error (.throw ..)) (by rintro x ⟨⟩)
  | false =>
    refine .after stable near fun found seen => ?_
    cases found with
    | none => exact .ofReading stable (.throw ..) (by rintro x ⟨⟩)
    | some other =>
      refine .followed (swaps other seen) fun records c' holds => ?_
      exact ⟨records.1, fun d => .pure .., holds⟩

theorem move_completes (stable : Table.Stable ρ) (k : Ranking) {atEnd : Record → Action Bool}
    {neighbor : Record → Action (Option Record)} (ends : ∀ r, Looks (atEnd r))
    (looks : ∀ r, Looks (neighbor r)) (already alone : Error.Precondition) (r : Record)
    (c : Catalog) :
    Completes ρ (do
      if ← atEnd r then throw (.preconditionFailed already)
      match ← neighbor r with
      | none => throw (.preconditionFailed alone)
      | some other => return (← k.swap r other).1) c fun _ _ => True := by
  obtain ⟨answer, near⟩ := looks r c
  exact move_of stable already alone (ends r) near fun other _ => k.swap_completes stable r other c

theorem renumber_tries (stable : Table.Stable ρ) (k : Ranking) (writes : ∀ c₁ id row old c', S c₁ →
      c₁.replace k.entity id row = (.ok (some old), c') → S c') (start : S c) (expected : Int64)
    (records : List Record) :
    Tries ρ (k.renumber expected records) c fun n c' => S c' ∧ (n = 0 → c' = c) := by
  induction records generalizing expected c with
  | nil => exact .pure stable ⟨start, fun _ => rfl⟩
  | cons r rest ih =>
    unfold renumber
    split
    case isTrue => exact ih start (expected + 1)
    case isFalse =>
      refine .after stable (.ofExcept rfl) fun id _ => ?_
      refine .bind stable (.updateById stable (Q := fun _ c' => S c') fun row old c' =>
        writes c id row old c' start) fun _ c' holds => ?_
      exact .bind stable (ih holds (expected + 1)) fun n c'' renumbered =>
        .pure stable ⟨renumbered.1, by simp⟩

/-- All positions are renumbered, or nothing happens, which is also the case where all were
right. -/
theorem compact_completes (stable : Table.Stable ρ) (k : Ranking)
    (writes : ∀ c₁ id row old c', S c₁ →
      c₁.replace k.entity id row = (.ok (some old), c') → S c') (start : S c) :
    Completes ρ k.compact c fun n c' => S c' ∧ (n = 0 → c' = c) := by
  refine .looking stable k.ordered_looks fun records => ?_
  refine .followed ((k.renumber_tries stable writes start 1 records).transactional stable) ?_
  exact fun n c' renumbered => ⟨n, fun d => .after (.report ..) (.pure ..), renumbered⟩

end Ranking
end RankedStore
