import RankedStore.Proofs.Ranking.Ranks

/-! Shifting positions in bulk. In a sound table such an update never stops halfway: either a sum is
out of range, which is found out before anything is written, or every row that meets the filter is
shifted. -/
namespace RankedStore

theorem compare_toInt (a b : Int64) : compare a b = compare a.toInt b.toInt := by
  simp only [compare, compareOfLessAndEq, Int64.lt_iff_toInt_lt, ← Int64.toInt_inj]

theorem addChecked_eq_some {a b sum : Int64} (h : addChecked a b = some sum) :
    sum.toInt = a.toInt + b.toInt := toInt_of_int64? h

theorem toInt_min (a b : Int64) : (min a b).toInt = min a.toInt b.toInt := by
  by_cases le : a ≤ b
  · rw [show min a b = a from if_pos le, Int.min_eq_left (Int64.le_iff_toInt_le.mp le)]
  · have lt := Int.not_le.mp fun h => le (Int64.le_iff_toInt_le.mpr h)
    rw [show min a b = b from if_neg le, Int.min_eq_right (Int.le_of_lt lt)]

theorem toInt_max (a b : Int64) : (max a b).toInt = max a.toInt b.toInt := by
  by_cases le : a ≤ b
  · rw [show max a b = b from if_pos le, Int.max_eq_right (Int64.le_iff_toInt_le.mp le)]
  · have lt := Int.not_le.mp fun h => le (Int64.le_iff_toInt_le.mpr h)
    rw [show max a b = a from if_neg le, Int.max_eq_left (Int.le_of_lt lt)]

/-- A sum between two integers is in range. -/
theorem addChecked_of_le {a b low high : Int64} (above : low.toInt ≤ a.toInt + b.toInt)
    (below : a.toInt + b.toInt ≤ high.toInt) : ∃ sum, addChecked a b = some sum := by
  have least := Int64.minValue_le_toInt low
  have greatest := Int64.toInt_le high
  exact ⟨_, if_pos ⟨Int.le_trans least above, Int.le_trans below greatest⟩⟩

namespace Table

variable {t t' : Table} {p : Nat} {id : Int64} {row : Row} {n delta : Int64} {order : List Int64}
  {column : String} {u : Update} {P : Int64 → Int → Bool} {entries pending : List (Int64 × Row)}

/-- The position after a shift of those that are chosen. -/
def shifted (P : Int64 → Int → Bool) (delta : Int64) (id : Int64) (n : Int) : Int :=
  if P id n then n + delta.toInt else n

/-- The filter of the update decides by the id and the position of a row. -/
def Decides (t : Table) (f : Filter) (p : Nat) (P : Int64 → Int → Bool) : Prop :=
  ∀ id row n, t.get? id = some row → row[p]? = some (.integer n) →
    t.meets f row = .ok (P id n.toInt)

/-- A plan has the chosen rows with their shifted positions. -/
structure Plans (entries : List (Int64 × Row)) (p : Nat) (P : Int64 → Int → Bool) (delta : Int64)
    (pending : List (Int64 × Row)) : Prop where
  sound : ∀ e ∈ pending, ∃ row n m, (e.1, row) ∈ entries ∧ row[p]? = some (.integer n) ∧
    P e.1 n.toInt = true ∧ addChecked n delta = some m ∧ e.2 = row.set p (.integer m)
  complete : ∀ e ∈ entries, ∀ n, e.2[p]? = some (.integer n) → P e.1 n.toInt = true →
    ∃ new, (e.1, new) ∈ pending
  ids : (pending.map (·.1)).Sublist (entries.map (·.1))

namespace Plans

theorem nil : Plans [] p P delta [] := ⟨by simp, by simp, .slnil⟩

/-- A row that is not chosen is left out of the plan. -/
theorem skip (plans : Plans entries p P delta pending) (cell : row[p]? = some (.integer n))
    (chosen : P id n.toInt = false) : Plans ((id, row) :: entries) p P delta pending := by
  refine ⟨?_, ?_, plans.ids.cons _⟩
  · intro e member
    obtain ⟨row', n', m, source, rest⟩ := plans.sound e member
    exact ⟨row', n', m, List.mem_cons_of_mem _ source, rest⟩
  · intro e member n' cell' chosen'
    rcases List.mem_cons.mp member with rfl | member
    · rw [cell, Option.some.injEq, Value.integer.injEq] at cell'
      rw [← cell', chosen] at chosen'
      cases chosen'
    · exact plans.complete e member n' cell' chosen'

theorem take {m : Int64} (plans : Plans entries p P delta pending)
    (cell : row[p]? = some (.integer n)) (chosen : P id n.toInt = true)
    (sum : addChecked n delta = some m) :
    Plans ((id, row) :: entries) p P delta ((id, row.set p (.integer m)) :: pending) := by
  refine ⟨?_, ?_, plans.ids.cons_cons _⟩
  · intro e member
    rcases List.mem_cons.mp member with rfl | member
    · exact ⟨row, n, m, List.mem_cons_self .., cell, chosen, sum, rfl⟩
    · obtain ⟨row', n', m', source, rest⟩ := plans.sound e member
      exact ⟨row', n', m', List.mem_cons_of_mem _ source, rest⟩
  · intro e member n' cell' chosen'
    rcases List.mem_cons.mp member with rfl | member
    · exact ⟨_, List.mem_cons_self ..⟩
    · obtain ⟨new, planned⟩ := plans.complete e member n' cell' chosen'
      exact ⟨new, List.mem_cons_of_mem _ planned⟩

/-- In a plan for the rows of a table, the rows are the stored ones. -/
theorem source {e : Int64 × Row} (plans : Plans t.scan p P delta pending) (member : e ∈ pending)
    (stored : t.get? e.1 = some row) (cell : row[p]? = some (.integer n)) :
    P e.1 n.toInt = true ∧ ∃ m, addChecked n delta = some m ∧ e.2 = row.set p (.integer m) := by
  obtain ⟨row', n', m, there, cell', chosen, sum, new⟩ := plans.sound e member
  have same := Sound.mem_scan.mp there
  rw [stored, Option.some.injEq] at same
  subst same
  rw [cell, Option.some.injEq, Value.integer.injEq] at cell'
  subst cell'
  exact ⟨chosen, m, sum, new⟩

end Plans

theorem plan_shift (t : Table) (shift : u.assignment = .shift delta)
    (decides : ∀ e ∈ entries, ∃ n, e.2[p]? = some (.integer n) ∧
      t.meets u.filter e.2 = .ok (P e.1 n.toInt)) :
    (∃ pending, t.plan u p entries = .ok pending ∧ Plans entries p P delta pending) ∨
      ∃ e, t.plan u p entries = .error e ∧ ∃ x ∈ entries, ∃ n, x.2[p]? = some (.integer n) ∧
        P x.1 n.toInt = true ∧ addChecked n delta = none := by
  induction entries with
  | nil => exact .inl ⟨[], rfl, .nil⟩
  | cons first rest ih =>
    obtain ⟨id, row⟩ := first
    obtain ⟨n, cell, met⟩ := decides (id, row) (List.mem_cons_self ..)
    replace ih := ih fun e member => decides e (List.mem_cons_of_mem _ member)
    have value : t.cellAt row p = .ok (.integer n) := by rw [cellAt, cell]
    cases chosen : P id n.toInt with
    | false =>
      have skips : t.plan u p ((id, row) :: rest) = t.plan u p rest := by
        simp [plan, met, chosen]
      rw [skips]
      rcases ih with ⟨pending, planned, plans⟩ | ⟨e, failed, x, member, rest⟩
      · exact .inl ⟨pending, planned, plans.skip cell chosen⟩
      · exact .inr ⟨e, failed, x, List.mem_cons_of_mem _ member, rest⟩
    | true =>
      cases sum : addChecked n delta with
      | none =>
        have beyond : assigned u id (.integer n) =
            .error (.constraintViolation (.shiftOverflow u.column id delta)) := by
          simp only [assigned, shift, sum]
        refine .inr ⟨.constraintViolation (.shiftOverflow u.column id delta), ?_, (id, row),
          List.mem_cons_self .., n, cell, chosen, sum⟩
        simp [plan, met, chosen, value, beyond]
      | some m =>
        have new : assigned u id (.integer n) = .ok (.integer m) := by
          simp only [assigned, shift, sum]
        rcases ih with ⟨pending, planned, plans⟩ | ⟨e, failed, x, member, rest⟩
        · refine .inl ⟨(id, row.set p (.integer m)) :: pending, ?_, plans.take cell chosen sum⟩
          simp [plan, met, chosen, value, new, planned]
        · refine .inr ⟨e, ?_, x, List.mem_cons_of_mem _ member, rest⟩
          simp [plan, met, chosen, value, new, failed]

theorem replace_get? (h : t.replace id row = .ok (some (old, t'))) : t'.layout = t.layout ∧
    t'.nextId = t.nextId ∧ t'.get? id = some row ∧ ∀ key, key ≠ id → t'.get? key = t.get? key := by
  obtain ⟨_, _, _, rfl⟩ := replace_eq_some h
  exact ⟨rfl, rfl, Dict.get?_insert_self .., fun key ne => Dict.get?_insert_of_ne _ _ ne.symm⟩

/-- Rows that were all written are the stored ones after that, and no other row is different. -/
theorem replaceAll_written (ids : (pending.map (·.1)).Nodup)
    (stored : ∀ e ∈ pending, ∃ row, t.get? e.1 = some row)
    (ran : t.replaceAll pending = (.ok replaced, t')) : replaced.length = pending.length ∧
      t'.layout = t.layout ∧ t'.nextId = t.nextId ∧ (∀ e ∈ pending, t'.get? e.1 = some e.2) ∧
      ∀ id, id ∉ pending.map (·.1) → t'.get? id = t.get? id := by
  induction pending generalizing t replaced with
  | nil =>
    cases ran
    exact ⟨rfl, rfl, rfl, by simp, fun _ _ => rfl⟩
  | cons first rest ih =>
    obtain ⟨id, new⟩ := first
    obtain ⟨fresh, ids⟩ := List.nodup_cons.mp ids
    unfold replaceAll at ran
    split at ran
    case h_1 => cases ran
    case h_2 absent =>
      obtain ⟨row, there⟩ := stored _ (List.mem_cons_self ..)
      unfold replace at absent
      rw [there] at absent
      obtain ⟨_, _, absent⟩ := Except.bind_eq_ok absent
      obtain ⟨_, _, absent⟩ := Except.bind_eq_ok absent
      cases absent
    case h_3 old middle written =>
      obtain ⟨layout, nextId, own, elsewhere⟩ := replace_get? written
      rcases later : middle.replaceAll rest with ⟨e | others, last⟩ <;> rw [later] at ran <;>
        cases ran
      have apart : ∀ e ∈ rest, e.1 ≠ id :=
        fun e member same => fresh (List.mem_map.mpr ⟨e, member, same⟩)
      obtain ⟨count, layout', nextId', there, kept⟩ := ih ids (fun e member => by
        rw [elsewhere e.1 (apart e member)]
        exact stored e (List.mem_cons_of_mem _ member)) later
      refine ⟨congrArg (· + 1) count, layout'.trans layout, nextId'.trans nextId, ?_, ?_⟩
      · intro e member
        rcases List.mem_cons.mp member with rfl | member
        · rw [kept id fresh, own]
        · exact there e member
      · intro key untouched
        rw [List.map_cons, List.mem_cons, not_or] at untouched
        rw [kept key untouched.2, elsewhere key untouched.1]

/-- Writing new cells into stored rows never fails if their column admits them and is not unique. -/
theorem replaceAll_set {c : Column} (valid : t.Valid) (at_p : t.columns[p]? = some c)
    (plain : c.unique = false) (ids : (pending.map (·.1)).Nodup)
    (each : ∀ e ∈ pending, ∃ row v, t.get? e.1 = some row ∧ e.2 = row.set p v ∧
      c.check v = .ok ()) :
    ∃ replaced t', t.replaceAll pending = (.ok replaced, t') := by
  induction pending generalizing t with
  | nil => exact ⟨[], t, rfl⟩
  | cons first rest ih =>
    obtain ⟨id, new⟩ := first
    obtain ⟨row, v, stored, rfl, admitted⟩ := each (id, new) (List.mem_cons_self ..)
    obtain ⟨fresh, ids⟩ := List.nodup_cons.mp ids
    have written := valid.replace_set stored at_p plain admitted
    obtain ⟨_, _, _, elsewhere⟩ := replace_get? written
    obtain ⟨replaced, t', ran⟩ :=
      ih (valid.set stored at_p plain admitted) at_p ids fun e member => by
        have ne : e.1 ≠ id := fun same => fresh (List.mem_map.mpr ⟨e, member, same⟩)
        rw [elsewhere e.1 ne]
        exact each e (List.mem_cons_of_mem _ member)
    exact ⟨(id, row) :: replaced, t', by simp only [replaceAll, written, ran, Except.map]⟩

/-- Writing new positions into stored rows never fails. -/
theorem replaceAll_moved (sound : t.Sound) (ranks : t.layout.RanksBy column p)
    (ids : (pending.map (·.1)).Nodup)
    (each : ∀ e ∈ pending, ∃ row m, t.get? e.1 = some row ∧ e.2 = row.set p (.integer m)) :
    ∃ replaced t', t.replaceAll pending = (.ok replaced, t') ∧ t'.layout = t.layout ∧
      t'.nextId = t.nextId ∧ (∀ e ∈ pending, t'.get? e.1 = some e.2) ∧
      ∀ id, id ∉ pending.map (·.1) → t'.get? id = t.get? id := by
  obtain ⟨c, at_p, _, plain, admits⟩ := ranks.holder
  have stored : ∀ e ∈ pending, ∃ row, t.get? e.1 = some row := fun e member =>
    (each e member).imp fun _ own => own.elim fun _ both => both.1
  obtain ⟨replaced, t', ran⟩ := replaceAll_set sound.valid at_p plain ids fun e member => by
    obtain ⟨row, m, stored, new⟩ := each e member
    exact ⟨row, .integer m, stored, new, admits m⟩
  exact ⟨replaced, t', ran, (replaceAll_written ids stored ran).2⟩

/-- Writing a plan moves exactly the chosen positions. -/
theorem Plans.moved (plans : Plans t.scan p P delta pending) (layout : t'.layout = t.layout)
    (nextId : t'.nextId = t.nextId) (there : ∀ e ∈ pending, t'.get? e.1 = some e.2)
    (others : ∀ id, id ∉ pending.map (·.1) → t'.get? id = t.get? id) :
    t.Moved p (shifted P delta) t' := by
  refine ⟨layout, nextId, ?_, ?_⟩
  · intro id absent
    rw [others id, absent]
    intro written
    obtain ⟨e, member, rfl⟩ := List.mem_map.mp written
    obtain ⟨row, _, _, source, _⟩ := plans.sound e member
    rw [Sound.mem_scan.mp source] at absent
    cases absent
  · intro id row n stored cell
    cases picked : P id n.toInt with
    | true =>
      obtain ⟨new, member⟩ := plans.complete (id, row) (Sound.mem_scan.mpr stored) n cell picked
      obtain ⟨_, m, sum, rfl⟩ := plans.source member stored cell
      exact ⟨m, by rw [shifted, if_pos picked, addChecked_eq_some sum], there _ member⟩
    | false =>
      have untouched : id ∉ pending.map (·.1) := by
        intro written
        obtain ⟨e, member, rfl⟩ := List.mem_map.mp written
        rw [(plans.source member stored cell).1] at picked
        cases picked
      obtain ⟨bound, value⟩ := List.getElem?_eq_some_iff.mp cell
      refine ⟨n, by rw [shifted, if_neg (by simp [picked])], ?_⟩
      rw [others id untouched, stored, ← value, List.set_getElem_self bound]

theorem scan_nodup (t : Table) : (t.scan.map (·.1)).Nodup := by
  refine List.pairwise_map.mpr (t.rows.sorted.imp ?_)
  intro a b lt same
  rw [same] at lt
  exact Key.irrefl _ lt

/-- A planned row is one of those that were looked at, with one cell set to what the update makes of
it. -/
theorem plan_source {i : Nat} (planned : t.plan u i entries = .ok pending) :
    (pending.map (·.1)).Sublist (entries.map (·.1)) ∧ ∀ e ∈ pending, ∃ row old v,
      (e.1, row) ∈ entries ∧ row[i]? = some old ∧ assigned u e.1 old = .ok v ∧
        e.2 = row.set i v := by
  induction entries generalizing pending with
  | nil =>
    cases planned
    exact ⟨.slnil, by simp⟩
  | cons first rest ih =>
    obtain ⟨id, row⟩ := first
    obtain ⟨met, _, planned⟩ := Except.bind_eq_ok planned
    cases met with
    | false =>
      obtain ⟨ids, source⟩ := ih planned
      refine ⟨ids.cons _, fun e member => ?_⟩
      obtain ⟨row', old, v, there, rest⟩ := source e member
      exact ⟨row', old, v, List.mem_cons_of_mem _ there, rest⟩
    | true =>
      obtain ⟨old, cell, planned⟩ := Except.bind_eq_ok planned
      obtain ⟨v, value, planned⟩ := Except.bind_eq_ok planned
      obtain ⟨later, remaining, last⟩ := Except.bind_eq_ok planned
      cases last
      obtain ⟨ids, source⟩ := ih remaining
      refine ⟨ids.cons_cons _, fun e member => ?_⟩
      rcases List.mem_cons.mp member with rfl | member
      · have there : row[i]? = some old := by
          unfold cellAt at cell
          split at cell
          case h_1 found =>
            cases cell
            exact found
          case h_2 => cases cell
        exact ⟨row, old, v, List.mem_cons_self .., there, value, rfl⟩
      · obtain ⟨row', old', v', there, rest⟩ := source e member
        exact ⟨row', old', v', List.mem_cons_of_mem _ there, rest⟩

/-- A shift puts a value into a cell that the column admits if it admits the one before. -/
theorem check_assigned {c : Column} {old v : Value} (shift : u.assignment = .shift delta)
    (value : assigned u id old = .ok v) (admitted : c.check old = .ok ()) : c.check v = .ok () := by
  unfold assigned at value
  rw [shift] at value
  cases old with
  | null =>
    cases value
    exact admitted
  | integer n =>
    dsimp only at value
    cases sum : addChecked n delta with
    | none =>
      rw [sum] at value
      cases value
    | some m =>
      rw [sum] at value
      cases value
      have same : c.check (.integer m) = c.check (.integer n) := by
        obtain ⟨name, type⟩ := c
        cases type <;> rfl
      rw [same]
      exact admitted
  | _ => cases value

/-- In a valid table a shift of a column that is not unique either happens or changes nothing,
whatever its cells are. -/
theorem updateWhere_plain (valid : t.Valid) (shift : u.assignment = .shift delta)
    (plain : ∀ i c, t.layout.index u.column = .ok i → t.columns[i]? = some c → c.unique = false) :
    (∃ replaced t', t.updateWhere u = (.ok replaced, t')) ∨
    ∃ e, t.updateWhere u = (.error e, t) := by
  rcases t.updateWhere_spec u with ⟨e, failed⟩ | ⟨i, pending, place, planned, ran⟩
  · exact .inr ⟨e, failed⟩
  · obtain ⟨ids, source⟩ := plan_source planned
    obtain ⟨c, at_i⟩ : ∃ c, t.columns[i]? = some c := by
      unfold TableLayout.index at place
      split at place
      case h_1 found =>
        cases place
        exact ⟨_, List.getElem?_eq_getElem (List.findIdx?_eq_some_iff_getElem.mp found).1⟩
      case h_2 => cases place
    obtain ⟨replaced, t', written⟩ :=
      replaceAll_set valid at_i (plain i c place at_i) (t.scan_nodup.sublist ids) fun e member => by
        obtain ⟨row, old, v, there, cell, value, new⟩ := source e member
        have stored := mem_scan.mp there
        exact ⟨row, v, stored, new,
          check_assigned shift value (checkRow_get (valid.checked e.1 row stored) at_i cell)⟩
    exact .inl ⟨replaced, t', ran.trans written⟩

/-- A bulk shift moves exactly the chosen positions, or fails before it writes anything. -/
theorem updateWhere_shift (sound : t.Sound) (ranks : t.layout.RanksBy column p)
    (known : t.Known p) (f : Filter) (decides : t.Decides f p P) (name : String) (delta : Int64) :
    (∃ replaced t', t.updateWhere ⟨name, column, .shift delta, f⟩ = (.ok replaced, t') ∧
      t.Moved p (shifted P delta) t') ∨
    ∃ e, t.updateWhere ⟨name, column, .shift delta, f⟩ = (.error e, t) ∧
      ∃ id row n, t.get? id = some row ∧ row[p]? = some (.integer n) ∧ P id n.toInt = true ∧
        addChecked n delta = none := by
  have chosen : ∀ e ∈ t.scan, ∃ n, e.2[p]? = some (.integer n) ∧
      t.meets f e.2 = .ok (P e.1 n.toInt) := by
    intro e member
    have stored := Sound.mem_scan.mp member
    obtain ⟨n, cell⟩ := known e.1 e.2 stored
    exact ⟨n, cell, decides e.1 e.2 n stored cell⟩
  have shifts : (Update.mk name column (.shift delta) f).assignment = .shift delta := rfl
  rcases t.plan_shift shifts chosen with
    ⟨pending, planned, plans⟩ | ⟨e, failed, x, member, n, cell, rest⟩
  · obtain ⟨replaced, t', ran, layout, nextId, there, others⟩ :=
      replaceAll_moved sound ranks (t.scan_nodup.sublist plans.ids) fun e member => by
        obtain ⟨row, n, m, source, _, _, _, new⟩ := plans.sound e member
        exact ⟨row, m, Sound.mem_scan.mp source, new⟩
    refine .inl ⟨replaced, t', ?_, plans.moved layout nextId there others⟩
    simp [updateWhere, ranks.place, planned, ran]
  · refine .inr ⟨e, ?_, x.1, x.2, n, Sound.mem_scan.mp member, cell, rest⟩
    simp [updateWhere, ranks.place, failed]

end Table
end RankedStore
