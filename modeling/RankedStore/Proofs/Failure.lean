import RankedStore.Proofs.Operations
import RankedStore.Proofs.Ranking.Registered

/-! Operations that fail. On tables whose rows satisfy their columns they leave every row, the
transaction and the records of the caller as they were, at any depth. -/
namespace RankedStore

open RankedStore.Action

/-- All tables satisfy their columns. -/
def Catalog.Valid (c : Catalog) : Prop := ∀ name t, c.tables.get? name = some t → t.Valid

/-- The positions of an entity type may be equal, as far as the columns of their table are
concerned. -/
def Ranking.Plain (k : Ranking) (c : Catalog) : Prop :=
  ∀ t column, c.tables.get? k.entity = some t → t.columns.find? k.column = some column →
    column.unique = false

/-- The same of the entity type of this name, if it is ranked. The other types of the registry are
free. -/
def Registry.Plain (g : Registry) (entity : String) (c : Catalog) : Prop :=
  ∀ reg k, g.find? entity = .ok reg → reg.ranking = some k → k.Plain c

theorem Columns.find?_of_index {columns : Columns} {name : String} {i : Nat} {c : Column}
    (place : columns.index? name = some i) (here : columns[i]? = some c) :
    columns.find? name = some c := by
  unfold Columns.index? at place
  unfold Columns.find?
  obtain ⟨bound, rfl⟩ := List.getElem?_eq_some_iff.mp here
  obtain ⟨_, named, before⟩ := List.findIdx?_eq_some_iff_getElem.mp place
  refine List.find?_eq_some_iff_getElem.mpr ⟨named, i, bound, rfl, fun j lt => ?_⟩
  simpa using before j lt

/-- Such positions are shifted, or a shift changes nothing. -/
theorem Ranking.Plain.shifts {k : Ranking} {c : Catalog} (plain : k.Plain c) (valid : c.Valid) :
    k.Shifts Table.Grown c fun _ => True := by
  intro delta f
  have stable := Table.grown_stable
  cases found : c.tables.get? k.entity with
  | none =>
    have ran : c.updateWhere ⟨k.entity, k.column, .shift delta, f⟩ =
      (.error (.tableNotFound k.entity), c) := by
      simp only [Catalog.updateWhere, Catalog.table, found]
    exact .ofTracked stable (.ofActs (updateWhere_acts_error ran)) (by rintro x ⟨⟩)
  | some t =>
    have ran : c.updateWhere ⟨k.entity, k.column, .shift delta, f⟩ = _ :=
      Catalog.updateWhere_eq found
    have unshared : ∀ i column, t.layout.index k.column = .ok i → t.columns[i]? = some column →
        column.unique = false := by
      intro i column place here
      apply plain t column found
      unfold TableLayout.index at place
      split at place
      case h_1 index =>
        cases place
        exact Columns.find?_of_index index here
      case h_2 => cases place
    rcases Table.updateWhere_plain (valid k.entity t found)
      (u := ⟨k.entity, k.column, .shift delta, f⟩) rfl unshared
      with ⟨replaced, t', shifted⟩ | ⟨e, failed⟩
    · rw [shifted] at ran
      exact .ofTracked stable (updateWhere_tracked ran) fun _ _ => trivial
    · rw [failed] at ran
      dsimp only at ran
      rw [Catalog.withTable_of_get? found] at ran
      exact .ofTracked stable (.ofActs (updateWhere_acts_error ran)) (by rintro x ⟨⟩)

variable {ρ σ : Type}

namespace InPlace

/-- The operation leaves the records alone, whether it succeeds or not. -/
def Leaves (a : InPlace ρ α) : Prop := ∀ r s, (a.run r s).1.2 = r

/-- Where the operation fails on a connection, it leaves the records alone. -/
def Keeps (a : InPlace ρ α) : Prop :=
  ∀ r s e r' s', s.connection.Proper → a.run r s = ((.error e, r'), s') → r' = r

namespace Leaves

theorem act (a : Action α) : Leaves (act a : InPlace ρ α) := fun _ _ => rfl

theorem bind {f : α → InPlace ρ β} (first : Leaves a) (second : ∀ x, Leaves (f x)) :
    Leaves (a >>= f) := by
  intro r s
  have same := first r s
  rw [run_bind]
  rcases ran : a.run r s with ⟨⟨e | x, r'⟩, s'⟩ <;> rw [ran] at same <;> cases same
  · rfl
  · exact second x r' s'

theorem attempt (leaves : Leaves a) : Leaves (InPlace.attempt a) := fun r s => leaves r s

theorem transactional (body : Leaves a) : Leaves (InPlace.transactional a) := by
  refine .bind (.act _) fun _ => .bind (.attempt body) fun outcome => ?_
  cases outcome with
  | ok result => exact .bind (.act _) fun _ _ _ => rfl
  | error e =>
    refine .bind (.attempt (.act _)) fun undone => ?_
    cases undone with
    | ok _ => exact fun _ _ => rfl
    | error failure => exact .bind (.act _) fun _ _ _ => rfl

/-- Before a removal nothing happens to the record. -/
theorem beforeRemove (reg : Registration) : Leaves (reg.dispatch .beforeRemove) := by
  intro r s
  unfold Registration.dispatch
  split
  · rfl
  · rfl

end Leaves

namespace Keeps

theorem ofLeaves (leaves : Leaves a) : Keeps a := by
  intro r s e r' s' _ ran
  have same := leaves r s
  rw [ran] at same
  exact same

theorem get {f : ρ → InPlace ρ β} (rest : ∀ r, Keeps (f r)) : Keeps (MonadState.get >>= f) :=
  fun r => rest r r

/-- After an action that only looks at the tables. -/
theorem looking {a : Action α} {f : α → InPlace ρ β} (looks : Looks a) (rest : ∀ x, Keeps (f x)) :
    Keeps (InPlace.act a >>= f) := by
  intro r s e r' s' proper failed
  obtain ⟨answer, seen⟩ := looks s.view
  obtain ⟨answer, s₁, ran, proper₁, _⟩ := (Completes.ofReading Table.grown_stable seen
    (Q := fun _ _ => True) fun _ _ => trivial).run Table.grown_stable proper
  rw [run_bind, run_act, ran] at failed
  cases answer with
  | error e =>
    cases failed
    rfl
  | ok x => exact rest x r s₁ e r' s' proper₁ failed

/-- Before an operation that does not fail. -/
theorem followed {f : α → InPlace ρ β} (first : Keeps a)
    (rest : ∀ x r s e, ((f x).run r s).1.1 ≠ .error e) : Keeps (a >>= f) := by
  intro r s e r' s' proper failed
  rw [run_bind] at failed
  rcases ran : a.run r s with ⟨⟨e | x, r₁⟩, s₁⟩ <;> rw [ran] at failed
  · cases failed
    exact first r s e r' s' proper ran
  · dsimp only at failed
    exact absurd (by rw [failed]) (rest x r₁ s₁ e)

theorem restoring (a : InPlace ρ α) : Keeps (InPlace.restoring a) := by
  intro r s e r' s' _ failed
  rw [run_restoring] at failed
  rcases ran : a.run r s with ⟨⟨e | x, r₁⟩, s₁⟩ <;> rw [ran] at failed <;> cases failed
  rfl

theorem beside (other : σ) {a : InPlace (ρ × σ) α} (keeps : Keeps a) :
    Keeps (InPlace.beside other a) := by
  intro r s e r' s' proper failed
  have first := keeps (r, other) s e (a.run (r, other) s).1.2 s' proper
  have ran : (InPlace.beside other a).run r s =
    (((a.run (r, other) s).1.1, (a.run (r, other) s).1.2.1), (a.run (r, other) s).2) := rfl
  rw [ran] at failed
  rcases outcome : a.run (r, other) s with ⟨⟨e' | x, records⟩, s₁⟩ <;>
    rw [outcome] at failed first <;> cases failed
  exact congrArg Prod.fst (first rfl)

/-- Done in place, the operation is the one on a copy: the record becomes the copy, or nothing
happens to it. -/
theorem run_eq {a : InPlace ρ Unit} {f : ρ → Action ρ} (keeps : Keeps a) (mirrors : a.Mirrors f)
    (proper : s.connection.Proper) (r : ρ) : a.run r s = match (f r).run s with
      | (.ok r', s') => ((.ok (), r'), s')
      | (.error e, s') => ((.error e, r), s') := by
  have copy : (onCopy a r).run s = (do return ((), ← f r) : Action (Unit × ρ)).run s := by
    rw [mirrors r]
  rw [run_onCopy, Action.run_bind] at copy
  rcases ran : a.run r s with ⟨⟨e | _, r'⟩, s'⟩ <;>
    rcases copied : (f r).run s with ⟨e' | r'', s''⟩ <;> rw [ran, copied] at copy <;> cases copy
  · rw [keeps r s e r' s' proper ran]
  · rfl

end Keeps
end InPlace

open InPlace

theorem Registry.save_keeps (g : Registry) : g.saveInPlace.Keeps := by
  refine .get fun _ => .looking (.ofExcept _) fun reg => .get fun _ => .get fun _ => ?_
  split
  case isTrue => exact .ofLeaves fun _ _ => rfl
  case isFalse =>
    refine .followed (.restoring _) ?_
    rintro _ r s e ⟨⟩

theorem Registry.remove_keeps (g : Registry) : g.removeInPlace.Keeps := by
  refine .get fun _ => .looking (.ofExcept _) fun reg => ?_
  refine .get fun _ => .looking (.ofExcept _) fun id => ?_
  refine .followed (.ofLeaves (.transactional ?_)) ?_
  · refine .bind (.beforeRemove reg) fun _ => .bind (.act _) fun deleted => ?_
    cases deleted with
    | true => exact fun _ _ => rfl
    | false => exact fun _ _ => rfl
  · rintro _ r s e ⟨⟩

namespace Ranking

/-- Once the store has exchanged two records, loading them does not fail, so none is loaded
alone. -/
theorem swap_keeps (k : Ranking) : k.swapInPlace.Keeps := by
  rintro ⟨r, other⟩ s e records s' proper failed
  obtain ⟨answer, s₁, ran, _, _, widths, _⟩ :=
    (k.exchangeRows_completes Table.grown_stable r other s.view).run Table.grown_stable proper
  unfold swapInPlace at failed
  rw [InPlace.run_bind, InPlace.run_get] at failed
  dsimp only at failed
  rw [InPlace.run_bind, run_act, ran] at failed
  cases answer with
  | error e =>
    cases failed
    rfl
  | ok result =>
    obtain ⟨layout, row, otherRow⟩ := result
    obtain ⟨width, otherWidth⟩ := widths _ rfl
    obtain ⟨loaded, load⟩ := load_eq_ok (r := r) width
    obtain ⟨otherLoaded, otherLoad⟩ := load_eq_ok (r := other) otherWidth
    simp only [load, otherLoad, check, Action.ofExcept] at failed
    cases failed

theorem move_keeps (k : Ranking) {atEnd : Record → Action Bool}
    {neighbor : Record → Action (Option Record)} (ends : ∀ r, Looks (atEnd r))
    (looks : ∀ r, Looks (neighbor r)) (already alone : Error.Precondition) :
    (k.moveInPlace atEnd neighbor already alone).Keeps := by
  refine .get fun r => .looking (ends r) fun ended => ?_
  cases ended with
  | true => exact .ofLeaves fun _ _ => rfl
  | false =>
    refine .get fun r => .looking (looks r) fun other => ?_
    cases other with
    | none => exact .ofLeaves fun _ _ => rfl
    | some other => exact .beside other k.swap_keeps

end Ranking

/-- Where the operation fails on these records, the rows that the connection sees, what is
committed, the depth of the transaction and the records of the caller are as they were. -/
def InPlace.Spares (a : InPlace σ α) (r : σ) (s : Session) : Prop :=
  ∀ e r' s', a.run r s = ((.error e, r'), s') → s.view.Grown s'.view ∧
    s'.committed.catalog = s.committed.catalog ∧ s'.log.depth = s.log.depth ∧ r' = r

/-- The operation in place does what the one on a copy does, and where it fails on these records all
is as it was. -/
structure InPlace.Carries (a : InPlace σ Unit) (f : σ → Action σ) (r : σ) (s : Session) : Prop where
  mirrors : a.Mirrors f
  spares : a.Spares r s

variable {s : Session}

theorem InPlace.Carries.of_completes {a : InPlace σ Unit} {f : σ → Action σ} {r : σ}
    {Q : σ → Catalog → Prop} (mirrors : a.Mirrors f) (keeps : a.Keeps)
    (proper : s.connection.Proper) (completes : Completes Table.Grown (f r) s.view Q) :
    a.Carries f r s := by
  refine ⟨mirrors, ?_⟩
  intro e r' s' failed
  obtain ⟨answer, s₁, ran, _, depth, _, unchanged⟩ := completes.run Table.grown_stable proper
  have copy : (onCopy a r).run s = (.error e, s') := by
    rw [run_onCopy, failed]
    rfl
  rw [mirrors r, Action.run_bind, ran] at copy
  cases answer with
  | ok x => cases copy
  | error e' =>
    cases copy
    obtain ⟨view, committed⟩ := unchanged e rfl
    exact ⟨view, committed, depth, keeps r s e r' s' proper failed⟩

theorem InPlace.Spares.of_act {a : Action α} {r : σ} {Q : α → Catalog → Prop}
    (proper : s.connection.Proper) (completes : Completes Table.Grown a s.view Q) :
    (act a : InPlace σ α).Spares r s := by
  intro e r' s' failed
  obtain ⟨answer, s₁, ran, _, depth, _, unchanged⟩ := completes.run Table.grown_stable proper
  rw [run_act, ran] at failed
  cases failed
  obtain ⟨view, committed⟩ := unchanged e rfl
  exact ⟨view, committed, depth, rfl⟩

theorem Registry.Plain.shifts {g : Registry} {c : Catalog} {entity : String} {reg : Registration}
    (plain : g.Plain entity c) (valid : c.Valid) (known : g.find? entity = .ok reg) :
    reg.Shifts Table.Grown c fun _ => True :=
  fun k ranking => (plain reg k known ranking).shifts valid

theorem Registry.save_carries {g : Registry} {r : Record} (valid : s.view.Valid)
    (plain : g.Plain r.entity s.view) (proper : s.connection.Proper) :
    g.saveInPlace.Carries g.save r s := by
  have stable := Table.grown_stable
  refine .of_completes g.save_mirrors g.save_keeps proper (Q := fun _ _ => True) ?_
  apply Registry.save_completes stable
  · exact fun reg known => Registration.beforeInsert_tries stable (plain.shifts valid known) trivial
  · exact fun reg known => Registration.beforeUpdate_tries stable (plain.shifts valid known) trivial
  · exact fun _ _ => trivial
  · exact fun _ _ _ _ _ _ _ _ _ _ _ => trivial
  · exact fun _ _ _ _ _ _ _ _ _ _ _ => trivial

theorem Registry.remove_carries {g : Registry} {r : Record} (valid : s.view.Valid)
    (plain : g.Plain r.entity s.view) (proper : s.connection.Proper) :
    g.removeInPlace.Carries g.remove r s := by
  have stable := Table.grown_stable
  refine .of_completes g.remove_mirrors g.remove_keeps proper (Q := fun _ _ => True) ?_
  apply Registry.remove_completes stable
  · exact fun reg known => Registration.beforeRemove_tries stable (plain.shifts valid known)
      trivial r
  · exact fun _ _ _ _ _ _ _ _ _ => trivial

/-- A failed save or removal of a record whose type has no unique positions changes nothing,
whatever the record holds, which other types there are and however deep the transaction is. A failed
exchange, move or renumbering changes nothing either, whatever records it was given. -/
theorem failed_operations_change_nothing {g : Registry} (valid : s.view.Valid)
    (proper : s.connection.Proper) :
    (∀ r : Record, g.Plain r.entity s.view →
      g.saveInPlace.Carries g.save r s ∧ g.removeInPlace.Carries g.remove r s) ∧
      ∀ k : Ranking, (∀ rs, k.swapInPlace.Carries (fun (r, other) => k.swap r other) rs s) ∧
        (∀ r, k.moveUpInPlace.Carries k.moveUp r s ∧ k.moveDownInPlace.Carries k.moveDown r s) ∧
        (act k.compact : InPlace Unit Nat).Spares () s := by
  have stable := Table.grown_stable
  refine ⟨fun r plain => ⟨Registry.save_carries valid plain proper,
    Registry.remove_carries valid plain proper⟩, fun k => ⟨fun rs => ?_, fun r => ⟨?_, ?_⟩, ?_⟩⟩
  · exact .of_completes k.swap_mirrors k.swap_keeps proper (k.swap_completes stable rs.1 rs.2 _)
  · exact .of_completes k.moveUp_mirrors (k.move_keeps k.isFirst_looks k.previous_looks _ _) proper
      (k.move_completes stable k.isFirst_looks k.previous_looks _ _ r _)
  · exact .of_completes k.moveDown_mirrors (k.move_keeps k.isLast_looks k.next_looks _ _) proper
      (k.move_completes stable k.isLast_looks k.next_looks _ _ r _)
  · refine .of_act proper (k.compact_completes stable (S := fun _ => True) ?_ trivial)
    exact fun _ _ _ _ _ _ _ => trivial

/-! A registry whose second type has unique positions. -/
namespace Companion

def unique : Column := { Sample.ranking.positionColumn with unique := true }

def registration : Registration :=
  { schema := { name := "u", columns := [unique], behaviors := [.plain] }
    layout := ⟨"u", [Column.id, unique]⟩
    ranking := some ⟨"u", {}⟩ }

def registry : Registry :=
  ⟨(Dict.empty.insert "t" Sample.registration).insert "u" registration⟩

/-- One row of the first type. -/
def stored : Table :=
  { Sample.table with rows := Dict.empty.insert 1 [.integer 1, .integer 1], nextId := 2 }

def catalog : Catalog :=
  ⟨(Dict.empty.insert "t" stored).insert "u" (.ofLayout registration.layout)⟩

/-- Its type has no column for the field. -/
def record : Record := { entity := "t", fields := Dict.empty.insert "x" (.integer 1) }

/-- A transaction within another one. -/
def session : Session := ⟨⟨.empty, 0⟩, .inside ⟨catalog, 0⟩ [[], []] 0, []⟩

theorem tables (found : catalog.tables.get? name = some t) :
    name = "t" ∧ t = stored ∨ name = "u" ∧ t = .ofLayout registration.layout := by
  rw [catalog, Dict.get?_insert, Dict.get?_insert] at found
  split at found
  case isTrue same => exact .inr ⟨same.symm, (Option.some.inj found).symm⟩
  case isFalse =>
    split at found
    case isTrue same => exact .inl ⟨same.symm, (Option.some.inj found).symm⟩
    case isFalse => cases found

theorem valid : session.view.Valid := by
  intro name t found
  rcases tables found with ⟨-, rfl⟩ | ⟨-, rfl⟩
  · have inserted : Sample.table.insert [.null, .integer 1] = .ok (1, stored) := rfl
    exact (Table.Sound.insert (.ofEmpty rfl) inserted).valid
  · exact (Table.Sound.ofEmpty rfl).valid

theorem plain : registry.Plain "t" session.view := by
  intro reg k known ranking t column found here
  obtain rfl : Sample.registration = reg := Except.ok.inj known
  obtain rfl : Sample.ranking = k := Option.some.inj ranking
  obtain rfl : stored = t := Option.some.inj found
  obtain rfl : Sample.ranking.positionColumn = column := Option.some.inj here
  rfl

theorem not_plain : ¬ registry.Plain "u" session.view := by
  intro plain
  have free := plain registration ⟨"u", {}⟩ rfl rfl (.ofLayout registration.layout) unique rfl rfl
  cases free

end Companion

/-- In a transaction within another one, and beside a type with unique positions, the ranking has
given a record its position before its row turns out to have a field without a column. -/
theorem failed_operations_change_nothing_inside : ∃ s', Companion.session.view.Valid ∧
    Companion.session.log.depth = 2 ∧ ¬ Companion.registry.Plain "u" Companion.session.view ∧
      (Registry.saveInPlace Companion.registry).run Companion.record Companion.session =
        ((.error (.columnNotFound "x" "t"), Companion.record), s') ∧
      Companion.session ≠ s' ∧ Companion.session.view.Grown s'.view ∧
      s'.committed.catalog = Companion.session.committed.catalog := by
  have failed : (Registry.saveInPlace Companion.registry).run Companion.record Companion.session =
    ((.error (.columnNotFound "x" "t"), Companion.record), _) := rfl
  have carries := (failed_operations_change_nothing Companion.valid (.inside ..)).1 Companion.record
    Companion.plain
  have spares := carries.1.spares _ _ _ failed
  exact ⟨_, Companion.valid, by decide, Companion.not_plain, failed, by decide, spares.1,
    spares.2.1⟩

end RankedStore
