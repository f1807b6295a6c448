import RankedStore.Proofs.Tracked

/-! Actions whose notes are exact up to a relation of tables. An update that fails halfway notes
nothing, so no notes bring back the cells that it changed, but they still bring back which rows
there were. What an action achieves is told for success alone: after a failure only its notes
matter. -/
namespace RankedStore.Action

/-- The action notes what it takes to undo it, up to a relation of tables, and success without notes
leaves the tables alone. -/
structure Noted (ρ : Table → Table → Prop) (a : Action α) (c : Catalog) (answer : Except Error α)
    (c' : Catalog) (written : List Change) : Prop extends Acts a c answer c' written where
  restores : c'.RestoresUpTo ρ written c
  silent : ∀ x, answer = .ok x → written = [] → c' = c

variable {ρ : Table → Table → Prop}

theorem Tracked.noted (stable : Table.Stable ρ) (tracked : Tracked a c answer c' written) :
    Noted ρ a c answer c' written :=
  ⟨tracked.toActs, tracked.restores.upTo stable, fun _ _ => tracked.silent⟩

namespace Noted

theorem bind {f : α → Action β} (stable : Table.Stable ρ) (first : Noted ρ a c (.ok x) c₁ w₁)
    (second : Noted ρ (f x) c₁ answer c₂ w₂) : Noted ρ (a >>= f) c answer c₂ (w₂ ++ w₁) where
  toActs := first.toActs.bind second.toActs
  restores := second.restores.trans stable first.restores
  silent y succeeded none := by
    obtain ⟨none₂, none₁⟩ := List.append_eq_nil_iff.mp none
    rw [second.silent y succeeded none₂, first.silent x rfl none₁]

theorem bind_error {a : Action α} {f : α → Action β} (first : Noted ρ a c (.error e) c' w) :
    Noted ρ (a >>= f) c (.error e) c' w where
  toActs := first.toActs.bind_error
  restores := first.restores
  silent := by rintro y ⟨⟩

end Noted

/-- Seeing the tables `c`, the action either achieves `Q` or fails. In both cases its notes lead
back to these tables, up to a relation. -/
def Tries (ρ : Table → Table → Prop) (a : Action α) (c : Catalog) (Q : α → Catalog → Prop) : Prop :=
  ∃ answer c' written, Noted ρ a c answer c' written ∧ ∀ x, answer = .ok x → Q x c'

namespace Tries

variable {Q : α → Catalog → Prop} {R : β → Catalog → Prop} {name column : String} {id : Int64}
  {row : Row}

theorem ofTracked (stable : Table.Stable ρ) (tracked : Tracked a c answer c' written)
    (achieves : ∀ x, answer = .ok x → Q x c') : Tries ρ a c Q :=
  ⟨answer, c', written, tracked.noted stable, achieves⟩

theorem pure (stable : Table.Stable ρ) (holds : Q x c) : Tries ρ (Pure.pure x) c Q := by
  refine .ofTracked stable (Tracked.pure x c) ?_
  rintro _ ⟨⟩
  exact holds

theorem throw (stable : Table.Stable ρ) (e : Error) (c : Catalog) :
    Tries ρ (MonadExcept.throw e : Action α) c Q := by
  refine .ofTracked stable (Tracked.throw e c) ?_
  rintro _ ⟨⟩

theorem report (stable : Table.Stable ρ) {Q : Unit → Catalog → Prop} (level : Trace.Level)
    (message : String) (fields : List (String × String)) (holds : Q () c) :
    Tries ρ (Action.report level message fields) c Q := by
  refine .ofTracked stable (Tracked.report level message fields c) ?_
  rintro _ ⟨⟩
  exact holds

theorem weaken (tries : Tries ρ a c Q) {Q' : α → Catalog → Prop}
    (weaker : ∀ x c', Q x c' → Q' x c') :
    Tries ρ a c Q' := by
  obtain ⟨answer, c', written, noted, achieves⟩ := tries
  exact ⟨answer, c', written, noted, fun x succeeded => weaker x c' (achieves x succeeded)⟩

theorem bind (stable : Table.Stable ρ) {f : α → Action β} (first : Tries ρ a c Q)
    (second : ∀ x c', Q x c' → Tries ρ (f x) c' R) : Tries ρ (a >>= f) c R := by
  obtain ⟨answer, c₁, w₁, noted, achieves⟩ := first
  cases answer with
  | error e =>
    refine ⟨.error e, c₁, w₁, noted.bind_error, ?_⟩
    rintro _ ⟨⟩
  | ok x =>
    obtain ⟨answer', c₂, w₂, noted', achieves'⟩ := second x c₁ (achieves x rfl)
    exact ⟨answer', c₂, w₂ ++ w₁, noted.bind stable noted', achieves'⟩

/-- After an action that only looks at the tables. -/
theorem after (stable : Table.Stable ρ) {f : α → Action β} (first : Tracked a c answer c [])
    (second : ∀ x, answer = .ok x → Tries ρ (f x) c R) : Tries ρ (a >>= f) c R := by
  refine .bind stable (.ofTracked stable first (Q := fun x d => answer = .ok x ∧ d = c)
    fun x succeeded => ⟨succeeded, rfl⟩) ?_
  rintro x _ ⟨succeeded, rfl⟩
  exact second x succeeded

theorem insert (stable : Table.Stable ρ) {Q : Int64 → Catalog → Prop}
    (holds : ∀ id c', c.insert name row = (.ok id, c') → Q id c') :
    Tries ρ (Action.insert name row) c Q := by
  rcases ran : c.insert name row with ⟨e | id, c'⟩
  · refine .ofTracked stable (insert_failed ran) ?_
    rintro _ ⟨⟩
  · refine .ofTracked stable (insert_tracked ran) ?_
    rintro _ ⟨⟩
    exact holds id c' ran

theorem replace (stable : Table.Stable ρ) {Q : Unit → Catalog → Prop}
    (holds : ∀ old c', c.replace name id row = (.ok (some old), c') → Q () c') :
    Tries ρ (Action.replace name id row) c Q := by
  rcases ran : c.replace name id row with ⟨e | _ | old, c'⟩
  · refine .ofTracked stable (replace_failed ran) ?_
    rintro _ ⟨⟩
  · refine .ofTracked stable (replace_missing ran) ?_
    rintro _ ⟨⟩
  · refine .ofTracked stable (replace_tracked ran) ?_
    rintro _ ⟨⟩
    exact holds old c' ran

/-- A deletion tells whether there was a row. -/
theorem delete (stable : Table.Stable ρ) {Q : Bool → Catalog → Prop}
    (deleted : ∀ old c', c.delete name id = (.ok (some old), c') → Q true c')
    (missing : Q false c) :
    Tries ρ (Action.delete name id) c Q := by
  rcases ran : c.delete name id with ⟨e | _ | old, c'⟩
  · refine .ofTracked stable (delete_failed ran) ?_
    rintro _ ⟨⟩
  · refine .ofTracked stable (delete_missing ran) ?_
    rintro _ ⟨⟩
    exact missing
  · refine .ofTracked stable (delete_tracked ran) ?_
    rintro _ ⟨⟩
    exact deleted old c' ran

/-- Setting one cell overwrites the row if that passes the checks. -/
theorem updateById (stable : Table.Stable ρ) {value : Value} {Q : Unit → Catalog → Prop}
    (holds : ∀ row old c', c.replace name id row = (.ok (some old), c') → Q () c') :
    Tries ρ (Action.updateById name id column value) c Q := by
  unfold Action.updateById
  refine .after stable (.report ..) fun _ _ => .after stable (.read rfl) fun stored _ => ?_
  cases stored with
  | none => exact .throw stable _ c
  | some old =>
    refine .after stable (.read rfl) fun layout _ => .after stable (.ofExcept rfl) fun i _ => ?_
    split
    case isTrue => exact .replace stable fun _ c' ran => holds _ _ c' ran
    case isFalse => exact .throw stable _ c

/-- An update that leaves related tables even where it fails needs no notes to lead back to them. -/
theorem updateWhere (stable : Table.Stable ρ) {Q : Nat → Catalog → Prop}
    (related : c.Related ρ (c.updateWhere u).2)
    (holds : ∀ replaced c', c.updateWhere u = (.ok replaced, c') → Q replaced.length c') :
    Tries ρ (Action.updateWhere u) c Q := by
  rcases ran : c.updateWhere u with ⟨e | replaced, c'⟩
  · have noted : Noted ρ (Action.updateWhere u) c (.error e) c' [] := by
      rw [ran] at related
      exact ⟨updateWhere_acts_error ran, ⟨c', rfl, related⟩, by rintro x ⟨⟩⟩
    exact ⟨_, _, _, noted, by rintro x ⟨⟩⟩
  · refine .ofTracked stable (updateWhere_tracked ran) ?_
    rintro _ ⟨⟩
    exact holds replaced c' ran

end Tries
end RankedStore.Action
