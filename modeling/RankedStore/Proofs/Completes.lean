import RankedStore.Proofs.Atomic
import RankedStore.Proofs.History

/-! Actions that achieve something as a whole or fail and change nothing. What is left of a failure
inside a transaction is a relation of tables, since ids may have been given out on the way. -/
namespace RankedStore.Action

variable {ρ : Table → Table → Prop} {Q : α → Catalog → Prop} {R : β → Catalog → Prop}

/-- Seeing the tables `c`, the action settles on tables with `Q`, or it fails and settles on `c`. -/
def Completes (ρ : Table → Table → Prop) (a : Action α) (c : Catalog) (Q : α → Catalog → Prop) :
    Prop :=
  ∃ answer c', SettlesUpTo ρ a c answer c' ∧ (∀ x, answer = .ok x → Q x c') ∧
    ∀ e, answer = .error e → c' = c

/-- What an action answers and leaves does not depend on the session. -/
theorem SettlesUpTo.unique {a : Action α} {answer' : Except Error α} {c₁ c₂ : Catalog}
    (first : SettlesUpTo ρ a c answer c₁) (second : SettlesUpTo ρ a c answer' c₂) :
    answer = answer' ∧ c₁ = c₂ := by
  obtain ⟨k₁, n₁, trace₁, ran₁, rfl⟩ := first.alone ⟨c, 0⟩ 0 [] rfl
  obtain ⟨k₂, n₂, trace₂, ran₂, rfl⟩ := second.alone ⟨c, 0⟩ 0 [] rfl
  obtain ⟨rfl, same⟩ := Prod.mk.inj (ran₁.symm.trans ran₂)
  exact ⟨rfl, congrArg (·.committed.catalog) same⟩

/-- What an action that settles does to a session. -/
theorem SettlesUpTo.runs {a : Action α} (settles : SettlesUpTo ρ a s.view answer c')
    (proper : s.connection.Proper) : ∃ s', a.run s = (answer, s') ∧ s'.connection.Proper ∧
      ∀ x, answer = .ok x → s'.view = c' := by
  obtain ⟨k, connection, trace⟩ := s
  cases proper with
  | idle n =>
    obtain ⟨_, n', _, ran, same⟩ := settles.alone k n trace rfl
    exact ⟨_, ran, .idle n', fun _ _ => same⟩
  | inside w level outer n =>
    obtain ⟨_, _, _, _, ran, _, _, exactly⟩ := settles.inside k w.base level outer n trace
    exact ⟨_, ran, .inside .., exactly⟩

theorem Tries.transactional (stable : Table.Stable ρ) (tries : Tries ρ a c Q) :
    Completes ρ (Action.transactional a) c Q := by
  obtain ⟨answer, c', written, noted, achieves⟩ := tries
  cases answer with
  | error e => exact ⟨.error e, c, noted.transactional_error, by rintro x ⟨⟩, fun _ _ => rfl⟩
  | ok x => exact ⟨.ok x, c', noted.transactional stable, achieves, by rintro e ⟨⟩⟩

namespace Completes

theorem ofReading (stable : Table.Stable ρ) (tracked : Tracked a c answer c [])
    (holds : ∀ x, answer = .ok x → Q x c) : Completes ρ a c Q :=
  ⟨answer, c, .ofReading stable tracked, holds, fun _ _ => rfl⟩

theorem ofTracked (stable : Table.Stable ρ) (tracked : Tracked a c (.ok x) c' written)
    (holds : Q x c') :
    Completes ρ a c Q := by
  refine ⟨.ok x, c', (tracked.noted stable).settles stable, ?_, by rintro e ⟨⟩⟩
  rintro _ ⟨⟩
  exact holds

/-- After an action that only looks at the tables. -/
theorem after (stable : Table.Stable ρ) {f : α → Action β} (first : Tracked a c answer c [])
    (second : ∀ x, answer = .ok x → Completes ρ (f x) c R) : Completes ρ (a >>= f) c R := by
  cases answer with
  | error e =>
    exact ⟨.error e, c, .ofReading stable first.bind_error, by rintro x ⟨⟩, fun _ _ => rfl⟩
  | ok x =>
    obtain ⟨answer', c', settles, achieves, unchanged⟩ := second x rfl
    exact ⟨answer', c', settles.after first, achieves, unchanged⟩

/-- After an action that only looks at the tables, whatever it sees. -/
theorem looking (stable : Table.Stable ρ) {f : α → Action β} (first : Looks a)
    (second : ∀ x, Completes ρ (f x) c R) : Completes ρ (a >>= f) c R := by
  obtain ⟨answer, seen⟩ := first c
  exact .after stable seen fun x _ => second x

/-- Before an action that only looks at the tables and does not fail. -/
theorem followed {f : α → Action β} (first : Completes ρ a c Q)
    (second : ∀ x c', Q x c' → ∃ y, (∀ d, Tracked (f x) d (.ok y) d []) ∧ R y c') :
    Completes ρ (a >>= f) c R := by
  obtain ⟨answer, c', settles, achieves, unchanged⟩ := first
  cases answer with
  | error e => exact ⟨.error e, c', settles.bind_error, by rintro x ⟨⟩, fun _ _ => unchanged e rfl⟩
  | ok x =>
    obtain ⟨y, seen, holds⟩ := second x c' (achieves x rfl)
    refine ⟨.ok y, c', settles.followed seen, ?_, by rintro e ⟨⟩⟩
    rintro _ ⟨⟩
    exact holds

theorem answering (f : α → β) (completes : Completes ρ a c Q)
    (holds : ∀ x c', Q x c' → R (f x) c') :
    Completes ρ (do return f (← a)) c R :=
  completes.followed fun x c' achieved => ⟨f x, fun _ => .pure .., holds x c' achieved⟩

theorem weaken (completes : Completes ρ a c Q) {Q' : α → Catalog → Prop}
    (weaker : ∀ x c', Q x c' → Q' x c') : Completes ρ a c Q' := by
  obtain ⟨answer, c', settles, achieves, unchanged⟩ := completes
  exact ⟨answer, c', settles, fun x succeeded => weaker x c' (achieves x succeeded), unchanged⟩

theorem and {Q' : α → Catalog → Prop} (left : Completes ρ a c Q) (right : Completes ρ a c Q') :
    Completes ρ a c fun x c' => Q x c' ∧ Q' x c' := by
  obtain ⟨answer, c', settles, achieves, unchanged⟩ := left
  obtain ⟨answer', c'', settles', achieves', _⟩ := right
  obtain ⟨rfl, rfl⟩ := settles.unique settles'
  exact ⟨answer, c', settles, fun x ok => ⟨achieves x ok, achieves' x ok⟩, unchanged⟩

/-- A whole action on a session: the depth stays, a success is seen by the connection, and a failure
leaves what the connection sees and what all see. -/
theorem run (stable : Table.Stable ρ) (completes : Completes ρ a s.view Q)
    (proper : s.connection.Proper) : ∃ answer s', a.run s = (answer, s') ∧ s'.connection.Proper ∧
      s'.log.depth = s.log.depth ∧ (∀ x, answer = .ok x → Q x s'.view) ∧
      ∀ e, answer = .error e → s.view.Related ρ s'.view ∧
        s'.committed.catalog = s.committed.catalog := by
  obtain ⟨answer, c', settles, achieves, unchanged⟩ := completes
  obtain ⟨k, connection, trace⟩ := s
  cases proper with
  | idle n =>
    obtain ⟨k', n', trace', ran, rfl⟩ := settles.alone k n trace rfl
    refine ⟨answer, _, ran, .idle n', ?_, achieves, fun e failed => ?_⟩
    · simp [Session.log, Connection.idle]
    · have same : k'.catalog = k.catalog := unchanged e failed
      refine ⟨?_, same⟩
      show k.catalog.Related ρ k'.catalog
      rw [same]
      exact .refl stable _
  | inside w level outer n =>
    obtain ⟨d, written, n', trace', ran, related, _, exactly⟩ :=
      settles.inside k w.base level outer n trace
    refine ⟨answer, _, ran, .inside .., ?_, fun x succeeded => ?_, fun e failed => ?_⟩
    · simp [Session.log, Connection.inside]
    · show Q x d
      rw [exactly x succeeded]
      exact achieves x succeeded
    · have same : c' = w.catalog := unchanged e failed
      subst same
      exact ⟨related, rfl⟩

end Completes
end RankedStore.Action
