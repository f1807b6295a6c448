import RankedStore.Proofs.Noted
import RankedStore.Proofs.Transaction

/-! Actions that happen as a whole or not at all. Such an action may open a transaction of its own,
so inside another one it is a level that is gone again when the action is over, and outside of any
it is committed or leaves the committed tables alone. -/
namespace RankedStore.Action

/-- The action, seeing the tables `c`, answers and leaves the tables `c'`. Inside a transaction a
failure leaves related tables, and what was noted brings back the tables before the action up to the
relation. -/
structure SettlesUpTo (ρ : Table → Table → Prop) (a : Action α) (c : Catalog)
    (answer : Except Error α) (c' : Catalog) : Prop where
  alone : ∀ k n trace, k.catalog = c → ∃ k' n' trace',
    a.run ⟨k, .idle n, trace⟩ = (answer, ⟨k', .idle n', trace'⟩) ∧ k'.catalog = c'
  inside : ∀ k base level outer n trace, ∃ d written n' trace',
    a.run ⟨k, .inside ⟨c, base⟩ (level :: outer) n, trace⟩ =
      (answer, ⟨k, .inside ⟨d, base⟩ ((written ++ level) :: outer) n', trace'⟩) ∧
      c'.Related ρ d ∧ d.RestoresUpTo ρ written c ∧ ∀ x, answer = .ok x → d = c'

/-- The action settles, and inside a transaction no more than ids may have been given out on the
way. -/
abbrev Settles (a : Action α) (c : Catalog) (answer : Except Error α) (c' : Catalog) : Prop :=
  SettlesUpTo Table.Grown a c answer c'

variable {ρ : Table → Table → Prop}

theorem run_transactional_ok {a : Action α} (began : begin.run s = (.ok (), s₁))
    (ran : a.run s₁ = (.ok x, s₂)) (committed : commit.run s₂ = (.ok (), s')) :
    (transactional a).run s = (.ok x, s') := by
  simp only [transactional, run_bind, began, run_attempt, ran, committed]
  rfl

theorem run_transactional_error {a : Action α} (began : begin.run s = (.ok (), s₁))
    (ran : a.run s₁ = (.error e, s₂)) (undone : rollback.run s₂ = (.ok (), s')) :
    (transactional a).run s = (.error e, s') := by
  simp only [transactional, run_bind, began, run_attempt, ran, undone]
  rfl

/-- A success settles also without a transaction of its own. -/
theorem Noted.settles (stable : Table.Stable ρ) {a : Action α} (noted : Noted ρ a c (.ok x) c' w) :
    SettlesUpTo ρ a c (.ok x) c' where
  alone k n trace same := by
    obtain ⟨k', trace', ran, same', _⟩ := noted.alone k n trace same
    exact ⟨k', n, trace', ran, same'⟩
  inside k base level outer n trace := by
    obtain ⟨trace', ran⟩ := noted.inside k base level outer n trace
    exact ⟨c', w, n, trace', ran, .refl stable c', noted.restores, fun _ _ => rfl⟩

theorem Noted.transactional (stable : Table.Stable ρ) {a : Action α}
    (body : Noted ρ a c (.ok x) c' w) :
    SettlesUpTo ρ (Action.transactional a) c (.ok x) c' where
  alone k n trace same := by
    subst same
    obtain ⟨n', trace₁, began⟩ := begin_idle k n trace
    obtain ⟨trace₂, ran⟩ := body.inside k k.version [] [] n' trace₁
    rw [List.append_nil] at ran
    by_cases silent : w = []
    · subst silent
      obtain ⟨trace₃, committed⟩ := commit_unchanged k ⟨c', k.version⟩ n' trace₂
      exact ⟨k, n', trace₃, run_transactional_ok began ran committed, (body.silent x rfl rfl).symm⟩
    · obtain ⟨trace₃, committed⟩ := commit_installs k ⟨c', k.version⟩ w n' trace₂ silent rfl
      exact ⟨⟨c', k.version + 1⟩, n', trace₃, run_transactional_ok began ran committed, rfl⟩
  inside k base level outer n trace := by
    obtain ⟨n', trace₁, began⟩ := begin_inside k ⟨c, base⟩ level outer n trace
    obtain ⟨trace₂, ran⟩ := body.inside k base [] (level :: outer) n' trace₁
    rw [List.append_nil] at ran
    obtain ⟨trace₃, committed⟩ := commit_inner k ⟨c', base⟩ w level outer n' trace₂
    exact ⟨c', w, n', trace₃, run_transactional_ok began ran committed, .refl stable c',
      body.restores,
      fun _ _ => rfl⟩

/-- A failure is rolled back, and the failure of the action is what is reported. -/
theorem Noted.transactional_error {a : Action α} (body : Noted ρ a c (.error e) c' w) :
    SettlesUpTo ρ (Action.transactional a) c (.error e) c where
  alone k n trace same := by
    subst same
    obtain ⟨n', trace₁, began⟩ := begin_idle k n trace
    obtain ⟨trace₂, ran⟩ := body.inside k k.version [] [] n' trace₁
    rw [List.append_nil] at ran
    obtain ⟨trace₃, undone⟩ := rollback_outermost k ⟨c', k.version⟩ w n' trace₂
    exact ⟨k, n', trace₃, run_transactional_error began ran undone, rfl⟩
  inside k base level outer n trace := by
    obtain ⟨n', trace₁, began⟩ := begin_inside k ⟨c, base⟩ level outer n trace
    obtain ⟨trace₂, ran⟩ := body.inside k base [] (level :: outer) n' trace₁
    rw [List.append_nil] at ran
    obtain ⟨trace₃, undone⟩ := rollback_inner k ⟨c', base⟩ w level outer n' trace₂
    obtain ⟨d, restored, related⟩ := body.restores
    rw [restored] at undone
    exact ⟨d, [], n', trace₃, run_transactional_error began ran undone, related, ⟨d, rfl, related⟩,
      by rintro x ⟨⟩⟩

theorem Tracked.transactional (body : Tracked a c (.ok x) c' w) :
    Settles (transactional a) c (.ok x) c' :=
  (body.noted Table.grown_stable).transactional Table.grown_stable

theorem Tracked.transactional_error {a : Action α} (body : Tracked a c (.error e) c' w) :
    Settles (Action.transactional a) c (.error e) c :=
  (body.noted Table.grown_stable).transactional_error

namespace SettlesUpTo

/-- An action that changes nothing settles, whatever it answers. -/
theorem ofReading (stable : Table.Stable ρ) (tracked : Tracked a c answer c []) :
    SettlesUpTo ρ a c answer c where
  alone k n trace same := by
    obtain ⟨k', trace', ran, same', _⟩ := tracked.alone k n trace same
    exact ⟨k', n, trace', ran, same'⟩
  inside k base level outer n trace := by
    obtain ⟨trace', ran⟩ := tracked.inside k base level outer n trace
    exact ⟨c, [], n, trace', ran, .refl stable c, .refl stable c, fun _ _ => rfl⟩

theorem ofTracked (tracked : Tracked a c answer c []) : Settles a c answer c :=
  .ofReading Table.grown_stable tracked

/-- After an action that changes nothing. -/
theorem after {f : α → Action β} (first : Tracked a c (.ok x) c [])
    (second : SettlesUpTo ρ (f x) c answer c') : SettlesUpTo ρ (a >>= f) c answer c' where
  alone k n trace same := by
    obtain ⟨k₁, trace₁, ran, same₁, _⟩ := first.alone k n trace same
    obtain ⟨k', n', trace', ran', same'⟩ := second.alone k₁ n trace₁ same₁
    exact ⟨k', n', trace', by rw [run_bind, ran]; exact ran', same'⟩
  inside k base level outer n trace := by
    obtain ⟨trace₁, ran⟩ := first.inside k base level outer n trace
    obtain ⟨d, written, n', trace', ran', rest⟩ := second.inside k base level outer n trace₁
    exact ⟨d, written, n', trace', by rw [run_bind, ran]; exact ran', rest⟩

/-- Before an action that changes nothing, whatever it sees. -/
theorem followed {f : α → Action β} (first : SettlesUpTo ρ a c (.ok x) c')
    (second : ∀ d, Tracked (f x) d answer d []) : SettlesUpTo ρ (a >>= f) c answer c' where
  alone k n trace same := by
    obtain ⟨k₁, n', trace₁, ran, same₁⟩ := first.alone k n trace same
    obtain ⟨k', trace', ran', same', _⟩ := (second c').alone k₁ n' trace₁ same₁
    exact ⟨k', n', trace', by rw [run_bind, ran]; exact ran', same'⟩
  inside k base level outer n trace := by
    obtain ⟨d, written, n', trace₁, ran, related, restores, unchanged⟩ :=
      first.inside k base level outer n trace
    obtain ⟨trace', ran'⟩ := (second d).inside k base (written ++ level) outer n' trace₁
    exact ⟨d, written, n', trace', by rw [run_bind, ran]; exact ran', related, restores,
      fun _ _ => unchanged x rfl⟩

theorem bind_error {a : Action α} {f : α → Action β} (first : SettlesUpTo ρ a c (.error e) c') :
    SettlesUpTo ρ (a >>= f) c (.error e) c' where
  alone k n trace same := by
    obtain ⟨k', n', trace', ran, same'⟩ := first.alone k n trace same
    exact ⟨k', n', trace', by rw [run_bind, ran], same'⟩
  inside k base level outer n trace := by
    obtain ⟨d, written, n', trace', ran, related, restores, _⟩ :=
      first.inside k base level outer n trace
    exact ⟨d, written, n', trace', by rw [run_bind, ran], related, restores, by rintro x ⟨⟩⟩

theorem answering (f : α → β) (settles : SettlesUpTo ρ a c answer c') :
    SettlesUpTo ρ (do return f (← a)) c (answer.map f) c' := by
  cases answer with
  | error e => exact settles.bind_error
  | ok x => exact settles.followed fun d => .pure (f x) d

end SettlesUpTo
end RankedStore.Action
