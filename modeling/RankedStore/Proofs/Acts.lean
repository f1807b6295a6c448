import RankedStore.Session.Statement
import RankedStore.Session.Transaction
import RankedStore.Proofs.Outcome
import RankedStore.Proofs.UndoLog

/-! What an action does to the tables that its connection sees, told without the rest of the
session: its answer, the tables after it and the changes that it notes depend on the tables before
it alone, be it inside a transaction or outside of any. -/
namespace RankedStore

namespace Connection

/-- A connection outside any transaction. -/
def idle (begun : Nat) : Connection := { log := .ofLevels [] begun }

/-- A connection inside a transaction, with the changes of each open level, innermost first. -/
def inside (w : Workspace) (levels : List (List Change)) (begun : Nat) : Connection :=
  { workspace := some w, log := .ofLevels levels begun }

end Connection

namespace Session

variable (k : Committed) (n : Nat) (trace : List Trace.Event)

@[simp] theorem log_idle : log ⟨k, .idle n, trace⟩ = .ofLevels [] n := rfl

@[simp] theorem log_inside (w : Workspace) (levels : List (List Change)) :
    log ⟨k, .inside w levels n, trace⟩ = .ofLevels levels n := rfl

end Session

namespace Action

@[simp] theorem run_bind (a : ExceptT ε (StateM σ) α) (f : α → ExceptT ε (StateM σ) β) (s : σ) :
    (a >>= f).run s = match a.run s with
      | (.ok x, s') => (f x).run s'
      | (.error e, s') => (.error e, s') := by
  simp only [bind, ExceptT.bind, ExceptT.mk, ExceptT.run, StateT.bind, ExceptT.bindCont]
  rcases a s with ⟨_ | _, _⟩ <;> rfl

/-- The action, seeing the tables `c`, answers, leaves the tables `c'` and notes changes, newest
first. Inside a transaction it works on the copy alone. Outside, a change of the committed tables is
a new version. -/
structure Acts (a : Action α) (c : Catalog) (answer : Except Error α) (c' : Catalog)
    (written : List Change) : Prop where
  inside : ∀ k base level outer n trace, ∃ trace',
    a.run ⟨k, .inside ⟨c, base⟩ (level :: outer) n, trace⟩ =
      (answer, ⟨k, .inside ⟨c', base⟩ ((written ++ level) :: outer) n, trace'⟩)
  alone : ∀ k n trace, k.catalog = c → ∃ k' trace',
    a.run ⟨k, .idle n, trace⟩ = (answer, ⟨k', .idle n, trace'⟩) ∧ k'.catalog = c' ∧
      (k' = k ∨ k.version < k'.version)

namespace Acts

theorem pure (x : α) (c : Catalog) : Acts (Pure.pure x) c (.ok x) c [] where
  inside _ _ _ _ _ trace := ⟨trace, rfl⟩
  alone k _ trace same := ⟨k, trace, rfl, same, .inl rfl⟩

theorem throw (e : Error) (c : Catalog) :
    Acts (MonadExcept.throw e : Action α) c (.error e) c [] where
  inside _ _ _ _ _ trace := ⟨trace, rfl⟩
  alone k _ trace same := ⟨k, trace, rfl, same, .inl rfl⟩

theorem report (level : Trace.Level) (message : String) (fields : List (String × String))
    (c : Catalog) : Acts (Action.report level message fields) c (.ok ()) c [] where
  inside _ _ _ _ _ _ := ⟨_, rfl⟩
  alone k _ _ same := ⟨k, _, rfl, same, .inl rfl⟩

theorem ofExcept {outcome : Except Error α} (h : outcome = answer) :
    Acts (Action.ofExcept outcome) c answer c [] := by
  subst h
  cases outcome with
  | ok x => exact pure x c
  | error e => exact throw e c

theorem read {f : Catalog → Except Error α} (h : f c = answer) :
    Acts (Action.read f) c answer c [] where
  inside k base level outer n trace := (ofExcept h).inside k base level outer n trace
  alone k n trace same := by
    subst same
    exact (ofExcept h).alone k n trace rfl

theorem write (f : Catalog → Except Error α × Catalog) (c : Catalog) :
    Acts (Action.write f) c (f c).1 (f c).2 [] where
  inside _ _ _ _ _ trace := ⟨trace, rfl⟩
  alone k n trace same := by
    subst same
    exact ⟨_, trace, rfl, rfl, .inr (Nat.lt_succ_self _)⟩

theorem write_of {f : Catalog → Except Error α × Catalog} (h : f c = (answer, c')) :
    Acts (Action.write f) c answer c' [] := by
  have acts := write f c
  rw [h] at acts
  exact acts

theorem record (change : Change) (c : Catalog) :
    Acts (Action.record change) c (.ok ()) c [change] where
  inside _ _ _ _ _ trace := ⟨trace, rfl⟩
  alone k _ trace same := ⟨k, trace, rfl, same, .inl rfl⟩

theorem bind {f : α → Action β} (first : Acts a c (.ok x) c₁ w₁)
    (second : Acts (f x) c₁ answer c₂ w₂) : Acts (a >>= f) c answer c₂ (w₂ ++ w₁) where
  inside k base level outer n trace := by
    obtain ⟨middle, ran⟩ := first.inside k base level outer n trace
    obtain ⟨last, ran'⟩ := second.inside k base (w₁ ++ level) outer n middle
    exact ⟨last, by rw [run_bind, ran, List.append_assoc]; exact ran'⟩
  alone k n trace same := by
    obtain ⟨k₁, middle, ran, same₁, order⟩ := first.alone k n trace same
    obtain ⟨k₂, last, ran', same₂, order'⟩ := second.alone k₁ n middle same₁
    refine ⟨k₂, last, by rw [run_bind, ran]; exact ran', same₂, ?_⟩
    rcases order with rfl | order
    · exact order'
    · rcases order' with rfl | order'
      · exact .inr order
      · exact .inr (Nat.lt_trans order order')

theorem bind_error {a : Action α} {f : α → Action β} (first : Acts a c (.error e) c' w) :
    Acts (a >>= f) c (.error e) c' w where
  inside k base level outer n trace := by
    obtain ⟨middle, ran⟩ := first.inside k base level outer n trace
    exact ⟨middle, by rw [run_bind, ran]⟩
  alone k n trace same := by
    obtain ⟨k', middle, ran, rest⟩ := first.alone k n trace same
    exact ⟨k', middle, by rw [run_bind, ran], rest⟩

/-- An action that notes nothing before another one. -/
theorem after {f : α → Action β} (first : Acts a c (.ok x) c₁ [])
    (second : Acts (f x) c₁ answer c' w) : Acts (a >>= f) c answer c' w := by
  simpa only [List.append_nil] using first.bind second

/-- An action that notes nothing after another one. -/
theorem followed {f : α → Action β} (first : Acts a c (.ok x) c' w)
    (second : Acts (f x) c' answer c' []) : Acts (a >>= f) c answer c' w := by
  simpa only [List.nil_append] using first.bind second

end Acts
end Action
end RankedStore
