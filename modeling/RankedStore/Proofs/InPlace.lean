import RankedStore.InPlace
import RankedStore.Proofs.Ranking.Hooks

/-! Operations on the records of a caller and operations on copies. Both answer alike and do the
same to the store, and after a success the records of the caller are the changed copies. -/
namespace RankedStore

namespace InPlace

variable {ρ σ : Type}

@[simp] theorem run_bind (a : InPlace ρ α) (f : α → InPlace ρ β) (r : ρ) (s : Session) :
    (a >>= f).run r s = match a.run r s with
      | ((.ok x, r'), s') => (f x).run r' s'
      | ((.error e, r'), s') => ((.error e, r'), s') := by
  simp only [bind, ExceptT.bind, ExceptT.mk, ExceptT.run, StateT.bind, ExceptT.bindCont]
  rcases a r s with ⟨⟨_ | _, _⟩, _⟩ <;> rfl

@[simp] theorem run_act (a : Action α) (r : ρ) (s : Session) :
    (act a).run r s = (((a.run s).1, r), (a.run s).2) := rfl

@[simp] theorem run_get (r : ρ) (s : Session) : (get : InPlace ρ ρ).run r s = ((.ok r, r), s) := rfl

@[simp] theorem run_set (r r' : ρ) (s : Session) :
    (set r' : InPlace ρ PUnit).run r s = ((.ok (), r'), s) := rfl

@[simp] theorem run_attempt (a : InPlace ρ α) (r : ρ) (s : Session) :
    (attempt a).run r s = ((.ok (a.run r s).1.1, (a.run r s).1.2), (a.run r s).2) := rfl

/-- The operation on a copy, which it gives with its answer. A failure gives none. -/
def onCopy (a : InPlace ρ α) (r : ρ) : Action (α × ρ) := ExceptT.mk fun s =>
  ((a.run r s).1.1.map (·, (a.run r s).1.2), (a.run r s).2)

theorem run_onCopy (a : InPlace ρ α) (r : ρ) (s : Session) : (onCopy a r).run s =
    ((a.run r s).1.1.map (·, (a.run r s).1.2), (a.run r s).2) := rfl

@[simp] theorem onCopy_pure (x : α) (r : ρ) : onCopy (pure x) r = pure (x, r) := rfl

@[simp] theorem onCopy_bind (a : InPlace ρ α) (f : α → InPlace ρ β) (r : ρ) :
    onCopy (a >>= f) r = (onCopy a r >>= fun (x, r') => onCopy (f x) r') := by
  funext s
  show (onCopy (a >>= f) r).run s = (onCopy a r >>= fun (x, r') => onCopy (f x) r').run s
  rw [run_onCopy, run_bind, Action.run_bind, run_onCopy]
  rcases a.run r s with ⟨⟨e | x, r'⟩, s'⟩ <;> rfl

@[simp] theorem onCopy_act (a : Action α) (r : ρ) : onCopy (act a) r = (do return (← a, r)) := by
  funext s
  show (onCopy (act a) r).run s = (do return (← a, r) : Action (α × ρ)).run s
  rw [run_onCopy, run_act, Action.run_bind]
  rcases a.run s with ⟨e | x, s'⟩ <;> rfl

@[simp] theorem onCopy_transactional (body : InPlace ρ α) (r : ρ) :
    onCopy (InPlace.transactional body) r = Action.transactional (onCopy body r) := by
  funext s
  show (onCopy (InPlace.transactional body) r).run s = (Action.transactional (onCopy body r)).run s
  rw [run_onCopy]
  simp only [InPlace.transactional, Action.transactional, run_bind, Action.run_bind, run_act,
    run_attempt, Action.run_attempt, run_onCopy]
  rcases Action.begin.run s with ⟨e | _, s₁⟩
  · rfl
  dsimp only
  rcases body.run r s₁ with ⟨⟨e | x, r'⟩, s₂⟩
  · simp only [Except.map, run_bind, Action.run_bind, run_attempt, Action.run_attempt, run_act]
    rcases Action.rollback.run s₂ with ⟨failure | _, s₃⟩ <;> rfl
  · simp only [Except.map, run_bind, Action.run_bind, run_act]
    rcases Action.commit.run s₂ with ⟨e | _, s₃⟩ <;> rfl

@[simp] theorem onCopy_check (outcome : Except Error α) (r : ρ) :
    onCopy (check outcome) r = (do return (← Action.ofExcept outcome, r)) := onCopy_act ..

@[simp] theorem onCopy_get (r : ρ) : onCopy (get : InPlace ρ ρ) r = pure (r, r) := rfl

@[simp] theorem onCopy_set (r r' : ρ) : onCopy (set r' : InPlace ρ PUnit) r = pure ((), r') := rfl

@[simp] theorem onCopy_modify (f : ρ → ρ) (r : ρ) :
    onCopy (modify f : InPlace ρ PUnit) r = pure ((), f r) := rfl

theorem run_restoring (a : InPlace ρ α) (r : ρ) (s : Session) :
    (restoring a).run r s = match a.run r s with
      | ((.ok x, r'), s') => ((.ok x, r'), s')
      | ((.error e, _), s') => ((.error e, r), s') := by
  simp only [restoring, run_bind, run_get, run_attempt]
  rcases a.run r s with ⟨⟨e | x, r'⟩, s'⟩ <;> rfl

@[simp] theorem onCopy_restoring (a : InPlace ρ α) (r : ρ) :
    onCopy (restoring a) r = onCopy a r := by
  funext s
  show (onCopy (restoring a) r).run s = (onCopy a r).run s
  rw [run_onCopy, run_onCopy, run_restoring]
  rcases a.run r s with ⟨⟨e | x, r'⟩, s'⟩ <;> rfl

@[simp] theorem onCopy_beside (other : σ) (a : InPlace (ρ × σ) α) (r : ρ) :
    onCopy (InPlace.beside other a) r = (do
      let (x, records) ← onCopy a (r, other)
      return (x, records.1)) := by
  funext s
  show (onCopy (InPlace.beside other a) r).run s = (do
    let (x, records) ← onCopy a (r, other)
    return (x, records.1) : Action _).run s
  rw [Action.run_bind, run_onCopy, run_onCopy]
  show (Except.map _ (a.run (r, other) s).1.1, (a.run (r, other) s).2) = _
  rcases (a.run (r, other) s).1.1 with e | x <;> rfl

end InPlace

open InPlace

/-- The operation in place answers as the one on a copy does, and makes of the record what that
gives. -/
def InPlace.Mirrors (a : InPlace ρ Unit) (f : ρ → Action ρ) : Prop :=
  ∀ r, onCopy a r = (do return ((), ← f r))

theorem Action.transactional_map (f : α → β) (a : Action α) :
    Action.transactional (do return f (← a)) = (do return f (← Action.transactional a)) := by
  funext s
  show (Action.transactional (do return f (← a))).run s = (do return f (← Action.transactional a) :
    Action β).run s
  simp only [Action.transactional, Action.run_bind, Action.run_attempt]
  rcases Action.begin.run s with ⟨e | _, s₁⟩
  · rfl
  dsimp only
  rcases a.run s₁ with ⟨e | x, s₂⟩
  · simp only [Action.run_bind, Action.run_attempt]
    rcases Action.rollback.run s₂ with ⟨failure | _, s₃⟩ <;> rfl
  · simp only [Action.run_bind, Action.run_pure]
    rcases Action.commit.run s₂ with ⟨e | _, s₃⟩ <;> rfl

theorem InPlace.Mirrors.transactional {a : InPlace ρ Unit} {f : ρ → Action ρ}
    (mirrors : a.Mirrors f) :
    (InPlace.transactional a).Mirrors fun r => Action.transactional (f r) := by
  intro r
  rw [onCopy_transactional, mirrors r, Action.transactional_map]

theorem Registration.dispatch_mirrors (g : Registration) (event : Lifecycle) :
    (g.dispatch event).Mirrors (g.onEvent event) := by
  intro r
  cases ranking : g.ranking with
  | none => simp [dispatch, onEvent, ranking]
  | some k =>
    funext s
    show (onCopy (g.dispatch event) r).run s = (do return ((), ← g.onEvent event r) : Action _).run
      s
    rw [run_onCopy, Action.run_bind, Registration.run_onEvent ranking]
    simp only [dispatch, ranking]
    show (Except.map _ (k.onEvent event r s).1.1, (k.onEvent event r s).2) = _
    rcases (k.onEvent event r s).1.1 with e | _ <;> rfl

namespace Registry

theorem insert_mirrors (reg : Registration) : (insertInPlace reg).Mirrors (insertRecord reg) := by
  intro r
  simp [insertInPlace, insertRecord, reg.dispatch_mirrors _ r]

theorem update_mirrors (reg : Registration) : (updateInPlace reg).Mirrors (updateRecord reg) := by
  intro r
  simp [updateInPlace, updateRecord, reg.dispatch_mirrors _ r]

theorem save_mirrors (g : Registry) : g.saveInPlace.Mirrors g.save := by
  intro r
  have body (reg : Registration) := InPlace.Mirrors.transactional (a := do
    if (← get).isNew then insertInPlace reg else updateInPlace reg)
    (f := fun r => if r.isNew then insertRecord reg r else updateRecord reg r) (by
      intro r
      simp only [onCopy_bind, onCopy_get, pure_bind]
      cases r.isNew with
      | true => simp only [if_true, insert_mirrors reg r]
      | false => simp only [Bool.false_eq_true, if_false, update_mirrors reg r]) r
  simp only [saveInPlace, save, onCopy_bind, onCopy_get, onCopy_check, bind_assoc, pure_bind]
  congr 1
  funext reg
  by_cases clean : (!r.isNew && !r.isDirty) = true
  · simp [clean]
  · simp [clean, body]

theorem remove_mirrors (g : Registry) : g.removeInPlace.Mirrors g.remove := by
  intro r
  have body (reg : Registration) (id : Int64) := InPlace.Mirrors.transactional (a := do
    reg.dispatch .beforeRemove
    unless ← act (Action.delete reg.layout.name id) do throw (.entityNotFound reg.layout.name id))
    (f := fun r => do
      let record ← reg.onEvent .beforeRemove r
      if ← Action.delete reg.layout.name id then return record
      else throw (.entityNotFound reg.layout.name id)) (by
      intro r
      simp only [onCopy_bind, onCopy_act, reg.dispatch_mirrors _ r, bind_assoc, pure_bind]
      congr 1
      funext record
      congr 1
      funext deleted
      cases deleted <;> rfl) r
  simp only [removeInPlace, remove, onCopy_bind, onCopy_get, onCopy_check, onCopy_act,
    onCopy_modify, body, bind_assoc, pure_bind]

end Registry

namespace Ranking

theorem swap_eq (k : Ranking) (r other : Record) : k.swap r other = (do
    let (layout, row, otherRow) ← k.exchangeRows r other
    return (← Action.ofExcept (r.load layout row), ← Action.ofExcept
      (other.load layout otherRow))) := by
  simp only [swap, exchangeRows, bind_assoc, pure_bind]

theorem swap_mirrors (k : Ranking) : k.swapInPlace.Mirrors fun (r, other) => k.swap r other := by
  intro (r, other)
  simp [swapInPlace, swap_eq]

theorem move_mirrors (k : Ranking) (atEnd : Record → Action Bool)
    (neighbor : Record → Action (Option Record)) (already alone : Error.Precondition) :
    (k.moveInPlace atEnd neighbor already alone).Mirrors fun r => do
      if ← atEnd r then throw (.preconditionFailed already)
      match ← neighbor r with
      | none => throw (.preconditionFailed alone)
      | some other => return (← k.swap r other).1 := by
  intro r
  simp only [moveInPlace, onCopy_bind, onCopy_get, onCopy_act, bind_assoc, pure_bind]
  congr 1
  funext ended
  cases ended with
  | true => rfl
  | false =>
    simp only [Bool.false_eq_true, if_false, onCopy_bind, onCopy_get, onCopy_act, bind_assoc,
      pure_bind]
    congr 1
    funext other
    cases other with
    | none => rfl
    | some other => simp [k.swap_mirrors (r, other)]

theorem moveUp_mirrors (k : Ranking) : k.moveUpInPlace.Mirrors k.moveUp := k.move_mirrors _ _ _ _

theorem moveDown_mirrors (k : Ranking) : k.moveDownInPlace.Mirrors k.moveDown :=
  k.move_mirrors _ _ _ _

end Ranking
end RankedStore
