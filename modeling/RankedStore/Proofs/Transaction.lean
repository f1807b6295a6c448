import RankedStore.Proofs.Tracked

/-! Opening and ending transaction levels, on the stack of open levels. The outermost commit is the
one place where the committed tables of the moment matter to a transaction. -/
namespace RankedStore.Action

@[simp] theorem run_pure (x : α) (s : Session) : (pure x : Action α).run s = (.ok x, s) := rfl

@[simp] theorem run_get (s : Session) : (get : Action Session).run s = (.ok s, s) := rfl

@[simp] theorem run_set (s s' : Session) : (set s' : Action PUnit).run s = (.ok (), s') := rfl

@[simp] theorem run_report (level : Trace.Level) (message : String)
    (fields : List (String × String)) (s : Session) :
    (report level message fields).run s = (.ok (), s.report ⟨level, message, fields⟩) :=
  rfl

@[simp] theorem run_attempt (a : Action α) (s : Session) :
    (attempt a).run s = (.ok (a.run s).1, (a.run s).2) := rfl

@[simp] theorem run_ofExcept (outcome : Except Error α) (s : Session) :
    (ofExcept outcome).run s = (outcome, s) := by
  cases outcome <;> rfl

@[simp] theorem run_read (f : Catalog → Except Error α) (s : Session) :
    (read f).run s = (f s.view, s) :=
  run_ofExcept (f s.view) s

section

variable (k : Committed) (w : Workspace) (level next : List Change) (outer : List (List Change))
  (n : Nat) (trace : List Trace.Event)

theorem begin_idle : ∃ n' trace', begin.run ⟨k, .idle n, trace⟩ =
    (.ok (), ⟨k, .inside ⟨k.catalog, k.version⟩ [[]] n', trace'⟩) := ⟨_, _, rfl⟩

theorem begin_inside : ∃ n' trace', begin.run ⟨k, .inside w (level :: outer) n, trace⟩ =
    (.ok (), ⟨k, .inside w ([] :: level :: outer) n', trace'⟩) := ⟨_, _, rfl⟩

theorem commit_idle : commit.run ⟨k, .idle n, trace⟩ =
    (.error (.transaction .nothingToCommit), ⟨k, .idle n, trace⟩) := rfl

theorem commit_inner : ∃ trace', commit.run ⟨k, .inside w (level :: next :: outer) n, trace⟩ =
    (.ok (), ⟨k, .inside w ((level ++ next) :: outer) n, trace'⟩) := by
  simp only [commit, run_bind, run_get, Session.log_inside, UndoLog.commit_inner, run_set]
  exact ⟨_, rfl⟩

/-- A transaction without changes is not compared with the committed tables, nor does it touch
them. -/
theorem commit_unchanged : ∃ trace', commit.run ⟨k, .inside w [[]] n, trace⟩ =
    (.ok (), ⟨k, .idle n, trace'⟩) := by
  simp only [commit, run_bind, run_get, Session.log_inside, UndoLog.commit_outermost, run_set]
  exact ⟨_, rfl⟩

theorem run_install (writes : Nat) (same : k.version = w.base) : ∃ trace',
    (install w writes).run ⟨k, .idle n, trace⟩ =
      (.ok (), ⟨⟨w.catalog, k.version + 1⟩, .idle n, trace'⟩) := by
  simp only [install, run_bind, run_get]
  rw [if_neg (not_not_intro same)]
  exact ⟨_, rfl⟩

theorem run_install_conflict (writes : Nat) (moved : k.version ≠ w.base) : ∃ trace',
    (install w writes).run ⟨k, .idle n, trace⟩ =
      (.error (.transaction (.conflict w.base k.version)), ⟨k, .idle n, trace'⟩) := by
  simp only [install, run_bind, run_get]
  rw [if_pos moved]
  exact ⟨_, rfl⟩

/-- The copy is installed once there is no open transaction any more. -/
theorem commit_changed (changed : level ≠ []) : commit.run ⟨k, .inside w [level] n, trace⟩ =
    (install w (UndoLog.ofLevels [level] n).pending).run ⟨k, .idle n, trace⟩ := by
  obtain ⟨change, rest, rfl⟩ := List.exists_cons_of_ne_nil changed
  simp only [commit, run_bind, run_get, Session.log_inside, UndoLog.commit_outermost, run_set]
  rfl

theorem commit_installs (changed : level ≠ []) (same : k.version = w.base) : ∃ trace',
    commit.run ⟨k, .inside w [level] n, trace⟩ =
      (.ok (), ⟨⟨w.catalog, k.version + 1⟩, .idle n, trace'⟩) := by
  rw [commit_changed k w level n trace changed]
  exact run_install k w n trace _ same

theorem commit_conflict (changed : level ≠ []) (moved : k.version ≠ w.base) : ∃ trace',
    commit.run ⟨k, .inside w [level] n, trace⟩ =
      (.error (.transaction (.conflict w.base k.version)), ⟨k, .idle n, trace'⟩) := by
  rw [commit_changed k w level n trace changed]
  exact run_install_conflict k w n trace _ moved

theorem rollback_idle : rollback.run ⟨k, .idle n, trace⟩ =
    (.error (.transaction .nothingToRollBack), ⟨k, .idle n, trace⟩) := rfl

theorem rollback_inner : ∃ trace', rollback.run ⟨k, .inside w (level :: next :: outer) n, trace⟩ =
    ((w.catalog.undoAll level).1,
      ⟨k, .inside { w with catalog := (w.catalog.undoAll level).2 } (next :: outer) n,
        trace'⟩) := by
  simp only [rollback, run_bind, run_get, Session.log_inside, UndoLog.rollback_inner, run_set]
  exact ⟨_, rfl⟩

theorem rollback_outermost : ∃ trace', rollback.run ⟨k, .inside w [level] n, trace⟩ =
    (.ok (), ⟨k, .idle n, trace'⟩) := by
  simp only [rollback, run_bind, run_get, Session.log_inside, UndoLog.rollback_outermost, run_set]
  exact ⟨_, rfl⟩

end

end RankedStore.Action
