import RankedStore.Proofs.Invariant
import RankedStore.Proofs.Presence

/-! Properties of the tables that depend on how deep a transaction is. What a connection comes back
to when it gives up its innermost levels has the properties of the depth that it comes back to.
Notes are followed up to a relation of tables, since that is all that they bring back for sure. -/
namespace RankedStore

variable {ρ : Table → Table → Prop} {P P' : Nat → Catalog → Prop} {ground ground' : Catalog → Prop}
  {c d : Catalog} {level written : List Change} {levels outer : List (List Change)} {s s' : Session}

/-- Taking back the open levels one after the other leads through tables with the properties of
their depth, and in the end to the tables that the transaction started from. -/
def Catalog.DeepUpTo (ρ : Table → Table → Prop) (P : Nat → Catalog → Prop)
    (ground : Catalog → Prop) :
    Catalog → List (List Change) → Prop
  | c, [] => ground c
  | c, level :: outer => P (outer.length + 1) c ∧
      ∃ start, c.RestoresUpTo ρ level start ∧ DeepUpTo ρ P ground start outer

namespace Catalog.DeepUpTo

theorem mono (deep : c.DeepUpTo ρ P ground levels)
    (weaker : ∀ n e, n < levels.length → P (n + 1) e → P' (n + 1) e)
    (grounds : ∀ e, ground e → ground' e) : c.DeepUpTo ρ P' ground' levels := by
  induction levels generalizing c with
  | nil => exact grounds c deep
  | cons level outer ih =>
    obtain ⟨holds, start, back, further⟩ := deep
    refine ⟨weaker _ c (Nat.lt_succ_self _) holds, start, back, ih further ?_⟩
    exact fun n e lt => weaker n e (Nat.lt_succ_of_lt lt)

/-- The tables with more notes on the innermost level. -/
theorem replace (stable : Table.Stable ρ) (deep : c.DeepUpTo ρ P ground (level :: outer))
    (restores : d.RestoresUpTo ρ written c)
    (below : ∀ n e, n < outer.length + 1 → P n e → P' n e) (top : P' (outer.length + 1) d) :
    d.DeepUpTo ρ P' ground ((written ++ level) :: outer) := by
  obtain ⟨_, start, back, further⟩ := deep
  refine ⟨top, start, restores.trans stable back, further.mono ?_ fun _ held => held⟩
  exact fun n e lt => below (n + 1) e (Nat.succ_lt_succ lt)

end Catalog.DeepUpTo

namespace Session

/-- No other connection has written since the open transaction began. -/
def current (s : Session) : Bool :=
  match s.workspace with
  | some w => w.base = s.committed.version
  | none => true

/-- The committed tables have the properties of depth zero. As long as nobody else writes, these are
the tables that a transaction started from. -/
inductive DeepUpTo (ρ : Table → Table → Prop) (P : Nat → Catalog → Prop) : Session → Prop
  | idle {k : Committed} (n : Nat) (trace : List Trace.Event) :
      P 0 k.catalog → DeepUpTo ρ P ⟨k, .idle n, trace⟩
  | inside {k : Committed} {w : Workspace} {level : List Change} {outer : List (List Change)}
    (n : Nat) (trace : List Trace.Event) : P 0 k.catalog → w.base ≤ k.version →
      w.catalog.DeepUpTo ρ P (fun c => w.base = k.version → k.catalog.Related ρ c)
        (level :: outer) →
      DeepUpTo ρ P ⟨k, .inside w (level :: outer) n, trace⟩

/-- The notes bring back which rows there were. -/
abbrev Deep (P : Nat → Catalog → Prop) (s : Session) : Prop := s.DeepUpTo Table.SameIds P

theorem depth_inside (k : Committed) (w : Workspace) (levels : List (List Change)) (n : Nat)
    (trace : List Trace.Event) :
    (⟨k, .inside w levels n, trace⟩ : Session).log.depth = levels.length :=
  UndoLog.depth_ofLevels ..

namespace DeepUpTo

theorem proper (deep : s.DeepUpTo ρ P) : s.connection.Proper := by
  cases deep with
  | idle n => exact .idle n
  | inside n => exact .inside ..

theorem view (deep : s.DeepUpTo ρ P) : P s.log.depth s.view := by
  cases deep with
  | idle _ _ holds => exact holds
  | inside _ _ _ _ deep =>
    rw [depth_inside]
    exact deep.1

theorem mono (deep : s.DeepUpTo ρ P) (weaker : ∀ n e, n ≤ s.log.depth → P n e → P' n e) :
    s.DeepUpTo ρ P' := by
  cases deep with
  | idle n trace holds => exact .idle n trace (weaker 0 _ (Nat.zero_le _) holds)
  | inside n trace holds base deep =>
    rw [depth_inside] at weaker
    refine .inside n trace (weaker 0 _ (Nat.zero_le _) holds) base (deep.mono ?_ fun _ held => held)
    exact fun n e lt => weaker (n + 1) e lt

/-- Another connection writes. Inside a transaction this is not seen yet. -/
theorem overtaken (deep : s.DeepUpTo ρ P) (catalog : Catalog) (holds : P' 0 catalog)
    (weaker : ∀ n e, P (n + 1) e → P' (n + 1) e) :
    DeepUpTo ρ P' { s with committed := ⟨catalog, s.committed.version + 1⟩ } := by
  cases deep with
  | idle n trace => exact .idle n trace holds
  | inside n trace _ base deep =>
    refine .inside n trace holds (Nat.le_succ_of_le base) (deep.mono (fun n e _ => weaker n e) ?_)
    intro e _ same
    exact absurd same (Nat.ne_of_lt (Nat.lt_succ_of_le base))

end DeepUpTo
end Session

namespace Action

/-- An action that settles leaves alone what the connection may come back to. -/
theorem SettlesUpTo.deep {a : Action α} {c' : Catalog} (stable : Table.Stable ρ)
    (settles : SettlesUpTo ρ a s.view answer c') (deep : s.DeepUpTo ρ P) :
    ∃ s', a.run s = (answer, s') ∧ s'.log.depth = s.log.depth ∧ c'.Related ρ s'.view ∧
      (∀ x, answer = .ok x → s'.view = c') ∧
      ∀ P', (∀ n e, n < s.log.depth → P n e → P' n e) → P' s.log.depth s'.view →
        s'.DeepUpTo ρ P' := by
  cases deep with
  | idle n trace holds =>
    rename_i k
    obtain ⟨k', n', trace', ran, rfl⟩ := settles.alone k n trace rfl
    refine ⟨_, ran, rfl, .refl stable _, fun _ _ => rfl, ?_⟩
    exact fun P' _ top => .idle n' trace' top
  | inside n trace holds base deep =>
    rename_i k w level outer
    obtain ⟨d, written, n', trace', ran, related, restores, exactly⟩ :=
      settles.inside k w.base level outer n trace
    refine ⟨_, ran, ?_, related, exactly, ?_⟩
    · rw [Session.depth_inside, Session.depth_inside, List.length_cons, List.length_cons]
    · intro P' below top
      rw [Session.depth_inside] at below top
      refine .inside n' trace' (below 0 _ (Nat.succ_pos _) holds) base ?_
      exact deep.replace stable restores below top

/-- The whole action on a session whose levels have properties of their depth. -/
theorem Completes.deep {a : Action α} {Q : α → Catalog → Prop} (stable : Table.Stable ρ)
    (completes : Completes ρ a s.view Q) (deep : s.DeepUpTo ρ P) :
    ∃ answer s', a.run s = (answer, s') ∧ s'.log.depth = s.log.depth ∧
      (∀ x, answer = .ok x → Q x s'.view) ∧ (∀ e, answer = .error e → s.view.Related ρ s'.view) ∧
      ∀ P', (∀ n e, n < s.log.depth → P n e → P' n e) → P' s.log.depth s'.view →
        s'.DeepUpTo ρ P' := by
  obtain ⟨answer, c', settles, achieves, unchanged⟩ := completes
  obtain ⟨s', ran, depth, related, exactly, deep'⟩ := settles.deep stable deep
  refine ⟨answer, s', ran, depth, ?_, ?_, deep'⟩
  · intro x succeeded
    rw [exactly x succeeded]
    exact achieves x succeeded
  · intro e failed
    rw [← unchanged e failed]
    exact related

theorem begin_deep (stable : Table.Stable ρ) (deep : s.DeepUpTo ρ P)
    (holds : P (s.log.depth + 1) s.view) :
    ∃ s', begin.run s = (.ok (), s') ∧ s'.log.depth = s.log.depth + 1 ∧ s'.DeepUpTo ρ P := by
  cases deep with
  | idle n trace committed =>
    rename_i k
    obtain ⟨n', trace', ran⟩ := begin_idle k n trace
    refine ⟨_, ran, rfl, .inside n' trace' committed (Nat.le_refl _) ?_⟩
    exact ⟨holds, k.catalog, .refl stable _, fun _ => .refl stable _⟩
  | inside n trace committed base deep =>
    rename_i k w level outer
    obtain ⟨n', trace', ran⟩ := begin_inside k w level outer n trace
    rw [Session.depth_inside] at holds
    refine ⟨_, ran, ?_, .inside n' trace' committed base ?_⟩
    · rw [Session.depth_inside, Session.depth_inside, List.length_cons]
    · exact ⟨holds, w.catalog, .refl stable _, deep⟩

/-- A commit keeps what the connection sees, one level up, or it ends the transaction and the
connection sees what is committed: because the commit fails, or because there was nothing to commit
while others wrote. -/
theorem commit_deep (stable : Table.Stable ρ) (symm : ∀ {t u}, ρ t u → ρ u t)
    (deep : s.DeepUpTo ρ P) :
    ∃ answer s', commit.run s = (answer, s') ∧
      ((answer = .ok () ∧ (s'.log.depth ≠ 0 ∨ s.current = true) ∧ s'.log.depth + 1 = s.log.depth ∧
          s.view.Related ρ s'.view ∧ ∀ P', (∀ n e, n < s'.log.depth → P n e → P' n e) →
            P' s'.log.depth s'.view → s'.DeepUpTo ρ P') ∨
        (¬ (answer = .ok () ∧ (s'.log.depth ≠ 0 ∨ s.current = true)) ∧ s'.DeepUpTo ρ P)) := by
  cases deep with
  | idle n trace committed =>
    rename_i k
    refine ⟨_, _, commit_idle k n trace, .inr ⟨?_, .idle n trace committed⟩⟩
    rintro ⟨⟨⟩, _⟩
  | inside n trace committed base deep =>
    rename_i k w level outer
    cases outer with
    | nil =>
      have back : ∀ trace', Session.DeepUpTo ρ P ⟨k, .idle n, trace'⟩ :=
        fun trace' => .idle n trace' committed
      by_cases silent : level = []
      · subst silent
        obtain ⟨trace', ran⟩ := commit_unchanged k w n trace
        refine ⟨_, _, ran, ?_⟩
        by_cases same : w.base = k.version
        · refine .inl ⟨rfl, .inr (decide_eq_true same), by rw [Session.depth_inside]; rfl, ?_, ?_⟩
          · obtain ⟨_, start, ⟨d, undone, related⟩, start_same⟩ := deep
            cases undone
            exact ((start_same same).trans stable related).symm symm
          · exact fun P' _ top => .idle n trace' top
        · refine .inr ⟨?_, back trace'⟩
          rintro ⟨_, deeper | current⟩
          · exact deeper rfl
          · exact same (of_decide_eq_true current)
      · by_cases same : k.version = w.base
        · obtain ⟨trace', ran⟩ := commit_installs k w level n trace silent same
          refine ⟨_, _, ran, .inl ⟨rfl, .inr (decide_eq_true same.symm), ?_, .refl stable _, ?_⟩⟩
          · rw [Session.depth_inside]
            rfl
          · exact fun P' _ top => .idle n trace' top
        · obtain ⟨trace', ran⟩ := commit_conflict k w level n trace silent same
          refine ⟨_, _, ran, .inr ⟨?_, back trace'⟩⟩
          rintro ⟨⟨⟩, _⟩
    | cons next outer =>
      obtain ⟨trace', ran⟩ := commit_inner k w level next outer n trace
      refine ⟨_, _, ran, .inl ⟨rfl, .inl ?_, ?_, .refl stable _, fun P' below top => ?_⟩⟩
      · rw [Session.depth_inside]
        exact Nat.succ_ne_zero _
      · rw [Session.depth_inside, Session.depth_inside, List.length_cons, List.length_cons,
          List.length_cons]
      · rw [Session.depth_inside] at below top
        obtain ⟨_, start, restores, further⟩ := deep
        refine .inside n trace' (below 0 _ (Nat.succ_pos _) committed) base ?_
        exact further.replace stable restores below top

/-- A rollback leads to tables with the properties of one level less, or there is none to give
up. -/
theorem rollback_deep (stable : Table.Stable ρ) (same : ∀ n e e', e.Related ρ e' → P n e → P n e')
    (deep : s.DeepUpTo ρ P) : (rollback.run s).2.DeepUpTo ρ P := by
  cases deep with
  | idle n trace committed =>
    rw [rollback_idle]
    exact .idle n trace committed
  | inside n trace committed base deep =>
    rename_i k w level outer
    cases outer with
    | nil =>
      obtain ⟨trace', ran⟩ := rollback_outermost k w level n trace
      rw [ran]
      exact .idle n trace' committed
    | cons next outer =>
      obtain ⟨trace', ran⟩ := rollback_inner k w level next outer n trace
      obtain ⟨_, start, ⟨d, undone, related⟩, further⟩ := deep
      rw [undone] at ran
      rw [ran]
      have back : d.RestoresUpTo ρ [] start := ⟨d, rfl, related⟩
      have holds : P (outer.length + 1) d := same _ start d related further.1
      exact .inside n trace' committed base
        (further.replace stable back (fun _ _ _ held => held) holds)

/-! What a connection does on its own never makes its transaction fall behind the committed
tables. -/

theorem SettlesUpTo.current {a : Action α} {c' : Catalog}
    (settles : SettlesUpTo ρ a s.view answer c') (proper : s.connection.Proper) :
    (a.run s).2.current = s.current := by
  obtain ⟨k, connection, trace⟩ := s
  cases proper with
  | idle n =>
    obtain ⟨k', n', trace', ran, _⟩ := settles.alone k n trace rfl
    exact congrArg (·.2.current) ran
  | inside w level outer n =>
    obtain ⟨d, written, n', trace', ran, _⟩ := settles.inside k w.base level outer n trace
    exact congrArg (·.2.current) ran

theorem begin_current (proper : s.connection.Proper) (current : s.current = true) :
    (begin.run s).2.current = true := by
  obtain ⟨k, connection, trace⟩ := s
  cases proper with
  | idle n => exact decide_eq_true rfl
  | inside w level outer n => exact current

theorem commit_current (proper : s.connection.Proper) (current : s.current = true) :
    (commit.run s).2.current = true := by
  obtain ⟨k, connection, trace⟩ := s
  cases proper with
  | idle n => rfl
  | inside w level outer n =>
    cases outer with
    | nil =>
      by_cases silent : level = []
      · subst silent
        obtain ⟨trace', ran⟩ := commit_unchanged k w n trace
        exact congrArg (·.2.current) ran
      · have same : k.version = w.base := (of_decide_eq_true current).symm
        obtain ⟨trace', ran⟩ := commit_installs k w level n trace silent same
        exact congrArg (·.2.current) ran
    | cons next outer =>
      obtain ⟨trace', ran⟩ := commit_inner k w level next outer n trace
      exact (congrArg (·.2.current) ran).trans current

theorem rollback_current (proper : s.connection.Proper) (current : s.current = true) :
    (rollback.run s).2.current = true := by
  obtain ⟨k, connection, trace⟩ := s
  cases proper with
  | idle n => rfl
  | inside w level outer n =>
    cases outer with
    | nil =>
      obtain ⟨trace', ran⟩ := rollback_outermost k w level n trace
      exact congrArg (·.2.current) ran
    | cons next outer =>
      obtain ⟨trace', ran⟩ := rollback_inner k w level next outer n trace
      exact (congrArg (·.2.current) ran).trans current

end Action
end RankedStore
