import RankedStore.UndoLog

/-! The undo log as a stack of levels, each with its own changes. A mark is the number of changes
that the levels around it had when the level was opened, so it is known from them. The log answers
each call as the stack of these levels does, and is then the log of the levels that the stack is
left with. -/
namespace RankedStore

namespace UndoLog

def marksOf : List (List Change) → List Nat
  | [] => []
  | _ :: outer => outer.flatten.length :: marksOf outer

/-- The log of these open levels, innermost first, each with its changes, newest first. -/
def ofLevels (levels : List (List Change)) (begun : Nat) : UndoLog :=
  { changes := levels.flatten, marks := marksOf levels, begun,
    current? := if levels.isEmpty then none else some ⟨.ofNat begun⟩ }

@[simp] theorem depth_ofLevels (levels : List (List Change)) (n : Nat) :
    (ofLevels levels n).depth = levels.length := by
  simp only [depth, ofLevels]
  induction levels with
  | nil => rfl
  | cons level outer ih => simp only [marksOf, List.length_cons, ih]

@[simp] theorem pending_ofLevels (levels : List (List Change)) (n : Nat) :
    (ofLevels levels n).pending = levels.flatten.length := rfl

@[simp] theorem commit_inner : (ofLevels (level :: next :: outer) n).commit =
    .ok (.active, ofLevels ((level ++ next) :: outer) n) := by
  simp [commit, ofLevels, marksOf]

@[simp] theorem commit_outermost :
    (ofLevels [level] n).commit = .ok (.committed, ofLevels [] n) := by
  simp [commit, ofLevels, marksOf]

@[simp] theorem rollback_inner : (ofLevels (level :: next :: outer) n).rollback =
    .ok (.active, level, ofLevels (next :: outer) n) := by
  simp [rollback, ofLevels, marksOf, pending]

@[simp] theorem rollback_outermost :
    (ofLevels [level] n).rollback = .ok (.aborted, level, ofLevels [] n) := by
  simp [rollback, ofLevels, marksOf, pending]

@[simp] theorem begin_ofLevels (levels : List (List Change)) (n : Nat) :
    (ofLevels levels n).begin = ofLevels ([] :: levels) (if levels.isEmpty then n + 1 else n) := by
  cases levels <;> rfl

@[simp] theorem record_ofLevels (level : List Change) (outer : List (List Change)) (n : Nat)
    (change : Change) :
    (ofLevels (level :: outer) n).record change = ofLevels ((change :: level) :: outer) n := rfl

/-- A mark is a place in the list of changes, so that cutting the list there never goes past its
end. -/
theorem le_of_mem_marksOf {levels : List (List Change)} {mark : Nat}
    (member : mark ∈ marksOf levels) :
    mark ≤ levels.flatten.length := by
  induction levels with
  | nil => cases member
  | cons level outer ih =>
    rw [List.flatten_cons, List.length_append]
    rcases List.mem_cons.mp member with rfl | member
    · exact Nat.le_add_left ..
    · exact Nat.le_trans (ih member) (Nat.le_add_left ..)

/-! Calls on the log and on the stack that it stands for. -/

inductive Call
  | begin
  | record (change : Change)
  | commit
  | rollback

inductive Answer
  | opened (depth : Nat)
  | recorded
  | committed (state : TransactionState)
  | rolledBack (state : TransactionState) (undo : List Change)
  | refused (cause : Error.Transaction)

/-- A refused call leaves the log as it was. -/
def call (log : UndoLog) : Call → Answer × UndoLog
  | .begin => (.opened log.begin.depth, log.begin)
  | .record change => (.recorded, log.record change)
  | .commit => match log.commit with
    | .ok (state, log) => (.committed state, log)
    | .error cause => (.refused cause, log)
  | .rollback => match log.rollback with
    | .ok (state, undo, log) => (.rolledBack state undo, log)
    | .error cause => (.refused cause, log)

/-- The answers to calls, first to last, and the log after them. -/
def run (log : UndoLog) : List Call → List Answer × UndoLog
  | [] => ([], log)
  | c :: calls =>
    let (answer, log) := log.call c
    let (answers, log) := log.run calls
    (answer :: answers, log)

end UndoLog

/-- The changes of each open level, first to last, of the innermost level first. -/
abbrev LevelStack := List (List Change)

namespace LevelStack

open UndoLog

def call : LevelStack → Call → Answer × LevelStack
  | levels, .begin => (.opened (levels.length + 1), [] :: levels)
  | [], .record _ => (.recorded, [])
  | level :: outer, .record change => (.recorded, (level ++ [change]) :: outer)
  | [], .commit => (.refused .nothingToCommit, [])
  | [_], .commit => (.committed .committed, [])
  | level :: next :: outer, .commit => (.committed .active, (next ++ level) :: outer)
  | [], .rollback => (.refused .nothingToRollBack, [])
  | [level], .rollback => (.rolledBack .aborted level.reverse, [])
  | level :: next :: outer, .rollback => (.rolledBack .active level.reverse, next :: outer)

def run (levels : LevelStack) : List Call → List Answer × LevelStack
  | [] => ([], levels)
  | c :: calls =>
    let (answer, levels) := call levels c
    let (answers, levels) := run levels calls
    (answer :: answers, levels)

/-- The log of these levels, which has the newest change first. -/
def log (levels : LevelStack) (begun : Nat) : UndoLog := .ofLevels (levels.map List.reverse) begun

/-- How many transactions have been begun after a call. -/
def begunAfter (levels : LevelStack) (begun : Nat) : Call → Nat
  | .begin => if levels.isEmpty then begun + 1 else begun
  | _ => begun

theorem pending_log (levels : LevelStack) (n : Nat) :
    (levels.log n).pending = levels.flatten.length := by
  rw [log, pending_ofLevels, List.length_flatten, List.length_flatten, List.map_map]
  congr 2
  funext level
  exact List.length_reverse

theorem current?_log (levels : LevelStack) (n : Nat) :
    (levels.log n).current? = if levels.isEmpty then none else some ⟨.ofNat n⟩ := by
  cases levels <;> rfl

/-- A call on the log of some levels answers as on the levels, and gives the log of the levels after
it. -/
theorem call_log (levels : LevelStack) (n : Nat) (c : Call) :
    (levels.log n).call c = ((levels.call c).1, (levels.call c).2.log (levels.begunAfter n c)) := by
  cases c with
  | begin =>
    simp only [UndoLog.call, log, begin_ofLevels, depth_ofLevels]
    cases levels <;> simp [call, begunAfter]
  | record change =>
    cases levels with
    | nil => rfl
    | cons level outer =>
      simp only [UndoLog.call, log, List.map_cons, record_ofLevels]
      simp [call, begunAfter]
  | commit =>
    -- the changes of an inner level are newer than those of the next one, so they stay in front
    match levels with
    | [] => rfl
    | [level] => simp [UndoLog.call, log, commit_outermost, call, begunAfter]
    | level :: next :: outer => simp [UndoLog.call, log, commit_inner, call, begunAfter]
  | rollback =>
    match levels with
    | [] => rfl
    | [level] => simp [UndoLog.call, log, rollback_outermost, call, begunAfter]
    | level :: next :: outer => simp [UndoLog.call, log, rollback_inner, call, begunAfter]

theorem run_log (levels : LevelStack) (n : Nat) (calls : List Call) :
    ∃ n', (levels.log n).run calls = ((levels.run calls).1, (levels.run calls).2.log n') := by
  induction calls generalizing levels n with
  | nil => exact ⟨n, rfl⟩
  | cons c calls ih =>
    obtain ⟨n', rest⟩ := ih (levels.call c).2 (levels.begunAfter n c)
    exact ⟨n', by simp only [UndoLog.run, run, call_log, rest]⟩

/-- A call is refused only if no level is open, and then nothing changes. -/
theorem call_refused {levels : LevelStack} {c : Call} {cause : Error.Transaction}
    (refused : (levels.call c).1 = .refused cause) :
    levels = [] ∧ (levels.call c).2 = levels ∧ ∀ n, levels.begunAfter n c = n := by
  match levels, c with
  | [], .commit | [], .rollback => exact ⟨rfl, rfl, fun _ => rfl⟩
  | [], .begin | [], .record _ | [_], .commit | _ :: _ :: _, .commit => cases refused
  | [_], .rollback | _ :: _ :: _, .rollback | _ :: _, .begin | _ :: _, .record _ => cases refused

/-- The transaction stays the same as long as a level is open. -/
theorem current?_call {levels : LevelStack} (c : Call) (n : Nat) (before : levels ≠ [])
    (after : (levels.call c).2 ≠ []) :
    ((levels.call c).2.log (levels.begunAfter n c)).current? = (levels.log n).current? := by
  have same : levels.begunAfter n c = n := by
    cases c with
    | begin => exact if_neg (by simpa using before)
    | record | commit | rollback => rfl
  rw [current?_log, current?_log, same, if_neg (by simpa using after),
    if_neg (by simpa using before)]

/-- After any calls, the undo log has answered as a stack of lists of changes does: a call that
opens a level pushes an empty list, a change is put at the end of the innermost list, an end that is
kept adds that list to the next one or drops the last list, and an end that is undone takes the list
off and gives it newest first. A call is refused only if no level is open, and then nothing changes.
The log has as many levels and as many changes as the lists, no mark lies past its end, and it has a
transaction if there is a level, which is the same one until there is none. -/
theorem log_is_stack (calls : List Call) :
    let levels := (LevelStack.run [] calls).2
    let log := (UndoLog.empty.run calls).2
    (UndoLog.empty.run calls).1 = (LevelStack.run [] calls).1 ∧
      (∀ c cause, (log.call c).1 = .refused cause → levels = [] ∧ (log.call c).2 = log) ∧
      log.depth = levels.length ∧
      log.pending = levels.flatten.length ∧
      (∀ mark ∈ log.marks, mark ≤ log.pending) ∧
      (log.current? ≠ none ↔ levels ≠ []) ∧
      ∀ c, levels ≠ [] → (levels.call c).2 ≠ [] → (log.call c).2.current? = log.current? := by
  obtain ⟨n, same⟩ : ∃ n, UndoLog.empty.run calls = ((run [] calls).1, (run [] calls).2.log n) :=
    run_log [] 0 calls
  simp only [same, call_log]
  generalize (run [] calls).2 = levels
  refine ⟨trivial, fun c cause refused => ?_, ?_, pending_log levels n, fun mark member => ?_, ?_,
    fun c => current?_call c n⟩
  · obtain ⟨none, unchanged, begun⟩ := call_refused refused
    exact ⟨none, by rw [unchanged, begun]⟩
  · rw [log, depth_ofLevels, List.length_map]
  · exact le_of_mem_marksOf member
  · cases levels <;> simp [current?_log]

example (a b : Change) :
    (UndoLog.empty.run [.begin, .record a, .begin, .record b, .commit, .rollback]).1 =
    [.opened 1, .recorded, .opened 2, .recorded, .committed .active, .rolledBack .aborted [b, a]] :=
  rfl

end LevelStack

end RankedStore
