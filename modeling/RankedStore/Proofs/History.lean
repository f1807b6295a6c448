import RankedStore.Store
import RankedStore.Proofs.Request

/-! Histories of a store with any number of connections. Each step is carried out as a whole, and a
step of one connection leaves the others as they are. -/
namespace RankedStore

/-- Between steps a connection is outside any transaction, or inside one with levels that start from
no changes. -/
inductive Connection.Proper : Connection → Prop
  | idle (n : Nat) : Proper (.idle n)
  | inside (w : Workspace) (level : List Change) (outer : List (List Change)) (n : Nat) :
      Proper (.inside w (level :: outer) n)

namespace Store

inductive Step
  | connect (name : String)
  | disconnect (name : String)
  | ask (name : String) (request : Request)

/-- Carries out a step. Only a request on an open connection has an answer. -/
def step (s : Store) : Step → Option (Except Error Reply) × Store
  | .connect name => (none, s.connect name)
  | .disconnect name => (none, (s.disconnect name).2)
  | .ask name request => match s.act? name request.run with
    | none => (none, s)
    | some (answer, _, s') => (some answer, s')

def play (s : Store) (steps : List Step) : Store := steps.foldl (fun s step => (s.step step).2) s

/-- How many levels the transaction of a connection has, zero without a transaction. -/
def depth (s : Store) (name : String) : Nat :=
  ((s.connections.get? name).map (·.log.depth)).getD 0

/-- How many changes the open transaction of a connection has noted. -/
def pending (s : Store) (name : String) : Nat :=
  ((s.connections.get? name).map (·.log.pending)).getD 0

def workspace? (s : Store) (name : String) : Option Workspace :=
  (s.connections.get? name).bind (·.workspace)

def Proper (s : Store) : Prop :=
  ∀ name connection, s.connections.get? name = some connection → connection.Proper

variable {s : Store} {name : String} {connection : Connection}

theorem depth_none (absent : s.connections.get? name = none) : s.depth name = 0 := by
  simp only [depth, absent, Option.map_none, Option.getD_none]

theorem depth_idle (found : s.connections.get? name = some (.idle n)) : s.depth name = 0 := by
  simp [depth, found, Connection.idle]

theorem depth_inside (found : s.connections.get? name = some (.inside w levels n)) :
    s.depth name = levels.length := by
  simp [depth, found, Connection.inside]

theorem depth_inside_ne (found : s.connections.get? name = some (.inside w (level :: outer) n)) :
    s.depth name ≠ 0 := by
  rw [depth_inside found]
  exact Nat.succ_ne_zero _

theorem pending_inside (found : s.connections.get? name = some (.inside w levels n)) :
    s.pending name = levels.flatten.length := by
  simp only [pending, found, Option.map_some, Option.getD_some, Connection.inside,
    UndoLog.pending_ofLevels]

theorem step_ask (found : s.connections.get? name = some connection)
    (ran : request.run.run ⟨s.committed, connection, []⟩ = (answer, ⟨k', connection', trace⟩)) :
    s.step (.ask name request) = (some answer, ⟨k', s.connections.insert name connection'⟩) := by
  have ran : request.run ⟨s.committed, connection, []⟩ = (answer, ⟨k', connection', trace⟩) := ran
  simp only [step, act?, session?, found, Option.map_some, ExceptT.run, ran]

theorem step_ask_none (absent : s.connections.get? name = none) :
    s.step (.ask name request) = (none, s) := by
  simp only [step, act?, session?, absent, Option.map_none]

theorem get?_step_ask_of_ne (s : Store) (request : Request) (ne : name ≠ other) :
    (s.step (.ask name request)).2.connections.get? other = s.connections.get? other := by
  cases found : s.connections.get? name with
  | none => rw [step_ask_none found]
  | some connection =>
    rw [step_ask found rfl]
    exact Dict.get?_insert_of_ne _ _ ne

end Store

/-- What an action answers depends on the tables that its connection sees. -/
theorem Action.Acts.answers {a : Action α} {s : Session} (acts : a.Acts s.view answer c' w)
    (proper : s.connection.Proper) : (a.run s).1 = answer := by
  obtain ⟨k, connection, trace⟩ := s
  cases proper with
  | idle n =>
    obtain ⟨_, _, ran, _⟩ := acts.alone k n trace rfl
    exact congrArg Prod.fst ran
  | inside v level outer n =>
    obtain ⟨_, ran⟩ := acts.inside k v.base level outer n trace
    exact congrArg Prod.fst ran

/-- What an action makes of the tables is what its connection sees after it. Inside a transaction
the committed tables stay. -/
theorem Action.Acts.run {a : Action α} {s : Session} (acts : a.Acts s.view answer c' w)
    (proper : s.connection.Proper) : ∃ s', a.run s = (answer, s') ∧ s'.view = c' ∧
      (s.workspace.isSome → s'.committed = s.committed) := by
  obtain ⟨k, connection, trace⟩ := s
  cases proper with
  | idle n =>
    obtain ⟨k', trace', ran, rfl, _⟩ := acts.alone k n trace rfl
    exact ⟨_, ran, rfl, by rintro ⟨⟩⟩
  | inside v level outer n =>
    obtain ⟨trace', ran⟩ := acts.inside k v.base level outer n trace
    exact ⟨_, ran, rfl, fun _ => rfl⟩

theorem Store.step_ask_answer {s : Store} (found : s.connections.get? name = some connection)
    (proper : connection.Proper) {request : Request}
    (acts : request.run.Acts (Session.view ⟨s.committed, connection, []⟩) answer c' w) :
    (s.step (.ask name request)).1 = some answer := by
  rcases ran : request.run.run ⟨s.committed, connection, []⟩ with ⟨answer', k', connection', trace⟩
  have same := acts.answers proper
  rw [ran] at same
  rw [step_ask found ran]
  exact congrArg some same

namespace Connection.Proper

theorem run (proper : Proper connection) (r : Request) (k : Committed) (trace : List Trace.Event) :
    ∃ answer k' connection' trace',
      r.run.run ⟨k, connection, trace⟩ = (answer, ⟨k', connection', trace'⟩) ∧
        Proper connection' := by
  cases proper with
  | idle n =>
    by_cases starts : r = .begin
    · subst starts
      obtain ⟨n', trace', ran⟩ := Request.begin_step k n trace
      exact ⟨_, _, _, _, ran, .inside ..⟩
    · obtain ⟨answer, c', ran, _⟩ := r.idle_step k.catalog starts
      obtain ⟨k', trace', ran, _⟩ := ran k n trace rfl
      exact ⟨_, _, _, _, ran, .idle n⟩
  | inside w level outer n =>
    by_cases ends : r.endsLevel = true ∧ outer = []
    · obtain ⟨ends, rfl⟩ := ends
      obtain ⟨answer, k', trace', ran, _⟩ := r.end_step ends k w level n trace
      exact ⟨_, _, _, _, ran, .idle n⟩
    · obtain ⟨answer, c', level', outer', ran, _⟩ := r.inside_step w.catalog level outer
        (fun h none => ends ⟨h, none⟩)
      obtain ⟨n', trace', ran⟩ := ran k w.base [] n trace
      simp only [List.append_nil] at ran
      exact ⟨_, _, _, _, ran, .inside ..⟩

end Connection.Proper

namespace Store

theorem Proper.ofCatalog (c : Catalog) : (Store.ofCatalog c).Proper := by
  intro name connection found
  cases found

theorem Proper.step (proper : Proper s) (step : Step) : (s.step step).2.Proper := by
  intro name connection found
  cases step with
  | connect opened =>
    simp only [Store.step, connect, Dict.get?_insert] at found
    split at found
    · cases found
      exact .idle 0
    · exact proper name connection found
  | disconnect closed =>
    simp only [Store.step, disconnect, Dict.get?_erase] at found
    split at found
    · cases found
    · exact proper name connection found
  | ask asked request =>
    by_cases same : asked = name
    · subst same
      cases before : s.connections.get? asked with
      | none =>
        rw [step_ask_none before, before] at found
        cases found
      | some connection =>
        obtain ⟨_, _, _, _, ran, proper'⟩ :=
          (proper asked connection before).run request s.committed []
        rw [step_ask before ran, Dict.get?_insert_self] at found
        cases found
        exact proper'
    · rw [get?_step_ask_of_ne s request same] at found
      exact proper name connection found

theorem Proper.play (proper : Proper s) (steps : List Step) : (s.play steps).Proper := by
  induction steps generalizing s with
  | nil => exact proper
  | cons step rest ih => exact ih (proper.step step)

end Store
end RankedStore
