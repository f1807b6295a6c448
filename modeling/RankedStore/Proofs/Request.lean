import RankedStore.Request
import RankedStore.Proofs.Transaction

/-! One request. Statements act on the tables that the connection sees; the other requests act on
its levels. Inside a transaction that goes on, the answer and the copy depend on the copy alone. -/
namespace RankedStore.Request

open RankedStore.Action

/-- Whether the request looks at tables or changes them. -/
def isStatement : Request → Bool
  | .begin | .commit | .rollback | .inTransaction => false
  | _ => true

def endsLevel : Request → Bool
  | .commit | .rollback => true
  | _ => false

/-- Whether the request may change rows or tables. -/
def writes : Request → Bool
  | .createTable _ | .insert .. | .update _ | .updateById .. | .replace .. | .delete .. => true
  | _ => false

theorem reads (r : Request) (statement : r.isStatement = true) (reading : r.writes = false)
    (c : Catalog) : ∃ answer, r.run.Tracked c answer c [] := by
  cases r with
  | hasTable table => exact ⟨_, (Tracked.read rfl).answering _⟩
  | layout table => exact ⟨_, (Tracked.read rfl).answering _⟩
  | rowCount table => exact ⟨_, (Tracked.read rfl).answering _⟩
  | tableNames => exact ⟨_, (Tracked.read rfl).answering _⟩
  | fetch table id => exact ⟨_, (Tracked.read rfl).answering _⟩
  | select s => exact ⟨_, (Tracked.after (.report ..) (.read rfl)).answering _⟩
  | aggregate a => exact ⟨_, (Tracked.after (.report ..) (.read rfl)).answering _⟩
  | begin | commit | rollback | inTransaction => cases statement
  | _ => cases reading

/-- What a statement makes of the tables: nothing, or the one write that it asks for. -/
inductive Effect (c : Catalog) : Request → Catalog → Prop
  | nothing (r : Request) : Effect c r c
  | created {layout : TableLayout} {c' : Catalog} :
      c.createTable layout = .ok c' → Effect c (.createTable layout) c'
  | inserted {table : String} {row : Row} {id : Int64} {c' : Catalog} :
      c.insert table row = (.ok id, c') → Effect c (.insert table row) c'
  | updated {u : Update} {outcome : Except Error (List (Int64 × Row))} {c' : Catalog} :
      c.updateWhere u = (outcome, c') → Effect c (.update u) c'
  | cellSet {table column : String} {id : Int64} {value : Value} {t : Table} {row old : Row}
    {i : Nat} {c' : Catalog} : c.table table = .ok t → t.get? id = some row →
    t.layout.index column = .ok i →
      c.replace table id (row.set i value) = (.ok (some old), c') →
      Effect c (.updateById table id column value) c'
  | replaced {table : String} {id : Int64} {row old : Row} {c' : Catalog} :
      c.replace table id row = (.ok (some old), c') → Effect c (.replace table id row) c'
  | deleted {table : String} {id : Int64} {old : Row} {c' : Catalog} :
      c.delete table id = (.ok (some old), c') → Effect c (.delete table id) c'

/-- An update is the only statement whose notes may fall short, and only if it fails. Then it notes
nothing. -/
theorem acts_effect (r : Request) (statement : r.isStatement = true) (c : Catalog) :
    ∃ answer c' written, r.run.Acts c answer c' written ∧ Effect c r c' ∧
      (c'.Restores written c ∨ written = [] ∧ ∃ u e, r = .update u ∧ answer = .error e) := by
  suffices tracked : (∃ answer c' written, r.run.Tracked c answer c' written ∧ Effect c r c') ∨
      ∃ u e c', r = .update u ∧ r.run.Acts c (.error e) c' [] ∧ Effect c r c' by
    rcases tracked with ⟨answer, c', written, tracked, effect⟩ | ⟨u, e, c', rfl, failed, effect⟩
    · exact ⟨answer, c', written, tracked.toActs, effect, .inl tracked.restores⟩
    · exact ⟨_, c', [], failed, effect, .inr ⟨rfl, u, e, rfl, rfl⟩⟩
  by_cases reading : r.writes = false
  · obtain ⟨answer, tracked⟩ := r.reads statement reading c
    exact .inl ⟨answer, c, [], tracked, .nothing r⟩
  · cases r with
    | createTable layout =>
      cases h : c.createTable layout with
      | error e =>
        exact .inl ⟨_, _, _, (createTable_failed h).answering fun _ => Reply.done, .nothing _⟩
      | ok c' =>
        exact .inl ⟨_, _, _, (createTable_tracked h).answering fun _ => Reply.done, .created h⟩
    | insert table row =>
      rcases h : c.insert table row with ⟨e | id, c'⟩
      · exact .inl ⟨_, _, _, (insert_failed h).answering _, .nothing _⟩
      · exact .inl ⟨_, _, _, (insert_tracked h).answering _, .inserted h⟩
    | update u =>
      rcases h : c.updateWhere u with ⟨e | replaced, c'⟩
      · exact .inr ⟨u, e, c', rfl, (updateWhere_acts_error h).bind_error, .updated h⟩
      · exact .inl ⟨_, _, _, (updateWhere_tracked h).answering _, .updated h⟩
    | updateById table id column value =>
      rcases updateById_cases table id column value c with
        ⟨e, failed⟩ | ⟨t, row, i, old, c', found, stored, place, ran, tracked⟩
      · exact .inl ⟨_, _, _, failed.answering fun _ => Reply.done, .nothing _⟩
      · exact .inl ⟨_, _, _, tracked.answering fun _ => Reply.done, .cellSet found stored place ran⟩
    | replace table id row =>
      rcases replace_cases table id row c with ⟨e, failed⟩ | ⟨old, c', ran, tracked⟩
      · exact .inl ⟨_, _, _, failed.answering fun _ => Reply.done, .nothing _⟩
      · exact .inl ⟨_, _, _, tracked.answering fun _ => Reply.done, .replaced ran⟩
    | delete table id =>
      rcases h : c.delete table id with ⟨e | _ | old, c'⟩
      · exact .inl ⟨_, _, _, (delete_failed h).answering _, .nothing _⟩
      · exact .inl ⟨_, _, _, (delete_missing h).answering _, .nothing _⟩
      · exact .inl ⟨_, _, _, (delete_tracked h).answering _, .deleted h⟩
    | _ => exact absurd rfl reading

theorem acts (r : Request) (statement : r.isStatement = true) (c : Catalog) :
    ∃ answer c' written, r.run.Acts c answer c' written ∧
      ((∀ u, r = .update u → ∃ n, answer = .ok n) → c'.Restores written c) := by
  obtain ⟨answer, c', written, acts, _, restores | ⟨_, u, e, rfl, rfl⟩⟩ := r.acts_effect statement c
  · exact ⟨answer, c', written, acts, fun _ => restores⟩
  · refine ⟨_, c', written, acts, fun succeeds => ?_⟩
    obtain ⟨n, contra⟩ := succeeds u rfl
    cases contra

theorem run_answering (a : Action Unit) (s : Session) :
    (do a; return Reply.count (← Action.depth) : Action Reply).run s =
      ((a.run s).1.map fun _ => .count (a.run s).2.log.depth, (a.run s).2) := by
  rw [run_bind]
  rcases a.run s with ⟨_ | _, _⟩ <;> rfl

/-- A request outside any transaction, other than the one that begins one. -/
theorem idle_step (r : Request) (c : Catalog) (stays : r ≠ .begin) :
    ∃ (answer : Except Error Reply) (c' : Catalog),
    (∀ k n trace, k.catalog = c → ∃ k' trace',
      r.run.run ⟨k, .idle n, trace⟩ = (answer, ⟨k', .idle n, trace'⟩) ∧ k'.catalog = c' ∧
        (k' = k ∨ k.version < k'.version)) ∧
    (r.writes = false → c' = c) := by
  by_cases statement : r.isStatement = true
  · by_cases reading : r.writes = false
    · obtain ⟨answer, tracked⟩ := r.reads statement reading c
      exact ⟨answer, c, tracked.alone, fun _ => rfl⟩
    · obtain ⟨answer, c', written, acts, _⟩ := r.acts statement c
      exact ⟨answer, c', acts.alone, fun h => absurd h reading⟩
  · cases r with
    | begin => exact absurd rfl stays
    | commit => exact ⟨_, c, fun k n trace same => ⟨k, trace, rfl, same, .inl rfl⟩, fun _ => rfl⟩
    | rollback => exact ⟨_, c, fun k n trace same => ⟨k, trace, rfl, same, .inl rfl⟩, fun _ => rfl⟩
    | inTransaction =>
      exact ⟨.ok (.flag false), c, fun k n trace same => ⟨k, trace, rfl, same, .inl rfl⟩,
        fun _ => rfl⟩
    | _ => exact absurd rfl statement

theorem begin_step (k : Committed) (n : Nat) (trace : List Trace.Event) : ∃ n' trace',
    Request.begin.run.run ⟨k, .idle n, trace⟩ =
      (.ok (.count 1), ⟨k, .inside ⟨k.catalog, k.version⟩ [[]] n', trace'⟩) := by
  obtain ⟨n', trace', ran⟩ := begin_idle k n trace
  exact ⟨n', trace', (run_answering ..).trans (by rw [ran]; rfl)⟩

theorem begin_inside_step (k : Committed) (w : Workspace) (level : List Change)
    (outer : List (List Change)) (n : Nat) (trace : List Trace.Event) : ∃ n' trace',
    Request.begin.run.run ⟨k, .inside w (level :: outer) n, trace⟩ =
      (.ok (.count (outer.length + 2)), ⟨k, .inside w ([] :: level :: outer) n', trace'⟩) := by
  obtain ⟨n', trace', ran⟩ := begin_inside k w level outer n trace
  refine ⟨n', trace', (run_answering ..).trans ?_⟩
  rw [ran]
  simp [Except.map]

theorem rollback_inner_step (k : Committed) (w : Workspace) (level next : List Change)
    (outer : List (List Change)) (n : Nat) (trace : List Trace.Event) : ∃ trace',
    Request.rollback.run.run ⟨k, .inside w (level :: next :: outer) n, trace⟩ =
      ((w.catalog.undoAll level).1.map fun _ => .count (outer.length + 1),
        ⟨k, .inside ⟨(w.catalog.undoAll level).2, w.base⟩ (next :: outer) n, trace'⟩) := by
  obtain ⟨trace', ran⟩ := rollback_inner k w level next outer n trace
  refine ⟨trace', (run_answering ..).trans ?_⟩
  rw [ran]
  simp

/-- A request inside levels that it does not end. Nothing around the transaction matters to it, and
the levels further out stay as they are. As long as updates succeed, what the inner levels noted
leads back to the same tables. -/
theorem inside_step (r : Request) (c : Catalog) (level : List Change) (inner : List (List Change))
    (stays : r.endsLevel = true → inner ≠ []) :
    ∃ (answer : Nat → Except Error Reply) (c' : Catalog) (level' : List Change)
      (inner' : List (List Change)),
    (∀ k base outer n trace, ∃ n' trace',
      r.run.run ⟨k, .inside ⟨c, base⟩ (level :: (inner ++ outer)) n, trace⟩ =
        (answer outer.length, ⟨k, .inside ⟨c', base⟩ (level' :: (inner' ++ outer)) n', trace'⟩)) ∧
    ∀ start, (∀ u, r = .update u → ∃ further reply, answer further = .ok reply) →
      c.Restores (level :: inner).flatten start → c'.Restores (level' :: inner').flatten start := by
  by_cases statement : r.isStatement = true
  · obtain ⟨answer, c', written, acts, restores⟩ := r.acts statement c
    refine ⟨fun _ => answer, c', written ++ level, inner, fun k base outer n trace => ?_,
      fun start succeeds held => ?_⟩
    · obtain ⟨trace', ran⟩ := acts.inside k base level (inner ++ outer) n trace
      exact ⟨n, trace', ran⟩
    · have succeeds : ∀ u, r = .update u → ∃ reply, answer = .ok reply := fun u updates =>
        (succeeds u updates).elim fun _ ok => ok
      simpa only [List.flatten_cons, List.append_assoc] using (restores succeeds).trans held
  · cases r with
    | begin =>
      refine ⟨fun further => .ok (.count (inner.length + further + 2)), c, [], level :: inner,
        fun k base outer n trace => ?_, fun start _ held => held⟩
      simpa only [List.length_append, List.cons_append] using
        begin_inside_step k ⟨c, base⟩ level (inner ++ outer) n trace
    | commit =>
      obtain ⟨next, inner, rfl⟩ := List.exists_cons_of_ne_nil (stays rfl)
      refine ⟨fun further => .ok (.count (inner.length + further + 1)), c, level ++ next, inner,
        fun k base outer n trace => ?_, fun start _ held => ?_⟩
      · obtain ⟨trace', ran⟩ := commit_inner k ⟨c, base⟩ level next (inner ++ outer) n trace
        refine ⟨n, trace', (run_answering ..).trans ?_⟩
        rw [List.cons_append, ran]
        simp [Except.map]
      · simpa only [List.flatten_cons, List.append_assoc] using held
    | rollback =>
      obtain ⟨next, inner, rfl⟩ := List.exists_cons_of_ne_nil (stays rfl)
      refine ⟨fun further => (c.undoAll level).1.map fun _ => .count (inner.length + further + 1),
        (c.undoAll level).2, next, inner, fun k base outer n trace => ?_, fun start _ held => ?_⟩
      · have ran := rollback_inner_step k ⟨c, base⟩ level next (inner ++ outer) n trace
        exact ⟨n, by simpa only [List.length_append, List.cons_append] using ran⟩
      · obtain ⟨d, undone, restores⟩ := held.split
        rw [undone]
        exact restores
    | inTransaction =>
      exact ⟨fun _ => .ok (.flag true), c, level, inner, fun k base outer n trace =>
        ⟨n, trace, rfl⟩,
        fun start _ held => held⟩
    | _ => exact absurd rfl statement

theorem commit_step (k : Committed) (w : Workspace) (level : List Change) (n : Nat)
    (trace : List Trace.Event) (changed : level ≠ []) (same : k.version = w.base) : ∃ trace',
    Request.commit.run.run ⟨k, .inside w [level] n, trace⟩ =
      (.ok (.count 0), ⟨⟨w.catalog, k.version + 1⟩, .idle n, trace'⟩) := by
  obtain ⟨trace', ran⟩ := commit_installs k w level n trace changed same
  exact ⟨trace', (run_answering ..).trans (by rw [ran]; rfl)⟩

/-- What the end of a whole transaction answers and leaves committed. -/
inductive Ends (k : Committed) (w : Workspace) (level : List Change) :
    Request → Except Error Reply → Committed → Prop
  | unchanged : level = [] → Ends k w level .commit (.ok (.count 0)) k
  | installed : level ≠ [] → k.version = w.base →
      Ends k w level .commit (.ok (.count 0)) ⟨w.catalog, k.version + 1⟩
  | conflict : level ≠ [] → Ends k w level .commit (.error e) k
  | rolledBack : Ends k w level .rollback (.ok (.count 0)) k

theorem end_step (r : Request) (ends : r.endsLevel = true) (k : Committed) (w : Workspace)
    (level : List Change) (n : Nat) (trace : List Trace.Event) : ∃ answer k' trace',
    r.run.run ⟨k, .inside w [level] n, trace⟩ = (answer, ⟨k', .idle n, trace'⟩) ∧
      Ends k w level r answer k' := by
  cases r with
  | commit =>
    by_cases silent : level = []
    · subst silent
      obtain ⟨trace', ran⟩ := commit_unchanged k w n trace
      exact ⟨_, k, trace', (run_answering ..).trans (by rw [ran]; rfl), .unchanged rfl⟩
    · by_cases same : k.version = w.base
      · obtain ⟨trace', ran⟩ := commit_step k w level n trace silent same
        exact ⟨_, _, trace', ran, .installed silent same⟩
      · obtain ⟨trace', ran⟩ := commit_conflict k w level n trace silent same
        exact ⟨_, k, trace', (run_answering ..).trans (by rw [ran]; rfl), .conflict silent⟩
  | rollback =>
    obtain ⟨trace', ran⟩ := rollback_outermost k w level n trace
    exact ⟨_, k, trace', (run_answering ..).trans (by rw [ran]; rfl), .rolledBack⟩
  | _ => cases ends

theorem end_depth (r : Request) (ends : r.endsLevel = true) (k : Committed) (w : Workspace)
    (level : List Change) (outer : List (List Change)) (n : Nat) (trace : List Trace.Event) :
    (r.run.run ⟨k, .inside w (level :: outer) n, trace⟩).2.log.depth = outer.length := by
  cases outer with
  | nil =>
    obtain ⟨_, _, _, ran, _⟩ := r.end_step ends k w level n trace
    rw [ran]
    rfl
  | cons next outer =>
    cases r with
    | commit =>
      obtain ⟨trace', ran⟩ := commit_inner k w level next outer n trace
      rw [run, run_answering, ran]
      exact UndoLog.depth_ofLevels ..
    | rollback =>
      obtain ⟨trace', ran⟩ := rollback_inner k w level next outer n trace
      rw [run, run_answering, ran]
      exact UndoLog.depth_ofLevels ..
    | _ => cases ends

end RankedStore.Request
