import RankedStore.Proofs.History
import RankedStore.Proofs.Presence

/-! Why commits fail. A commit compares the number of versions that were committed, not the tables,
and every write outside of a transaction counts as one as soon as it gets to the tables. A commit
therefore also fails if another connection only tried to change something. -/
namespace RankedStore

namespace Action

/-- Outside of any transaction, the action answers, leaves these tables and has counted up the
version by `n`. -/
def Counts (n : Nat) (a : Action α) (c : Catalog) (answer : Except Error α) (c' : Catalog) : Prop :=
  ∀ k begun trace, k.catalog = c → ∃ trace',
    a.run ⟨k, .idle begun, trace⟩ = (answer, ⟨⟨c', k.version + n⟩, .idle begun, trace'⟩)

/-- Outside of any transaction, the action leaves what is committed as it is. -/
def Quiet (a : Action α) : Prop := ∀ c, ∃ answer, Counts 0 a c answer c

variable {n m : Nat} {a : Action α} {c c₁ c₂ c' : Catalog} {answer : Except Error α}

namespace Counts

theorem pure (x : α) (c : Catalog) : Counts 0 (Pure.pure x) c (.ok x) c := by
  rintro k _ trace rfl
  exact ⟨trace, rfl⟩

theorem throw (e : Error) (c : Catalog) :
    Counts 0 (MonadExcept.throw e : Action α) c (.error e) c := by
  rintro k _ trace rfl
  exact ⟨trace, rfl⟩

theorem report {level : Trace.Level} {message : String} {fields : List (String × String)} :
    Counts 0 (Action.report level message fields) c (.ok ()) c := by
  rintro k _ trace rfl
  exact ⟨_, rfl⟩

theorem record (change : Change) (c : Catalog) : Counts 0 (Action.record change) c (.ok ()) c := by
  rintro k _ trace rfl
  exact ⟨trace, rfl⟩

theorem ofExcept {outcome : Except Error α} (h : outcome = answer) :
    Counts 0 (Action.ofExcept outcome) c answer c := by
  subst h
  cases outcome with
  | ok x => exact pure x c
  | error e => exact throw e c

theorem read {f : Catalog → Except Error α} (h : f c = answer) :
    Counts 0 (Action.read f) c answer c := by
  rintro k begun trace rfl
  exact ofExcept h k begun trace rfl

/-- A write counts, whatever comes of it. -/
theorem write (f : Catalog → Except Error α × Catalog) (c : Catalog) :
    Counts 1 (Action.write f) c (f c).1 (f c).2 := by
  rintro k _ trace rfl
  exact ⟨trace, rfl⟩

theorem bind {f : α → Action β} {answer : Except Error β} (first : Counts n a c (.ok x) c₁)
    (second : Counts m (f x) c₁ answer c₂) : Counts (n + m) (a >>= f) c answer c₂ := by
  intro k begun trace same
  obtain ⟨middle, ran⟩ := first k begun trace same
  obtain ⟨last, ran'⟩ := second ⟨c₁, k.version + n⟩ begun middle rfl
  refine ⟨last, ?_⟩
  rw [run_bind, ran, ← Nat.add_assoc]
  exact ran'

theorem bind_error {f : α → Action β} (first : Counts n a c (.error e) c') :
    Counts n (a >>= f) c (.error e) c' := by
  intro k begun trace same
  obtain ⟨middle, ran⟩ := first k begun trace same
  exact ⟨middle, by rw [run_bind, ran]⟩

/-- After an action that leaves everything as it is. -/
theorem after {f : α → Action β} {answer : Except Error β} (first : Counts 0 a c (.ok x) c)
    (second : Counts n (f x) c answer c') : Counts n (a >>= f) c answer c' := by
  simpa only [Nat.zero_add] using first.bind second

theorem followed {f : α → Action β} (first : Counts n a c answer c') (second : ∀ x, Quiet (f x)) :
    ∃ answer', Counts n (a >>= f) c answer' c' := by
  cases answer with
  | error e => exact ⟨.error e, first.bind_error⟩
  | ok x =>
    obtain ⟨answer', quiet⟩ := second x c'
    exact ⟨answer', first.bind quiet⟩

/-- A write, and then nothing that counts. -/
theorem written {f : Catalog → Except Error α × Catalog} {g : α → Action β}
    (rest : ∀ x, Quiet (g x)) :
    ∃ answer c', Counts 1 (Action.write f >>= g) c answer c' := by
  obtain ⟨answer, counts⟩ := (write f c).followed rest
  exact ⟨answer, _, counts⟩

theorem reported {level : Trace.Level} {message : String} {fields : List (String × String)}
    {f : Unit → Action β} (rest : ∃ answer c', Counts n (f ()) c answer c') :
    ∃ answer c', Counts n (Action.report level message fields >>= f) c answer c' := by
  obtain ⟨answer, c', counts⟩ := rest
  exact ⟨answer, c', .after .report counts⟩

end Counts

namespace Quiet

theorem pure (x : α) : Quiet (Pure.pure x) := fun c => ⟨_, .pure x c⟩

theorem throw (e : Error) : Quiet (MonadExcept.throw e : Action α) := fun c => ⟨_, .throw e c⟩

theorem report {level : Trace.Level} {message : String} {fields : List (String × String)} :
    Quiet (Action.report level message fields) := fun _ => ⟨_, .report⟩

theorem record (change : Change) : Quiet (Action.record change) := fun c => ⟨_, .record change c⟩

theorem read (f : Catalog → Except Error α) : Quiet (Action.read f) := fun _ => ⟨_, .read rfl⟩

theorem bind {f : α → Action β} (first : Quiet a) (second : ∀ x, Quiet (f x)) :
    Quiet (a >>= f) := by
  intro c
  obtain ⟨_, counts⟩ := first c
  exact counts.followed second

theorem forM {f : α → Action PUnit} (each : ∀ x, Quiet (f x)) (l : List α) : Quiet (l.forM f) := by
  induction l with
  | nil => exact pure ()
  | cons x rest ih => exact (each x).bind fun _ => ih

end Quiet

theorem createTable_counts (layout : TableLayout) (c : Catalog) :
    ∃ answer c', Counts 1 (createTable layout) c answer c' :=
  Counts.reported (Counts.written fun _ => .record (.created layout.name))

theorem insert_counts (table : String) (row : Row) (c : Catalog) :
    ∃ answer c', Counts 1 (insert table row) c answer c' :=
  Counts.written fun id =>
    Quiet.report.bind fun _ => (Quiet.record (.inserted table id)).bind fun _ => .pure id

theorem updateWhere_counts (u : Update) (c : Catalog) :
    ∃ answer c', Counts 1 (updateWhere u) c answer c' :=
  Counts.reported (Counts.written fun replaced => (Quiet.forM (fun _ => .record _) replaced).bind
    fun _ =>
    Quiet.report.bind fun _ => .pure replaced.length)

theorem replace_counts (table : String) (id : Int64) (row : Row) (c : Catalog) :
    ∃ answer c', Counts 1 (replace table id row) c answer c' := by
  apply Counts.written
  rintro (_ | old)
  · exact .throw _
  · exact .record _

theorem delete_counts (table : String) (id : Int64) (c : Catalog) :
    ∃ answer c', Counts 1 (delete table id) c answer c' := by
  apply Counts.reported
  apply Counts.written
  rintro (_ | old)
  · exact .pure false
  · exact (Quiet.record _).bind fun _ => .pure true

end Action

namespace Request

open RankedStore.Action

/-- Whether the request, made outside of any transaction, gets to write to the tables, whatever
comes of it. A single cell is looked for first. -/
def attempts (c : Catalog) : Request → Bool
  | .updateById table id column _ =>
    match c.tables.get? table with
    | none => false
    | some t => match t.get? id, t.layout.index column with
      | some row, .ok i => i < row.length
      | _, _ => false
  | r => r.writes

theorem updateById_counts (table : String) (id : Int64) (column : String) (value : Value)
    (c : Catalog) :
    attempts c (.updateById table id column value) = false ∧
        (∃ answer, Counts 0 (Action.updateById table id column value) c answer c) ∨
      attempts c (.updateById table id column value) = true ∧
        ∃ answer c', Counts 1 (Action.updateById table id column value) c answer c' := by
  have fetches : Counts 0 (Action.fetch table id) c _ c := .read rfl
  have seen : Counts 0 (Action.layout table) c _ c := .read rfl
  cases found : c.tables.get? table with
  | none =>
    rw [Catalog.table, found] at fetches
    exact .inl ⟨by simp only [attempts, found], _, .after .report fetches.bind_error⟩
  | some t =>
    rw [Catalog.table, found] at fetches seen
    cases stored : t.get? id with
    | none =>
      refine .inl ⟨by simp only [attempts, found, stored], .error (.entityNotFound table id), ?_⟩
      have fetches : Counts 0 (Action.fetch table id) c (.ok none) c := stored ▸ fetches
      exact .after .report (fetches.after (.throw _ _))
    | some row =>
      have fetches : Counts 0 (Action.fetch table id) c (.ok (some row)) c := stored ▸ fetches
      cases place : t.layout.index column with
      | error e =>
        refine .inl ⟨by simp only [attempts, found, stored, place], .error e, ?_⟩
        exact .after .report (fetches.after (seen.after (.bind_error (.ofExcept place))))
      | ok i =>
        by_cases inside : i < row.length
        · obtain ⟨answer, c', replaces⟩ := replace_counts table id (row.set i value) c
          refine .inr ⟨by simpa only [attempts, found, stored, place, decide_eq_true_eq],
            answer, c', ?_⟩
          refine .after .report (fetches.after (seen.after (.after (.ofExcept place) ?_)))
          rw [if_pos inside]
          exact replaces
        · refine .inl ⟨by simpa only [attempts, found, stored, place, decide_eq_false_iff_not],
            .error (.damage (.rowTooShort table)), ?_⟩
          refine .after .report (fetches.after (seen.after (.after (.ofExcept place) ?_)))
          rw [if_neg inside]
          exact .throw _ _

/-- A request outside of any transaction, other than the one that begins one, counts as a version
exactly if it attempts to write. -/
theorem counts (r : Request) (stays : r ≠ .begin) (c : Catalog) :
    r.attempts c = false ∧ (∃ answer, Counts 0 r.run c answer c) ∨
      r.attempts c = true ∧ ∃ answer c', Counts 1 r.run c answer c' := by
  have looks : ∀ {α : Type} {f : Catalog → Except Error α} {g : α → Reply},
      ∃ answer, Counts 0 (do return g (← Action.read f)) c answer c := fun {_ f g} =>
    (Quiet.read f).bind (fun x => .pure (g x)) c
  have wrote : ∀ {α : Type} {a : Action α} {g : α → Reply}, (∃ answer c', Counts 1 a c answer c') →
      ∃ answer c', Counts 1 (do return g (← a)) c answer c' := by
    rintro α a g ⟨answer, c', counts⟩
    obtain ⟨answer', counts'⟩ := counts.followed fun x => .pure (g x)
    exact ⟨answer', c', counts'⟩
  cases r with
  | createTable layout => exact .inr ⟨rfl, wrote (createTable_counts layout c)⟩
  | insert table row => exact .inr ⟨rfl, wrote (insert_counts table row c)⟩
  | update u => exact .inr ⟨rfl, wrote (updateWhere_counts u c)⟩
  | updateById table id column value =>
    rcases updateById_counts table id column value c with ⟨misses, _, counts⟩ | ⟨attempts, counts⟩
    · exact .inl ⟨misses, counts.followed fun _ => .pure Reply.done⟩
    · exact .inr ⟨attempts, wrote counts⟩
  | replace table id row => exact .inr ⟨rfl, wrote (replace_counts table id row c)⟩
  | delete table id => exact .inr ⟨rfl, wrote (delete_counts table id c)⟩
  | hasTable table => exact .inl ⟨rfl, looks⟩
  | layout table => exact .inl ⟨rfl, looks⟩
  | rowCount table => exact .inl ⟨rfl, looks⟩
  | tableNames => exact .inl ⟨rfl, looks⟩
  | fetch table id => exact .inl ⟨rfl, looks⟩
  | select s => exact .inl ⟨rfl, (Quiet.report.bind fun _ => .read _).bind (fun _ => .pure _) c⟩
  | aggregate a => exact .inl ⟨rfl, (Quiet.report.bind fun _ => .read _).bind (fun _ => .pure _) c⟩
  | begin => exact absurd rfl stays
  | commit => exact .inl ⟨rfl, _, fun k begun trace same => ⟨trace, by subst same; rfl⟩⟩
  | rollback => exact .inl ⟨rfl, _, fun k begun trace same => ⟨trace, by subst same; rfl⟩⟩
  | inTransaction =>
    exact .inl ⟨rfl, .ok (.flag false), fun k begun trace same => ⟨trace, by subst same; rfl⟩⟩

end Request
namespace Store

/-- The request changes what is committed: outside of any transaction it changes the tables, or it
commits the changes of a whole transaction. -/
inductive Changes (s : Store) (name : String) : Request → Prop
  | altered {r : Request} : s.depth name = 0 →
      (s.step (.ask name r)).2.committed.catalog ≠ s.committed.catalog → Changes s name r
  | installed {reply : Reply} : s.depth name = 1 → s.pending name ≠ 0 →
      (s.step (.ask name .commit)).1 = some (.ok reply) → Changes s name .commit

/-- The request, outside of any transaction, gets to write and leaves the tables as they are. It
failed, or it found nothing to change. -/
structure TriesInVain (s : Store) (name : String) (r : Request) : Prop where
  connected : s.connections.contains name = true
  outside : s.depth name = 0
  attempts : r.attempts s.committed.catalog = true
  unchanged : (s.step (.ask name r)).2.committed.catalog = s.committed.catalog

def Disturbs (s : Store) (name : String) (r : Request) : Prop :=
  s.Changes name r ∨ s.TriesInVain name r

/-- One of the steps is such a request of another connection. -/
def Beside (P : Store → String → Request → Prop) (name : String) : Store → List Step → Prop
  | _, [] => False
  | s, step :: rest => (∃ other r, step = .ask other r ∧ other ≠ name ∧ P s other r) ∨
      Beside P name (s.step step).2 rest

/-- The transaction of a connection stays open through these steps. -/
def KeepsOpen (name : String) : Store → List Step → Prop
  | _, [] => True
  | s, step :: rest => (s.step step).2.depth name ≠ 0 ∧ KeepsOpen name (s.step step).2 rest

/-- The store after a connection has begun a transaction. -/
def begun (s : Store) (name : String) : Store := (s.step (.ask name .begin)).2

/-- A connection begins a transaction, which stays open through the steps. What it changed is then
about to be committed as a whole. -/
structure Prepares (s : Store) (name : String) (steps : List Step) : Prop where
  connected : s.connections.contains name = true
  outside : s.depth name = 0
  stays : KeepsOpen name (s.begun name) steps
  outermost : ((s.begun name).play steps).depth name = 1
  pending : ((s.begun name).play steps).pending name ≠ 0

variable {s : Store} {name : String} {r : Request} {steps : List Step} {base : Nat}

theorem beside_or {P Q : Store → String → Request → Prop} :
    Beside (fun s name r => P s name r ∨ Q s name r) name s steps ↔
      Beside P name s steps ∨ Beside Q name s steps := by
  induction steps generalizing s with
  | nil => exact (or_self_iff).symm
  | cons step rest ih =>
    simp only [Beside, ih, and_or_left, exists_or]
    exact or_or_or_comm

/-! Of one request it is known whether it disturbs, and it counts as a version exactly if it
does. -/

/-- A request that disturbs leads to the next version, and any other leaves what is committed. -/
def Counted (s : Store) (name : String) (r : Request) : Prop :=
  s.Disturbs name r ∧ (s.step (.ask name r)).2.committed.version = s.committed.version + 1 ∨
    ¬ s.Disturbs name r ∧ (s.step (.ask name r)).2.committed = s.committed

theorem Counted.idle (found : s.connections.get? name = some (.idle n)) (r : Request) :
    s.Counted name r := by
  have outside := depth_idle found
  have undisturbed : r.attempts s.committed.catalog = false →
      (s.step (.ask name r)).2.committed = s.committed → s.Counted name r := by
    refine fun misses same => .inr ⟨?_, same⟩
    rintro ((⟨_, altered⟩ | ⟨outermost, _⟩) | vain)
    · exact altered (congrArg Committed.catalog same)
    · omega
    · exact Bool.false_ne_true (misses.symm.trans vain.attempts)
  by_cases starts : r = .begin
  · subst starts
    obtain ⟨n', trace', ran⟩ := Request.begin_step s.committed n []
    exact undisturbed rfl (by rw [step_ask found ran])
  · rcases r.counts starts s.committed.catalog with ⟨misses, _, counts⟩ | ⟨attempts, _, c', counts⟩
    · obtain ⟨trace', ran⟩ := counts s.committed n [] rfl
      exact undisturbed misses (by rw [step_ask found ran]; rfl)
    · obtain ⟨trace', ran⟩ := counts s.committed n [] rfl
      refine .inl ⟨?_, by rw [step_ask found ran]⟩
      by_cases same : (s.step (.ask name r)).2.committed.catalog = s.committed.catalog
      · exact .inr ⟨by rw [Dict.contains, found]; rfl, outside, attempts, same⟩
      · exact .inl (.altered outside same)

/-- Inside a transaction only its last commit disturbs, if it succeeds and there are changes. -/
theorem Counted.silent (inside : s.depth name ≠ 0)
    (same : (s.step (.ask name r)).2.committed = s.committed)
    (spares : r = .commit → s.depth name = 1 → s.pending name ≠ 0 →
      ∀ reply, (s.step (.ask name r)).1 ≠ some (.ok reply)) : s.Counted name r := by
  refine .inr ⟨?_, same⟩
  rintro ((⟨outside, _⟩ | ⟨outermost, pending, succeeds⟩) | vain)
  · exact inside outside
  · exact spares rfl outermost pending _ succeeds
  · exact inside vain.outside

theorem Counted.ends (found : s.connections.get? name = some (.inside w [level] n))
    (ends : r.endsLevel = true) : s.Counted name r := by
  have inside := depth_inside_ne found
  have changes : s.pending name = level.length := by
    rw [pending_inside found, List.flatten_cons, List.flatten_nil, List.append_nil]
  obtain ⟨answer, k', trace', ran, ending⟩ := r.end_step ends s.committed w level n []
  have taken := step_ask found ran
  cases ending with
  | unchanged silent =>
    refine .silent inside (by rw [taken]) fun _ _ pending => ?_
    exact absurd (changes.trans (List.length_eq_zero_iff.mpr silent)) pending
  | installed changed =>
    refine .inl ⟨.inl (.installed (depth_inside found) ?_ (by rw [taken])), by rw [taken]⟩
    rwa [changes, Ne, List.length_eq_zero_iff]
  | conflict => exact .silent inside (by rw [taken]) (by simp [taken])
  | rolledBack => exact .silent inside (by rw [taken]) fun commits => by cases commits

theorem Proper.counted (proper : s.Proper) (name : String) (r : Request) : s.Counted name r := by
  cases found : s.connections.get? name with
  | none =>
    refine .inr ⟨?_, by rw [step_ask_none found]⟩
    rintro ((⟨_, altered⟩ | ⟨outermost, _⟩) | vain)
    · exact altered (by rw [step_ask_none found])
    · simp [depth_none found] at outermost
    · have connected := vain.connected
      simp [Dict.contains, found] at connected
  | some connection =>
    cases proper name connection found with
    | idle n => exact .idle found r
    | inside w level outer n =>
      by_cases last : r.endsLevel = true ∧ outer = []
      · obtain ⟨ends, rfl⟩ := last
        exact .ends found ends
      · obtain ⟨answer, c', level', outer', ran, _⟩ := r.inside_step w.catalog level outer
          fun ends none => last ⟨ends, none⟩
        obtain ⟨n', trace', ran⟩ := ran s.committed w.base [] n []
        rw [List.append_nil] at ran
        refine .silent (depth_inside_ne found) (by rw [step_ask found ran])
          fun commits outermost => ?_
        refine absurd ⟨commits ▸ rfl, ?_⟩ last
        simpa [depth_inside found] using outermost

/-! A transaction that stays open keeps the version that its copy was taken from, and its connection
does not count up the version. -/

/-- A connection is inside a transaction whose copy is of this version. -/
def Opened (s : Store) (name : String) (base : Nat) : Prop :=
  ∃ w level outer n, s.connections.get? name = some (.inside w (level :: outer) n) ∧ w.base = base

theorem Opened.begun (found : s.connections.get? name = some (.idle n)) :
    (s.begun name).Opened name s.committed.version ∧ (s.begun name).committed = s.committed := by
  obtain ⟨n', trace', ran⟩ := Request.begin_step s.committed n []
  rw [Store.begun, step_ask found ran]
  exact ⟨⟨_, _, _, _, Dict.get?_insert_self .., rfl⟩, rfl⟩

/-- A request of the connection itself either ends the transaction, or it changes nothing that is
committed. -/
theorem Opened.ask (opened : s.Opened name base) (stays : (s.step (.ask name r)).2.depth name ≠ 0) :
    (s.step (.ask name r)).2.Opened name base ∧
    (s.step (.ask name r)).2.committed = s.committed := by
  obtain ⟨w, level, outer, n, found, rfl⟩ := opened
  by_cases last : r.endsLevel = true ∧ outer = []
  · obtain ⟨ends, rfl⟩ := last
    obtain ⟨answer, k', trace', ran, _⟩ := r.end_step ends s.committed w level n []
    rw [step_ask found ran] at stays
    exact absurd (depth_idle (Dict.get?_insert_self ..)) stays
  · obtain ⟨answer, c', level', outer', ran, _⟩ := r.inside_step w.catalog level outer
      fun ends none => last ⟨ends, none⟩
    obtain ⟨n', trace', ran⟩ := ran s.committed w.base [] n []
    rw [List.append_nil, List.append_nil] at ran
    rw [step_ask found ran]
    exact ⟨⟨_, _, _, _, Dict.get?_insert_self .., rfl⟩, rfl⟩

theorem Opened.step (opened : s.Opened name base) (step : Step)
    (stays : (s.step step).2.depth name ≠ 0) :
    (s.step step).2.Opened name base := by
  have kept : (s.step step).2.connections.get? name = s.connections.get? name →
      (s.step step).2.Opened name base := by
    obtain ⟨w, level, outer, n, found, same⟩ := opened
    exact fun kept => ⟨w, level, outer, n, kept.trans found, same⟩
  cases step with
  | connect other =>
    by_cases same : other = name
    · subst same
      exact absurd (depth_idle (n := 0) (Dict.get?_insert_self ..)) stays
    · exact kept (Dict.get?_insert_of_ne _ _ same)
  | disconnect other =>
    by_cases same : other = name
    · subst same
      exact absurd (depth_none (Dict.get?_erase_self ..)) stays
    · exact kept (Dict.get?_erase_of_ne _ same)
  | ask other r =>
    by_cases same : other = name
    · subst same
      exact (opened.ask stays).1
    · exact kept (get?_step_ask_of_ne s r same)

/-- While a transaction stays open, the version is counted up if and only if a request of another
connection disturbs. -/
theorem Opened.play (proper : s.Proper) (opened : s.Opened name base)
    (stays : KeepsOpen name s steps) :
    (s.play steps).Opened name base ∧
      (Beside Disturbs name s steps ∧ s.committed.version < (s.play steps).committed.version ∨
        ¬ Beside Disturbs name s steps ∧
          (s.play steps).committed.version = s.committed.version) := by
  induction steps generalizing s with
  | nil => exact ⟨opened, .inr ⟨id, rfl⟩⟩
  | cons step rest ih =>
    obtain ⟨here, later⟩ := stays
    obtain ⟨opened', counted⟩ := ih (proper.step step) (opened.step step here) later
    refine ⟨opened', ?_⟩
    -- the first step is settled here, the others by the induction hypothesis
    have first : (∃ other r, step = .ask other r ∧ other ≠ name ∧ s.Disturbs other r) ∧
          (s.step step).2.committed.version = s.committed.version + 1 ∨
        ¬ (∃ other r, step = .ask other r ∧ other ≠ name ∧ s.Disturbs other r) ∧
          (s.step step).2.committed.version = s.committed.version := by
      cases step with
      | connect | disconnect => exact .inr ⟨nofun, rfl⟩
      | ask other r =>
        rcases proper.counted other r with ⟨disturbs, next⟩ | ⟨silent, same⟩
        · refine .inl ⟨⟨other, r, rfl, ?_, disturbs⟩, next⟩
          rintro rfl
          rw [(opened.ask here).2] at next
          omega
        · refine .inr ⟨?_, congrArg Committed.version same⟩
          rintro ⟨_, _, ⟨⟩, _, disturbs⟩
          exact silent disturbs
    rw [Beside]
    show _ ∧ _ < ((s.step step).2.play rest).committed.version ∨
      _ ∧ ((s.step step).2.play rest).committed.version = _
    rcases first with ⟨disturbs, next⟩ | ⟨silent, same⟩ <;>
      rcases counted with ⟨disturbs', less⟩ | ⟨silent', equal⟩
    · exact .inl ⟨.inl disturbs, by omega⟩
    · exact .inl ⟨.inl disturbs, by omega⟩
    · exact .inl ⟨.inr disturbs', by omega⟩
    · exact .inr ⟨not_or.mpr ⟨silent, silent'⟩, by omega⟩

/-- Whatever connections do, in whatever order, the outermost commit of a transaction with changes
fails if and only if, since the transaction began, another connection changed what is committed or
tried in vain to. It then reports a conflict, leaves what is committed as it is, and the connection
is outside of any transaction. -/
theorem commit_fails_iff (c : Catalog) (history steps : List Step) (name : String) :
    let s := (ofCatalog c).play history
    let last := (s.begun name).play steps
    s.Prepares name steps →
      ((∃ e, (last.step (.ask name .commit)).1 = some (.error e)) ↔
        Beside Changes name (s.begun name) steps ∨ Beside TriesInVain name (s.begun name) steps) ∧
      ∀ e, (last.step (.ask name .commit)).1 = some (.error e) →
        e = .transaction (.conflict s.committed.version last.committed.version) ∧
          (last.step (.ask name .commit)).2.committed = last.committed ∧
          (last.step (.ask name .commit)).2.depth name = 0 := by
  intro s last prepares
  have proper : s.Proper := (Proper.ofCatalog c).play history
  obtain ⟨n, found⟩ : ∃ n, s.connections.get? name = some (.idle n) := by
    obtain ⟨connection, found⟩ := Option.isSome_iff_exists.mp prepares.connected
    cases proper name connection found with
    | idle n => exact ⟨n, found⟩
    | inside => exact absurd prepares.outside (depth_inside_ne found)
  obtain ⟨opened, same⟩ := Opened.begun found
  have proper' : (s.begun name).Proper := proper.step _
  obtain ⟨⟨w, level, outer, n', there, base⟩, counted⟩ := opened.play proper' prepares.stays
  have outermost := prepares.outermost
  have pending := prepares.pending
  rw [depth_inside there] at outermost
  obtain rfl : outer = [] := by simpa using outermost
  rw [pending_inside there] at pending
  have changed : level ≠ [] := by
    rintro rfl
    exact pending rfl
  rw [← beside_or]
  have start : s.committed.version = (s.begun name).committed.version := by rw [same]
  rcases counted with ⟨disturbed, less⟩ | ⟨silent, equal⟩
  · have moved : last.committed.version ≠ w.base := by rw [base, start]; exact Nat.ne_of_gt less
    obtain ⟨trace', ran⟩ := Action.commit_conflict last.committed w level n' [] changed moved
    have answers : Request.commit.run.run ⟨last.committed, .inside w [level] n', []⟩ = _ :=
      (Request.run_answering ..).trans (by rw [ran])
    rw [step_ask there answers]
    refine ⟨iff_of_true ⟨_, rfl⟩ disturbed, ?_⟩
    rintro _ ⟨⟩
    exact ⟨by rw [base], rfl, depth_idle (Dict.get?_insert_self ..)⟩
  · have unmoved : last.committed.version = w.base := by rw [base, start]; exact equal
    obtain ⟨trace', ran⟩ := Request.commit_step last.committed w level n' [] changed unmoved
    rw [step_ask there ran]
    exact ⟨iff_of_false nofun silent, nofun⟩

end Store

/-! Two connections and a table. One connection inserts a row in a transaction, and the other asks
for something before it is committed. -/
namespace Rivals

def history : List Store.Step :=
  [.connect "a", .connect "b", .ask "a" (.createTable ⟨"t", [Column.id]⟩)]

def before : Store := (Store.ofCatalog .empty).play history

def steps (r : Request) : List Store.Step := [.ask "a" (.insert "t" [.null]), .ask "b" r]

/-- What the commit answers. -/
def answer (r : Request) : Option (Except Error Reply) :=
  (((before.begun "a").play (steps r)).step (.ask "a" .commit)).1

def inserted : Store := ((before.begun "a").step (.ask "a" (.insert "t" [.null]))).2

theorem beside_iff {P : Store → String → Request → Prop} (r : Request) :
    Store.Beside P "a" (before.begun "a") (steps r) ↔ P inserted "b" r := by
  constructor
  · rintro (⟨_, _, ⟨⟩, ne, _⟩ | ⟨_, _, ⟨⟩, _, holds⟩ | nothing)
    · exact absurd rfl ne
    · exact holds
    · exact nothing.elim
  · exact fun holds => .inr (.inl ⟨"b", r, rfl, by decide, holds⟩)

/-- The commit fails, although the other connection has changed nothing. -/
def FailsInVain (r : Request) : Prop :=
  before.Prepares "a" (steps r) ∧ answer r = some (.error (.transaction (.conflict 1 2))) ∧
    ¬ Store.Beside Store.Changes "a" (before.begun "a") (steps r)

end Rivals

/-- The commit fails if the other connection has inserted a row, too, and not if it has counted the
rows. -/
theorem Store.commit_fails_iff_insert :
    (∃ e, Rivals.answer (.insert "t" [.null]) = some (.error e)) ∧
    ¬ ∃ e, Rivals.answer (.rowCount "t") = some (.error e) := by
  have inserts : Rivals.before.Prepares "a" (Rivals.steps (.insert "t" [.null])) :=
    ⟨rfl, rfl, ⟨by decide, by decide, trivial⟩, rfl, by decide⟩
  have counts : Rivals.before.Prepares "a" (Rivals.steps (.rowCount "t")) :=
    ⟨rfl, rfl, ⟨by decide, by decide, trivial⟩, rfl, by decide⟩
  constructor
  · exact (commit_fails_iff _ _ _ _ inserts).1.mpr
      (.inl ((Rivals.beside_iff _).mpr (.altered rfl (by decide))))
  · intro fails
    rcases (commit_fails_iff _ _ _ _ counts).1.mp fails with changed | tried
    · rcases (Rivals.beside_iff _).mp changed with ⟨_, altered⟩
      exact altered rfl
    · exact Bool.false_ne_true ((Rivals.beside_iff _).mp tried).attempts

/-- The commit also fails if the other connection has tried to insert a row with a text for its id,
which is an error, or to delete a row that is not there. -/
theorem Store.commit_fails_in_vain :
    Rivals.FailsInVain (.insert "t" [.text "x"]) ∧ Rivals.FailsInVain (.delete "t" 9) := by
  constructor
  all_goals
    refine ⟨⟨rfl, rfl, ⟨by decide, by decide, trivial⟩, rfl, by decide⟩, rfl, fun changed => ?_⟩
    rcases (Rivals.beside_iff _).mp changed with ⟨_, altered⟩
    exact altered rfl

end RankedStore
