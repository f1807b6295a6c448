import RankedStore.Proofs.Snapshot
import RankedStore.Proofs.Tool.Steps

/-! Runs of the tool one after the other, each of which reads the tables, registers the entity
types, carries out its command and writes the tables back if the command reports a change. They do
what the commands do on one session that is kept in memory, since registering the types again finds
every table in its place. -/
namespace RankedStore

open RankedStore.Action

namespace Tool

variable {g : Registry} {schemas : List EntitySchema} {c c' : Catalog} {s s₀ : Session}

/-- What can be seen of a command: how it ends and what it prints. -/
def shown : Except Failure Report → Nat × String × String
  | .ok report => (0, String.join (report.lines.map (· ++ "\n")), "")
  | .error failure => (failure.code, "", failure.text)

/-- Whether a command succeeds and reports a change. -/
def reports : Except Failure Report → Bool
  | .ok report => report.changed
  | .error _ => false

/-- The same of a run. -/
def Outcome.shown (outcome : Outcome) : Nat × String × String :=
  (outcome.code, outcome.out, outcome.err)

/-- A command line and the time of its run. -/
structure Call where
  invocation : Invocation
  now : UInt64

namespace Call

/-- A run of its own on the data file that is there. -/
def outcome (call : Call) (schema : String) (data : Option String) : Outcome :=
  call.invocation.run ⟨.ok schema, .ok data⟩ call.now.toNat

/-- The data file after the run. -/
def data (call : Call) (schema : String) (data : Option String) : Option String :=
  (call.outcome schema data).written <|> data

/-- The command alone, on a session where the types are registered. -/
def answer (call : Call) (g : Registry) (s : Session) : Except Failure Report × Session :=
  (call.invocation.command.run g).run s

end Call

/-- Runs one after the other, each on the data file that the one before has left. -/
def outcomes (schema : String) : Option String → List Call → List Outcome
  | _, [] => []
  | data, call :: rest => call.outcome schema data :: outcomes schema (call.data schema data) rest

def dataAfter (schema : String) (data : Option String) (calls : List Call) : Option String :=
  calls.foldl (fun data call => call.data schema data) data

/-- The commands one after the other on one session. -/
def answers (g : Registry) : Session → List Call → List (Except Failure Report)
  | _, [] => []
  | s, call :: rest => (call.answer g s).1 :: answers g (call.answer g s).2 rest

def sessionAfter (g : Registry) (s : Session) (calls : List Call) : Session :=
  calls.foldl (fun s call => (call.answer g s).2) s

theorem sessionAfter_append (g : Registry) (s : Session) (before later : List Call) :
    sessionAfter g s (before ++ later) = sessionAfter g (sessionAfter g s before) later :=
  List.foldl_append

theorem dataAfter_append (schema : String) (data : Option String) (before later : List Call) :
    dataAfter schema data (before ++ later) = dataAfter schema (dataAfter schema data before)
      later :=
  List.foldl_append

theorem sessionAfter_concat (g : Registry) (s : Session) (before : List Call) (call : Call) :
    sessionAfter g s (before ++ [call]) = (call.answer g (sessionAfter g s before)).2 :=
  sessionAfter_append ..

theorem dataAfter_concat (schema : String) (data : Option String) (before : List Call)
    (call : Call) :
    dataAfter schema data (before ++ [call]) = call.data schema (dataAfter schema data before) :=
  dataAfter_append ..

/-- A run on a data file that can be read shows what its command does, and writes the tables if they
changed. -/
theorem outcome_of_leads {schema : String} {data : Option String} {call : Call}
    (valid : EntitySchema.readAll schema = .ok schemas) (reads : Snapshot.readOrEmpty data = .ok c)
    (leads : Leads (call.invocation.steps schemas call.now.toNat) c (answer.map fun report =>
      (report, if report.changed then some (Snapshot.write call.now.toNat c') else none)) c') :
    (call.outcome schema data).shown = shown answer ∧
      (call.outcome schema data).written.isSome = reports answer ∧
      call.data schema data = if reports answer then some (Snapshot.write call.now.toNat c') else
        data := by
  obtain ⟨_, ran, _⟩ := leads _ (session_rests c)
  cases answer with
  | error e =>
    have outcome : call.outcome schema data = { code := e.code, err := e.text } := by
      simp [Call.outcome, Invocation.run, Invocation.schemas, Invocation.stored, valid, reads, ran,
        Except.map]
    rw [Call.data, outcome]
    exact ⟨rfl, rfl, rfl⟩
  | ok report =>
    have outcome : call.outcome schema data =
        { code := 0, out := String.join (report.lines.map (· ++ "\n"))
          written := if report.changed then some (Snapshot.write call.now.toNat c') else
            none } := by
      simp [Call.outcome, Invocation.run, Invocation.schemas, Invocation.stored, valid, reads, ran,
        Except.map]
    rw [Call.data, outcome]
    cases changed : report.changed <;> simp [Outcome.shown, shown, reports, changed]

/-- Registering the types on the tables of the data file leads to the tables of the session. -/
structure InStep (schemas : List EntitySchema) (g : Registry) (data : Option String) (s : Session) :
    Prop where
  stored : ∃ c, Snapshot.readOrEmpty data = .ok c ∧
    Leads (registerAll .empty schemas) c (.ok g) s.view
  rests : s.Rests s.view
  backed : g.Backed s.view

namespace InStep

variable {schema : String} {data : Option String}

/-- Tables that are written with all types registered are in step with themselves. -/
theorem ofWritten (takes : Registry.empty.Takes schemas g) (rests : s.Rests c) (backed : g.Backed c)
    (floatFree : c.FloatFree) (now : UInt64) :
    InStep schemas g (some (Snapshot.write now.toNat c)) s := by
  obtain rfl := rests.view
  exact ⟨⟨s.view, Snapshot.written_is_read now floatFree, registerAll_again takes backed⟩,
    rests, backed⟩

theorem call (inStep : InStep schemas g data s) (valid : EntitySchema.readAll schema = .ok schemas)
    (takes : Registry.empty.Takes schemas g) (call : Call) :
    (call.outcome schema data).shown = shown (call.answer g s).1 ∧
      (call.outcome schema data).written.isSome = reports (call.answer g s).1 ∧
      (reports (call.answer g s).1 = false →
        call.data schema data = data ∧ (call.answer g s).2.view = s.view) ∧
      ((call.answer g s).2.view.FloatFree →
        InStep schemas g (call.data schema data) (call.answer g s).2 ∧
        (reports (call.answer g s).1 = true →
          Snapshot.readOrEmpty (call.data schema data) = .ok (call.answer g s).2.view)) := by
  obtain ⟨⟨c, reads, registers⟩, rests, backed⟩ := inStep
  obtain ⟨answer, c', acts, achieves, unchanged⟩ := call.invocation.command.run_fulfils g s.view
  obtain ⟨s', ran, rests'⟩ := acts s rests
  obtain ⟨looks, writes, data'⟩ := outcome_of_leads valid reads
    (steps_leads call.invocation call.now.toNat registers acts)
  have answered : call.answer g s = (answer, s') := ran
  have view : s'.view = c' := rests'.view
  rw [answered, data']
  dsimp only
  rw [view]
  cases reported : reports answer with
  | false =>
    obtain rfl : c' = s.view := by
      cases answer with
      | error e => exact unchanged e rfl
      | ok report => exact (achieves report rfl).2 reported
    refine ⟨looks, writes.trans reported, fun _ => ⟨rfl, rfl⟩, fun _ =>
      ⟨⟨⟨c, reads, ?_⟩, ?_, ?_⟩, by simp⟩⟩
    · exact view ▸ registers
    · exact view ▸ rests'
    · exact view ▸ backed
  | true =>
    have same : s.view.SameLayouts c' := by
      cases answer with
      | error e => cases reported
      | ok report => exact (achieves report rfl).1
    refine ⟨looks, writes.trans reported, by simp, fun floatFree => ⟨?_, fun _ => ?_⟩⟩
    · exact ofWritten takes rests' (backed.same same) floatFree call.now
    · exact Snapshot.written_is_read call.now floatFree

/-- As long as no float is stored, file and session stay in step, and every run shows what its
command does. -/
theorem calls (inStep : InStep schemas g data s) (valid : EntitySchema.readAll schema = .ok schemas)
    (takes : Registry.empty.Takes schemas g) (calls : List Call)
    (floatFree : ∀ before, before <+: calls → (sessionAfter g s before).view.FloatFree) :
    (outcomes schema data calls).map Outcome.shown = (answers g s calls).map shown ∧
      (outcomes schema data calls).map (·.written.isSome) = (answers g s calls).map reports ∧
      InStep schemas g (dataAfter schema data calls) (sessionAfter g s calls) := by
  induction calls generalizing data s with
  | nil => exact ⟨rfl, rfl, inStep⟩
  | cons call rest ih =>
    obtain ⟨looks, writes, _, next⟩ := inStep.call valid takes call
    obtain ⟨next, _⟩ := next (floatFree [call] (List.prefix_append [call] rest))
    obtain ⟨looks', writes', last⟩ := ih next fun before first =>
      floatFree (call :: before) (List.cons_prefix_cons.mpr ⟨rfl, first⟩)
    exact ⟨List.cons_eq_cons.mpr ⟨looks, looks'⟩, List.cons_eq_cons.mpr ⟨writes, writes'⟩, last⟩

/-- Commands that report no change leave the data file and the tables alone. -/
theorem quiet (inStep : InStep schemas g data s) (valid : EntitySchema.readAll schema = .ok schemas)
    (takes : Registry.empty.Takes schemas g) (calls : List Call)
    (floatFree : ∀ before, before <+: calls → (sessionAfter g s before).view.FloatFree)
    (silent : ∀ answer ∈ answers g s calls, reports answer = false) :
    dataAfter schema data calls = data ∧ (sessionAfter g s calls).view = s.view := by
  induction calls generalizing data s with
  | nil => exact ⟨rfl, rfl⟩
  | cons call rest ih =>
    obtain ⟨_, _, unchanged, next⟩ := inStep.call valid takes call
    obtain ⟨next, _⟩ := next (floatFree [call] (List.prefix_append [call] rest))
    obtain ⟨first, others⟩ := List.forall_mem_cons.mp silent
    obtain ⟨data', view'⟩ := ih next (fun before start =>
      floatFree (call :: before) (List.cons_prefix_cons.mpr ⟨rfl, start⟩)) others
    obtain ⟨data₁, view₁⟩ := unchanged first
    exact ⟨data'.trans data₁, view'.trans view₁⟩

end InStep

/-- What the tool may have left in the data file under these types: nothing, or the tables at the
end of a run that wrote them and that had no float in them. -/
inductive Left (schemas : List EntitySchema) : Option String → Prop
  | nothing : Left schemas none
  | written {c : Catalog} {report : Report} {text : String} {s : Session} (i : Invocation)
    (now : UInt64) :
      (i.steps schemas now.toNat).run (Invocation.session c) = (.ok (report, some text), s) →
      s.view.FloatFree → Left schemas (some text)

/-- What a run writes is the text of tables that hold all types. -/
theorem written_by_steps {i : Invocation} {now : Nat} {report : Report} {text : String}
    (ran : (i.steps schemas now).run (Invocation.session c) = (.ok (report, some text), s)) :
    ∃ g, Registry.empty.Takes schemas g ∧ g.Backed s.view ∧ text = Snapshot.write now s.view := by
  obtain ⟨answer, c₁, registers, taken⟩ := registerAll_leads .empty schemas c
  cases answer with
  | error e =>
    have fails : Leads (i.steps schemas now) c (.error e) c₁ := registers.bind_error
    obtain ⟨_, ran', _⟩ := fails _ (session_rests c)
    cases ran'.symm.trans ran
  | ok g =>
    obtain ⟨takes, backs⟩ := taken g rfl
    obtain ⟨answer, c', acts, achieves, _⟩ := i.command.run_fulfils g c₁
    obtain ⟨s', ran', rests⟩ := steps_leads i now registers acts _ (session_rests c)
    obtain ⟨same, rfl⟩ := Prod.mk.inj (ran'.symm.trans ran)
    rw [rests.view]
    cases answer with
    | error e => cases same
    | ok report' =>
      refine ⟨g, takes, (backs (.empty c)).same (achieves report' rfl).1, ?_⟩
      have written := congrArg Prod.snd (Except.ok.inj same)
      dsimp only at written
      split at written
      case isTrue => exact (Option.some.inj written).symm
      case isFalse => cases written

/-- What the tool has left can be read, and the types can be registered on it. -/
theorem Left.inStep {data : Option String} (left : Left schemas data)
    (registers : (registerAll .empty schemas).run (Invocation.session .empty) = (.ok g, s₀)) :
    ∃ c s, Snapshot.readOrEmpty data = .ok c ∧
      (registerAll .empty schemas).run (Invocation.session c) = (.ok g, s) ∧
        InStep schemas g data s := by
  obtain ⟨takes, leads, rests, backed⟩ := registered registers
  cases left with
  | nothing => exact ⟨.empty, s₀, rfl, registers, ⟨_, rfl, leads⟩, rests, backed⟩
  | written i now ran floatFree =>
    rename_i s
    obtain ⟨g', takes', backed', rfl⟩ := written_by_steps ran
    obtain rfl := takes'.unique takes
    obtain ⟨s', ran', rests'⟩ := registerAll_again takes backed' _ (session_rests s.view)
    exact ⟨s.view, s', Snapshot.written_is_read now floatFree, ran',
      .ofWritten takes rests' backed' floatFree now⟩

/-- Runs on one data file, and the same commands on one session that is kept in memory. -/
structure Composes (schema : String) (g : Registry) (data : Option String) (s : Session)
    (calls : List Call) :
    Prop where
  /-- Every run ends and prints as its command does. -/
  shown : (outcomes schema data calls).map Outcome.shown = (answers g s calls).map shown
  /-- A run writes the data file if its command reports a change, and in no other case. -/
  written : (outcomes schema data calls).map (·.written.isSome) = (answers g s calls).map reports
  /-- A command that fails or reports no change leaves the data file and the tables of the
  session. -/
  untouched : ∀ before call later, calls = before ++ call :: later →
    reports (call.answer g (sessionAfter g s before)).1 = false →
    dataAfter schema data (before ++ [call]) = dataAfter schema data before ∧
      (sessionAfter g s (before ++ [call])).view = (sessionAfter g s before).view
  /-- The data file has the tables that the session had after the last command that reported a
  change. -/
  stored : ∀ before call later, calls = before ++ call :: later →
    reports (call.answer g (sessionAfter g s before)).1 = true →
    (∀ answer ∈ answers g (sessionAfter g s (before ++ [call])) later, reports answer = false) →
    Snapshot.readOrEmpty (dataAfter schema data calls) =
      .ok (sessionAfter g s (before ++ [call])).view

theorem InStep.composes {schema : String} {data : Option String} (inStep : InStep schemas g data s)
    (valid : EntitySchema.readAll schema = .ok schemas) (takes : Registry.empty.Takes schemas g)
    (calls : List Call) (floatFree : ∀ before, before <+: calls →
      (sessionAfter g s before).view.FloatFree) :
    Composes schema g data s calls := by
  obtain ⟨shown, written, _⟩ := inStep.calls valid takes calls floatFree
  -- File and session are in step at every point between two commands.
  have reached : ∀ before, before <+: calls →
      InStep schemas g (dataAfter schema data before) (sessionAfter g s before) :=
        fun before start =>
    (inStep.calls valid takes before fun _ first => floatFree _ (first.trans start)).2.2
  refine ⟨shown, written, ?_, ?_⟩
  · rintro before call later rfl silent
    obtain ⟨_, _, unchanged, _⟩ := (reached before (List.prefix_append ..)).call valid takes call
    rw [dataAfter_concat, sessionAfter_concat]
    exact unchanged silent
  · rintro before call later rfl reported silent
    obtain ⟨_, _, _, next⟩ := (reached before (List.prefix_append ..)).call valid takes call
    have split : before ++ call :: later = before ++ [call] ++ later := by
      rw [List.append_assoc]; rfl
    rw [split] at floatFree reached ⊢
    have start : before ++ [call] <+: before ++ [call] ++ later := List.prefix_append ..
    obtain ⟨data', _⟩ := (reached _ start).quiet valid takes later (fun first among => by
      rw [← sessionAfter_append]
      exact floatFree _ ((List.prefix_append_right_inj _).mpr among)) silent
    rw [dataAfter_append, data', dataAfter_concat, sessionAfter_concat]
    exact (next (sessionAfter_concat .. ▸ floatFree _ start)).2 reported

/-- For entity types that can be registered, and whatever data file the tool has left under them:
commands that run as processes, one after the other, do what they do on one session that is kept in
memory, as long as no float is stored. -/
theorem processes_compose {schema : String} {data : Option String}
    (valid : EntitySchema.readAll schema = .ok schemas)
    (registers : (registerAll .empty schemas).run (Invocation.session .empty) = (.ok g, s₀))
    (left : Left schemas data) : ∃ c s, Snapshot.readOrEmpty data = .ok c ∧
      (registerAll .empty schemas).run (Invocation.session c) = (.ok g, s) ∧
      ∀ calls, (∀ before, before <+: calls → (sessionAfter g s before).view.FloatFree) →
        Composes schema g data s calls := by
  obtain ⟨takes, _⟩ := registered registers
  obtain ⟨c, s, reads, ran, inStep⟩ := left.inStep registers
  exact ⟨c, s, reads, ran, inStep.composes valid takes⟩

/-! A type whose ranking has its defaults. -/
namespace Defaults

def schema : EntitySchema := { name := "t", behaviors := [.plain] }

def registration : Registration :=
  { schema, layout := ⟨"t", [Column.id, Ranking.positionColumn ⟨"t", {}⟩]⟩,
    ranking := some ⟨"t", {}⟩ }

def registry : Registry := ⟨Dict.empty.insert "t" registration⟩

def catalog : Catalog := ⟨Dict.empty.insert "t" (.ofLayout registration.layout)⟩

def schemaText : String :=
  "[\x7b\"name\":\"t\",\"behaviors\":[\x7b\"sortable\":\x7b\x7d\x7d]\x7d]"

def data : String := Snapshot.write (0 : UInt64).toNat catalog

def session : Session := ((registerAll .empty [schema]).run (Invocation.session catalog)).2

def call (command : Command) : Call := ⟨⟨"schema.json", "data.json", command⟩, 0⟩

def calls : List Call := [call (.insert "t" []), call (.moveUp "t" 1), call (.insert "t" [])]

end Defaults

set_option maxRecDepth 100000 in
/-- On tables that were written before, two insertions change something, and a move of the first
record fails. -/
theorem processes_compose_of_three :
    Composes Defaults.schemaText Defaults.registry (some Defaults.data) Defaults.session
        Defaults.calls ∧
      (answers Defaults.registry Defaults.session Defaults.calls).map reports =
        [true, false, true] := by
  have valid : EntitySchema.readAll Defaults.schemaText = .ok [Defaults.schema] := by rfl
  have registers : (registerAll .empty [Defaults.schema]).run (Invocation.session .empty) =
      (.ok Defaults.registry, _) := rfl
  have initialized : ((Defaults.call .init).invocation.steps [Defaults.schema] (0 : UInt64).toNat).run
      (Invocation.session .empty) = (.ok (⟨["Initialized 1 entities"], true⟩,
        some Defaults.data), _) := rfl
  have floatFree : Defaults.catalog.FloatFree := .of_kinds (by decide)
  obtain ⟨c, s, reads, ran, composes⟩ :=
    processes_compose valid registers (.written _ 0 initialized floatFree)
  obtain rfl := Except.ok.inj (reads.symm.trans (Snapshot.written_is_read 0 floatFree))
  have ran' : (registerAll .empty [Defaults.schema]).run (Invocation.session Defaults.catalog) =
      (.ok Defaults.registry, Defaults.session) := rfl
  obtain rfl := (Prod.mk.inj (ran.symm.trans ran')).2
  refine ⟨composes Defaults.calls fun before start => .of_kinds ?_, by rfl⟩
  simp only [Defaults.calls, List.prefix_cons_iff, List.prefix_nil] at start
  obtain rfl | ⟨_, rfl, rfl | ⟨_, rfl, rfl | ⟨_, rfl, rfl⟩⟩⟩ := start <;> decide

end Tool
end RankedStore
