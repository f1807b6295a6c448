import RankedStore.Tool
import RankedStore.Proofs.Layouts

/-! What the steps of a run do to the tables, on a session that is in no transaction. Nothing but
the tables decides on it, so that a step does the same on a session that has just been opened and on
one that has been through other commands. A command that fails leaves the tables as they were, and
entity types that have been registered before are registered again without a change. -/
namespace RankedStore

/-- A session outside any transaction that sees these tables. -/
inductive Session.Rests : Catalog → Session → Prop
  | idle (k : Committed) (n : Nat) (trace : List Trace.Event) : Rests k.catalog ⟨k, .idle n, trace⟩

theorem Session.Rests.view {c : Catalog} {s : Session} (rests : s.Rests c) : s.view = c := by
  cases rests
  rfl

namespace Registry

/-- The registry can take in the types in this order, and becomes the other one. -/
inductive Takes : Registry → List EntitySchema → Registry → Prop
  | nil (g : Registry) : Takes g [] g
  | cons {g g' : Registry} {schema : EntitySchema} {reg : Registration} {rest : List EntitySchema} :
      g.Registrable schema reg → Takes ⟨g.entities.insert schema.name reg⟩ rest g' →
      Takes g (schema :: rest) g'

variable {g g' : Registry} {schemas : List EntitySchema} {reg : Registration} {name : String}
  {c d : Catalog}

/-- Every known type has its table. -/
def Backed (g : Registry) (c : Catalog) : Prop :=
  ∀ name reg, g.entities.get? name = some reg → c.layout? name = some reg.layout

theorem Takes.unique {g₁ g₂ : Registry} (first : g.Takes schemas g₁) (second : g.Takes schemas g₂) :
    g₁ = g₂ := by
  induction first with
  | nil =>
    cases second
    rfl
  | cons registrable _ ih =>
    cases second with
    | cons registrable' rest =>
      obtain rfl := Except.ok.inj (registrable.made.symm.trans registrable'.made)
      exact ih rest

theorem Takes.keeps (takes : g.Takes schemas g') (known : g.entities.get? name = some reg) :
    g'.entities.get? name = some reg := by
  induction takes with
  | nil => exact known
  | cons registrable _ ih =>
    refine ih ((Dict.get?_insert_of_ne _ _ ?_).trans known)
    rintro rfl
    simpa [Dict.contains, known] using registrable.fresh

theorem Backed.empty (c : Catalog) : Registry.empty.Backed c := by
  rintro name reg ⟨⟩

theorem Backed.same (backed : g.Backed c) (same : c.SameLayouts d) : g.Backed d :=
  fun name reg known => (same.layout? name).symm.trans (backed name reg known)

/-- The new type comes with its table, and the tables of the others stay. -/
theorem Backed.insert (backed : g.Backed c) (own : d.layout? name = some reg.layout)
    (others : ∀ other, name ≠ other → d.layout? other = c.layout? other) :
    Backed ⟨g.entities.insert name reg⟩ d := by
  intro other reg' known
  rw [Dict.get?_insert] at known
  split at known
  case isTrue same =>
    cases known
    exact same ▸ own
  case isFalse ne => exact (others other ne).trans (backed other reg' known)

end Registry

namespace Tool

open RankedStore.Action

variable {c c' d : Catalog} {Q : α → Catalog → Prop} {R : β → Catalog → Prop} {g g' : Registry}
  {schemas : List EntitySchema} {s : Session}

/-- Seeing the tables `c`, the step answers and leaves the tables `c'`. -/
def Leads (step : Step α) (c : Catalog) (answer : Except Failure α) (c' : Catalog) : Prop :=
  ∀ s, s.Rests c → ∃ s', step.run s = (answer, s') ∧ s'.Rests c'

namespace Leads

theorem pure (x : α) (c : Catalog) : Leads (Pure.pure x) c (.ok x) c :=
  fun s rests => ⟨s, rfl, rests⟩

theorem throw (e : Failure) (c : Catalog) : Leads (MonadExcept.throw e : Step α) c (.error e) c :=
  fun s rests => ⟨s, rfl, rests⟩

/-- An action that settles, with the task that its failure is reported with. -/
theorem adapt {a : Action α} (settles : SettlesUpTo ρ a c answer c') (f : Error → Failure) :
    Leads (a.adapt f) c (answer.mapError f) c' := by
  rintro _ ⟨k, n, trace⟩
  obtain ⟨k', n', trace', ran, rfl⟩ := settles.alone k n trace rfl
  refine ⟨_, ?_, .idle k' n' trace'⟩
  show ((a.run _).1.mapError f, (a.run _).2) = _
  rw [ran]

theorem bind {f : α → Step β} (first : Leads a c (.ok x) c₁) (second : Leads (f x) c₁ answer c') :
    Leads (a >>= f) c answer c' := by
  intro s rests
  obtain ⟨s₁, ran, rests₁⟩ := first s rests
  obtain ⟨s', ran', rests'⟩ := second s₁ rests₁
  exact ⟨s', by rw [run_bind, ran]; exact ran', rests'⟩

theorem bind_error {a : Step α} {f : α → Step β} (first : Leads a c (.error e) c') :
    Leads (a >>= f) c (.error e) c' := by
  intro s rests
  obtain ⟨s', ran, rests'⟩ := first s rests
  exact ⟨s', by rw [run_bind, ran], rests'⟩

end Leads

/-- The step only looks at the tables. -/
def Peeks (step : Step α) : Prop := ∀ c, ∃ answer, Leads step c answer c

namespace Peeks

theorem pure (x : α) : Peeks (Pure.pure x) := fun c => ⟨_, .pure x c⟩

theorem throw (e : Failure) : Peeks (MonadExcept.throw e : Step α) := fun c => ⟨_, .throw e c⟩

theorem perform {a : Action α} (looks : Looks a) : Peeks (perform a) := by
  intro c
  obtain ⟨answer, seen⟩ := looks c
  exact ⟨_, .adapt (.ofReading Table.sameLayout_stable seen) _⟩

theorem bind {f : α → Step β} (first : Peeks a) (second : ∀ x, Peeks (f x)) : Peeks (a >>= f) := by
  intro c
  obtain ⟨answer, seen⟩ := first c
  cases answer with
  | error e => exact ⟨_, seen.bind_error⟩
  | ok x =>
    obtain ⟨answer', seen'⟩ := second x c
    exact ⟨answer', seen.bind seen'⟩

end Peeks

/-- Seeing the tables `c`, the step either achieves `Q` or fails and leaves the tables as they
were. -/
def Fulfils (step : Step α) (c : Catalog) (Q : α → Catalog → Prop) : Prop :=
  ∃ answer c', Leads step c answer c' ∧ (∀ x, answer = .ok x → Q x c') ∧
    ∀ e, answer = .error e → c' = c

namespace Fulfils

theorem pure (holds : Q x c) : Fulfils (Pure.pure x) c Q := by
  refine ⟨_, c, .pure x c, ?_, fun _ _ => rfl⟩
  rintro _ ⟨⟩
  exact holds

theorem perform {a : Action α} (completes : Completes ρ a c Q) : Fulfils (perform a) c Q := by
  obtain ⟨answer, c', settles, achieves, unchanged⟩ := completes
  refine ⟨_, c', .adapt settles _, ?_, ?_⟩
  · intro x succeeded
    cases answer with
    | error e => cases succeeded
    | ok y =>
      cases succeeded
      exact achieves _ rfl
  · intro e failed
    cases answer with
    | error e => exact unchanged e rfl
    | ok y => cases failed

/-- After a step that only looks at the tables. -/
theorem peeking {f : α → Step β} (first : Peeks a) (second : ∀ x, Fulfils (f x) c R) :
    Fulfils (a >>= f) c R := by
  obtain ⟨answer, seen⟩ := first c
  cases answer with
  | error e => exact ⟨_, c, seen.bind_error, by rintro x ⟨⟩, fun _ _ => rfl⟩
  | ok x =>
    obtain ⟨answer', c', leads, achieves, unchanged⟩ := second x
    exact ⟨answer', c', seen.bind leads, achieves, unchanged⟩

/-- With a report about what was achieved. -/
theorem reporting {a : Step α} (f : α → β) (first : Fulfils a c Q)
    (holds : ∀ x c', Q x c' → R (f x) c') : Fulfils (do return f (← a)) c R := by
  obtain ⟨answer, c', leads, achieves, unchanged⟩ := first
  cases answer with
  | error e => exact ⟨_, c', leads.bind_error, by rintro x ⟨⟩, fun _ _ => unchanged e rfl⟩
  | ok x =>
    refine ⟨_, c', leads.bind (.pure (f x) c'), ?_, by rintro e ⟨⟩⟩
    rintro _ ⟨⟩
    exact holds x c' (achieves x rfl)

end Fulfils

theorem find_looks (g : Registry) (entity : String) (id : Int64) : Looks (g.find entity id) := by
  refine .bind (.ofExcept _) fun reg => .bind (.read _) fun row => ?_
  cases row with
  | none => exact .pure _
  | some row => exact .bind (.ofExcept _) fun _ => .pure _

theorem findAll_looks (g : Registry) (entity : String) : Looks (g.findAll entity) :=
  .bind (.ofExcept _) fun _ => .bind (.bind .report fun _ => .read _) fun rows =>
    .mapM (fun _ => .ofExcept _) rows

theorem load_peeks (g : Registry) (entity : String) (id : Int64) : Peeks (load g entity id) := by
  refine .bind (.perform (find_looks g entity id)) fun found => ?_
  cases found with
  | none => exact .throw _
  | some record => exact .pure record

theorem ranking_peeks (g : Registry) (entity : String) : Peeks (ranking g entity) :=
  .perform (.ofExcept _)

/-- A command changes rows at most, and it reports every change. -/
theorem Command.run_fulfils (g : Registry) (command : Command) (c : Catalog) :
    Fulfils (command.run g) c fun report c' => c.SameLayouts c' ∧
    (report.changed = false → c' = c) := by
  cases command with
  | init => exact .pure ⟨.refl c, fun _ => rfl⟩
  | insert entity fields =>
    refine .peeking (.perform (.ofExcept _)) fun record => .peeking (.perform (.ofExcept _))
      fun record => ?_
    have saves : Completes Table.SameLayout (do Action.ofExcept (← g.save record).requireId) c
        fun _ c' => c.SameLayouts c' := by
      refine (g.save_sameLayouts record c).followed ?_
      rintro saved c' ⟨same, there⟩
      obtain ⟨id, persisted⟩ := Option.isSome_iff_exists.mp there
      exact ⟨id, fun _ => .ofExcept (by rw [Record.requireId, persisted]), same⟩
    exact (Fulfils.perform saves).reporting _ fun _ _ same => ⟨same, by simp⟩
  | list entity =>
    refine .peeking (.perform ?_) fun records => .pure ⟨.refl c, fun _ => rfl⟩
    cases g.ranking entity with
    | ok k => exact k.ordered_looks
    | error e => exact findAll_looks g entity
  | moveUp entity id =>
    refine .peeking (load_peeks g entity id) fun r => .peeking (ranking_peeks g entity) fun k => ?_
    exact (Fulfils.perform (k.moveUp_sameLayouts r c)).reporting _ fun _ _ same => ⟨same, by simp⟩
  | moveDown entity id =>
    refine .peeking (load_peeks g entity id) fun r => .peeking (ranking_peeks g entity) fun k => ?_
    exact (Fulfils.perform (k.moveDown_sameLayouts r c)).reporting _ fun _ _ same => ⟨same, by simp⟩
  | swap entity id other =>
    refine .peeking (load_peeks g entity id) fun r => .peeking (load_peeks g entity other)
      fun r' => ?_
    refine .peeking (ranking_peeks g entity) fun k => ?_
    exact (Fulfils.perform (k.swap_sameLayouts r r' c)).reporting _ fun _ _ same => ⟨same, by simp⟩
  | setPosition entity id position =>
    refine .peeking (ranking_peeks g entity) fun k => .peeking (load_peeks g entity id) fun r => ?_
    refine .peeking (.perform (.ofExcept _)) fun r => ?_
    exact (Fulfils.perform (g.save_sameLayouts r c)).reporting _ fun _ _ post => ⟨post.1, by simp⟩
  | compact entity =>
    refine .peeking (ranking_peeks g entity) fun k => ?_
    refine (Fulfils.perform (k.compact_sameLayouts c)).reporting _ fun n c' post =>
      ⟨post.1, fun same => ?_⟩
    exact post.2 (by simpa using same)
  | remove entity id =>
    refine .peeking (load_peeks g entity id) fun r => ?_
    exact (Fulfils.perform (g.remove_sameLayouts r c)).reporting _ fun _ _ same => ⟨same, by simp⟩

/-- Types that are all taken in have their tables afterwards. -/
theorem registerAll_leads (g : Registry) (schemas : List EntitySchema) (c : Catalog) :
    ∃ answer c', Leads (registerAll g schemas) c answer c' ∧
      ∀ g', answer = .ok g' → g.Takes schemas g' ∧ (g.Backed c → g'.Backed c') := by
  induction schemas generalizing g c with
  | nil =>
    refine ⟨_, c, .pure g c, ?_⟩
    rintro _ ⟨⟩
    exact ⟨.nil g, fun backed => backed⟩
  | cons schema rest ih =>
    obtain ⟨answer, c₁, settles, achieves, _⟩ :=
      g.register_completes Table.sameLayout_stable schema c
    have first := Leads.adapt settles (.during s!"Failed to register entity '{schema.name}'")
    cases answer with
    | error e => exact ⟨_, c₁, first.bind_error, by rintro g' ⟨⟩⟩
    | ok g₁ =>
      obtain ⟨reg, registrable, rfl, made⟩ := achieves g₁ rfl
      obtain ⟨answer', c', others, taken⟩ := ih ⟨g.entities.insert schema.name reg⟩ c₁
      refine ⟨answer', c', first.bind others, fun g' succeeded => ?_⟩
      obtain ⟨takes, backs⟩ := taken g' succeeded
      refine ⟨.cons registrable takes, fun backed => backs ?_⟩
      rcases made with ⟨_, rfl⟩ | ⟨there, rfl⟩
      · refine backed.insert ?_ fun other ne => ?_
        · rw [Catalog.layout?_withTable, if_pos rfl]
          rfl
        · rw [Catalog.layout?_withTable, if_neg ne]
      · exact backed.insert there fun _ _ => rfl

/-- Where the tables of all types are, registering the types changes nothing. -/
theorem registerAll_again (takes : g.Takes schemas g') (backed : g'.Backed c) :
    Leads (registerAll g schemas) c (.ok g') c := by
  induction takes with
  | nil g => exact .pure g c
  | cons registrable takes ih =>
    have own := backed _ _ (takes.keeps (Dict.get?_insert_self ..))
    obtain ⟨t, there, same⟩ := Option.map_eq_some_iff.mp own
    have settles : SettlesUpTo Table.SameLayout _ c (.ok _) c :=
      .ofReading Table.sameLayout_stable (registrable.found there same)
    exact (Leads.adapt settles _).bind (ih backed)

/-- A run registers the types, carries out its command, and gives the text of the tables if they
changed. -/
theorem steps_leads (i : Invocation) (now : Nat)
    (registers : Leads (registerAll .empty schemas) c (.ok g) d)
    (acts : Leads (i.command.run g) d answer c') :
    Leads (i.steps schemas now) c (answer.map fun report =>
      (report, if report.changed then some (Snapshot.write now c') else none)) c' := by
  refine registers.bind ?_
  cases answer with
  | error e => exact acts.bind_error
  | ok report =>
    refine acts.bind ?_
    have seen : Tracked (Action.snapshot now) c' (.ok (Snapshot.write now c')) c' [] :=
      .after (.read rfl) (.after (.report ..) (.pure ..))
    cases changed : report.changed with
    | true =>
      have writes : Leads (perform (Action.snapshot now)) c' (.ok (Snapshot.write now c')) c' :=
        .adapt (.ofReading Table.sameLayout_stable seen) _
      simp only [Except.map, changed, if_true]
      exact writes.bind (.pure _ c')
    | false =>
      simp only [Except.map, changed, Bool.false_eq_true, if_false]
      exact .pure _ c'

/-- A session with which a run begins. -/
theorem session_rests (c : Catalog) : (Invocation.session c).Rests c := .idle ⟨c, 0⟩ 0 []

/-- Types that can be registered are taken in one after the other, and have their tables then. -/
theorem registered
    (registers : (registerAll .empty schemas).run (Invocation.session c) = (.ok g, s)) :
    Registry.empty.Takes schemas g ∧ Leads (registerAll .empty schemas) c (.ok g) s.view ∧
      s.Rests s.view ∧ g.Backed s.view := by
  obtain ⟨answer, c', leads, taken⟩ := registerAll_leads .empty schemas c
  obtain ⟨s', ran, rests⟩ := leads _ (session_rests c)
  obtain ⟨rfl, rfl⟩ := Prod.mk.inj (ran.symm.trans registers)
  obtain ⟨takes, backs⟩ := taken g rfl
  rw [rests.view]
  exact ⟨takes, leads, rests, backs (.empty c)⟩

end Tool
end RankedStore
