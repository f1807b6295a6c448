import RankedStore.Proofs.Layouts
import RankedStore.Proofs.Levels
import RankedStore.Proofs.Ranking.Ordering

/-! Runs of one connection with entity types that are registered on the way. A registration is no
part of the transaction that it happens in, but the table that it creates is, so a rollback may take
the table of a type away that stays registered. All tables of registered types that are not lost in
this way are there. -/
namespace RankedStore

open RankedStore.Action

namespace Ranking

/-- What a ranking can be asked. -/
inductive Query
  | extremum (e : Extremum)
  | isFirst (r : Record)
  | isLast (r : Record)
  | next (r : Record)
  | previous (r : Record)
  | ordered

def Query.run (k : Ranking) : Query → Action Unit
  | .extremum e => do let _ ← k.extremum e
  | .isFirst r => do let _ ← k.isFirst r
  | .isLast r => do let _ ← k.isLast r
  | .next r => do let _ ← k.next r
  | .previous r => do let _ ← k.previous r
  | .ordered => do let _ ← k.ordered

theorem Query.looks (k : Ranking) (q : Query) : Looks (q.run k) := by
  cases q with
  | extremum e => exact .bind (k.extremum_looks e) fun _ => .pure ()
  | isFirst r => exact .bind (k.isFirst_looks r) fun _ => .pure ()
  | isLast r => exact .bind (k.isLast_looks r) fun _ => .pure ()
  | next r => exact .bind (k.next_looks r) fun _ => .pure ()
  | previous r => exact .bind (k.previous_looks r) fun _ => .pure ()
  | ordered => exact .bind k.ordered_looks fun _ => .pure ()

theorem Operation.sameLayouts (g : Registry) (k : Ranking) (op : Operation) (c : Catalog) :
    Completes Table.SameLayout (op.run g k) c fun _ c' => c.SameLayouts c' := by
  cases op with
  | save r => exact (g.save_sameLayouts r c).answering _ fun _ _ post => post.1
  | remove r => exact (g.remove_sameLayouts r c).answering _ fun _ _ same => same
  | swap r other => exact (k.swap_sameLayouts r other c).answering _ fun _ _ same => same
  | moveUp r => exact (k.moveUp_sameLayouts r c).answering _ fun _ _ same => same
  | moveDown r => exact (k.moveDown_sameLayouts r c).answering _ fun _ _ same => same
  | compact => exact (k.compact_sameLayouts c).answering _ fun _ _ post => post.1

end Ranking

/-- A session and the entity types that were registered over it. -/
structure Manager where
  session : Session
  registry : Registry
  /-- The depth at which a registered type has its table: that of the level that created it, or zero
  if it was there before. There is none if the level was given up. -/
  since : String → Option Nat

namespace Manager

inductive Step
  | register (schema : EntitySchema)
  | save (r : Record)
  | remove (r : Record)
  | sort (entity : String) (op : Ranking.Operation)
  | ask (entity : String) (q : Ranking.Query)
  | begin
  | commit
  | rollback

def ofCommitted (committed : Committed) : Manager :=
  ⟨⟨committed, .idle 0, []⟩, .empty, fun _ => none⟩

def depth (m : Manager) : Nat := m.session.log.depth

/-- Whatever comes of the action, only the session changes. -/
def act (m : Manager) (a : Action α) : Manager := { m with session := (a.run m.session).2 }

/-- A level has ended. Either what it did is kept one level up, or it is given up. -/
def ended (m : Manager) (kept : Bool) : Manager :=
  { m with since := fun name =>
      if kept then (m.since name).map (min m.depth) else (m.since name).filter (· ≤ m.depth) }

def register (m : Manager) (schema : EntitySchema) : Manager :=
  match (m.registry.register schema).run m.session with
  | (.error _, session) => { m with session }
  | (.ok registry, session) =>
    let since := if m.session.view.hasTable schema.name then 0 else m.depth
    ⟨session, registry, fun name => if schema.name = name then some since else m.since name⟩

def commit (m : Manager) : Manager :=
  match Action.commit.run m.session with
  | (answer, session) => { m with session }.ended answer.isOk

def step (m : Manager) : Step → Manager
  | .register schema => m.register schema
  | .save r => m.act (m.registry.save r)
  | .remove r => m.act (m.registry.remove r)
  | .sort entity op => m.act do op.run m.registry (← Action.ofExcept (m.registry.ranking entity))
  | .ask entity q => m.act do q.run (← Action.ofExcept (m.registry.ranking entity))
  | .begin => m.act Action.begin
  | .commit => m.commit
  | .rollback => (m.act Action.rollback).ended false

def play (m : Manager) (steps : List Step) : Manager := steps.foldl step m

/-- The tables at some depth. A registered type has its table if that was there by then. All else is
as at the start. -/
def Placed (start : Catalog) (g : Registry) (since : String → Option Nat) (depth : Nat)
    (c : Catalog) : Prop :=
  ∀ name, c.layout? name = match g.entities.get? name with
    | none => start.layout? name
    | some reg => if (since name).any (· ≤ depth) then some reg.layout else none

variable {start c c' : Catalog} {g : Registry} {since since' : String → Option Nat} {n n' : Nat}
  {m : Manager} {s' : Session}

theorem Placed.same (placed : Placed start g since n c) (same : c.SameLayouts c') :
    Placed start g since n c' :=
  fun name => (same.layout? name).symm.trans (placed name)

/-- Only which marks are from this depth or further out matters to it. -/
theorem Placed.mark (placed : Placed start g since n c)
    (marks : ∀ name, (since name).any (· ≤ n) = (since' name).any (· ≤ n')) :
    Placed start g since' n' c := by
  intro name
  rw [placed name, marks name]

/-- The tables at some depth with another type registered, whose table is there from its mark on. -/
theorem Placed.insert {name : String} {reg : Registration} {mark : Nat}
    (placed : Placed start g since n c)
    (own : c'.layout? name = if mark ≤ n then some reg.layout else none)
    (others : ∀ other, name ≠ other → c'.layout? other = c.layout? other) :
    Placed start ⟨g.entities.insert name reg⟩
      (fun other => if name = other then some mark else since other) n c' := by
  intro other
  by_cases same : name = other
  · subst same
    simp [own]
  · simp only [Dict.get?_insert_of_ne _ _ same, if_neg same]
    rw [others other same, placed other]

/-- What is known of the tables holds at every depth. -/
structure Housed (start : Catalog) (m : Manager) : Prop where
  deep : m.session.DeepUpTo Table.SameLayout (Placed start m.registry m.since)
  bounded : ∀ name n, m.since name = some n → n ≤ m.depth
  current : m.session.current = true

theorem Housed.ofCommitted (committed : Committed) :
    (ofCommitted committed).Housed committed.catalog :=
  ⟨.idle _ _ fun _ => rfl, by rintro name n ⟨⟩, rfl⟩

namespace Housed

/-- Operations on records leave the tables where they are. -/
theorem act (housed : m.Housed start) {a : Action α}
    (completes : Completes Table.SameLayout a m.session.view fun _ c' =>
      m.session.view.SameLayouts c') : (m.act a).Housed start := by
  obtain ⟨answer, s', ran, depth, succeeded, failed, deep⟩ :=
    completes.deep Table.sameLayout_stable housed.deep
  obtain ⟨_, _, settles, _⟩ := completes
  have current := (settles.current housed.deep.proper).trans housed.current
  have same : m.session.view.SameLayouts s'.view := by
    cases answer with
    | ok x => exact succeeded x rfl
    | error e => exact failed e rfl
  have bounded : ∀ name n, m.since name = some n → n ≤ s'.log.depth :=
    fun name n since => depth ▸ housed.bounded name n since
  unfold Manager.act
  rw [ran] at current ⊢
  exact ⟨deep _ (fun _ _ _ placed => placed) (housed.deep.view.same same), bounded, current⟩

theorem ask (housed : m.Housed start) {a : Action α} (looks : Looks a) :
    (m.act a).Housed start := by
  obtain ⟨answer, seen⟩ := looks m.session.view
  exact housed.act (.ofReading Table.sameLayout_stable seen fun _ _ => .refl _)

/-- Every mark is from the present depth or further out. -/
theorem marks (housed : m.Housed start) (le : m.session.log.depth ≤ n) (name : String) :
    (m.since name).any (· ≤ n) = (m.since name).isSome := by
  cases mark : m.since name with
  | none => rfl
  | some k => exact decide_eq_true (Nat.le_trans (housed.bounded name k mark) le)

/-- A new table is there from the depth on that it was created at, and one that was there already is
one of those of the beginning. -/
theorem register (housed : m.Housed start) (schema : EntitySchema) :
    (m.register schema).Housed start := by
  have stable := Table.sameLayout_stable
  have completes := m.registry.register_completes stable schema m.session.view
  obtain ⟨answer, s', ran, depth, succeeded, failed, deep⟩ := completes.deep stable housed.deep
  obtain ⟨_, _, settles, _⟩ := completes
  have current := (settles.current housed.deep.proper).trans housed.current
  have bounded : ∀ name n, m.since name = some n → n ≤ s'.log.depth :=
    fun name n since => depth ▸ housed.bounded name n since
  have view := housed.deep.view
  unfold Manager.register
  rw [ran] at current ⊢
  cases answer with
  | error e =>
    exact ⟨deep _ (fun _ _ _ placed => placed) (view.same (failed e rfl)), bounded, current⟩
  | ok g' =>
    obtain ⟨reg, registrable, rfl, made⟩ := succeeded g' rfl
    have bounded' : ∀ mark ≤ s'.log.depth, ∀ name n,
        (if schema.name = name then some mark else m.since name) = some n → n ≤ s'.log.depth := by
      intro mark le name n since
      split at since
      case isTrue =>
        cases since
        exact le
      case isFalse => exact bounded name n since
    -- The table of a type that is not registered is that of the start, at every depth.
    have unregistered : ∀ {n c}, Placed start m.registry m.since n c →
        c.layout? schema.name = start.layout? schema.name := by
      intro n c placed
      have fresh : m.registry.entities.get? schema.name = none := by
        simpa [Dict.contains] using registrable.fresh
      rw [placed schema.name, fresh]
    simp only [Catalog.hasTable_eq]
    rcases made with ⟨absent, made⟩ | ⟨there, made⟩
    · simp only [absent, Option.isSome_none, Bool.false_eq_true, if_false]
      refine ⟨deep _ (fun n c lt placed => placed.insert ?_ fun _ _ => rfl) (view.insert ?_ ?_),
        bounded' _ (Nat.le_of_eq depth.symm), current⟩
      · have inner : ¬ m.depth ≤ n := Nat.not_le_of_lt lt
        rw [if_neg inner, unregistered placed, ← unregistered view, absent]
      · rw [made, Catalog.layout?_withTable, if_pos rfl]
        exact (if_pos (Nat.le_refl _)).symm
      · intro other ne
        rw [made, Catalog.layout?_withTable, if_neg ne]
    · simp only [there, Option.isSome_some, if_true]
      refine ⟨deep _ (fun n c _ placed => placed.insert ?_ fun _ _ => rfl) (view.insert ?_ ?_),
        bounded' 0 (Nat.zero_le _), current⟩
      · rw [if_pos (Nat.zero_le n), unregistered placed, ← unregistered view, there]
      · rw [made, there, if_pos (Nat.zero_le _)]
      · exact fun _ _ => by rw [made]

theorem begin (housed : m.Housed start) : (m.act Action.begin).Housed start := by
  have holds : Placed start m.registry m.since (m.session.log.depth + 1) m.session.view := by
    refine housed.deep.view.mark fun name => ?_
    exact (housed.marks (Nat.le_refl _) name).trans (housed.marks (Nat.le_succ _) name).symm
  obtain ⟨s', ran, depth, deep⟩ := begin_deep Table.sameLayout_stable housed.deep holds
  have current := begin_current housed.deep.proper housed.current
  unfold Manager.act
  rw [ran] at current ⊢
  refine ⟨deep, fun name n since => ?_, current⟩
  show n ≤ s'.log.depth
  rw [depth]
  exact Nat.le_succ_of_le (housed.bounded name n since)

/-- What is given up leaves the tables from further out. -/
theorem dropped (deep : s'.DeepUpTo Table.SameLayout (Placed start m.registry m.since))
    (current : s'.current = true) : Housed start ({ m with session := s' }.ended false) := by
  refine ⟨deep.mono fun n c le placed => placed.mark fun name => ?_, fun name n since => ?_,
    current⟩
  · show (m.since name).any (· ≤ n) = ((m.since name).filter (· ≤ s'.log.depth)).any (· ≤ n)
    cases m.since name with
    | none => rfl
    | some k =>
      simp only [Option.filter_some, Option.any_some]
      split
      case isTrue => rfl
      case isFalse beyond =>
        simp only [decide_eq_true_eq] at beyond
        exact decide_eq_false fun inside => beyond (Nat.le_trans inside le)
  · obtain ⟨-, le⟩ := Option.filter_eq_some_iff.mp since
    exact of_decide_eq_true le

/-- What is kept is from now on part of one level less. -/
theorem capped (housed : m.Housed start) (depth : s'.log.depth + 1 = m.depth)
    (same : m.session.view.SameLayouts s'.view) (current : s'.current = true)
    (deep : ∀ P', (∀ n c, n < s'.log.depth → Placed start m.registry m.since n c → P' n c) →
      P' s'.log.depth s'.view → s'.DeepUpTo Table.SameLayout P') :
    Housed start ({ m with session := s' }.ended true) := by
  refine ⟨deep _ (fun n c lt placed => placed.mark fun name => ?_)
    ((housed.deep.view.same same).mark fun name => ?_), fun name n since => ?_, current⟩
  · show (m.since name).any (· ≤ n) = ((m.since name).map (min s'.log.depth)).any (· ≤ n)
    cases m.since name with
    | none => rfl
    | some k =>
      simp only [Option.map_some, Option.any_some, decide_eq_decide]
      omega
  · rw [housed.marks (Nat.le_refl _)]
    show _ = ((m.since name).map (min s'.log.depth)).any (· ≤ s'.log.depth)
    cases m.since name with
    | none => rfl
    | some k => exact (decide_eq_true (Nat.min_le_left ..)).symm
  · obtain ⟨k, -, rfl⟩ := Option.map_eq_some_iff.mp since
    exact Nat.min_le_left ..

theorem commit (housed : m.Housed start) : m.commit.Housed start := by
  have current := commit_current housed.deep.proper housed.current
  obtain ⟨answer, s', ran, ⟨rfl, _, depth, same, deep⟩ | ⟨lost, deep⟩⟩ :=
    commit_deep Table.sameLayout_stable Eq.symm housed.deep
  · unfold Manager.commit
    rw [ran] at current ⊢
    exact housed.capped depth same current deep
  · unfold Manager.commit
    rw [ran] at current ⊢
    cases answer with
    | ok _ => exact absurd ⟨rfl, .inr housed.current⟩ lost
    | error e => exact dropped deep current

theorem rollback (housed : m.Housed start) : ((m.act Action.rollback).ended false).Housed start :=
  dropped (rollback_deep Table.sameLayout_stable (fun _ _ _ same placed => placed.same same)
    housed.deep) (rollback_current housed.deep.proper housed.current)

theorem step (housed : m.Housed start) (step : Step) : (m.step step).Housed start := by
  have stable := Table.sameLayout_stable
  cases step with
  | register schema => exact housed.register schema
  | save r => exact housed.act ((m.registry.save_sameLayouts r _).weaken fun _ _ post => post.1)
  | remove r => exact housed.act (m.registry.remove_sameLayouts r _)
  | sort entity op =>
    exact housed.act (.after stable (.ofExcept rfl) fun k _ => op.sameLayouts m.registry k _)
  | ask entity q => exact housed.ask (.bind (.ofExcept _) fun k => q.looks k)
  | begin => exact housed.begin
  | commit => exact housed.commit
  | rollback => exact housed.rollback

theorem play (housed : m.Housed start) (steps : List Step) : (m.play steps).Housed start := by
  induction steps generalizing m with
  | nil => exact housed
  | cons step rest ih => exact ih (housed.step step)

end Housed

/-- Types are registered, records are saved, removed and moved, and levels are opened, committed and
rolled back, in any order and at any depth. A registered type has its table, with the columns that
were worked out from its schema, unless the level that created this table was given up. Then there
is no table of its name. -/
theorem registered_types_have_tables (committed : Committed) (steps : List Step) (name : String)
    (reg : Registration)
    (listed : ((ofCommitted committed).play steps).registry.entities.get? name = some reg) :
    let m := (ofCommitted committed).play steps
    (m.since name ≠ none → ∃ t, m.session.view.tables.get? name = some t ∧ t.layout = reg.layout) ∧
      (m.since name = none → m.session.view.tables.get? name = none) := by
  have housed := (Housed.ofCommitted committed).play steps
  generalize (ofCommitted committed).play steps = m at housed listed
  have layout := housed.deep.view name
  rw [listed] at layout
  dsimp only at layout ⊢
  rw [housed.marks (Nat.le_refl _)] at layout
  constructor
  · intro marked
    rw [if_pos (Option.isSome_iff_ne_none.mpr marked)] at layout
    exact Option.map_eq_some_iff.mp layout
  · intro unmarked
    rw [unmarked] at layout
    exact Option.map_eq_none_iff.mp layout

/-- One type is registered in a transaction that is committed, another one in a level that is given
up. -/
theorem registered_types_have_tables_of_two :
    ∃ m reg reg', m = (ofCommitted ⟨.empty, 0⟩).play [.begin, .register Sample.schema, .commit,
        .begin, .begin, .register { name := "u" }, .sort "t" (.save (.ofEntity "t")), .rollback] ∧
      m.depth = 1 ∧
      m.registry.entities.get? "t" = some reg ∧ m.registry.entities.get? "u" = some reg' ∧
      (∃ t, m.session.view.tables.get? "t" = some t ∧ t.layout = reg.layout) ∧
      m.session.view.tables.get? "u" = none := by
  let steps : List Step :=
    [.begin, .register Sample.schema, .commit, .begin, .begin, .register { name := "u" },
    .sort "t" (.save (.ofEntity "t")), .rollback]
  have kept := registered_types_have_tables ⟨.empty, 0⟩ steps "t" _ rfl
  have lost := registered_types_have_tables ⟨.empty, 0⟩ steps "u" _ rfl
  exact ⟨_, _, _, rfl, rfl, rfl, rfl, kept.1 (by decide), lost.2 rfl⟩

/-- A type stays registered when the level that created its table is given up. -/
theorem listed_type_without_table : ∃ m, m = (ofCommitted ⟨.empty, 0⟩).play
      [.begin, .register Sample.schema, .rollback] ∧
    m.registry.entityNames = ["t"] ∧ m.session.view.tables.get? "t" = none :=
  ⟨_, rfl, rfl, rfl⟩

end Manager
end RankedStore
