import RankedStore.Proofs.Atomic
import RankedStore.Proofs.History

/-! Properties of the tables that hold at every level of every connection. Actions that happen as a
whole or not at all keep such a property, and so do opening and ending levels, since each level
leads back to tables that had it. A request keeps it if the one write does that the request asks
for. -/
namespace RankedStore

variable {ρ : Table → Table → Prop} {P : Catalog → Prop}

/-- Taking back the open levels one after the other leads through tables with the property. Notes
are followed up to a relation of tables. -/
def Catalog.LayeredUpTo (ρ : Table → Table → Prop) (P : Catalog → Prop) :
    Catalog → List (List Change) → Prop
  | c, [] => P c
  | c, level :: outer => P c ∧ ∃ start, c.RestoresUpTo ρ level start ∧ LayeredUpTo ρ P start outer

/-- The property holds of the tables that a connection sees or may come back to. -/
inductive Connection.LayeredUpTo (ρ : Table → Table → Prop) (P : Catalog → Prop) : Connection → Prop
  | idle (n : Nat) : LayeredUpTo ρ P (.idle n)
  | inside {w : Workspace} {level : List Change} {outer : List (List Change)} (n : Nat) :
      w.catalog.LayeredUpTo ρ P (level :: outer) → LayeredUpTo ρ P (.inside w (level :: outer) n)

structure Session.LayeredUpTo (ρ : Table → Table → Prop) (P : Catalog → Prop) (s : Session) :
    Prop where
  committed : P s.committed.catalog
  connection : s.connection.LayeredUpTo ρ P

structure Store.LayeredUpTo (ρ : Table → Table → Prop) (P : Catalog → Prop) (s : Store) : Prop where
  committed : P s.committed.catalog
  connections : ∀ name connection, s.connections.get? name = some connection →
    connection.LayeredUpTo ρ P

/-- The notes are exact, up to ids that were given out. -/
abbrev Store.Layered (P : Catalog → Prop) (s : Store) : Prop := s.LayeredUpTo Table.Grown P

/-- The property passes on to related tables. -/
def Catalog.LastingUpTo (ρ : Table → Table → Prop) (P : Catalog → Prop) : Prop :=
  ∀ c d, P c → c.Related ρ d → P d

/-- The property does not depend on how many ids were given out. -/
abbrev Catalog.Lasting (P : Catalog → Prop) : Prop := LastingUpTo Table.Grown P

theorem Catalog.LayeredUpTo.holds {c : Catalog} (layered : c.LayeredUpTo ρ P levels) : P c := by
  cases levels with
  | nil => exact layered
  | cons level outer => exact layered.1

/-- The tables with more notes on the innermost level. -/
theorem Catalog.LayeredUpTo.replace {c d : Catalog} (stable : Table.Stable ρ)
    (layered : c.LayeredUpTo ρ P (level :: outer)) (holds : P d)
    (restores : d.RestoresUpTo ρ written c) :
    d.LayeredUpTo ρ P ((written ++ level) :: outer) := by
  obtain ⟨_, start, back, further⟩ := layered
  exact ⟨holds, start, restores.trans stable back, further⟩

namespace Session.LayeredUpTo

variable {s : Session}

theorem proper (layered : s.LayeredUpTo ρ P) : s.connection.Proper := by
  obtain ⟨k, connection, trace⟩ := s
  obtain ⟨_, layered⟩ := layered
  cases layered with
  | idle n => exact .idle n
  | inside n => exact .inside ..

theorem view (layered : s.LayeredUpTo ρ P) : P s.view := by
  obtain ⟨k, connection, trace⟩ := s
  obtain ⟨committed, layered⟩ := layered
  cases layered with
  | idle n => exact committed
  | inside n layered => exact layered.holds

end Session.LayeredUpTo

theorem Session.LayeredUpTo.of_run {a : Action α} (ran : a.run s = (answer, s'))
    (layered : Session.LayeredUpTo ρ P s') : Session.LayeredUpTo ρ P (a.run s).2 := by
  rw [ran]
  exact layered

namespace Action

/-- The action keeps the property at every level. -/
def MaintainsUpTo (ρ : Table → Table → Prop) (P : Catalog → Prop) (a : Action α) : Prop :=
  ∀ s, Session.LayeredUpTo ρ P s → Session.LayeredUpTo ρ P (a.run s).2

abbrev Maintains (P : Catalog → Prop) (a : Action α) : Prop := MaintainsUpTo Table.Grown P a

theorem MaintainsUpTo.of_settles (stable : Table.Stable ρ) (lasting : Catalog.LastingUpTo ρ P)
    (settles : ∀ c, P c → ∃ answer c', SettlesUpTo ρ a c answer c' ∧ P c') :
    MaintainsUpTo ρ P a := by
  rintro ⟨k, connection, trace⟩ ⟨committed, layered⟩
  cases layered with
  | idle n =>
    obtain ⟨answer, c', settles, holds⟩ := settles k.catalog committed
    obtain ⟨k', n', trace', ran, rfl⟩ := settles.alone k n trace rfl
    exact .of_run ran ⟨holds, .idle n'⟩
  | inside n layered =>
    rename_i w level outer
    obtain ⟨answer, c', settles, holds⟩ := settles w.catalog layered.holds
    obtain ⟨d, written, n', trace', ran, related, restores, _⟩ :=
      settles.inside k w.base level outer n trace
    have after := layered.replace stable (lasting c' d holds related) restores
    exact .of_run ran ⟨committed, .inside n' after⟩

theorem begin_maintains (stable : Table.Stable ρ) : MaintainsUpTo ρ P begin := by
  rintro ⟨k, connection, trace⟩ ⟨committed, layered⟩
  cases layered with
  | idle n =>
    obtain ⟨n', trace', ran⟩ := begin_idle k n trace
    exact .of_run ran ⟨committed, .inside n' ⟨committed, k.catalog, .refl stable _, committed⟩⟩
  | inside n layered =>
    rename_i w level outer
    obtain ⟨n', trace', ran⟩ := begin_inside k w level outer n trace
    exact .of_run ran ⟨committed, .inside n' ⟨layered.holds, w.catalog, .refl stable _, layered⟩⟩

theorem commit_maintains (stable : Table.Stable ρ) : MaintainsUpTo ρ P commit := by
  rintro ⟨k, connection, trace⟩ ⟨committed, layered⟩
  cases layered with
  | idle n => exact .of_run (commit_idle k n trace) ⟨committed, .idle n⟩
  | inside n layered =>
    rename_i w level outer
    cases outer with
    | nil =>
      by_cases silent : level = []
      · subst silent
        obtain ⟨trace', ran⟩ := commit_unchanged k w n trace
        exact .of_run ran ⟨committed, .idle n⟩
      · by_cases same : k.version = w.base
        · obtain ⟨trace', ran⟩ := commit_installs k w level n trace silent same
          exact .of_run ran ⟨layered.holds, .idle n⟩
        · obtain ⟨trace', ran⟩ := commit_conflict k w level n trace silent same
          exact .of_run ran ⟨committed, .idle n⟩
    | cons next outer =>
      obtain ⟨trace', ran⟩ := commit_inner k w level next outer n trace
      obtain ⟨holds, start, back, further⟩ := layered
      exact .of_run ran ⟨committed, .inside n (further.replace stable holds back)⟩

theorem rollback_maintains (stable : Table.Stable ρ) (lasting : Catalog.LastingUpTo ρ P) :
    MaintainsUpTo ρ P rollback := by
  rintro ⟨k, connection, trace⟩ ⟨committed, layered⟩
  cases layered with
  | idle n => exact .of_run (rollback_idle k n trace) ⟨committed, .idle n⟩
  | inside n layered =>
    rename_i w level outer
    cases outer with
    | nil =>
      obtain ⟨trace', ran⟩ := rollback_outermost k w level n trace
      exact .of_run ran ⟨committed, .idle n⟩
    | cons next outer =>
      obtain ⟨trace', ran⟩ := rollback_inner k w level next outer n trace
      obtain ⟨_, start, ⟨d, undone, related⟩, further⟩ := layered
      rw [undone] at ran
      have holds := lasting start d further.holds related
      have back : d.RestoresUpTo ρ [] start := ⟨d, rfl, related⟩
      exact .of_run ran ⟨committed, .inside n (further.replace stable holds back)⟩

end Action

namespace Request

/-- A request keeps a property that the write keeps which it asks for. An update that fails has
noted nothing, so what it leaves has to be related to the tables before it. -/
theorem maintains (stable : Table.Stable ρ) (lasting : Catalog.LastingUpTo ρ P) (r : Request)
    (s : Session) (keeps : ∀ c c', P c → r.Effect c c' → P c')
    (falls : ∀ u e, r = .update u → (r.run.run s).1 = .error e →
      ∀ c, P c → c.Related ρ (c.updateWhere u).2)
    (layered : s.LayeredUpTo ρ P) : Session.LayeredUpTo ρ P (r.run.run s).2 := by
  by_cases statement : r.isStatement = true
  · obtain ⟨k, connection, trace⟩ := s
    obtain ⟨committed, layered⟩ := layered
    cases layered with
    | idle n =>
      obtain ⟨answer, c', written, acts, effect, _⟩ := r.acts_effect statement k.catalog
      obtain ⟨k', trace', ran, rfl, _⟩ := acts.alone k n trace rfl
      exact .of_run ran ⟨keeps _ _ committed effect, .idle n⟩
    | inside n layered =>
      rename_i w level outer
      obtain ⟨answer, c', written, acts, effect, notes⟩ := r.acts_effect statement w.catalog
      obtain ⟨trace', ran⟩ := acts.inside k w.base level outer n trace
      have restores : c'.RestoresUpTo ρ written w.catalog := by
        rcases notes with exact | ⟨rfl, u, e, rfl, rfl⟩
        · exact exact.upTo stable
        · refine ⟨c', rfl, ?_⟩
          cases effect with
          | nothing => exact .refl stable _
          | updated updates =>
            have related := falls u e rfl (congrArg Prod.fst ran) w.catalog layered.holds
            rwa [updates] at related
      have after := layered.replace stable (keeps _ _ layered.holds effect) restores
      exact .of_run ran ⟨committed, .inside n after⟩
  · cases r with
    | begin => exact .of_run (run_answering ..) (Action.begin_maintains stable s layered)
    | commit => exact .of_run (run_answering ..) (Action.commit_maintains stable s layered)
    | rollback =>
      exact .of_run (run_answering ..) (Action.rollback_maintains stable lasting s layered)
    | inTransaction => exact layered
    | _ => exact absurd rfl statement

end Request

namespace Store

variable {s : Store}

theorem LayeredUpTo.ofCatalog {c : Catalog} (holds : P c) : (Store.ofCatalog c).LayeredUpTo ρ P :=
  ⟨holds, fun _ _ found => by cases found⟩

theorem LayeredUpTo.connect (layered : s.LayeredUpTo ρ P) (name : String) :
    (s.connect name).LayeredUpTo ρ P := by
  refine ⟨layered.committed, fun other connection found => ?_⟩
  rw [Store.connect, Dict.get?_insert] at found
  split at found
  case isTrue =>
    cases found
    exact .idle 0
  case isFalse => exact layered.connections other connection found

theorem LayeredUpTo.disconnect (layered : s.LayeredUpTo ρ P) (name : String) :
    (s.disconnect name).2.LayeredUpTo ρ P := by
  refine ⟨layered.committed, fun other connection found => ?_⟩
  rw [Store.disconnect, Dict.get?_erase] at found
  split at found
  case isTrue => cases found
  case isFalse => exact layered.connections other connection found

/-- A turn of one connection, if that keeps the property in its own session. -/
theorem LayeredUpTo.turn {a : Action α} (layered : s.LayeredUpTo ρ P)
    (maintains : ∀ session, s.session? name = some session → session.LayeredUpTo ρ P →
      Session.LayeredUpTo ρ P (a.run session).2)
    (ran : s.act? name a = some (answer, events, s')) : s'.LayeredUpTo ρ P := by
  unfold act? at ran
  unfold session? at ran maintains
  cases found : s.connections.get? name with
  | none =>
    rw [found] at ran
    cases ran
  | some connection =>
    rw [found] at ran maintains
    cases ran
    have after := maintains ⟨s.committed, connection, []⟩ rfl
      ⟨layered.committed, layered.connections name connection found⟩
    refine ⟨after.committed, fun other connection' found' => ?_⟩
    rw [Dict.get?_insert] at found'
    split at found'
    case isTrue =>
      cases found'
      exact after.connection
    case isFalse => exact layered.connections other connection' found'

theorem LayeredUpTo.act {a : Action α} (layered : s.LayeredUpTo ρ P)
    (maintains : a.MaintainsUpTo ρ P) (ran : s.act? name a = some (answer, events, s')) :
    s'.LayeredUpTo ρ P :=
  layered.turn (fun session _ before => maintains session before) ran

/-- A step keeps a property that the request keeps which is asked in it. -/
theorem LayeredUpTo.step (stable : Table.Stable ρ) (lasting : Catalog.LastingUpTo ρ P)
    (layered : s.LayeredUpTo ρ P) (step : Step)
    (keeps : ∀ name r, step = .ask name r → ∀ c c', P c → r.Effect c c' → P c')
    (falls : ∀ name u e, step = .ask name (.update u) → (s.step step).1 = some (.error e) →
      ∀ c, P c → c.Related ρ (c.updateWhere u).2) : (s.step step).2.LayeredUpTo ρ P := by
  cases step with
  | connect name => exact layered.connect name
  | disconnect name => exact layered.disconnect name
  | ask name r =>
    cases ran : s.act? name r.run with
    | none =>
      simp only [Store.step, ran]
      exact layered
    | some result =>
      simp only [Store.step, ran] at falls ⊢
      refine layered.turn (fun session found before => ?_) ran
      refine r.maintains stable lasting session (keeps name r rfl) ?_ before
      rintro u e rfl failed
      refine falls name u e rfl ?_
      rw [act?, found, Option.map_some, Option.some.injEq] at ran
      rw [← ran]
      exact congrArg some failed

theorem LayeredUpTo.workspace {w : Workspace} (layered : s.LayeredUpTo ρ P)
    (found : s.workspace? name = some w) : P w.catalog := by
  obtain ⟨connection, there, working⟩ := Option.bind_eq_some_iff.mp found
  cases layered.connections name connection there with
  | idle n => cases working
  | inside n inner =>
    cases working
    exact inner.holds

end Store
end RankedStore
