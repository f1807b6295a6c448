import RankedStore.Proofs.NextIds
import RankedStore.Proofs.Snapshot

/-! Assigned ids are never reused. An observer writes down which ids are given to new rows in each
open transaction. When such a row is committed, no committed row of its table has had its id before,
be it deleted since or not. This also holds across stores, if each is read back from a snapshot of
the one before it. -/
namespace RankedStore

namespace Store

/-- The store that a snapshot of the committed tables is read back into. It has no connections. -/
def reload (s : Store) (createdAt : UInt64) : Except Error Store :=
  (Snapshot.readOrEmpty (some (Snapshot.write createdAt.toNat s.committed.catalog))).map .ofCatalog

theorem reload_eq_ok {s : Store} (floatFree : s.committed.catalog.FloatFree) (createdAt : UInt64) :
    s.reload createdAt = .ok (.ofCatalog s.committed.catalog) := by
  rw [reload, Snapshot.written_is_read createdAt floatFree]
  rfl

/-- A connection takes a step, or the store is replaced by the one that it is read back into. -/
inductive Move
  | step (step : Step)
  | reload (createdAt : UInt64)

end Store

/-- A store with the ids, each with its table, that were given to new rows in the open transaction
of each connection. -/
structure Watch where
  store : Store
  given : Dict String (List (String × Int64)) := .empty

namespace Watch

def givenTo (w : Watch) (name : String) : List (String × Int64) := (w.given.get? name).getD []

/-- What a transaction was given is committed if its outermost commit succeeds and had changes to
install. -/
def settle (w : Watch) (name : String) : Request → Except Error Reply → List (String × Int64)
  | .commit, .ok _ => if w.store.pending name = 0 then [] else w.givenTo name
  | _, _ => []

/-- Writes down a step and its answer. Gives the ids that are committed with it. -/
def note (w : Watch) (after : Store) :
    Store.Step → Option (Except Error Reply) → List (String × Int64) × Watch
  | .connect name, _ | .disconnect name, _ => ([], ⟨after, w.given.erase name⟩)
  | .ask _ _, none => ([], ⟨after, w.given⟩)
  | .ask name r, some answer =>
    let assigned := r.assigned answer
    if after.depth name ≠ 0 then ([], ⟨after, w.given.insert name (w.givenTo name ++ assigned)⟩)
    else (w.settle name r answer ++ assigned, ⟨after, w.given.erase name⟩)

/-- Goes on with the store that was read back, if it was. -/
def restart (w : Watch) : Except Error Store → Watch
  | .ok s => { store := s }
  | .error _ => w

/-- Watches a move. Gives the ids that were assigned to rows and are committed with it, those of
rows that their transaction itself has deleted or taken back included. -/
def move (w : Watch) : Store.Move → List (String × Int64) × Watch
  | .step step => w.note (w.store.step step).2 step (w.store.step step).1
  | .reload createdAt => ([], w.restart (w.store.reload createdAt))

def run (w : Watch) (moves : List Store.Move) : Watch :=
  moves.foldl (fun w move => (w.move move).2) w

/-- Whenever the store is read back, its committed tables are without floats. -/
def FloatFree : Watch → List Store.Move → Prop
  | _, [] => True
  | w, .step step :: rest => (w.move (.step step)).2.FloatFree rest
  | w, .reload createdAt :: rest =>
    w.store.committed.catalog.FloatFree ∧ (w.move (.reload createdAt)).2.FloatFree rest

end Watch

/-- All that a connection may come back to follows the committed tables, and these have not come to
any of the ids. -/
structure Ahead (k : Committed) (connection : Connection) (ids : List (String × Int64)) : Prop where
  layered : Session.LayeredUpTo Table.Aged (Catalog.Follows k.catalog) ⟨k, connection, []⟩
  stops : ∀ place ∈ ids, k.catalog.StopsBefore place

theorem Ahead.idle {k : Committed} (below : k.catalog.All Table.Below) (n : Nat) :
    Ahead k (.idle n) [] :=
  ⟨⟨.refl below, .idle n⟩, nofun⟩

/-- A request that commits nothing. -/
theorem Ahead.step {r : Request} (ahead : Ahead k connection ids)
    (ran : r.run.run ⟨k, connection, []⟩ = (answer, ⟨k, connection', trace⟩)) :
    Ahead k connection' (ids ++ r.assigned answer) := by
  constructor
  · have layered := r.follows ahead.layered
    rw [ran] at layered
    exact ⟨layered.committed, layered.connection⟩
  · intro place member
    rcases List.mem_append.mp member with old | new
    · exact ahead.stops place old
    · exact Request.assigned_stops ahead.layered ran place new

/-- A connection and the ids given out in its open transaction. The connection is ahead as long as
nothing was committed since the transaction began. -/
inductive Given (k : Committed) : Option Connection → List (String × Int64) → Prop
  | absent : Given k none []
  | idle (n : Nat) : Given k (some (.idle n)) []
  | inside {w : Workspace} {level : List Change} {outer : List (List Change)} {n : Nat}
      {ids : List (String × Int64)} : w.base ≤ k.version →
      (w.base = k.version → Ahead k (.inside w (level :: outer) n) ids) →
      Given k (some (.inside w (level :: outer) n)) ids

theorem Given.later (given : Given k connection ids) (later : k' = k ∨ k.version < k'.version) :
    Given k' connection ids := by
  rcases later with rfl | later
  · exact given
  · cases given with
    | absent => exact .absent
    | idle n => exact .idle n
    | inside bound _ => exact .inside (by omega) fun same => absurd same (by omega)

namespace Watch

structure Sound (w : Watch) : Prop where
  below : w.store.committed.catalog.All Table.Below
  given : ∀ name, Given w.store.committed (w.store.connections.get? name) (w.givenTo name)

/-- What comes of a move: the committed tables follow those before it, and these had not come to the
ids that are committed. -/
structure Leads (w : Watch) (result : List (String × Int64) × Watch) : Prop where
  sound : result.2.Sound
  ages : w.store.committed.catalog.AgesTo result.2.store.committed.catalog
  committed : ∀ place ∈ result.1, w.store.committed.catalog.StopsBefore place

variable {w : Watch} {name : String} {r : Request} {answer : Except Error Reply} {after : Store}

theorem givenTo_insert (m : Dict String (List (String × Int64))) (ids : List (String × Int64)) :
    givenTo ⟨after, m.insert name ids⟩ name = ids := by
  rw [givenTo, Dict.get?_insert_self, Option.getD_some]

theorem givenTo_erase (m : Dict String (List (String × Int64))) :
    givenTo ⟨after, m.erase name⟩ name = [] := by
  rw [givenTo, Dict.get?_erase_self, Option.getD_none]

theorem note_open (k : Committed) (m : Dict String Connection) :
    let s : Store := ⟨k, m.insert name (.inside v (level :: outer) n)⟩
    w.note s (.ask name r) (some answer) =
      ([], ⟨s, w.given.insert name (w.givenTo name ++ r.assigned answer)⟩) := by
  intro s
  have opened : s.depth name ≠ 0 := Store.depth_inside_ne (Dict.get?_insert_self ..)
  rw [note, if_pos opened]

theorem note_closed (k : Committed) (m : Dict String Connection) :
    let s : Store := ⟨k, m.insert name (.idle n)⟩
    w.note s (.ask name r) (some answer) =
      (w.settle name r answer ++ r.assigned answer, ⟨s, w.given.erase name⟩) := by
  intro s
  have closed : s.depth name = 0 := Store.depth_idle (Dict.get?_insert_self ..)
  rw [note, if_neg (not_not_intro closed)]

theorem settle_of_none (none : w.givenTo name = []) : w.settle name r answer = [] := by
  unfold settle
  split
  · rw [none, ite_self]
  · rfl

namespace Sound

/-- A step concerns one connection and what it was given. -/
theorem of_step {w' : Watch} (sound : w.Sound) (name : String)
    (elsewhere : ∀ other, name ≠ other →
      w'.store.connections.get? other = w.store.connections.get? other ∧
        w'.given.get? other = w.given.get? other)
    (later : w'.store.committed = w.store.committed ∨
      w.store.committed.version < w'.store.committed.version)
    (below : w'.store.committed.catalog.All Table.Below)
    (given : Given w'.store.committed (w'.store.connections.get? name) (w'.givenTo name)) :
    w'.Sound := by
  refine ⟨below, fun other => ?_⟩
  by_cases same : name = other
  · subst same
    exact given
  · obtain ⟨connections, ids⟩ := elsewhere other same
    have before := sound.given other
    rw [givenTo] at before
    rw [givenTo, connections, ids]
    exact before.later later

/-- A connection has a transaction open after a step, and nothing is committed. -/
theorem of_open (sound : w.Sound) (given : Given w.store.committed (some connection) ids) :
    Sound ⟨⟨w.store.committed, w.store.connections.insert name connection⟩,
      w.given.insert name ids⟩ := by
  refine sound.of_step name (fun other ne => ?_) (.inl rfl) sound.below ?_
  · exact ⟨Dict.get?_insert_of_ne _ _ ne, Dict.get?_insert_of_ne _ _ ne⟩
  · rw [Dict.get?_insert_self, givenTo_insert]
    exact given

/-- A connection is outside any transaction after a step. -/
theorem of_closed (sound : w.Sound) (later : k = w.store.committed ∨
    w.store.committed.version < k.version) (below : k.catalog.All Table.Below) :
    Sound ⟨⟨k, w.store.connections.insert name (.idle n)⟩, w.given.erase name⟩ := by
  refine sound.of_step name (fun other ne => ?_) later below ?_
  · exact ⟨Dict.get?_insert_of_ne _ _ ne, Dict.get?_erase_of_ne _ ne⟩
  · rw [Dict.get?_insert_self, givenTo_erase]
    exact .idle n

theorem connect (sound : w.Sound) (name : String) : w.Leads (w.move (.step (.connect name))) :=
  ⟨sound.of_closed (n := 0) (.inl rfl) sound.below, .refl _, nofun⟩

theorem disconnect (sound : w.Sound) (name : String) :
    w.Leads (w.move (.step (.disconnect name))) := by
  refine ⟨?_, .refl _, nofun⟩
  refine sound.of_step name (fun other ne => ?_) (.inl rfl) sound.below ?_
  · exact ⟨Dict.get?_erase_of_ne _ ne, Dict.get?_erase_of_ne _ ne⟩
  · simp only [move, note, givenTo_erase, Store.step, Store.disconnect, Dict.get?_erase_self]
    exact .absent

theorem begins (sound : w.Sound) (found : w.store.connections.get? name = some (.idle n))
    (none : w.givenTo name = []) : w.Leads (w.move (.step (.ask name .begin))) := by
  obtain ⟨n', trace', ran⟩ := Request.begin_step w.store.committed n []
  rw [move, Store.step_ask found ran, note_open, none]
  refine ⟨sound.of_open ?_, .refl _, nofun⟩
  exact .inside (Nat.le_refl _) fun _ => (Ahead.idle sound.below n).step ran

/-- A request outside any transaction that does not begin one. -/
theorem idle (sound : w.Sound) (found : w.store.connections.get? name = some (.idle n))
    (none : w.givenTo name = []) (r : Request) (stays : r ≠ .begin) :
    w.Leads (w.move (.step (.ask name r))) := by
  obtain ⟨answer, _, steps, _⟩ := r.idle_step w.store.committed.catalog stays
  obtain ⟨k', trace', ran, _, later⟩ := steps w.store.committed n [] rfl
  have before := (Ahead.idle sound.below n).layered
  have after := r.follows before
  rw [ran] at after
  rw [move, Store.step_ask found ran, note_closed, settle_of_none none, List.nil_append]
  constructor
  · exact sound.of_closed later after.committed.below
  · exact after.committed.ages
  · exact Request.assigned_stops before ran

/-- A request inside a transaction that stays open. -/
theorem goes_on (sound : w.Sound)
    (found : w.store.connections.get? name = some (.inside v (level :: outer) n))
    (bound : v.base ≤ w.store.committed.version)
    (current : v.base = w.store.committed.version →
      Ahead w.store.committed (.inside v (level :: outer) n) (w.givenTo name))
    (r : Request) (stays : r.endsLevel = true → outer ≠ []) :
    w.Leads (w.move (.step (.ask name r))) := by
  obtain ⟨answer, c', level', outer', steps, _⟩ := r.inside_step v.catalog level outer stays
  obtain ⟨n', trace', ran⟩ := steps w.store.committed v.base [] n []
  simp only [List.append_nil, List.length_nil] at ran
  rw [move, Store.step_ask found ran, note_open]
  refine ⟨sound.of_open ?_, .refl _, nofun⟩
  exact .inside bound fun same => (current same).step ran

/-- The request that ends a whole transaction. It installs changes only if nothing was committed
since the transaction began. -/
theorem ends (sound : w.Sound)
    (found : w.store.connections.get? name = some (.inside v [level] n))
    (current : v.base = w.store.committed.version →
      Ahead w.store.committed (.inside v [level] n) (w.givenTo name))
    (r : Request) (ends : r.endsLevel = true) : w.Leads (w.move (.step (.ask name r))) := by
  obtain ⟨answer, k', trace', ran, ending⟩ := r.end_step ends w.store.committed v level n []
  have changes : w.store.pending name = level.length := by
    rw [Store.pending_inside found, List.flatten_cons, List.flatten_nil, List.append_nil]
  have assigned : r.assigned answer = [] := by cases r <;> cases ends <;> rfl
  rw [move, Store.step_ask found ran, note_closed, assigned, List.append_nil]
  cases ending with
  | unchanged none =>
    have settled : w.settle name .commit (.ok (.count 0)) = [] := by
      rw [settle, changes, none, List.length_nil, if_pos rfl]
    rw [settled]
    exact ⟨sound.of_closed (.inl rfl) sound.below, .refl _, nofun⟩
  | installed changed same =>
    obtain ⟨layered, stops⟩ := current same.symm
    have after : Catalog.Follows w.store.committed.catalog v.catalog := layered.view
    have settled : w.settle name .commit (.ok (.count 0)) = w.givenTo name := by
      simp only [settle, changes, List.length_eq_zero_iff, if_neg changed]
    rw [settled]
    exact ⟨sound.of_closed (.inr (Nat.lt_succ_self _)) after.below, after.ages, stops⟩
  | conflict => exact ⟨sound.of_closed (.inl rfl) sound.below, .refl _, nofun⟩
  | rolledBack => exact ⟨sound.of_closed (.inl rfl) sound.below, .refl _, nofun⟩

theorem ask (sound : w.Sound) (name : String) (r : Request) :
    w.Leads (w.move (.step (.ask name r))) := by
  have given := sound.given name
  generalize found : w.store.connections.get? name = connection at given
  generalize ids : w.givenTo name = noted at given
  cases given with
  | absent =>
    rw [move, Store.step_ask_none found]
    exact ⟨sound, .refl _, nofun⟩
  | idle n =>
    by_cases starts : r = .begin
    · subst starts
      exact sound.begins found ids
    · exact sound.idle found ids r starts
  | @inside v level outer n _ bound current =>
    subst ids
    by_cases last : r.endsLevel = true ∧ outer = []
    · obtain ⟨ends, rfl⟩ := last
      exact sound.ends found current r ends
    · exact sound.goes_on found bound current r fun ends none => last ⟨ends, none⟩

theorem reload (sound : w.Sound) (floatFree : w.store.committed.catalog.FloatFree)
    (createdAt : UInt64) :
    w.Leads (w.move (.reload createdAt)) := by
  rw [move, Store.reload_eq_ok floatFree]
  exact ⟨⟨sound.below, fun _ => .absent⟩, .refl _, nofun⟩

theorem step (sound : w.Sound) (step : Store.Step) : w.Leads (w.move (.step step)) := by
  cases step with
  | connect name => exact sound.connect name
  | disconnect name => exact sound.disconnect name
  | ask name r => exact sound.ask name r

/-- However a store is used, no next id of a committed table ever comes down. -/
theorem run (sound : w.Sound) (moves : List Store.Move) (floatFree : w.FloatFree moves) :
    (w.run moves).Sound ∧
    w.store.committed.catalog.AgesTo (w.run moves).store.committed.catalog := by
  induction moves generalizing w with
  | nil => exact ⟨sound, .refl _⟩
  | cons move rest ih =>
    have leads : w.Leads (w.move move) ∧ (w.move move).2.FloatFree rest := by
      cases move with
      | step step => exact ⟨sound.step step, floatFree⟩
      | reload createdAt => exact ⟨sound.reload floatFree.1 createdAt, floatFree.2⟩
    obtain ⟨leads, floatFree⟩ := leads
    obtain ⟨after, ages⟩ := ih leads.sound floatFree
    exact ⟨after, leads.ages.trans ages⟩

end Sound

theorem run_cons (w : Watch) (move : Store.Move) (rest : List Store.Move) :
    w.run (move :: rest) = (w.move move).2.run rest := rfl

theorem run_append (w : Watch) (older recent : List Store.Move) :
    w.run (older ++ recent) = (w.run older).run recent := List.foldl_append

theorem floatFree_append : w.FloatFree (older ++ recent) ↔
    w.FloatFree older ∧ (w.run older).FloatFree recent := by
  induction older generalizing w with
  | nil => exact (and_iff_right trivial).symm
  | cons move rest ih =>
    rw [run_cons]
    cases move with
    | step step => exact ih
    | reload createdAt => exact (and_congr_right fun _ => ih).trans and_assoc.symm

/-- The store that is read back goes on from the tables that were committed. -/
theorem run_reload (floatFree : (w.run older).store.committed.catalog.FloatFree)
    (createdAt : UInt64) (recent : List Store.Move) : w.run (older ++ .reload createdAt :: recent) =
      Watch.run { store := .ofCatalog (w.run older).store.committed.catalog } recent := by
  rw [run_append, run_cons, move, Store.reload_eq_ok floatFree]
  rfl

end Watch

/-- Connections take steps in any order, with transactions and savepoints that they commit or roll
back, and now and then the store is replaced by the one that its snapshot is read back into.
Whenever a row is committed that was given its id when it was inserted, its table has had no
committed row with this id before. -/
theorem Store.assigned_ids_never_reused (c : Catalog) (below : c.All Table.Below)
    (moves : List Move) (floatFree : Watch.FloatFree { store := ofCatalog c } moves) (move : Move) :
    let w : Watch := { store := ofCatalog c }
    ∀ table id, (table, id) ∈ ((w.run moves).move move).1 → ∀ earlier, earlier <+: moves →
      (w.run earlier).store.committed.catalog.row? table id = none := by
  rintro w table id committed earlier ⟨later, rfl⟩
  have start : w.Sound := ⟨below, fun _ => .absent⟩
  obtain ⟨before, between⟩ := Watch.floatFree_append.mp floatFree
  obtain ⟨sound, _⟩ := start.run earlier before
  obtain ⟨sound', ages⟩ := sound.run later between
  rw [Watch.run_append] at committed
  cases move with
  | reload createdAt => cases committed
  | step step =>
    have stops := (sound'.step step).committed (table, id) committed
    exact (stops.earlier ages).row?_eq_none sound.below

/-- Of two connections that began a transaction each, one takes a row back and commits another, and
the other comes too late. -/
def Store.twoWriters : List Move :=
  let ask name request := Move.step (.ask name request)
  [.step (.connect "a"), .step (.connect "b"),
    ask "a" (.createTable ⟨"t", [Column.id, { name := "n", type := .integer }]⟩),
    ask "a" (.insert "t" [.integer 5, .integer 1]), ask "a" (.insert "t" [.null, .integer 2]),
    ask "a" (.delete "t" 6), ask "a" .begin, ask "b" .begin, ask "a" .begin,
    ask "a" (.insert "t" [.null, .integer 3]), ask "a" .rollback,
    ask "a" (.insert "t" [.null, .integer 4]), ask "b" (.insert "t" [.null, .integer 5]),
    ask "a" .commit, ask "b" .commit]

theorem Store.assigned_ids_never_reused_of_two_writers :
    let w : Watch := { store := ofCatalog .empty }
    let moves := twoWriters ++ .reload 1700000000000 ::
      [.step (.connect "a"), .step (.ask "a" .begin),
        .step (.ask "a" (.insert "t" [.null, .integer 6]))]
    (w.run (twoWriters.take 5)).store.committed.catalog.row? "t" 6 =
        some [.integer 6, .integer 2] ∧
      Catalog.empty.All Table.Below ∧ w.FloatFree moves ∧
      ((w.run moves).move (.step (.ask "a" .commit))).1 = [("t", 9)] ∧
      ∀ earlier, earlier <+: moves → (w.run earlier).store.committed.catalog.row? "t" 9 = none := by
  intro w moves
  have saved : (w.run twoWriters).store.committed.catalog.FloatFree := .of_kinds (by decide +kernel)
  have floatFree : w.FloatFree moves := Watch.floatFree_append.mpr ⟨trivial, saved, trivial⟩
  have committed : ((w.run moves).move (.step (.ask "a" .commit))).1 = [("t", 9)] := by
    rw [Watch.run_reload saved]
    decide +kernel
  refine ⟨by decide +kernel, .empty, floatFree, committed, ?_⟩
  apply assigned_ids_never_reused .empty .empty moves floatFree (.step (.ask "a" .commit)) "t" 9
  rw [committed]
  exact List.mem_singleton_self _

end RankedStore
