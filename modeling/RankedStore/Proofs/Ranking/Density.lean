import RankedStore.Proofs.Invariant
import RankedStore.Proofs.Ranking.Ordering

/-! Ranked records on several connections at once. Whatever the interleaving, no position is ever
missing or given twice, be it in the committed tables or inside an open transaction. -/
namespace RankedStore

variable {g : Registry} {schema : EntitySchema} {reg : Registration} {k : Ranking} {p : Nat}
  {c : Catalog} {layout : TableLayout}

/-- The positions in a table are 1 to N, each of them once. -/
def Catalog.Dense (c : Catalog) (name : String) (p : Nat) : Prop :=
  ∃ t, c.tables.get? name = some t ∧ (t.rows.values.map (Table.integerAt p)).Perm
    ((List.range t.rows.values.length).map fun (i : Nat) => (i : Int) + 1)

/-- The tables hold a list in the order of its positions. -/
def Catalog.Holds (layout : TableLayout) (p : Nat) (c : Catalog) : Prop :=
  ∃ t order, c.Ranked layout p t order

theorem Catalog.Holds.lasting (layout : TableLayout) (p : Nat) : Lasting (Holds layout p) := by
  rintro c d ⟨t, order, ranked⟩ grown
  obtain ⟨t', found, larger⟩ := grown.some_iff ranked.found
  exact ⟨t', order, found, larger.layout.trans ranked.same, ranked.sound.grown larger,
    ranked.ranks.grown larger⟩

theorem Catalog.Holds.dense (holds : c.Holds layout p) : c.Dense layout.name p := by
  obtain ⟨t, order, ranked⟩ := holds
  have positions := ranked.ranks.positions
  have count := positions.length_eq
  rw [List.length_map, List.length_map, List.length_range] at count
  exact ⟨t, ranked.found, count ▸ positions⟩

namespace Ranking

/-- What a connection does with records of a ranked type, and with its own levels. -/
inductive Deed
  | begin
  | commit
  | rollback
  | save (r : Record)
  | remove (r : Record)

namespace Deed

def run (g : Registry) : Deed → Action Unit
  | .begin => Action.begin
  | .commit => Action.commit
  | .rollback => Action.rollback
  | .save r => do let _ ← g.save r
  | .remove r => do let _ ← g.remove r

/-- New records are saved, and any records removed. -/
def Meets (entity : String) : Deed → Prop
  | .save r => r.entity = entity ∧ r.id = none
  | .remove r => r.entity = entity
  | .begin | .commit | .rollback => True

theorem run_maintains (sorts : g.Sorts reg k p) (deed : Deed) (meets : deed.Meets k.entity) :
    (deed.run g).Maintains (Catalog.Holds reg.layout p) := by
  have lasting := Catalog.Holds.lasting reg.layout p
  cases deed with
  | begin => exact Action.begin_maintains Table.grown_stable
  | commit => exact Action.commit_maintains Table.grown_stable
  | rollback => exact Action.rollback_maintains Table.grown_stable lasting
  | save r =>
    refine .of_settles Table.grown_stable lasting fun c ⟨t, order, ranked⟩ => ?_
    rcases Registry.save_new sorts ranked meets.1 meets.2 with
      ⟨_, _, _, c', t', saves, _, after⟩ | ⟨_, e, fails⟩
    · exact ⟨_, c', saves.answering fun _ => (), t', _, after⟩
    · exact ⟨_, c, fails.answering fun _ => (), t, order, ranked⟩
  | remove r =>
    refine .of_settles Table.grown_stable lasting fun c ⟨t, order, ranked⟩ => ?_
    cases persisted : r.id with
    | none =>
      obtain ⟨e, fails⟩ := Registry.remove_new sorts meets persisted c
      exact ⟨_, c, fails.answering fun _ => (), t, order, ranked⟩
    | some id =>
      by_cases member : id ∈ order
      · obtain ⟨c', t', removes, after⟩ :=
          Registry.remove_stored sorts ranked meets persisted member
        exact ⟨_, c', removes.answering fun _ => (), t', _, after⟩
      · obtain ⟨e, fails⟩ := Registry.remove_missing sorts ranked meets persisted member
        exact ⟨_, c, fails.answering fun _ => (), t, order, ranked⟩

end Deed

/-- A turn of one connection, or of the program that opens and closes connections. -/
inductive Turn
  | connect (name : String)
  | disconnect (name : String)
  | act (name : String) (deed : Deed)

namespace Turn

/-- Every connection has entity types of its own. A turn on a connection that is not open does
nothing. -/
def play (registries : String → Registry) (s : Store) : Turn → Store
  | .connect name => s.connect name
  | .disconnect name => (s.disconnect name).2
  | .act name deed => match s.act? name (deed.run (registries name)) with
    | none => s
    | some (_, _, s') => s'

def Meets (entity : String) : Turn → Prop
  | .act _ deed => deed.Meets entity
  | .connect _ | .disconnect _ => True

theorem play_layered {registries : String → Registry} {s : Store}
    (sorts : ∀ name, (registries name).Sorts reg k p)
    (layered : s.Layered (Catalog.Holds reg.layout p)) (turn : Turn) (meets : turn.Meets k.entity) :
    (turn.play registries s).Layered (Catalog.Holds reg.layout p) := by
  cases turn with
  | connect name => exact layered.connect name
  | disconnect name => exact layered.disconnect name
  | act name deed =>
    cases ran : s.act? name (deed.run (registries name)) with
    | none =>
      simp only [play, ran]
      exact layered
    | some result =>
      simp only [play, ran]
      exact layered.act (deed.run_maintains (sorts name) meets) ran

end Turn
end Ranking

namespace Store

def playAll (registries : String → Registry) (s : Store) (turns : List Ranking.Turn) : Store :=
  turns.foldl (fun s turn => turn.play registries s) s

variable {registries : String → Registry} {s : Store}

theorem playAll_layered (sorts : ∀ name, (registries name).Sorts reg k p)
    (layered : s.Layered (Catalog.Holds reg.layout p)) (turns : List Ranking.Turn)
    (meets : ∀ turn ∈ turns, turn.Meets k.entity) :
    (s.playAll registries turns).Layered (Catalog.Holds reg.layout p) := by
  induction turns generalizing s with
  | nil => exact layered
  | cons turn rest ih =>
    have first := turn.play_layered sorts layered (meets turn (List.mem_cons_self ..))
    exact ih first fun later member => meets later (List.mem_cons_of_mem _ member)

/-- Connections take turns in any order, each with levels of its own, and save new records and
remove any they have at hand. If the positions are 1 to N to begin with, they always are, both in
the committed tables and in those that an open transaction sees. -/
theorem positions_stay_dense (registered : ∀ name, (registries name).Registered schema reg)
    (ranked : reg.Ranked k) (place : reg.layout.index k.column = .ok p)
    (start : s.committed.catalog.Ranked reg.layout p t order)
    (idle : ∀ name connection, s.connections.get? name = some connection →
      ∃ n, connection = .idle n) (turns : List Ranking.Turn)
      (meets : ∀ turn ∈ turns, turn.Meets schema.name) :
    (s.playAll registries turns).committed.catalog.Dense schema.name p ∧
      ∀ name w, (s.playAll registries turns).workspace? name = some w →
        w.catalog.Dense schema.name p := by
  obtain ⟨entity, named, _⟩ := (registered "").sorts ranked
  have sorts : ∀ name, (registries name).Sorts reg k p := by
    intro name
    obtain ⟨_, _, p', sorts⟩ := (registered name).sorts ranked
    obtain rfl : p = p' := Except.ok.inj (place.symm.trans sorts.fits.holds.place)
    exact sorts
  have layered : s.Layered (Catalog.Holds reg.layout p) := by
    refine ⟨⟨t, order, start⟩, fun name connection found => ?_⟩
    obtain ⟨n, rfl⟩ := idle name connection found
    exact .idle n
  have after := playAll_layered sorts layered turns (entity ▸ meets)
  rw [← named]
  exact ⟨after.committed.dense, fun name w found => (after.workspace found).dense⟩

end Store

/-- Two connections that save new records in transactions of their own, the second one in a
savepoint as well. The first one commits, and the second one tries again after its conflict. -/
def Sample.turns : List Ranking.Turn :=
  let new : Ranking.Deed := .save (.ofEntity "t")
  [.connect "a", .connect "b", .act "a" .begin, .act "a" new,
    .act "b" .begin, .act "b" new, .act "b" .begin, .act "b" new, .act "b" .rollback,
    .act "a" .commit, .act "b" .commit, .act "b" .rollback, .act "b" .begin, .act "b" new]

theorem Store.positions_stay_dense_of_two :
    let s := playAll (fun _ => Sample.registry) (.ofCatalog Sample.catalog) Sample.turns
    s.committed.catalog.rowCount = 1 ∧ s.depth "b" = 1 ∧ s.committed.catalog.Dense "t" 1 ∧
      ∀ name w, s.workspace? name = some w → w.catalog.Dense "t" 1 := by
  have start : (Store.ofCatalog Sample.catalog).committed.catalog.Ranked
    Sample.registration.layout 1 Sample.table [] := .ofEmpty (by rfl) (by rfl) (by rfl) 1
  have meets : ∀ turn ∈ Sample.turns, turn.Meets Sample.schema.name := by
    simp [Sample.turns, Ranking.Turn.Meets, Ranking.Deed.Meets, Sample.schema, Record.ofEntity]
  exact ⟨by decide +kernel, by decide +kernel, positions_stay_dense (fun _ => Sample.registered)
    Sample.ranked rfl start (fun _ _ found => by cases found) Sample.turns meets⟩

end RankedStore
