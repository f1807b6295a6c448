import RankedStore.Proofs.History

/-! Serializability. An observer writes down the requests of every open transaction, and puts a
whole transaction into serial order when its outermost commit succeeds with changes, and a write
outside any transaction when it happens. A store that gets these requests one after the other, from
one connection, gives the same answers and ends with the same committed tables. -/
namespace RankedStore

/-- The requests one after the other, with their answers. -/
def Session.serve : Session → List Request → List (Except Error Reply) × Session
  | s, [] => ([], s)
  | s, r :: rest =>
    let (answer, s') := r.run s
    let (answers, s'') := s'.serve rest
    (answer :: answers, s'')

/-- A store with one connection that nobody has used yet. -/
def Session.fresh (c : Catalog) : Session := { committed := ⟨c, 0⟩, connection := {} }

abbrev Entry := Request × Except Error Reply

/-- The requests of these entries, one after the other, get the answers of the entries. -/
def Session.Serves (s : Session) (entries : List Entry) (s' : Session) : Prop :=
  s.serve (entries.map (·.1)) = (entries.map (·.2), s')

structure Journal where
  serial : List Entry := []
  /-- The requests of each open transaction, with the committed tables when it began. -/
  running : Dict String (Catalog × List Entry) := .empty

namespace Journal

/-- A transaction that is over takes its place in the order only if its commit installed changes. -/
def settle (j : Journal) (changes : Nat) (entries : List Entry) : Entry → List Entry
  | (.commit, .ok reply) =>
    if changes = 0 then j.serial else j.serial ++ entries ++ [(.commit, .ok reply)]
  | _ => j.serial

/-- Writes down a step and its answer, with the store before and after it. -/
def note (j : Journal) (before after : Store) :
    Store.Step → Option (Except Error Reply) → Journal
  | .connect name, _ | .disconnect name, _ => { j with running := j.running.erase name }
  | .ask _ _, none => j
  | .ask name r, some answer =>
    match j.running.get? name with
    | none =>
      if after.depth name ≠ 0 then
        { j with running := j.running.insert name (before.committed.catalog, [(r, answer)]) }
      else if r.writes then { j with serial := j.serial ++ [(r, answer)] }
      else j
    | some (start, entries) =>
      if after.depth name ≠ 0 then
        { j with running := j.running.insert name (start, entries ++ [(r, answer)]) }
      else
        { serial := j.settle (before.pending name) entries (r, answer)
          running := j.running.erase name }

end Journal

/-- The observer's notes after these steps. -/
def Store.journal (s : Store) (j : Journal) : List Store.Step → Journal
  | [] => j
  | step :: rest =>
    let (answer, s') := s.step step
    s'.journal (j.note s s' step answer) rest

namespace Session

variable {s s' s'' : Session} {r : Request} {entries : List Entry}

theorem serve_append (s : Session) (first second : List Request) :
    s.serve (first ++ second) =
      ((s.serve first).1 ++ ((s.serve first).2.serve second).1,
        ((s.serve first).2.serve second).2) := by
  induction first generalizing s with
  | nil => rfl
  | cons r rest ih =>
    rcases ran : r.run s with ⟨answer, s'⟩
    have first (more : List Request) :
        s.serve (r :: more) = (answer :: (s'.serve more).1, (s'.serve more).2) := by
      simp only [serve, ran]
    rw [List.cons_append, first, first, ih, List.cons_append]

theorem Serves.append (first : s.Serves older s') (second : s'.Serves recent s'') :
    s.Serves (older ++ recent) s'' := by
  unfold Serves at first second ⊢
  rw [List.map_append, List.map_append, serve_append, first]
  dsimp only
  rw [second]

theorem Serves.snoc (served : s.Serves entries s') (ran : r.run.run s' = (answer, s'')) :
    s.Serves (entries ++ [(r, answer)]) s'' := by
  have ran : r.run s' = (answer, s'') := ran
  refine served.append ?_
  simp only [Serves, List.map_cons, List.map_nil, serve, ran]

end Session

/-- The requests, made outside any transaction on these tables, get their answers and lead into a
transaction with this copy and these levels. -/
def Replays (start : Catalog) (entries : List Entry) (c : Catalog) (levels : List (List Change)) :
    Prop :=
  ∀ k n trace, k.catalog = start → ∃ n' trace',
    Session.Serves ⟨k, .idle n, trace⟩ entries ⟨k, .inside ⟨c, k.version⟩ levels n', trace'⟩

theorem Replays.snoc {r : Request} {entries : List Entry} (replays : Replays start entries c levels)
    (ran : ∀ k base n trace, ∃ n' trace', r.run.run ⟨k, .inside ⟨c, base⟩ levels n, trace⟩ =
      (answer, ⟨k, .inside ⟨c', base⟩ levels' n', trace'⟩)) :
    Replays start (entries ++ [(r, answer)]) c' levels' := by
  intro k n trace same
  obtain ⟨n', trace', served⟩ := replays k n trace same
  obtain ⟨n'', trace'', ran⟩ := ran k k.version n' trace'
  exact ⟨n'', trace'', served.snoc ran⟩

/-- A connection and the notes on its open transaction. As long as the version is the one that the
transaction began with, so are the committed tables. -/
inductive Told (k : Committed) : Option Connection → Option (Catalog × List Entry) → Prop
  | absent : Told k none none
  | idle (n : Nat) : Told k (some (.idle n)) none
  | inside {start : Catalog} {entries : List Entry} {w : Workspace} {level : List Change}
      {outer : List (List Change)} {n : Nat} :
      Replays start entries w.catalog (level :: outer) → w.base ≤ k.version →
      (w.base = k.version → k.catalog = start) →
      Told k (some (.inside w (level :: outer) n)) (some (start, entries))

theorem Told.later (told : Told k connection notes) (later : k' = k ∨ k.version < k'.version) :
    Told k' connection notes := by
  rcases later with rfl | later
  · exact told
  · cases told with
    | absent => exact .absent
    | idle n => exact .idle n
    | inside replays bound same =>
      exact .inside replays (by omega) fun eq => absurd eq (by omega)

section

variable {j : Journal} {s s' : Store} {name : String} {r : Request} {answer : Except Error Reply}

theorem Journal.note_alone (unnoted : j.running.get? name = none) (ended : s'.depth name = 0) :
    j.note s s' (.ask name r) (some answer) =
      if r.writes then { j with serial := j.serial ++ [(r, answer)] } else j := by
  simp only [note, unnoted, ended, ne_eq, not_true_eq_false, if_false]

theorem Journal.note_begin (unnoted : j.running.get? name = none) (opened : s'.depth name ≠ 0) :
    j.note s s' (.ask name r) (some answer) =
      { j with running := j.running.insert name (s.committed.catalog, [(r, answer)]) } := by
  simp only [note, unnoted, if_pos opened]

theorem Journal.note_inside (noted : j.running.get? name = some (start, entries))
    (goesOn : s'.depth name ≠ 0) :
    j.note s s' (.ask name r) (some answer) =
      { j with running := j.running.insert name (start, entries ++ [(r, answer)]) } := by
  simp only [note, noted, if_pos goesOn]

theorem Journal.note_end (noted : j.running.get? name = some (start, entries))
    (ended : s'.depth name = 0) :
    j.note s s' (.ask name r) (some answer) =
      { serial := j.settle (s.pending name) entries (r, answer)
        running := j.running.erase name } := by
  simp only [note, noted, ended, ne_eq, not_true_eq_false, if_false]

end

structure Journal.Tells (j : Journal) (c : Catalog) (s : Store) : Prop where
  serial : ∃ k n trace, (Session.fresh c).Serves j.serial ⟨k, .idle n, trace⟩ ∧
    k.catalog = s.committed.catalog
  running : ∀ name, Told s.committed (s.connections.get? name) (j.running.get? name)

namespace Journal.Tells

variable {j j' : Journal} {s s' : Store} {name : String}

/-- A step concerns one connection and its notes. -/
theorem of_step (tells : j.Tells c s) (name : String)
    (elsewhere : ∀ other, name ≠ other → s'.connections.get? other = s.connections.get? other ∧
      j'.running.get? other = j.running.get? other)
    (later : s'.committed = s.committed ∨ s.committed.version < s'.committed.version)
    (told : Told s'.committed (s'.connections.get? name) (j'.running.get? name))
    (serial : ∃ k n trace, (Session.fresh c).Serves j'.serial ⟨k, .idle n, trace⟩ ∧
      k.catalog = s'.committed.catalog) :
    j'.Tells c s' := by
  refine ⟨serial, fun other => ?_⟩
  by_cases same : name = other
  · subst same
    exact told
  · obtain ⟨connections, notes⟩ := elsewhere other same
    rw [connections, notes]
    exact (tells.running other).later later

/-- A request outside any transaction that does not begin one. -/
theorem idle (tells : j.Tells c s) (found : s.connections.get? name = some (.idle n))
    (unnoted : j.running.get? name = none) (r : Request) (stays : r ≠ .begin) :
    (j.note s (s.step (.ask name r)).2 (.ask name r) (s.step (.ask name r)).1).Tells c
      (s.step (.ask name r)).2 := by
  obtain ⟨answer, c', ran, kept⟩ := r.idle_step s.committed.catalog stays
  obtain ⟨k', trace', ran', installed, later⟩ := ran s.committed n [] rfl
  have there := Dict.get?_insert_self s.connections name (Connection.idle n)
  rw [Store.step_ask found ran', note_alone unnoted (Store.depth_idle there)]
  have elsewhere : ∀ other, name ≠ other →
      (s.connections.insert name (.idle n)).get? other = s.connections.get? other :=
    fun other ne => Dict.get?_insert_of_ne _ _ ne
  have told : Told k' ((s.connections.insert name (.idle n)).get? name) (j.running.get? name) := by
    rw [there, unnoted]
    exact .idle n
  obtain ⟨k, m, trace, served, agrees⟩ := tells.serial
  split
  case isTrue =>
    obtain ⟨k'', trace'', ran'', installed', _⟩ := ran k m trace agrees
    exact tells.of_step name (fun other ne => ⟨elsewhere other ne, rfl⟩) later told
      ⟨k'', m, trace'', served.snoc ran'', installed'.trans installed.symm⟩
  case isFalse reading =>
    have same : c' = s.committed.catalog := kept (by simpa using reading)
    exact tells.of_step name (fun other ne => ⟨elsewhere other ne, rfl⟩) later told
      ⟨k, m, trace, served, by rw [agrees, installed, same]⟩

theorem begins (tells : j.Tells c s) (found : s.connections.get? name = some (.idle n))
    (unnoted : j.running.get? name = none) :
    (j.note s (s.step (.ask name .begin)).2 (.ask name .begin) (s.step (.ask name .begin)).1).Tells
      c (s.step (.ask name .begin)).2 := by
  obtain ⟨n', trace', ran⟩ := Request.begin_step s.committed n []
  have there := Dict.get?_insert_self s.connections name
    (Connection.inside ⟨s.committed.catalog, s.committed.version⟩ [[]] n')
  rw [Store.step_ask found ran, note_begin unnoted (Store.depth_inside_ne there)]
  refine tells.of_step name
    (fun other ne => ⟨Dict.get?_insert_of_ne _ _ ne, Dict.get?_insert_of_ne _ _ ne⟩) (.inl rfl) ?_
    tells.serial
  rw [there, Dict.get?_insert_self]
  refine .inside (fun k m trace same => ?_) (Nat.le_refl _) fun _ => rfl
  obtain ⟨m', trace', ran⟩ := Request.begin_step k m trace
  rw [same] at ran
  have served : Session.Serves ⟨k, .idle m, trace⟩ [] ⟨k, .idle m, trace⟩ := rfl
  exact ⟨m', trace', served.snoc ran⟩

/-- A request inside a transaction that stays open. -/
theorem goes_on (tells : j.Tells c s)
    (found : s.connections.get? name = some (.inside w (level :: outer) n))
    (noted : j.running.get? name = some (start, entries))
    (replays : Replays start entries w.catalog (level :: outer))
    (bound : w.base ≤ s.committed.version)
    (unmoved : w.base = s.committed.version → s.committed.catalog = start) (r : Request) (stays : r.endsLevel = true → outer ≠ []) :
    (j.note s (s.step (.ask name r)).2 (.ask name r) (s.step (.ask name r)).1).Tells c
      (s.step (.ask name r)).2 := by
  obtain ⟨answer, c', level', outer', ran, _⟩ := r.inside_step w.catalog level outer stays
  have ran : ∀ k base n trace, ∃ n' trace',
      r.run.run ⟨k, .inside ⟨w.catalog, base⟩ (level :: outer) n, trace⟩ =
        (answer 0, ⟨k, .inside ⟨c', base⟩ (level' :: outer') n', trace'⟩) := by
    intro k base n trace
    simpa only [List.append_nil, List.length_nil] using ran k base [] n trace
  obtain ⟨n', trace', ran'⟩ := ran s.committed w.base n []
  have there := Dict.get?_insert_self s.connections name
    (Connection.inside ⟨c', w.base⟩ (level' :: outer') n')
  rw [Store.step_ask found ran', note_inside noted (Store.depth_inside_ne there)]
  refine tells.of_step name
    (fun other ne => ⟨Dict.get?_insert_of_ne _ _ ne, Dict.get?_insert_of_ne _ _ ne⟩) (.inl rfl) ?_
    tells.serial
  rw [there, Dict.get?_insert_self]
  exact .inside (replays.snoc ran) bound unmoved

/-- The request that ends a whole transaction. Its entries are in the serial order right after it if
it installed changes, and nothing was committed since it began. -/
theorem ends (tells : j.Tells c s)
    (found : s.connections.get? name = some (.inside w [level] n))
    (noted : j.running.get? name = some (start, entries))
    (replays : Replays start entries w.catalog [level])
    (unmoved : w.base = s.committed.version → s.committed.catalog = start)
    (r : Request) (ends : r.endsLevel = true) :
    (j.note s (s.step (.ask name r)).2 (.ask name r) (s.step (.ask name r)).1).Tells c
      (s.step (.ask name r)).2 := by
  obtain ⟨answer, k', trace', ran, ending⟩ := r.end_step ends s.committed w level n []
  have there := Dict.get?_insert_self s.connections name (Connection.idle n)
  have changes : s.pending name = level.length := by
    rw [Store.pending_inside found, List.flatten_cons, List.flatten_nil, List.append_nil]
  rw [Store.step_ask found ran, note_end noted (Store.depth_idle there), changes]
  have elsewhere : ∀ other, name ≠ other →
      (s.connections.insert name (.idle n)).get? other = s.connections.get? other ∧
        (j.running.erase name).get? other = j.running.get? other :=
    fun other ne => ⟨Dict.get?_insert_of_ne _ _ ne, Dict.get?_erase_of_ne _ ne⟩
  have told : Told k' ((s.connections.insert name (.idle n)).get? name)
      ((j.running.erase name).get? name) := by
    rw [there, Dict.get?_erase_self]
    exact .idle n
  cases ending with
  | unchanged none =>
    subst none
    exact tells.of_step name elsewhere (.inl rfl) told tells.serial
  | installed changed same =>
    obtain ⟨k, m, trace, served, agrees⟩ := tells.serial
    obtain ⟨m', trace₁, entered⟩ := replays k m trace (agrees.trans (unmoved same.symm))
    obtain ⟨trace₂, committed⟩ :=
      Request.commit_step k ⟨w.catalog, k.version⟩ level m' trace₁ changed rfl
    have settled : j.settle level.length entries (.commit, .ok (.count 0)) =
        j.serial ++ (entries ++ [(.commit, .ok (.count 0))]) := by
      simp only [settle, List.length_eq_zero_iff, if_neg changed, List.append_assoc]
    rw [settled]
    exact tells.of_step name elsewhere (.inr (Nat.lt_succ_self _)) told
      ⟨⟨w.catalog, k.version + 1⟩, m', trace₂, served.append (entered.snoc committed), rfl⟩
  | conflict changed => exact tells.of_step name elsewhere (.inl rfl) told tells.serial
  | rolledBack => exact tells.of_step name elsewhere (.inl rfl) told tells.serial

theorem step (tells : j.Tells c s) (step : Store.Step) :
    (j.note s (s.step step).2 step (s.step step).1).Tells c (s.step step).2 := by
  cases step with
  | connect name =>
    refine tells.of_step name
      (fun other ne => ⟨Dict.get?_insert_of_ne _ _ ne, Dict.get?_erase_of_ne _ ne⟩) (.inl rfl) ?_
      tells.serial
    simp only [Store.step, Store.connect, note, Dict.get?_insert_self, Dict.get?_erase_self]
    exact .idle 0
  | disconnect name =>
    refine tells.of_step name
      (fun other ne => ⟨Dict.get?_erase_of_ne _ ne, Dict.get?_erase_of_ne _ ne⟩) (.inl rfl) ?_
      tells.serial
    simp only [Store.step, Store.disconnect, note, Dict.get?_erase_self]
    exact .absent
  | ask name r =>
    have told := tells.running name
    generalize found : s.connections.get? name = connection at told
    generalize noted : j.running.get? name = notes at told
    cases told with
    | absent =>
      rw [Store.step_ask_none found]
      exact tells
    | idle n =>
      by_cases starts : r = .begin
      · subst starts
        exact tells.begins found noted
      · exact tells.idle found noted r starts
    | @inside start entries w level outer n replays bound unmoved =>
      by_cases last : r.endsLevel = true ∧ outer = []
      · obtain ⟨ends, rfl⟩ := last
        exact tells.ends found noted replays unmoved r ends
      · exact tells.goes_on found noted replays bound unmoved r fun ends none => last ⟨ends, none⟩

theorem play (tells : j.Tells c s) (steps : List Store.Step) :
    (s.journal j steps).Tells c (s.play steps) := by
  induction steps generalizing s j with
  | nil => exact tells
  | cons step rest ih => exact ih (tells.step step)

end Journal.Tells

/-- Whatever connections do, in whatever order, the committed tables are the ones that the serial
order leads to, with the same answers. A connection inside a transaction has a copy that its own
requests lead to from the tables that were committed when it began. -/
theorem Store.transactions_serializable (c : Catalog) (steps : List Step) :
    let s := (ofCatalog c).play steps
    let j := (ofCatalog c).journal {} steps
    (∃ after, (Session.fresh c).Serves j.serial after ∧
      after.committed.catalog = s.committed.catalog) ∧
    ∀ name, match j.running.get? name with
      | none => s.depth name = 0 ∧ s.workspace? name = none
      | some (start, entries) => ∃ after w, (Session.fresh start).Serves entries after ∧
          s.workspace? name = some w ∧ after.view = w.catalog := by
  have start : Journal.Tells {} c (ofCatalog c) :=
    ⟨⟨⟨c, 0⟩, 0, [], rfl, rfl⟩, fun _ => .absent⟩
  intro s j
  have tells : j.Tells c s := start.play steps
  refine ⟨?_, fun name => ?_⟩
  · obtain ⟨k, n, trace, served, agrees⟩ := tells.serial
    exact ⟨_, served, agrees⟩
  · have told := tells.running name
    generalize found : s.connections.get? name = connection at told
    generalize j.running.get? name = notes at told
    cases told with
    | absent => exact ⟨depth_none found, by rw [workspace?, found]; rfl⟩
    | idle n => exact ⟨depth_idle found, by rw [workspace?, found]; rfl⟩
    | @inside start entries w level outer n replays _ _ =>
      obtain ⟨n', trace', served⟩ := replays ⟨start, 0⟩ 0 [] rfl
      exact ⟨_, w, served, by rw [workspace?, found]; rfl, rfl⟩

end RankedStore
