import RankedStore.Proofs.History

/-! Savepoints. Whatever happens inside an inner level, and inside the levels opened and ended
within it, rolling that level back succeeds and brings back the tables that were there when it was
opened. -/
namespace RankedStore.Store

variable {s : Store} {name : String}

/-- The connection keeps its outer levels during these steps, none of which is an update of its own
that fails. -/
def StaysOpen (name : String) (depth : Nat) : Store → List Step → Prop
  | _, [] => True
  | s, step :: rest =>
    (∀ u, step = .ask name (.update u) → ∃ reply, (s.step step).1 = some (.ok reply)) ∧
      depth ≤ (s.step step).2.depth name ∧ StaysOpen name depth (s.step step).2 rest

/-- The levels of a connection inside the outer ones, taken back, lead to the tables given. -/
def Leads (s : Store) (name : String) (outer : List (List Change)) (start : Catalog) : Prop :=
  ∃ c base level inner n, s.connections.get? name =
    some (.inside ⟨c, base⟩ (level :: (inner ++ outer)) n) ∧
      c.Restores (level :: inner).flatten start

theorem Leads.step (leads : Leads s name outer start) (step : Step)
    (succeeds : ∀ u, step = .ask name (.update u) → ∃ reply, (s.step step).1 = some (.ok reply))
    (stays : outer.length < (s.step step).2.depth name) :
    Leads (s.step step).2 name outer start := by
  obtain ⟨c, base, level, inner, n, found, restores⟩ := leads
  have kept : ∀ s' : Store, s'.connections.get? name = s.connections.get? name →
      Leads s' name outer start := fun s' same =>
    ⟨c, base, level, inner, n, same.trans found, restores⟩
  cases step with
  | connect opened =>
    by_cases same : opened = name
    · subst same
      simp [Store.step, connect, depth, UndoLog.depth] at stays
    · exact kept _ (Dict.get?_insert_of_ne _ _ same)
  | disconnect closed =>
    by_cases same : closed = name
    · subst same
      simp [Store.step, disconnect, depth, Dict.get?_erase_self] at stays
    · exact kept _ (Dict.get?_erase_of_ne _ same)
  | ask asked request =>
    by_cases same : asked = name
    · subst same
      have goesOn : request.endsLevel = true → inner ≠ [] := by
        rintro ends rfl
        have left := request.end_depth ends s.committed ⟨c, base⟩ level outer n []
        rw [step_ask found rfl] at stays
        simp only [depth, Dict.get?_insert_self, Option.map_some, Option.getD_some] at stays
        exact absurd left (Nat.ne_of_gt stays)
      obtain ⟨answer, c', level', inner', ran, leads⟩ := request.inside_step c level inner goesOn
      obtain ⟨n', trace', ran⟩ := ran s.committed base outer n []
      rw [step_ask found ran] at succeeds ⊢
      refine ⟨c', base, level', inner', n', Dict.get?_insert_self .., leads start ?_ restores⟩
      rintro u rfl
      obtain ⟨reply, ok⟩ := succeeds u rfl
      exact ⟨_, reply, Option.some.inj ok⟩
    · exact kept _ (get?_step_ask_of_ne s request same)

theorem Leads.play (leads : Leads s name outer start) (steps : List Step)
    (stays : StaysOpen name (outer.length + 1) s steps) :
    Leads (s.play steps) name outer start := by
  induction steps generalizing s with
  | nil => exact leads
  | cons step rest ih =>
    obtain ⟨succeeds, deep, stays⟩ := stays
    exact ih (leads.step step succeeds deep) stays

/-- A connection opens an inner level, other connections do what they like, it keeps that level open
and none of its updates fails. Then rolling the level back succeeds, and its copy has the same
tables with the same rows as when the level was opened. -/
theorem savepoint_rollback_exact (c : Catalog) (before during : List Step) (name : String)
    {opened ended : Store}
    (openedBy : opened = (((ofCatalog c).play before).step (.ask name .begin)).2)
    (inner : 2 ≤ opened.depth name) (stays : StaysOpen name (opened.depth name) opened during)
    (endedBy : ended = opened.play during) (back : ended.depth name = opened.depth name) :
    (ended.step (.ask name .rollback)).1 = some (.ok (.count (opened.depth name - 1))) ∧
      ∃ w w', opened.workspace? name = some w ∧
        (ended.step (.ask name .rollback)).2.workspace? name = some w' ∧
          w.catalog.Grown w'.catalog := by
  have proper := (Proper.ofCatalog c).play before
  cases found : ((ofCatalog c).play before).connections.get? name with
  | none =>
    rw [openedBy, step_ask_none found, depth, found] at inner
    simp at inner
  | some connection =>
    cases proper name connection found with
    | idle n =>
      obtain ⟨n', trace', ran⟩ := Request.begin_step ((ofCatalog c).play before).committed n []
      rw [openedBy, step_ask found ran, depth_inside (Dict.get?_insert_self ..)] at inner
      simp at inner
    | inside w level outer n =>
      obtain ⟨n', _, ran⟩ := Request.begin_inside_step ((ofCatalog c).play before).committed w level
        outer n []
      rw [step_ask found ran] at openedBy
      have there : opened.connections.get? name = some (.inside w ([] :: level :: outer) n') := by
        rw [openedBy, Dict.get?_insert_self]
      have deep : opened.depth name = outer.length + 2 := depth_inside there
      have leads : Leads opened name (level :: outer) w.catalog :=
        ⟨w.catalog, w.base, [], [], n', there, .refl _⟩
      obtain ⟨c', base, last, between, m, found', restores⟩ := leads.play during (deep ▸ stays)
      rw [← endedBy] at found'
      have none : between = [] := by
        rw [depth_inside found', deep] at back
        simp only [List.length_cons, List.length_append] at back
        exact List.eq_nil_of_length_eq_zero (by omega)
      subst none
      obtain ⟨d, undone, grown⟩ := restores
      simp only [List.flatten_cons, List.flatten_nil, List.append_nil] at undone
      obtain ⟨_, ran'⟩ := Request.rollback_inner_step ended.committed ⟨c', base⟩ last level
        outer m []
      rw [undone] at ran'
      rw [step_ask found' ran', deep]
      refine ⟨rfl, w, ⟨d, base⟩, ?_, ?_, grown⟩
      · simp only [workspace?, there, Option.bind_some, Connection.inside]
      · simp [workspace?, Connection.inside]

/-! A savepoint of one connection beside another one. In it, a savepoint of its own is released that
writes a row anew, and the last insert fails. -/
namespace Nested

def before : List Step :=
  [.connect "a", .connect "b",
    .ask "a" (.createTable ⟨"t", [Column.id, { name := "n", type := .integer }]⟩),
    .ask "a" (.insert "t" [.null, .integer 1]), .ask "a" .begin]

def opened : Store := (((ofCatalog .empty).play before).step (.ask "a" .begin)).2

def during : List Step :=
  [.ask "a" (.update ⟨"t", "n", .shift 1, .all⟩), .ask "a" .begin, .ask "b" .begin,
    .ask "a" (.delete "t" 1), .ask "a" (.insert "t" [.integer 1, .integer 9]), .ask "a" .commit,
    .ask "a" (.insert "t" [.integer 1, .null])]

end Nested

theorem savepoint_rollback_exact_nested :
    let ended := Nested.opened.play Nested.during
    Nested.opened.depth "a" = 2 ∧ Nested.opened ≠ ended ∧
      (ended.step (.ask "a" .rollback)).1 = some (.ok (.count 1)) ∧
      ∃ w w', Nested.opened.workspace? "a" = some w ∧
        (ended.step (.ask "a" .rollback)).2.workspace? "a" = some w' ∧
          w.catalog.Grown w'.catalog := by
  have stays : StaysOpen "a" (Nested.opened.depth "a") Nested.opened Nested.during :=
    ⟨fun _ _ => ⟨.count 1, rfl⟩, by decide, by simp, by decide, by simp, by decide, by simp,
      by decide, by simp, by decide, by simp, by decide, by simp, by decide, trivial⟩
  exact ⟨by decide, by decide,
    savepoint_rollback_exact .empty Nested.before Nested.during "a" rfl (by decide) stays rfl
      (by decide)⟩

end RankedStore.Store
