import RankedStore.Proofs.Statement

/-! Actions whose notes are exact. Such an action can be taken back from the undo log alone,
whatever was noted before it. -/
namespace RankedStore.Action

/-- The action notes what it takes to undo it, and an action without notes leaves the tables
alone. -/
structure Tracked (a : Action α) (c : Catalog) (answer : Except Error α) (c' : Catalog)
    (written : List Change) : Prop extends Acts a c answer c' written where
  restores : c'.Restores written c
  silent : written = [] → c' = c

namespace Tracked

theorem ofActs (acts : Acts a c answer c []) : Tracked a c answer c [] :=
  ⟨acts, .refl c, fun _ => rfl⟩

theorem pure (x : α) (c : Catalog) : Tracked (Pure.pure x) c (.ok x) c [] := ofActs (.pure x c)

theorem throw (e : Error) (c : Catalog) :
    Tracked (MonadExcept.throw e : Action α) c (.error e) c [] := ofActs (.throw e c)

theorem report (level : Trace.Level) (message : String) (fields : List (String × String))
    (c : Catalog) : Tracked (Action.report level message fields) c (.ok ()) c [] :=
  ofActs (.report level message fields c)

theorem ofExcept {outcome : Except Error α} (h : outcome = answer) :
    Tracked (Action.ofExcept outcome) c answer c [] := ofActs (.ofExcept h)

theorem read {f : Catalog → Except Error α} (h : f c = answer) :
    Tracked (Action.read f) c answer c [] := ofActs (.read h)

theorem bind {f : α → Action β} (first : Tracked a c (.ok x) c₁ w₁)
    (second : Tracked (f x) c₁ answer c₂ w₂) : Tracked (a >>= f) c answer c₂ (w₂ ++ w₁) where
  toActs := first.toActs.bind second.toActs
  restores := second.restores.trans first.restores
  silent none := by
    obtain ⟨none₂, none₁⟩ := List.append_eq_nil_iff.mp none
    rw [second.silent none₂, first.silent none₁]

theorem bind_error {a : Action α} {f : α → Action β} (first : Tracked a c (.error e) c' w) :
    Tracked (a >>= f) c (.error e) c' w :=
  ⟨first.toActs.bind_error, first.restores, first.silent⟩

/-- After an action without notes. -/
theorem after {f : α → Action β} (first : Tracked a c (.ok x) c₁ [])
    (second : Tracked (f x) c₁ answer c' w) : Tracked (a >>= f) c answer c' w := by
  simpa only [List.append_nil] using first.bind second

/-- Before an action without notes. -/
theorem followed {f : α → Action β} (first : Tracked a c (.ok x) c' w)
    (second : Tracked (f x) c' answer c' []) : Tracked (a >>= f) c answer c' w := by
  simpa only [List.nil_append] using first.bind second

/-- Wrapping the result changes nothing else. -/
theorem answering (f : α → β) (tracked : Tracked a c answer c' w) :
    Tracked (do return f (← a)) c (answer.map f) c' w := by
  cases answer with
  | error e => exact tracked.bind_error
  | ok x => exact tracked.followed (.pure (f x) c')

/-- The same for every element, with nothing written. -/
theorem mapM {f : α → Action β} {P : α → β → Prop} {xs : List α}
    (each : ∀ x ∈ xs, ∃ y, Tracked (f x) c (.ok y) c [] ∧ P x y) :
    ∃ ys, Tracked (xs.mapM f) c (.ok ys) c [] ∧ ys.length = xs.length ∧
      ∀ (i : Nat) y, ys[i]? = some y → ∃ x, xs[i]? = some x ∧ P x y := by
  induction xs with
  | nil => exact ⟨[], by rw [List.mapM_nil]; exact .pure .., rfl, fun i y there => by cases there⟩
  | cons x xs ih =>
    obtain ⟨y, first, holds⟩ := each x (List.mem_cons_self ..)
    obtain ⟨ys, others, count, hold⟩ := ih fun x member => each x (List.mem_cons_of_mem _ member)
    refine ⟨y :: ys, ?_, congrArg (· + 1) count, ?_⟩
    · rw [List.mapM_cons]
      exact first.after (others.after (.pure ..))
    · intro i z there
      cases i with
      | zero =>
        cases there
        exact ⟨x, rfl, holds⟩
      | succ i => exact hold i z there

end Tracked

variable {layout : TableLayout} {name column : String} {row old : Row} {id : Int64}

theorem createTable_tracked (h : c.createTable layout = .ok c') :
    Tracked (createTable layout) c (.ok ()) c' [.created layout.name] := by
  have acts : Acts (createTable layout) c (.ok ()) c' [.created layout.name] :=
    .after (.report ..) (.after (.write_of (by rw [h])) (.record ..))
  exact ⟨acts, Catalog.createTable_restores h, by simp⟩

theorem createTable_failed (h : c.createTable layout = .error e) :
    Tracked (createTable layout) c (.error e) c [] := by
  have acts : Acts (createTable layout) c (.error e) c [] :=
    .after (.report ..) (.bind_error (.write_of (by rw [h])))
  exact .ofActs acts

theorem insert_tracked (h : c.insert name row = (.ok id, c')) :
    Tracked (insert name row) c (.ok id) c' [.inserted name id] := by
  have write := Acts.write_of (f := (·.insert name row)) h
  exact ⟨write.after (.after (.report ..) ((Acts.record _ c').followed (.pure id c'))),
    Catalog.insert_restores h, by simp⟩

theorem insert_failed (h : c.insert name row = (.error e, c')) :
    Tracked (insert name row) c (.error e) c [] := by
  have write := Acts.write_of (f := (·.insert name row)) h
  cases Catalog.insert_failed h
  exact .ofActs write.bind_error

theorem replace_tracked (h : c.replace name id row = (.ok (some old), c')) :
    Tracked (replace name id row) c (.ok ()) c' [.replaced name id old] := by
  have write := Acts.write_of (f := (·.replace name id row)) h
  exact ⟨write.after (.record ..), Catalog.replace_restores h, by simp⟩

theorem replace_missing (h : c.replace name id row = (.ok none, c')) :
    Tracked (replace name id row) c (.error (.entityNotFound name id)) c [] := by
  have write := Acts.write_of (f := (·.replace name id row)) h
  cases Catalog.replace_unchanged h (by simp)
  exact .ofActs (write.after (.throw ..))

theorem replace_failed (h : c.replace name id row = (.error e, c')) :
    Tracked (replace name id row) c (.error e) c [] := by
  have write := Acts.write_of (f := (·.replace name id row)) h
  cases Catalog.replace_unchanged h (by simp)
  exact .ofActs write.bind_error

theorem delete_tracked (h : c.delete name id = (.ok (some old), c')) :
    Tracked (delete name id) c (.ok true) c' [.deleted name id old] := by
  have write := Acts.write_of (f := (·.delete name id)) h
  exact ⟨.after (.report ..) (write.after ((Acts.record _ c').followed (.pure true c'))),
    Catalog.delete_restores h, by simp⟩

theorem delete_missing (h : c.delete name id = (.ok none, c')) :
    Tracked (delete name id) c (.ok false) c [] := by
  have write := Acts.write_of (f := (·.delete name id)) h
  cases Catalog.delete_unchanged h (by simp)
  exact .ofActs (.after (.report ..) (write.after (.pure ..)))

theorem delete_failed (h : c.delete name id = (.error e, c')) :
    Tracked (delete name id) c (.error e) c [] := by
  have write := Acts.write_of (f := (·.delete name id)) h
  cases Catalog.delete_unchanged h (by simp)
  exact .ofActs (.after (.report ..) write.bind_error)

theorem noted_acts (name : String) (replaced : List (Int64 × Row)) (c : Catalog) :
    Acts (replaced.forM fun (id, old) => record (.replaced name id old)) c (.ok ()) c
      (Table.noted name replaced) := by
  induction replaced with
  | nil => exact .pure () c
  | cons first rest ih =>
    rw [Table.noted, List.map_cons, List.reverse_cons]
    exact (Acts.record _ c).bind ih

theorem updateWhere_tracked (h : c.updateWhere u = (.ok replaced, c')) :
    Tracked (updateWhere u) c (.ok replaced.length) c' (Table.noted u.table replaced) := by
  have write := Acts.write_of (f := (·.updateWhere u)) h
  obtain ⟨restores, silent⟩ := Catalog.updateWhere_ok h
  refine ⟨.after (.report ..) (write.after ((noted_acts u.table replaced c').followed
    (.after (.report ..) (.pure ..)))), restores, fun none => silent ?_⟩
  simpa [Table.noted] using none

/-- An update that fails notes nothing, even if it changed some rows before it failed. -/
theorem updateWhere_acts_error (h : c.updateWhere u = (.error e, c')) :
    Acts (updateWhere u) c (.error e) c' [] := by
  have write := Acts.write_of (f := (·.updateWhere u)) h
  exact .after (.report ..) write.bind_error

/-- Either the row is overwritten, or nothing happens. -/
theorem replace_cases (name : String) (id : Int64) (row : Row) (c : Catalog) :
    (∃ e, Tracked (replace name id row) c (.error e) c []) ∨
      ∃ old c', c.replace name id row = (.ok (some old), c') ∧
        Tracked (replace name id row) c (.ok ()) c' [.replaced name id old] := by
  rcases h : c.replace name id row with ⟨e | _ | old, c'⟩
  · exact .inl ⟨e, replace_failed h⟩
  · exact .inl ⟨_, replace_missing h⟩
  · exact .inr ⟨old, c', rfl, replace_tracked h⟩

theorem fetch_tracked (found : c.table name = .ok t) (h : t.get? id = stored) :
    Tracked (fetch name id) c (.ok stored) c [] :=
  .read (by simp [found, h])

theorem fetch_failed (absent : c.table name = .error e) :
    Tracked (fetch name id) c (.error e) c [] :=
  .read (by simp [absent])

theorem layout_tracked (found : c.table name = .ok t) :
    Tracked (Action.layout name) c (.ok t.layout) c [] :=
  .read (by simp [found])

theorem updateById_missing (found : c.table name = .ok t) (absent : t.get? id = none) :
    Tracked (updateById name id column value) c (.error (.entityNotFound name id)) c [] :=
  .after (.report ..) (.after (fetch_tracked found absent) (.throw ..))

/-- A stored row is overwritten with the one cell changed. -/
theorem updateById_tracked (found : c.table name = .ok t) (stored : t.get? id = some row)
    (place : t.layout.index column = .ok i) (cell : i < row.length)
    (written : Tracked (replace name id (row.set i value)) c answer c' w) :
    Tracked (updateById name id column value) c answer c' w := by
  refine .after (.report ..) (.after (fetch_tracked found stored) (.after (layout_tracked found)
    (.after (.ofExcept place) ?_)))
  rw [if_pos cell]
  exact written

/-- Either the row is overwritten with one cell set, or nothing happens. -/
theorem updateById_cases (name : String) (id : Int64) (column : String) (value : Value)
    (c : Catalog) :
    (∃ e, Tracked (updateById name id column value) c (.error e) c []) ∨
      ∃ t row i old c', c.table name = .ok t ∧ t.get? id = some row ∧
        t.layout.index column = .ok i ∧
        c.replace name id (row.set i value) = (.ok (some old), c') ∧
        Tracked (updateById name id column value) c (.ok ()) c' [.replaced name id old] := by
  cases found : c.table name with
  | error e => exact .inl ⟨e, .after (.report ..) (fetch_failed found).bind_error⟩
  | ok t =>
    cases stored : t.get? id with
    | none => exact .inl ⟨_, updateById_missing found stored⟩
    | some row =>
      cases place : t.layout.index column with
      | error e =>
        exact .inl ⟨e, .after (.report ..) (.after (fetch_tracked found stored)
          (.after (layout_tracked found) (Tracked.ofExcept place).bind_error))⟩
      | ok i =>
        by_cases cell : i < row.length
        · rcases replace_cases name id (row.set i value) c with ⟨e, failed⟩ | ⟨old, c', ran,
            written⟩
          · exact .inl ⟨e, updateById_tracked found stored place cell failed⟩
          · exact .inr ⟨t, row, i, old, c', rfl, stored, place, ran,
              updateById_tracked found stored place cell written⟩
        · refine .inl ⟨.damage (.rowTooShort name), .after (.report ..)
            (.after (fetch_tracked found stored) (.after (layout_tracked found)
              (.after (.ofExcept place) ?_)))⟩
          rw [if_neg cell]
          exact .throw ..

/-- The action only looks at the tables, whatever they are. -/
def Looks (a : Action α) : Prop := ∀ c, ∃ answer, Tracked a c answer c []

namespace Looks

theorem pure (x : α) : Looks (Pure.pure x) := fun c => ⟨_, .pure x c⟩

theorem throw (e : Error) : Looks (MonadExcept.throw e : Action α) := fun c => ⟨_, .throw e c⟩

theorem report {level : Trace.Level} {message : String} {fields : List (String × String)} :
    Looks (Action.report level message fields) := fun c => ⟨_, .report level message fields c⟩

theorem ofExcept (outcome : Except Error α) : Looks (Action.ofExcept outcome) :=
  fun _ => ⟨_, .ofExcept rfl⟩

theorem read (f : Catalog → Except Error α) : Looks (Action.read f) := fun _ => ⟨_, .read rfl⟩

theorem bind {f : α → Action β} (first : Looks a) (second : ∀ x, Looks (f x)) :
    Looks (a >>= f) := by
  intro c
  obtain ⟨answer, seen⟩ := first c
  cases answer with
  | error e => exact ⟨_, seen.bind_error⟩
  | ok x =>
    obtain ⟨answer', seen'⟩ := second x c
    exact ⟨answer', seen.after seen'⟩

theorem mapM {f : α → Action β} (each : ∀ x, Looks (f x)) (xs : List α) : Looks (xs.mapM f) := by
  induction xs with
  | nil =>
    rw [List.mapM_nil]
    exact .pure []
  | cons x xs ih =>
    rw [List.mapM_cons]
    exact .bind (each x) fun y => .bind ih fun ys => .pure (y :: ys)

end Looks
end RankedStore.Action
