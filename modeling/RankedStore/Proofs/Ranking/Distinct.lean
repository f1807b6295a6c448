import RankedStore.Proofs.Ranking.Ordering
import RankedStore.Proofs.Ranking.Exchanges

/-! Whole runs of operations on the records of one ranked type, whether it closes gaps or leaves
them. The positions are never equal, and an operation leaves the order of all records but its own as
it was. -/
namespace RankedStore.Ranking

open RankedStore.Action

variable {g : Registry} {schema : EntitySchema} {reg : Registration} {k : Ranking} {p : Nat}
  {c : Catalog} {s : Session} {t : Table}

namespace Operation

/-- The ids that an operation names: those of the records that it was given, and the one that a new
record got. -/
def Names : Operation → Except Error Answer → Int64 → Prop
  | .save r, answer, id => r.id = some id ∨
      r.id = none ∧ ∃ saved, answer = .ok (.record saved) ∧ saved.id = some id
  | .remove r, _, id | .moveUp r, _, id | .moveDown r, _, id => r.id = some id
  | .swap r other, _, id => r.id = some id ∨ other.id = some id
  | .compact, _, _ => False

/-- One operation, on tables with distinct positions. -/
theorem continues (places : g.Places reg k p) (spaced : c.Spaced reg.layout p t) (op : Operation)
    (meets : op.Meets k p c) : Completes Table.Grown (op.run g k) c fun a c' =>
      c'.Continues reg.layout p t (op.Names (.ok a)) := by
  have fits := places.fits
  have positioned := spaced.toPositioned
  cases op with
  | save r =>
    have loaded : r.id ≠ none → r.Obtained ∧ k.Fresh p t r := by
      intro persisted
      obtain ⟨obtained, fresh⟩ := meets.2 persisted
      exact ⟨obtained, fresh t (fits.entity ▸ spaced.found)⟩
    refine (Registry.save_continues places spaced meets.1 loaded).followed fun saved c' after => ?_
    refine ⟨.record saved, fun d => .pure .., after.mono ?_⟩
    rintro id (persisted | ⟨new, given⟩)
    · exact .inl persisted
    · exact .inr ⟨new, saved, rfl, given⟩
  | remove r =>
    refine (Registry.remove_continues places spaced meets).followed fun removed c' after => ?_
    exact ⟨.record removed, fun d => .pure .., after⟩
  | swap r other =>
    have current := Loaded.current fits positioned (meets r (by simp))
    have current' := Loaded.current fits positioned (meets other (by simp))
    refine (swap_continues fits spaced current current').followed fun records c' after => ?_
    exact ⟨.pair records.1 records.2, fun d => .pure .., after⟩
  | moveUp r =>
    have current := Loaded.current fits positioned meets
    refine (step_continues fits spaced current .min .isFirst .noPrevious).followed
      fun moved c' after => ?_
    exact ⟨.record moved, fun d => .pure .., after⟩
  | moveDown r =>
    have current := Loaded.current fits positioned meets
    refine (step_continues fits spaced current .max .isLast .noNext).followed
      fun moved c' after => ?_
    exact ⟨.record moved, fun d => .pure .., after⟩
  | compact =>
    refine (compact_continues fits spaced).followed fun count c' after => ?_
    exact ⟨.count count, fun d => .pure .., after⟩

end Operation

/-- Along a run the positions stay distinct numbers from 1 on, and after every operation the records
that it did not name are those from before it, in the same order. -/
def Orderly (g : Registry) (k : Ranking) (layout : TableLayout) (p : Nat) :
    Session → Table → List Operation → Prop
  | _, _, [] => True
  | s, t, op :: rest =>
    ∃ t', ((op.run g k).run s).2.committed.catalog.Spaced layout p t' ∧
      Undisturbed (op.Names ((op.run g k).run s).1) (t.position? p) (t'.position? p) ∧
      Orderly g k layout p ((op.run g k).run s).2 t' rest

theorem orderly_of_places (places : g.Places reg k p) (idle : s.connection = .idle n)
    (spaced : s.committed.catalog.Spaced reg.layout p t) (ops : List Operation)
    (careful : Careful g k p s ops) : Orderly g k reg.layout p s t ops := by
  induction ops generalizing s t n with
  | nil => trivial
  | cons op rest ih =>
    obtain ⟨meets, careful⟩ := careful
    obtain ⟨committed, connection, trace⟩ := s
    subst idle
    obtain ⟨answer, c', settles, achieves, unchanged⟩ := op.continues places spaced meets
    obtain ⟨committed', n', trace', ran, rfl⟩ := settles.alone committed n trace rfl
    have after : committed'.catalog.Continues reg.layout p t (op.Names answer) := by
      cases answer with
      | ok a => exact achieves a rfl
      | error e =>
        rw [unchanged e rfl]
        exact ⟨t, spaced, .refl _ _⟩
    obtain ⟨t', spaced', order⟩ := after
    rw [ran] at careful
    refine ⟨t', ?_, ?_, ?_⟩
    · rw [ran]
      exact spaced'
    · rw [ran]
      exact order
    · rw [ran]
      exact ih rfl spaced' careful

/-- Operations on an empty table of a ranked type, of any number and in any order. -/
theorem positions_stay_distinct (registered : g.Registered schema reg) (positions : reg.Positions k)
    (place : reg.layout.index k.column = .ok p) (idle : s.connection = .idle n)
    (found : s.committed.catalog.tables.get? schema.name = some t) (same : t.layout = reg.layout)
    (empty : t.rows = .empty) (ops : List Operation) (careful : Careful g k p s ops) :
    s.committed.catalog.Spaced reg.layout p t ∧ Orderly g k reg.layout p s t ops := by
  obtain ⟨entity, name, p', places⟩ := registered.places positions
  obtain rfl : p = p' := Except.ok.inj (place.symm.trans places.fits.holds.place)
  have ranked : s.committed.catalog.Ranked reg.layout p t [] := .ofEmpty (name ▸ found) same empty p
  have none : ∀ id, t.position? p id = none :=
    fun id => Table.position?_none (ranked.absent (by simp))
  have start : s.committed.catalog.Spaced reg.layout p t := by
    refine ⟨ranked.positioned, ?_, ?_⟩
    · intro id m placed
      cases (none id).symm.trans placed
    · intro a b m placed
      cases (none a).symm.trans placed
  exact ⟨start, orderly_of_places places idle start ops careful⟩

theorem positions_stay_distinct_around_gap :
    Gaps.session.committed.catalog.Spaced Gaps.registration.layout 1 Gaps.table ∧
      Orderly Gaps.registry Gaps.ranking Gaps.registration.layout 1 Gaps.session Gaps.table
        [.save (.ofEntity "t"), .save (.ofEntity "t"), .save (.ofEntity "t"),
          .remove (Sample.saved 1), .moveUp (Sample.saved 3), .save (.ofEntity "t"), .compact] := by
  have set : Record.set (.ofEntity "t") "position" (.integer 3) = .ok (Sample.placed 3) := rfl
  exact positions_stay_distinct Gaps.registered Gaps.positions rfl rfl rfl rfl rfl _
    ⟨⟨rfl, fun stored => absurd rfl stored⟩, ⟨rfl, fun stored => absurd rfl stored⟩,
      ⟨rfl, fun stored => absurd rfl stored⟩, rfl,
      fun _ => ⟨.of_row (.saved 3 (.changed (.created "t") set)) rfl
        (show _ = some [.integer 3, .integer 3] by decide) (by decide), rfl⟩,
      ⟨rfl, fun stored => absurd rfl stored⟩, trivial, trivial⟩

end RankedStore.Ranking
