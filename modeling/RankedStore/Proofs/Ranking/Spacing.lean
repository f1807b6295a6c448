import RankedStore.Proofs.Operations
import RankedStore.Proofs.Ranking.Moves
import RankedStore.Proofs.Ranking.Spaced

/-! Saving and removing records whose positions have gaps between them. Each bulk shift keeps the
others in their order and leaves free the position that the record of the operation is about to
get. -/
namespace RankedStore

open RankedStore.Action

/-- The tables hold a sound one with this layout, whose positions are distinct numbers from 1 on. -/
structure Catalog.Spaced (c : Catalog) (layout : TableLayout) (p : Nat) (t : Table) : Prop
    extends c.Positioned layout p t where
  spaced : RankedStore.Spaced (t.position? p)

theorem Catalog.Spaced.separated {c : Catalog} {layout : TableLayout} {p : Nat} {t : Table}
    (spaced : c.Spaced layout p t) : c.Separated layout p t :=
  ⟨spaced.toPositioned, spaced.spaced.apart⟩

/-- The tables hold one with distinct positions again, in which all ids that are not named stand in
the order that they had. -/
def Catalog.Continues (layout : TableLayout) (p : Nat) (t : Table) (named : Int64 → Prop)
    (c' : Catalog) : Prop :=
  ∃ t', c'.Spaced layout p t' ∧ Undisturbed named (t.position? p) (t'.position? p)

theorem Catalog.Continues.mono {layout : TableLayout} {p : Nat} {t : Table}
    {named named' : Int64 → Prop} {c' : Catalog} (continues : c'.Continues layout p t named)
    (more : ∀ id, named id → named' id) :
    c'.Continues layout p t named' := by
  obtain ⟨t', spaced, undisturbed⟩ := continues
  exact ⟨t', spaced, undisturbed.mono more⟩

namespace Catalog.Positioned

variable {c c' : Catalog} {layout : TableLayout} {p : Nat} {t : Table} {id q : Int64}
  {row old : Row} {column : String}

theorem inserted (positioned : c.Positioned layout p t) (holds : layout.RanksBy column p)
    (ran : c.insert layout.name row = (.ok id, c')) (cell : row[p]? = some (.integer q)) :
    ∃ t', c'.Positioned layout p t' ∧ t.position? p id = none ∧
      ∀ key, t'.position? p key = if key = id then some q.toInt else t.position? p key := by
  rw [insert_eq positioned.found] at ran
  rcases inserted : t.insert row with e | ⟨id', t'⟩ <;> rw [inserted] at ran <;> cases ran
  obtain ⟨absent, known, position⟩ := (Table.Moved.refl t p).inserted positioned.known holds.behind
    inserted cell
  refine ⟨t', ⟨c.get?_withTable_self layout.name t', ?_, positioned.sound.insert inserted, known⟩,
    absent, ?_⟩
  · obtain ⟨_, _, _, _, _, _, rfl⟩ := Table.insert_eq_ok inserted
    exact positioned.same
  · intro key
    rw [position, Option.map_id']

theorem stored_of_replace (positioned : c.Positioned layout p t)
    (ran : c.replace layout.name id row = (.ok (some old), c')) : t.get? id = some old := by
  rw [replace_eq positioned.found] at ran
  rcases replaced : t.replace id row with e | _ | ⟨old', t'⟩ <;> rw [replaced] at ran <;> cases ran
  exact (Table.replace_eq_some replaced).1

theorem replaced (positioned : c.Positioned layout p t)
    (ran : c.replace layout.name id row = (.ok (some old), c'))
    (keyed : row[0]? = some (.integer id)) (cell : row[p]? = some (.integer q)) :
    ∃ t', c'.Positioned layout p t' ∧
      ∀ key, t'.position? p key = if key = id then some q.toInt else t.position? p key := by
  rw [replace_eq positioned.found] at ran
  rcases replaced : t.replace id row with e | _ | ⟨old', t'⟩ <;> rw [replaced] at ran <;> cases ran
  have sound := positioned.sound.replace replaced keyed
  obtain ⟨_, _, _, rfl⟩ := Table.replace_eq_some replaced
  refine ⟨_, ⟨c.get?_withTable_self layout.name _, positioned.same, sound, ?_⟩, ?_⟩
  · exact positioned.known.insert id _ cell
  · exact Table.position?_insert t id _ cell

theorem deleted (positioned : c.Positioned layout p t)
    (ran : c.delete layout.name id = (.ok (some old), c')) :
    ∃ t', c'.Positioned layout p t' ∧
      ∀ key, t'.position? p key = if key = id then none else t.position? p key := by
  rw [delete_eq positioned.found] at ran
  unfold Table.delete at ran
  cases stored : t.get? id with
  | none =>
    rw [stored] at ran
    cases ran
  | some row =>
    rw [stored] at ran
    cases ran
    refine ⟨_, ⟨c.get?_withTable_self layout.name _, positioned.same, positioned.sound.erase id,
      ?_⟩, ?_⟩
    · exact positioned.known.erase id
    · exact Table.position?_erase t p id

end Catalog.Positioned

namespace Ranking

variable {k : Ranking} {layout : TableLayout} {p : Nat} {c c' : Catalog} {t t₁ : Table} {r : Record}
  {P : Int64 → Int → Bool} {id q : Int64}

/-- A bulk shift moves the positions that its filter chooses, or fails and moves none. -/
theorem shift_tries (fits : k.Fits layout p) (positioned : c.Positioned layout p t) {f : Filter}
    (decides : t.Decides f p P) (delta : Int64) :
    Tries Table.Grown (updateWhere ⟨k.entity, k.column, .shift delta, f⟩) c fun _ c' =>
      ∃ t', c'.Positioned layout p t' ∧ t.Moved p (Table.shifted P delta) t' := by
  have stable := Table.grown_stable
  rcases shift_tracked fits positioned decides delta with
    ⟨count, t', w, shifts, moved⟩ | ⟨e, fails, _⟩
  · exact .ofTracked stable shifts fun _ _ => ⟨t', positioned.moved fits.holds moved, moved⟩
  · refine .ofTracked stable fails ?_
    rintro _ ⟨⟩

/-- A new record gets a position from 1 on. -/
theorem newPosition_tries (fits : k.Fits layout p) (spaced : c.Spaced layout p t) :
    Tries Table.Grown k.newPosition c fun q c' => c' = c ∧ 1 ≤ q.toInt := by
  have stable := Table.grown_stable
  have holds : t.layout.RanksBy k.column p := spaced.same ▸ fits.holds
  unfold newPosition
  cases k.config.newPosition with
  | top => exact .pure stable ⟨rfl, Int.le_refl 1⟩
  | bottom =>
    obtain ⟨last, ran, _, greatest⟩ := spaced.known.aggregate holds .max k.entity
    refine .after stable (extremum_seen fits spaced.toPositioned ran) ?_
    rintro _ ⟨⟩
    have least : 0 ≤ (last.getD 0).toInt := by
      cases last with
      | none => exact Int.le_refl 0
      | some b =>
        obtain ⟨⟨key, placed⟩, _⟩ := greatest b rfl
        have := spaced.spaced.positive key b.toInt placed
        show 0 ≤ b.toInt
        omega
    split
    case h_1 next sum =>
      have value := addChecked_eq_some sum
      have one : (1 : Int64).toInt = 1 := rfl
      exact .pure stable ⟨rfl, by omega⟩
    case h_2 => exact .throw stable _ c

/-- The rows from a position on have moved one step down. -/
def Opened (layout : TableLayout) (p : Nat) (t : Table) (q : Int64) (c' : Catalog) : Prop :=
  1 ≤ q.toInt ∧ ∃ t', c'.Positioned layout p t' ∧
    t.Moved p (Table.shifted (fun _ m => decide (q.toInt ≤ m)) 1) t'

theorem makeRoom_opens (fits : k.Fits layout p) (positioned : c.Positioned layout p t)
    (low : 1 ≤ q.toInt) :
    Tries Table.Grown (k.makeRoom q) c fun _ c' => Opened layout p t q c' := by
  have holds : t.layout.RanksBy k.column p := positioned.same ▸ fits.holds
  apply makeRoom_tries Table.grown_stable
  refine (shift_tries fits positioned (Table.decides_from holds q) 1).weaken ?_
  exact fun _ _ opened => ⟨low, opened⟩

/-- A new row at a position that was opened for it. -/
theorem Opened.continues {row : Row} (holds : layout.RanksBy k.column p)
    (spaced : c.Spaced layout p t) (opened : Opened layout p t q c')
    (ran : c'.insert layout.name row = (.ok id, c'')) (cell : row[p]? = some (.integer q)) :
    c''.Continues layout p t (· = id) := by
  obtain ⟨low, t₁, positioned, moved⟩ := opened
  obtain ⟨t₂, positioned', _, position⟩ := positioned.inserted holds ran cell
  have own : t₂.position? p id = some q.toInt := by rw [position, if_pos rfl]
  have others : ∀ key, key ≠ id → t₂.position? p key =
      (t.position? p key).map fun m => if q.toInt ≤ m then m + 1 else m := by
    intro key other
    have one : (1 : Int64).toInt = 1 := rfl
    have step : Table.shifted (fun _ m => decide (q.toInt ≤ m)) 1 key =
        fun m => if q.toInt ≤ m then m + 1 else m := by
      funext m
      simp only [Table.shifted, decide_eq_true_eq, one]
    rw [position, if_neg other, moved.position? spaced.known, step]
  obtain ⟨apart, order⟩ := spaced.spaced.opened low own others
  exact ⟨t₂, ⟨positioned', apart⟩, order⟩

/-- The others have given way to a stored record with a new position, if it has one. -/
def MadeWay (k : Ranking) (p : Nat) (r : Record) (t t' : Table) : Prop :=
  r.change? k.column = none ∧ t' = t ∨
    ∃ id old new : Int64, r.id = some id ∧ r.change? k.column = some (.integer old, .integer new) ∧
      1 ≤ new.toInt ∧
        t.Moved p (Table.shifted (between old new id) (if old < new then -1 else 1)) t'

theorem reposition_makesWay (fits : k.Fits layout p) (positioned : c.Positioned layout p t)
    (r : Record) : Tries Table.Grown (k.reposition r) c fun _ c' =>
      ∃ t', c'.Positioned layout p t' ∧ k.MadeWay p r t t' := by
  have stable := Table.grown_stable
  have holds : t.layout.RanksBy k.column p := positioned.same ▸ fits.holds
  apply reposition_tries stable r
  · exact fun same => ⟨t, positioned, .inl ⟨same, rfl⟩⟩
  · intro id old new persisted changed high
    have low : 1 ≤ new.toInt := by
      have := mt Int64.lt_iff_toInt_lt.mpr high
      have one : (1 : Int64).toInt = 1 := rfl
      omega
    have decides := Table.decides_between positioned.sound holds.place holds.first (min old new)
      (max old new) id
    refine .bind stable (shift_tries fits positioned decides _) ?_
    rintro _ c' ⟨t', positioned', moved⟩
    exact .report stable _ _ _
      ⟨t', positioned', .inr ⟨id, old, new, persisted, changed, low, moved⟩⟩

/-- A stored row that is written back, after the others have given way. -/
theorem MadeWay.continues {row old : Row} (holds : layout.RanksBy k.column p)
    (spaced : c.Spaced layout p t) (obtained : r.Obtained) (fresh : k.Fresh p t r)
    (persisted : r.id = some id) (positioned : c'.Positioned layout p t₁)
    (madeWay : k.MadeWay p r t t₁) (written : r.toRow layout = .ok row)
    (ran : c'.replace layout.name id row = (.ok (some old), c'')) :
    c''.Continues layout p t (· = id) := by
  have keyed : row[0]? = some (.integer id) := by
    rw [Record.toRow_id holds written, persisted]
    rfl
  have cell := Record.toRow_position holds written
  have stored₁ := positioned.stored_of_replace ran
  rcases madeWay with ⟨same, rfl⟩ | ⟨id', before, after, persisted', changed, low, moved⟩
  · obtain ⟨n, stored_cell⟩ := spaced.known id old stored₁
    rw [fresh.unchanged obtained persisted stored₁ stored_cell same, Option.getD_some] at cell
    obtain ⟨t₂, positioned', position⟩ := positioned.replaced ran keyed cell
    have unmoved : ∀ key, t₂.position? p key = t₁.position? p key := by
      intro key
      rw [position]
      split
      case isTrue here => rw [here, Table.position?_of stored₁ stored_cell]
      case isFalse => rfl
    refine ⟨t₂, ⟨positioned', spaced.spaced.congr unmoved⟩, ?_⟩
    rw [funext unmoved]
    exact .refl _ _
  · obtain rfl : id = id' := Option.some.inj (persisted.symm.trans persisted')
    obtain ⟨same, found⟩ := Record.change?_eq_some changed
    rw [found, Option.getD_some] at cell
    obtain ⟨t₂, positioned', position⟩ := positioned.replaced ran keyed cell
    have own : t₂.position? p id = some after.toInt := by rw [position, if_pos rfl]
    obtain ⟨row₀, stored⟩ : ∃ row₀, t.get? id = some row₀ := by
      cases absent : t.get? id with
      | none => cases (moved.absent id absent).symm.trans stored₁
      | some row₀ => exact ⟨row₀, rfl⟩
    have remembered := fresh id row₀ persisted stored
    rw [same] at remembered
    have placed := Table.position?_of stored remembered
    have others : ∀ key, key ≠ id → t₂.position? p key = (t.position? p key).map fun m =>
        if before.toInt < m ∧ m ≤ after.toInt then m - 1
        else if after.toInt ≤ m ∧ m < before.toInt then m + 1 else m := by
      intro key other
      rw [position, if_neg other, moved.position? spaced.known]
      cases there : t.position? p key with
      | none => rfl
      | some m =>
        have unlike : m ≠ before.toInt := fun same =>
          other (spaced.spaced.apart key id m there (same ▸ placed))
        exact congrArg some (Table.shifted_between other unlike)
    obtain ⟨apart, order⟩ := spaced.spaced.moved placed low own others
    exact ⟨t₂, ⟨positioned', apart⟩, order⟩

/-- The others have closed the gap that a record is going to leave, or nothing has changed. -/
def Released (p : Nat) (r : Record) (t t' : Table) : Prop :=
  t' = t ∨ ∃ id n, r.id = some id ∧ t.position? p id = some n ∧
    ∀ key, t'.position? p key = (t.position? p key).map fun m => if n < m then m - 1 else m

theorem release_releases (fits : k.Fits layout p) (positioned : c.Positioned layout p t)
    (r : Record) :
    Tries Table.Grown (k.release r) c fun _ c' =>
      ∃ t', c'.Positioned layout p t' ∧ Released p r t t' := by
  have holds : t.layout.RanksBy k.column p := positioned.same ▸ fits.holds
  have found : c.table k.entity = .ok t := Catalog.table_eq_ok.mpr (fits.entity ▸ positioned.found)
  apply release_tries Table.grown_stable r
  · exact ⟨t, positioned, .inl rfl⟩
  · rintro id row i n _ persisted ⟨t₀, found₀, stored, place⟩ cell
    obtain rfl : t = t₀ := Except.ok.inj (found.symm.trans found₀)
    obtain rfl : p = i := Except.ok.inj (holds.place.symm.trans place)
    refine (shift_tries fits positioned (Table.decides_behind holds n) (-1)).weaken ?_
    rintro _ c' ⟨t', positioned', moved⟩
    refine ⟨t', positioned', .inr ⟨id, n.toInt, persisted, Table.position?_of stored cell, ?_⟩⟩
    intro key
    have minus : (-1 : Int64).toInt = -1 := by decide
    rw [moved.position? positioned.known]
    congr 1
    funext m
    simp only [Table.shifted, decide_eq_true_eq, minus]
    rfl

theorem Released.continues {old : Row} (spaced : c.Spaced layout p t)
    (positioned : c'.Positioned layout p t₁) (persisted : r.id = some id)
    (released : Released p r t t₁) (ran : c'.delete layout.name id = (.ok (some old), c'')) :
    c''.Continues layout p t (· = id) := by
  obtain ⟨t₂, positioned', position⟩ := positioned.deleted ran
  have gone : t₂.position? p id = none := by rw [position, if_pos rfl]
  have erased : RankedStore.Spaced (t₂.position? p) ∧
      Undisturbed (· = id) (t.position? p) (t₂.position? p) := by
    rcases released with rfl | ⟨id', n, persisted', placed, closes⟩
    · refine spaced.spaced.erased gone (fun key other => ?_) (.inl fun m => rfl)
      rw [position, if_neg other, Option.map_id']
    · obtain rfl : id = id' := Option.some.inj (persisted.symm.trans persisted')
      refine spaced.spaced.erased gone (fun key other => ?_) (.inr ⟨n, placed, fun m => rfl⟩)
      rw [position, if_neg other, closes]
  exact ⟨t₂, ⟨positioned', erased.1⟩, erased.2⟩

end Ranking

namespace Registry

variable {g : Registry} {reg : Registration} {k : Ranking} {p : Nat} {c : Catalog} {t : Table}
  {r : Record}

theorem Places.found (places : g.Places reg k p) (own : r.entity = k.entity) {reg' : Registration}
    (found : g.find? r.entity = .ok reg') : reg' = reg := by
  rw [own, places.known, Except.ok.injEq] at found
  exact found.symm

/-- Saving names the record, or the id that it gets. -/
theorem save_continues (places : g.Places reg k p) (spaced : c.Spaced reg.layout p t)
    (own : r.entity = k.entity) (loaded : r.id ≠ none → r.Obtained ∧ k.Fresh p t r) :
    Completes Table.Grown (g.save r) c fun saved c' => c'.Continues reg.layout p t fun id =>
      r.id = some id ∨ r.id = none ∧ saved.id = some id := by
  have stable := Table.grown_stable
  have fits := places.fits
  have known : ∀ reg', g.find? r.entity = .ok reg' → reg' = reg := fun _ => places.found own
  have inserting : ∀ reg', g.find? r.entity = .ok reg' → r.isNew = true →
      Tries Table.Grown (reg'.onEvent .beforeInsert r) c fun placed c' =>
        ∃ q, r.set k.column (.integer q) = .ok placed ∧ Ranking.Opened reg.layout p t q c' := by
    intro reg' found new
    rw [known reg' found]
    exact Registration.insert_hook stable places.ranking new (Ranking.newPosition_tries fits spaced)
      fun q low => Ranking.makeRoom_opens fits spaced.toPositioned low
  have updating : ∀ reg', g.find? r.entity = .ok reg' → r.isNew = false →
      Tries Table.Grown (reg'.onEvent .beforeUpdate r) c fun placed c' =>
        (∃ t₁, c'.Positioned reg.layout p t₁ ∧ k.MadeWay p r t t₁) ∧ r = placed := by
    intro reg' found stored
    rw [known reg' found]
    exact Registration.update_hook stable places.ranking stored
      (Ranking.reposition_makesWay fits spaced.toPositioned r)
  apply save_completes stable inserting updating
  · intro _ _
    exact ⟨t, spaced, .refl _ _⟩
  · rintro reg' placed row id c₁ c' found new ⟨q, set, opened⟩ written inserted
    rw [known reg' found] at written inserted
    have absent : r.id = none := by simpa [Record.isNew] using new
    have continues := opened.continues fits.holds spaced inserted
      (Ranking.cell_of_set fits.holds set written)
    apply continues.mono
    rintro _ rfl
    exact .inr ⟨absent, rfl⟩
  · rintro reg' id row old c₁ c' found persisted ⟨t₁, positioned, madeWay⟩ written replaced
    rw [known reg' found] at written replaced
    obtain ⟨obtained, fresh⟩ := loaded (by simp [persisted])
    have continues :=
      madeWay.continues fits.holds spaced obtained fresh persisted positioned written replaced
    apply continues.mono
    rintro _ rfl
    exact .inl persisted

theorem remove_continues (places : g.Places reg k p) (spaced : c.Spaced reg.layout p t)
    (own : r.entity = k.entity) :
    Completes Table.Grown (g.remove r) c fun _ c' =>
      c'.Continues reg.layout p t fun id => r.id = some id := by
  have stable := Table.grown_stable
  have known : ∀ reg', g.find? r.entity = .ok reg' → reg' = reg := fun _ => places.found own
  have removing : ∀ reg', g.find? r.entity = .ok reg' →
      Tries Table.Grown (reg'.onEvent .beforeRemove r) c fun placed c' =>
        (∃ t₁, c'.Positioned reg.layout p t₁ ∧ Ranking.Released p r t t₁) ∧ r = placed := by
    intro reg' found
    rw [known reg' found]
    exact Registration.remove_hook stable places.ranking
      (Ranking.release_releases places.fits spaced.toPositioned r)
  apply remove_completes stable removing
  rintro reg' id old c₁ c' found persisted ⟨t₁, positioned, released⟩ deleted
  rw [known reg' found] at deleted
  have continues := released.continues spaced positioned persisted deleted
  apply continues.mono
  rintro _ rfl
  exact persisted

end Registry
end RankedStore
