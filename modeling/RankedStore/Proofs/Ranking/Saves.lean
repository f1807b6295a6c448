import RankedStore.Proofs.Ranking.Hooks

/-! Saving and removing ranked records. Each is one transaction, which either does to the list what
it is meant to do or fails. -/
namespace RankedStore

open RankedStore.Action

/-- An entity type in a registry, with a ranking in the column at a place. -/
structure Registry.Places (g : Registry) (reg : Registration) (k : Ranking) (p : Nat) : Prop where
  known : g.find? k.entity = .ok reg
  ranking : reg.ranking = some k
  fits : k.Fits reg.layout p

/-- The same, with gaps closed. -/
structure Registry.Sorts (g : Registry) (reg : Registration) (k : Ranking) (p : Nat) : Prop where
  known : g.find? k.entity = .ok reg
  ranking : reg.ranking = some k
  fits : k.Fits reg.layout p
  closes : k.config.compactOnDelete = true

theorem Registry.Sorts.places {g : Registry} {reg : Registration} {k : Ranking} {p : Nat}
    (sorts : g.Sorts reg k p) : g.Places reg k p := ⟨sorts.known, sorts.ranking, sorts.fits⟩

namespace Ranking

variable {k : Ranking} {r : Record} {layout : TableLayout} {p : Nat} {c : Catalog} {t t₁ t₂ : Table}
  {order : List Int64} {id : Int64}

/-- The list with a new id, at the end where new records come in. -/
def joined (k : Ranking) (order : List Int64) (id : Int64) : List Int64 :=
  match k.config.newPosition with
  | .top => id :: order
  | .bottom => order ++ [id]

/-- The table takes in a new record with the position that the ranking gives it. -/
def Admits (k : Ranking) (layout : TableLayout) (t : Table) (order : List Int64) (r : Record) :
    Prop :=
  Room order ∧ ∃ q placed row id t', k.Target order q ∧ r.set k.column (.integer q) = .ok placed ∧
    placed.toRow layout = .ok row ∧ t.insert row = .ok (id, t')

theorem Target.unique {order : List Int64} {q q' : Int64} (left : k.Target order q)
    (right : k.Target order q') : q = q' := by
  unfold Target at left right
  cases mode : k.config.newPosition <;> rw [mode] at left right
  · exact left.trans right.symm
  · exact Int64.toInt_inj.mp (left.trans right.symm)

theorem Target.room {order : List Int64} {q : Int64} {t t' : Table} {p : Nat}
    (target : k.Target order q) (ranks : t.Ranks p order)
    (moved : t.Moved p (Table.shifted (fun _ m => decide (q.toInt ≤ m)) 1) t') : Room order := by
  unfold Target at target
  split at target
  · subst target
    by_cases empty : order.length = 0
    · exact ⟨1, by rw [empty]; rfl⟩
    · have bound : order.length - 1 < order.length := by omega
      obtain ⟨row, n, stored, cell, place⟩ := ranks.row_at (List.getElem?_eq_getElem bound)
      obtain ⟨m, value, _⟩ := moved.moved _ row n stored cell
      have one : (1 : Int64).toInt = 1 := rfl
      rw [Table.shifted_of_pos (decide_eq_true (by omega))] at value
      exact ⟨m, by omega⟩
  · exact ⟨q, target⟩

/-- Making room changes nothing about which rows the table takes in. -/
theorem admits_iff {q : Int64} {placed : Record} (holds : layout.RanksBy k.column p)
    (ranked : c.Ranked layout p t order) (target : k.Target order q)
    (set : r.set k.column (.integer q) = .ok placed)
    (moved : t.Moved p (Table.shifted (fun _ m => decide (q.toInt ≤ m)) 1) t₁) :
    k.Admits layout t order r ↔
      ∃ row id t₂, placed.toRow layout = .ok row ∧ t₁.insert row = .ok (id, t₂) := by
  have there : t.layout.RanksBy k.column p := ranked.same ▸ holds
  have known := ranked.ranks.known
  have alike := moved.alike there known
  have sound := moved.sound ranked.sound there known
  constructor
  · rintro ⟨_, q', placed', row, id, t', target', set', written, inserted⟩
    obtain rfl := target.unique target'
    rw [set, Except.ok.injEq] at set'
    obtain ⟨t₂, inserted⟩ := alike.insert ranked.sound sound inserted
    exact ⟨row, id, t₂, set' ▸ written, inserted⟩
  · rintro ⟨row, id, t₂, written, inserted⟩
    obtain ⟨t', inserted⟩ := alike.symm.insert sound ranked.sound inserted
    exact ⟨target.room ranked.ranks moved, q, placed, row, id, t', target, set, written, inserted⟩

/-- The position of a new record is written into its row. -/
theorem cell_of_set {q : Int64} {placed : Record} {row : Row} (holds : layout.RanksBy k.column p)
    (set : r.set k.column (.integer q) = .ok placed) (written : placed.toRow layout = .ok row) :
    row[p]? = some (.integer q) := by
  rw [Record.set, if_neg holds.ne_id, Except.ok.injEq] at set
  rw [Record.toRow_position holds written, ← set, Record.get?, Dict.get?_insert_self]
  rfl

/-- The new row stands at the end of the list that the ranking chooses. -/
theorem joined_ranked {q id : Int64} {placed : Record} {row : Row}
    (holds : layout.RanksBy k.column p) (ranked : c.Ranked layout p t order)
    (target : k.Target order q) (set : r.set k.column (.integer q) = .ok placed)
    (moved : t.Moved p (Table.shifted (fun _ m => decide (q.toInt ≤ m)) 1) t₁)
    (written : placed.toRow layout = .ok row) (inserted : t₁.insert row = .ok (id, t₂)) :
    (c.withTable layout.name t₂).Ranked layout p t₂ (k.joined order id) := by
  have there : t.layout.RanksBy k.column p := ranked.same ▸ holds
  have sound := moved.sound ranked.sound there ranked.ranks.known
  have cell := cell_of_set holds set written
  have same : t₂.layout = layout := by
    obtain ⟨_, _, _, _, _, _, rfl⟩ := Table.insert_eq_ok inserted
    exact moved.layout.trans ranked.same
  refine ⟨Catalog.get?_withTable_self .., same, sound.insert inserted, ?_⟩
  unfold Target at target
  unfold joined
  cases mode : k.config.newPosition with
  | top =>
    rw [mode] at target
    subst target
    exact ranked.ranks.insert_first holds.behind moved inserted cell
  | bottom =>
    rw [mode] at target
    exact ranked.ranks.insert_last holds.behind target moved inserted cell

/-- What the record remembers as the stored position is the stored one. -/
def Fresh (k : Ranking) (p : Nat) (t : Table) (r : Record) : Prop :=
  ∀ id row, r.id = some id → t.get? id = some row → row[p]? = some (r.storedValue k.column)

/-- A record that has no new position has the stored one. -/
theorem Fresh.unchanged {p : Nat} {t : Table} {id n : Int64} {row : Row} (fresh : k.Fresh p t r)
    (obtained : r.Obtained) (persisted : r.id = some id) (stored : t.get? id = some row)
    (cell : row[p]? = some (.integer n)) (same : r.change? k.column = none) :
    r.get? k.column = some (.integer n) := by
  have remembered : r.storedValue k.column = .integer n := by
    rw [fresh id row persisted stored, Option.some.injEq] at cell
    exact cell
  have kept : ∃ w, r.get? k.column = some w := by
    cases known : r.stored.get? k.column with
    | none =>
      rw [Record.storedValue, known] at remembered
      cases remembered
    | some v => exact obtained.kept k.column v known
  obtain ⟨w, found⟩ := kept
  rw [found, ← Record.storedValue_of_unchanged same found, remembered]

/-- The list after a stored record is written back, with its new position if it has one. -/
def rearranged (k : Ranking) (order : List Int64) (r : Record) (id : Int64) : List Int64 :=
  match r.change? k.column with
  | some (_, .integer q) => (order.erase id).insertIdx (q.toInt.toNat - 1) id
  | _ => order

/-- The table takes back a stored record as it is now. -/
def Takes (k : Ranking) (layout : TableLayout) (t : Table) (order : List Int64) (r : Record) :
    Prop :=
  k.InRange order r ∧ ∃ id row old t', r.id = some id ∧ r.toRow layout = .ok row ∧
    t.replace id row = .ok (some (old, t'))

theorem GaveWay.inRange (gaveWay : k.GaveWay p order r id t t₁) : k.InRange order r := by
  intro old new changed
  rcases gaveWay with ⟨none, _⟩ | ⟨_, q, some, low, high, _⟩
  · rw [none] at changed
    cases changed
  · rw [some] at changed
    cases changed
    exact ⟨q, rfl, low, high⟩

theorem GaveWay.alike (gaveWay : k.GaveWay p order r id t t₁) (holds : layout.RanksBy k.column p)
    (ranked : c.Ranked layout p t order) : t.Alike t₁ ∧ t₁.Sound := by
  have there : t.layout.RanksBy k.column p := ranked.same ▸ holds
  rcases gaveWay with ⟨_, rfl⟩ | ⟨_, _, _, _, _, moved⟩
  · exact ⟨.refl t₁, ranked.sound⟩
  · exact ⟨moved.alike there ranked.ranks.known, moved.sound ranked.sound there ranked.ranks.known⟩

/-- Giving way changes nothing about which rows the table takes back. -/
theorem takes_iff (holds : layout.RanksBy k.column p) (ranked : c.Ranked layout p t order)
    (persisted : r.id = some id) (gaveWay : k.GaveWay p order r id t t₁) :
    k.Takes layout t order r ↔
      ∃ row old t₂, r.toRow layout = .ok row ∧ t₁.replace id row = .ok (some (old, t₂)) := by
  obtain ⟨alike, sound⟩ := gaveWay.alike holds ranked
  constructor
  · rintro ⟨_, id', row, old, t', same, written, replaced⟩
    obtain rfl : id = id' := Option.some.inj (persisted.symm.trans same)
    obtain ⟨old', t₂, replaced⟩ := alike.replace ranked.sound sound replaced
    exact ⟨row, old', t₂, written, replaced⟩
  · rintro ⟨row, old, t₂, written, replaced⟩
    obtain ⟨old', t', replaced⟩ := alike.symm.replace sound ranked.sound replaced
    exact ⟨gaveWay.inRange, id, row, old', t', persisted, written, replaced⟩

/-- What a save of a stored record makes of its table: the others give way, and its row is written
back. -/
def WritesBack (k : Ranking) (layout : TableLayout) (p : Nat) (order : List Int64) (r : Record)
    (id : Int64) (t t₂ : Table) : Prop :=
  ∃ t₁ row old, k.GaveWay p order r id t t₁ ∧ r.toRow layout = .ok row ∧
    t₁.replace id row = .ok (some (old, t₂))

/-- The row that is written back stands where its new position says, or where it stood. -/
theorem WritesBack.ranked (holds : layout.RanksBy k.column p) (ranked : c.Ranked layout p t order)
    (obtained : r.Obtained) (fresh : k.Fresh p t r) (persisted : r.id = some id)
    (writes : k.WritesBack layout p order r id t t₂) :
    (c.withTable layout.name t₂).Ranked layout p t₂ (k.rearranged order r id) := by
  obtain ⟨t₁, row, old, gaveWay, written, replaced⟩ := writes
  have ranks := ranked.ranks
  obtain ⟨alike, sound⟩ := gaveWay.alike holds ranked
  have keyed : row[0]? = some (.integer id) := by
    rw [Record.toRow_id holds written, persisted]
    rfl
  have sound₂ := sound.replace replaced keyed
  obtain ⟨old', _, before⟩ := alike.symm.replace sound ranked.sound replaced
  obtain ⟨stored, _⟩ := Table.replace_eq_some before
  obtain ⟨_, _, _, rfl⟩ := Table.replace_eq_some replaced
  refine ⟨Catalog.get?_withTable_self .., alike.layout.trans ranked.same, sound₂, ?_⟩
  obtain ⟨n, cell⟩ := ranks.known id old' stored
  have position := Record.toRow_position holds written
  unfold rearranged
  rcases gaveWay with ⟨unchanged, rfl⟩ | ⟨before, after, changed, low, high, moved⟩
  · rw [unchanged]
    rw [fresh.unchanged obtained persisted stored cell unchanged, Option.getD_some] at position
    exact ranks.rewrite stored cell position t₁.nextId
  · rw [changed]
    obtain ⟨same, found⟩ := Record.change?_eq_some changed
    have remembered := fresh id old' persisted stored
    rw [cell, same, Option.some.injEq, Value.integer.injEq] at remembered
    subst remembered
    rw [found, Option.getD_some] at position
    obtain ⟨i, here, place⟩ := ranks.index stored cell
    have target : after.toInt = ((after.toInt.toNat - 1 : Nat) : Int) + 1 := by omega
    exact ranks.move here place target (by omega) moved position t₁.nextId

/-- If only the position of the record is new, then nothing but positions has changed. -/
theorem WritesBack.moved {row : Row} {n q : Int64} (writes : k.WritesBack layout p order r id t t₂)
    (stored : t.get? id = some row) (cell : row[p]? = some (.integer n))
    (only : r.toRow layout = .ok (row.set p (.integer q))) : ∃ σ, t.Moved p σ t₂ := by
  obtain ⟨t₁, row', old, gaveWay, written, replaced⟩ := writes
  cases only.symm.trans written
  obtain ⟨_, _, _, rfl⟩ := Table.replace_eq_some replaced
  obtain ⟨τ, others⟩ : ∃ τ, t.Moved p τ t₁ := by
    rcases gaveWay with ⟨_, rfl⟩ | ⟨_, _, _, _, _, moved⟩
    · exact ⟨_, .refl t₁ p⟩
    · exact ⟨_, moved⟩
  obtain ⟨m, _, there⟩ := others.moved id row n stored cell
  have own := Table.Moved.ofSet (p := p) (m := q) there
  rw [List.set_set] at own
  exact ⟨_, others.trans own⟩

end Ranking

namespace Registry

variable {g : Registry} {reg : Registration} {k : Ranking} {p : Nat} {c : Catalog} {t : Table}
  {order : List Int64} {r : Record}

/-- Before it is inserted a new record gets its position, and the others make room there. -/
theorem beforeInsert_tracked (sorts : g.Sorts reg k p) (ranked : c.Ranked reg.layout p t order)
    (own : r.entity = k.entity) (new : r.id = none) :
    (∃ q placed t₁ w, k.Target order q ∧ r.set k.column (.integer q) = .ok placed ∧
      t.Moved p (Table.shifted (fun _ m => decide (q.toInt ≤ m)) 1) t₁ ∧
      Tracked (reg.onEvent .beforeInsert r) c (.ok placed) (c.withTable reg.layout.name t₁) w) ∨
    ∃ e, Tracked (reg.onEvent .beforeInsert r) c (.error e) c [] ∧ ¬ Ranking.Room order := by
  have fits := sorts.fits
  have entity : k.checkEntity r = .ok () := if_pos own
  have isNew : r.isNew = true := by rw [Record.isNew, new]; rfl
  rw [Registration.onEvent_insert sorts.ranking entity isNew]
  rcases Ranking.newPosition_tracked fits ranked with ⟨q, seen, target⟩ | ⟨e, fails, full⟩
  · have set : ∃ placed, r.set k.column (.integer q) = .ok placed := ⟨_, if_neg fits.holds.ne_id⟩
    obtain ⟨placed, set⟩ := set
    have place : Tracked (k.place r) c (.ok (placed, q)) c [] :=
      seen.after (.after (.ofExcept set) (.pure ..))
    rcases Ranking.makeRoom_tracked fits ranked q with ⟨t₁, w, shifts, moved⟩ | ⟨e, fails, full⟩
    · exact .inl ⟨q, placed, t₁, w, target, set, moved,
        .after (.report ..) (place.after (shifts.followed (.pure ..)))⟩
    · exact .inr ⟨e, .after (.report ..) (place.after fails.bind_error), full⟩
  · exact .inr ⟨e, .after (.report ..) (.bind_error (.bind_error fails)), full⟩

theorem insertRecord_tracked (sorts : g.Sorts reg k p) (ranked : c.Ranked reg.layout p t order)
    (own : r.entity = k.entity) (new : r.id = none) :
    (k.Admits reg.layout t order r ∧ ∃ saved id c' t' w,
      Tracked (insertRecord reg r) c (.ok saved) c' w ∧ saved.id = some id ∧
      c'.Ranked reg.layout p t' (k.joined order id)) ∨
    ¬ k.Admits reg.layout t order r ∧ ∃ e c' w, Tracked (insertRecord reg r) c (.error e) c' w := by
  have holds := sorts.fits.holds
  unfold insertRecord
  rcases beforeInsert_tracked sorts ranked own new with
    ⟨q, placed, t₁, w, target, set, moved, hook⟩ | ⟨e, fails, full⟩
  · have admits := Ranking.admits_iff holds ranked target set moved
    have ran (row : Row) : (c.withTable reg.layout.name t₁).insert reg.layout.name row = _ :=
      Catalog.insert_eq (c.get?_withTable_self reg.layout.name t₁)
    cases written : placed.toRow reg.layout with
    | error e =>
      refine .inr ⟨?_, e, _, _, hook.bind (.bind_error (.ofExcept written))⟩
      rw [admits]
      rintro ⟨row, _, _, written', _⟩
      rw [written] at written'
      cases written'
    | ok row =>
      specialize ran row
      cases inserted : t₁.insert row with
      | error e =>
        rw [inserted] at ran
        refine .inr ⟨?_, e, _, _,
          hook.bind (.after (.ofExcept written) (.bind_error (insert_failed ran)))⟩
        rw [admits]
        rintro ⟨row', _, _, written', inserted'⟩
        rw [written, Except.ok.injEq] at written'
        rw [← written', inserted] at inserted'
        cases inserted'
      | ok result =>
        obtain ⟨id, t₂⟩ := result
        rw [inserted] at ran
        dsimp only at ran
        rw [Catalog.withTable_withTable] at ran
        have after := Ranking.joined_ranked holds ranked target set moved written inserted
        exact .inl ⟨admits.mpr ⟨row, id, t₂, written, inserted⟩, placed.withId id, id, _, t₂, _,
          hook.bind (.after (.ofExcept written)
            ((insert_tracked ran).followed (.after (.report ..) (.pure ..)))), rfl, after⟩
  · exact .inr ⟨fun admits => full admits.1, e, c, [], fails.bind_error⟩

/-- Before a stored record is written back the others give way to it, unless its position is out of
range. -/
theorem beforeUpdate_tracked {id : Int64} (places : g.Places reg k p)
    (ranked : c.Ranked reg.layout p t order) (own : r.entity = k.entity)
    (persisted : r.id = some id) (fresh : k.Fresh p t r) :
    (∃ t₁ w, k.GaveWay p order r id t t₁ ∧
      Tracked (reg.onEvent .beforeUpdate r) c (.ok r) (c.withTable reg.layout.name t₁) w) ∨
    ∃ e, Tracked (reg.onEvent .beforeUpdate r) c (.error e) c [] ∧
      ¬ k.Takes reg.layout t order r := by
  have entity : k.checkEntity r = .ok () := if_pos own
  have isOld : r.isNew = false := by rw [Record.isNew, persisted]; rfl
  rw [Registration.onEvent_update places.ranking entity isOld]
  rcases Ranking.reposition_tracked places.fits ranked persisted with
    ⟨t₁, w, shifts, gaveWay⟩ | ⟨e, fails, reason⟩
  · exact .inl ⟨t₁, w, gaveWay, .after (.report ..) (shifts.followed (.pure ..))⟩
  · refine .inr ⟨e, .after (.report ..) fails.bind_error, ?_⟩
    rintro ⟨range, id', row, old, t', same, _, replaced⟩
    rw [persisted, Option.some.injEq] at same
    subst same
    obtain ⟨stored, _⟩ := Table.replace_eq_some replaced
    obtain ⟨n, cell⟩ := ranked.ranks.known id old stored
    have remembered := fresh id old persisted stored
    rw [cell, Option.some.injEq] at remembered
    exact reason n remembered.symm (Table.position?_of stored cell) range

theorem updateRecord_tracked {id : Int64} (places : g.Places reg k p)
    (ranked : c.Ranked reg.layout p t order) (own : r.entity = k.entity)
    (persisted : r.id = some id) (fresh : k.Fresh p t r) :
    (k.Takes reg.layout t order r ∧ ∃ t' w,
      Tracked (updateRecord reg r) c (.ok r) (c.withTable reg.layout.name t') w ∧
      k.WritesBack reg.layout p order r id t t') ∨
    ¬ k.Takes reg.layout t order r ∧ ∃ e c' w, Tracked (updateRecord reg r) c (.error e) c' w := by
  have holds := places.fits.holds
  have ownId : r.requireId = .ok id := by rw [Record.requireId, persisted]
  unfold updateRecord
  rcases beforeUpdate_tracked places ranked own persisted fresh with
    ⟨t₁, w, gaveWay, hook⟩ | ⟨e, fails, refused⟩
  · have takes := Ranking.takes_iff holds ranked persisted gaveWay
    have ran (row : Row) : (c.withTable reg.layout.name t₁).replace reg.layout.name id row = _ :=
      Catalog.replace_eq (c.get?_withTable_self reg.layout.name t₁)
    cases written : r.toRow reg.layout with
    | error e =>
      refine .inr ⟨?_, e, _, _, .after (.ofExcept ownId)
        (hook.bind (.bind_error (.ofExcept written)))⟩
      rw [takes]
      rintro ⟨row, _, _, written', _⟩
      rw [written] at written'
      cases written'
    | ok row =>
      specialize ran row
      have refused : (∀ out, t₁.replace id row ≠ .ok (some out)) →
        ¬ k.Takes reg.layout t order r := by
        rw [takes]
        rintro none ⟨row', old, t₂, written', replaced⟩
        rw [written, Except.ok.injEq] at written'
        exact none _ (written' ▸ replaced)
      rcases replaced : t₁.replace id row with e | _ | ⟨old, t₂⟩ <;> rw [replaced] at ran
      · exact .inr ⟨refused (by simp [replaced]), e, _, _, .after (.ofExcept ownId)
          (hook.bind (.after (.ofExcept written) (.bind_error (replace_failed ran))))⟩
      · exact .inr ⟨refused (by simp [replaced]), _, _, _, .after (.ofExcept ownId)
          (hook.bind (.after (.ofExcept written) (.bind_error (replace_missing ran))))⟩
      · dsimp only at ran
        rw [Catalog.withTable_withTable] at ran
        exact .inl ⟨takes.mpr ⟨row, old, t₂, written, replaced⟩, t₂, _, .after (.ofExcept ownId)
          (hook.bind (.after (.ofExcept written)
            ((replace_tracked ran).followed (.after (.report ..) (.pure ..))))),
          t₁, row, old, gaveWay, written, replaced⟩
  · exact .inr ⟨refused, e, c, [], .after (.ofExcept ownId) fails.bind_error⟩

/-- Saving a new record puts it at its end of the list, or fails and changes nothing. -/
theorem save_new (sorts : g.Sorts reg k p) (ranked : c.Ranked reg.layout p t order)
    (own : r.entity = k.entity) (new : r.id = none) :
    (k.Admits reg.layout t order r ∧ ∃ saved id c' t', Settles (g.save r) c (.ok saved) c' ∧
      saved.id = some id ∧ c'.Ranked reg.layout p t' (k.joined order id)) ∨
    ¬ k.Admits reg.layout t order r ∧ ∃ e, Settles (g.save r) c (.error e) c := by
  have isNew : r.isNew = true := by rw [Record.isNew, new]; rfl
  have found : g.find? r.entity = .ok reg := own ▸ sorts.known
  unfold save
  rcases insertRecord_tracked sorts ranked own new with
    ⟨admits, saved, id, c', t', w, body, given, after⟩ | ⟨refused, e, c', w, body⟩
  · refine .inl ⟨admits, saved.markClean, id, c', t', .after (.ofExcept found) ?_, given, after⟩
    simp only [isNew, Bool.not_true, Bool.false_and, Bool.false_eq_true, if_false, if_true]
    exact body.transactional.followed fun d => .pure ..
  · refine .inr ⟨refused, e, .after (.ofExcept found) ?_⟩
    simp only [isNew, Bool.not_true, Bool.false_and, Bool.false_eq_true, if_false, if_true]
    exact body.transactional_error.bind_error

/-- Saving a changed record writes it back after the others gave way, or fails and changes
nothing. -/
theorem save_writes {id : Int64} (places : g.Places reg k p)
    (ranked : c.Ranked reg.layout p t order) (own : r.entity = k.entity)
    (persisted : r.id = some id) (dirty : r.isDirty = true) (fresh : k.Fresh p t r) :
    (k.Takes reg.layout t order r ∧
      ∃ saved t', Settles (g.save r) c (.ok saved) (c.withTable reg.layout.name t') ∧
      k.WritesBack reg.layout p order r id t t') ∨
    ¬ k.Takes reg.layout t order r ∧ ∃ e, Settles (g.save r) c (.error e) c := by
  have isOld : r.isNew = false := by rw [Record.isNew, persisted]; rfl
  have found : g.find? r.entity = .ok reg := own ▸ places.known
  unfold save
  rcases updateRecord_tracked places ranked own persisted fresh with
    ⟨takes, t', w, body, writes⟩ | ⟨refused, e, c', w, body⟩
  · refine .inl ⟨takes, r.markClean, t', .after (.ofExcept found) ?_, writes⟩
    simp only [isOld, dirty, Bool.not_true, Bool.and_false, Bool.false_eq_true, if_false]
    exact body.transactional.followed fun d => .pure ..
  · refine .inr ⟨refused, e, .after (.ofExcept found) ?_⟩
    simp only [isOld, dirty, Bool.not_true, Bool.and_false, Bool.false_eq_true, if_false]
    exact body.transactional_error.bind_error

/-- Saving a changed record moves it to its new position, if it has one, or fails and changes
nothing. -/
theorem save_stored {id : Int64} (places : g.Places reg k p)
    (ranked : c.Ranked reg.layout p t order) (own : r.entity = k.entity)
    (persisted : r.id = some id) (dirty : r.isDirty = true) (obtained : r.Obtained)
    (fresh : k.Fresh p t r) :
    (k.Takes reg.layout t order r ∧ ∃ saved c' t', Settles (g.save r) c (.ok saved) c' ∧
      c'.Ranked reg.layout p t' (k.rearranged order r id)) ∨
    ¬ k.Takes reg.layout t order r ∧ ∃ e, Settles (g.save r) c (.error e) c := by
  rcases save_writes places ranked own persisted dirty fresh with ⟨takes, saved, t', saves,
    writes⟩ | refused
  · exact .inl ⟨takes, saved, _, t', saves, writes.ranked places.fits.holds ranked obtained fresh
      persisted⟩
  · exact .inr refused

/-- A stored record without changes is not written. -/
theorem save_clean {id : Int64} (known : g.find? r.entity = .ok reg) (persisted : r.id = some id)
    (clean : r.isDirty = false) (c : Catalog) : Settles (g.save r) c (.ok r) c := by
  have isOld : r.isNew = false := by rw [Record.isNew, persisted]; rfl
  unfold save
  refine .after (.ofExcept known) ?_
  simp only [isOld, clean, Bool.not_false, Bool.and_true, if_true]
  exact .ofTracked (.pure ..)

theorem remove_new (sorts : g.Sorts reg k p) (own : r.entity = k.entity) (new : r.id = none)
    (c : Catalog) : ∃ e, Settles (g.remove r) c (.error e) c := by
  have found : g.find? r.entity = .ok reg := own ▸ sorts.known
  have noId : r.requireId = .error (.invalidArgument (.notPersisted r.entity)) := by
    rw [Record.requireId, new]
  exact ⟨_, .after (.ofExcept found) (.ofTracked (.bind_error (.ofExcept noId)))⟩

/-- Removing a stored record takes it out of the list, whatever else the record remembers. -/
theorem remove_stored {id : Int64} (sorts : g.Sorts reg k p)
    (ranked : c.Ranked reg.layout p t order) (own : r.entity = k.entity)
    (persisted : r.id = some id) (member : id ∈ order) :
    ∃ c' t', Settles (g.remove r) c (.ok r.detach) c' ∧
      c'.Ranked reg.layout p t' (order.erase id) := by
  have fits := sorts.fits
  have found : g.find? r.entity = .ok reg := own ▸ sorts.known
  have entity : k.checkEntity r = .ok () := if_pos own
  have ownId : r.requireId = .ok id := by rw [Record.requireId, persisted]
  obtain ⟨i, here⟩ := List.getElem?_of_mem member
  obtain ⟨row, n, stored, cell, place⟩ := ranked.ranks.row_at here
  obtain ⟨t₁, w, closes, moved⟩ :=
    Ranking.release_tracked fits ranked sorts.closes entity persisted stored cell
  obtain ⟨m, _, stored'⟩ := moved.moved id row n stored cell
  have holds : t.layout.RanksBy k.column p := ranked.same ▸ fits.holds
  have ran : (c.withTable reg.layout.name t₁).delete reg.layout.name id = _ :=
    Catalog.delete_eq (c.get?_withTable_self reg.layout.name t₁)
  rw [Table.delete, stored', Option.map_some] at ran
  dsimp only at ran
  rw [Catalog.withTable_withTable] at ran
  have hook : Tracked (reg.onEvent .beforeRemove r) c (.ok r)
    (c.withTable reg.layout.name t₁) w := by
    rw [Registration.onEvent_remove sorts.ranking]
    exact .after (.report ..) (closes.followed (.pure ..))
  have deletes : Tracked (do
      if ← Action.delete reg.layout.name id then return r
      else throw (.entityNotFound reg.layout.name id)) _ (.ok r) _ _ :=
    (delete_tracked ran).followed (.pure ..)
  refine ⟨_, _, .after (.ofExcept found) (.after (.ofExcept ownId) (.followed
    (hook.bind deletes).transactional
    fun d => .after (.report ..) (.pure ..))), Catalog.get?_withTable_self .., ?_, ?_, ?_⟩
  · exact moved.layout.trans ranked.same
  · exact (moved.sound ranked.sound holds ranked.ranks.known).erase id
  · exact ranked.ranks.erase here place moved

theorem remove_missing {id : Int64} (sorts : g.Sorts reg k p)
    (ranked : c.Ranked reg.layout p t order) (own : r.entity = k.entity)
    (persisted : r.id = some id) (missing : id ∉ order) :
    ∃ e, Settles (g.remove r) c (.error e) c := by
  have found : g.find? r.entity = .ok reg := own ▸ sorts.known
  have entity : k.checkEntity r = .ok () := if_pos own
  have ownId : r.requireId = .ok id := by rw [Record.requireId, persisted]
  have absent := ranked.absent missing
  have ran : c.delete reg.layout.name id = _ := Catalog.delete_eq ranked.found
  rw [Table.delete, absent, Option.map_none] at ran
  have hook : Tracked (reg.onEvent .beforeRemove r) c (.ok r) c [] := by
    rw [Registration.onEvent_remove sorts.ranking]
    exact .after (.report ..)
      ((Ranking.release_missing sorts.fits ranked sorts.closes entity persisted absent).followed
        (.pure ..))
  have deletes : Tracked (do
      if ← Action.delete reg.layout.name id then return r
      else throw (.entityNotFound reg.layout.name id)) c
      (.error (.entityNotFound reg.layout.name id)) c [] :=
    (delete_missing ran).after (.throw ..)
  exact ⟨_, .after (.ofExcept found) (.after (.ofExcept ownId)
    (.bind_error (hook.bind deletes).transactional_error))⟩

end Registry
end RankedStore
