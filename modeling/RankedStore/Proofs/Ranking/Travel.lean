import Mathlib.Data.List.InsertIdx
import RankedStore.Proofs.Ranking.Inverses

/-! Two ways to a new position. A save shifts all records in between at once, and moves by one place
exchange the record with one of them after the other. Both take the record out of the list and put
it back at the same index, and where the list is known so is the table. -/
namespace RankedStore

open RankedStore.Action

/-! A list into which an id is put at an index. -/
section

variable {rest order : List Int64} {id x : Int64} {i j d : Nat} {e : Extremum}

/-- Exchanging an id with the one after it. -/
theorem map_exchange_insertIdx (nodup : rest.Nodup) (new : id ∉ rest) (there : rest[i]? = some x) :
    (rest.insertIdx i id).map (exchange id x) = rest.insertIdx (i + 1) id := by
  induction rest generalizing i with
  | nil => cases there
  | cons y rest ih =>
    obtain ⟨first, nodup⟩ := List.nodup_cons.mp nodup
    obtain ⟨other, absent⟩ : id ≠ y ∧ id ∉ rest := List.ne_and_not_mem_of_not_mem_cons new
    cases i with
    | zero =>
      cases there
      have others : rest.map (exchange id x) = rest.map fun a => a := by
        apply List.map_congr_left
        intro a member
        exact exchange_of_ne (ne_of_mem_of_not_mem member absent)
          (ne_of_mem_of_not_mem member first)
      rw [List.map_id'] at others
      simp only [List.insertIdx_zero, List.insertIdx_succ_cons, List.map_cons, exchange_left,
        exchange_right, others]
    | succ i =>
      have apart : y ≠ x := by
        rintro rfl
        exact first (List.mem_of_getElem? there)
      rw [List.insertIdx_succ_cons, List.insertIdx_succ_cons, List.map_cons,
        exchange_of_ne (Ne.symm other) apart, ih nodup absent there]

/-- Exchanging an id with the one beside it moves it by one index. -/
theorem Ranking.Adjoins.exchange (adjoins : Adjoins e i j) (nodup : rest.Nodup) (new : id ∉ rest)
    (last : i ≤ rest.length) (last' : j ≤ rest.length) : ∃ x, (rest.insertIdx i id)[j]? = some x ∧
      (rest.insertIdx i id).map (exchange id x) = rest.insertIdx j id := by
  cases e with
  | max =>
    cases adjoins
    have there : rest[i]? = some rest[i] := List.getElem?_eq_getElem (by omega)
    refine ⟨rest[i], ?_, map_exchange_insertIdx nodup new there⟩
    rw [List.getElem?_insertIdx_of_gt (Nat.lt_succ_self i)]
    exact there
  | min =>
    cases adjoins
    have there : rest[j]? = some rest[j] := List.getElem?_eq_getElem (by omega)
    refine ⟨rest[j], ?_, ?_⟩
    · rw [List.getElem?_insertIdx_of_lt (Nat.lt_succ_self j)]
      exact there
    · rw [← map_exchange_insertIdx nodup new there, List.map_map]
      exact List.map_id'' (exchange_exchange id _) _

theorem Listed.insertIdx_erase {position : Int64 → Option Int} (listed : Listed order position)
    (here : order[i]? = some id) : (order.erase id).insertIdx i id = order := by
  obtain ⟨bound, rfl⟩ := List.getElem?_eq_some_iff.mp here
  rw [listed.erase_eq here, List.insertIdx_eraseIdx_getElem bound]

/-- The index that is reached from another one by a number of moves towards an end. -/
def Ranking.Reaches : Extremum → Nat → Nat → Nat → Prop
  | .min, i, d, j => j + d = i
  | .max, i, d, j => j = i + d

/-- The first of the moves, and the rest of them. -/
theorem Ranking.Reaches.first (reaches : Reaches e i (d + 1) j) :
    ∃ l, Adjoins e i l ∧ Reaches e l d j := by
  cases e with
  | min => exact ⟨j + d, reaches, rfl⟩
  | max => exact ⟨i + 1, rfl, by simp only [Reaches] at *; omega⟩

end

namespace Ranking

variable {k : Ranking} {layout : TableLayout} {p : Nat} {t : Table} {r : Record} {id n : Int64}
  {e : Extremum} {rest : List Int64} {s : Session}

/-- A move that is made several times, each time of the record that the one before it gave. -/
def repeatedly (move : Record → Action Record) : Nat → Record → Action Record
  | 0, r => pure r
  | d + 1, r => do repeatedly move d (← move r)

/-- As often as there is an index left, a record moves on by one. -/
theorem repeatedly_travels (fits : k.Fits layout p) (nodup : rest.Nodup) (new : id ∉ rest)
    (already alone : Error.Precondition) {i j d : Nat} (reaches : Reaches e i d j)
    (last : i ≤ rest.length) (last' : j ≤ rest.length) (proper : s.connection.Proper)
    (ranked : s.view.Ranked layout p t (rest.insertIdx i id)) (stands : k.Stands p t r id n) :
    ∃ moved s' t', (repeatedly (k.step e already alone) d r).run s = (.ok moved, s') ∧
      s'.view = s.view.withTable layout.name t' ∧ (∃ σ, t.Moved p σ t') ∧
        t'.Ranks p (rest.insertIdx j id) := by
  -- The others stay in their order, whatever index the id has come to.
  induction d generalizing i s t r n with
  | zero =>
    obtain rfl : i = j := by cases e <;> simp only [Reaches] at reaches <;> omega
    refine ⟨r, s, t, rfl, ?_, ⟨_, .refl t p⟩, ranked.ranks⟩
    rw [Catalog.withTable_of_get? ranked.found]
  | succ d ih =>
    obtain ⟨l, adjoins, reaches⟩ := reaches.first
    have between : l ≤ rest.length := by
      cases e <;> simp only [Adjoins, Reaches] at adjoins reaches <;> omega
    obtain ⟨x, there, exchanged⟩ := adjoins.exchange nodup new last between
    have here : (rest.insertIdx i id)[i]? = some id := by
      rw [List.getElem?_insertIdx_self, if_pos last]
    obtain ⟨r₁, m, t₁, moves, swapped, stands₁⟩ := step_stored fits ranked stands here there adjoins
      already alone
    obtain ⟨s₁, ran, proper₁, view₁⟩ := moves.runs proper
    have ranked₁ := ranked.swapped fits swapped
    rw [exchanged, ← view₁ _ rfl] at ranked₁
    obtain ⟨moved, s', t', ran', view', ⟨τ, later⟩, ranks⟩ :=
      ih reaches between proper₁ ranked₁ stands₁
    obtain ⟨σ, first⟩ := swapped.moved
    refine ⟨moved, s', t', ?_, ?_, ⟨_, first.trans later⟩, ranks⟩
    · rw [repeatedly, run_bind, ran]
      exact ran'
    · rw [view', view₁ _ rfl, Catalog.withTable_withTable]

end Ranking

namespace Registry

variable {g : Registry} {schema : EntitySchema} {reg : Registration} {k : Ranking} {p : Nat}
  {t : Table} {order : List Int64} {r : Record} {id q : Int64} {i : Nat} {s : Session}

/-- A record that was read goes by one save, or by as many moves up or down as there are places in
between, to any place of the list, and all tables are the same either way. -/
theorem save_agrees_with_moves (registered : g.Registered schema reg) (positions : reg.Positions k)
    (place : reg.layout.index k.column = .ok p) (proper : s.connection.Proper)
    (ranked : s.view.Ranked reg.layout p t order) (here : order[i]? = some id)
    (reads : s.view.Reads reg.layout id r) {j : Nat} (inside : j < order.length)
    (target : q.toInt = (j : Int) + 1) :
    ∃ r' saved s₁ t₁, r.set k.column (.integer q) = .ok r' ∧ (g.save r').run s = (.ok saved, s₁) ∧
      s₁.view.Ranked reg.layout p t₁ ((order.erase id).insertIdx j id) ∧
      (j ≤ i → ∃ moved s₂, (Ranking.repeatedly k.moveUp (i - j) r).run s = (.ok moved, s₂) ∧
        s₂.view = s₁.view) ∧
      (i ≤ j → ∃ moved s₂, (Ranking.repeatedly k.moveDown (j - i) r).run s = (.ok moved, s₂) ∧
        s₂.view = s₁.view) := by
  have places := registered.placesAt positions place
  obtain ⟨col, keeps⟩ := registered.keeps positions.ranking place positions.named
  obtain ⟨n, stands⟩ := keeps.stands ranked.positioned reads
  have set : r.set k.column (.integer q) = .ok _ := if_neg keeps.other
  obtain ⟨saved, t₁, saves, ⟨σ, shifted⟩, reached⟩ :=
    save_moves places keeps ranked here reads set (by omega) (by omega)
  obtain ⟨s₁, ran, _, view₁⟩ := saves.runs proper
  have listed := ranked.ranks.listed
  have there : t₁.Ranks p ((order.erase id).insertIdx j id) := by
    rcases reached with ⟨stays, ranks⟩ | ranks
    · obtain rfl : j = i := by omega
      rwa [listed.insertIdx_erase here]
    · rwa [target, Int.toNat_natCast_add_one, Nat.add_sub_cancel] at ranks
  have known : t.Known p := ranked.ranks.known
  have ranked₁ : s₁.view.Ranked reg.layout p t₁ ((order.erase id).insertIdx j id) := by
    obtain ⟨found, same, sound, _⟩ := ranked.positioned.moved places.fits.holds shifted
    rw [view₁ _ rfl]
    exact ⟨found, same, sound, there⟩
  -- The moves put the record back into the list of the others, one index further each time.
  have travels : ∀ e d, Ranking.Reaches e i d j → ∀ already alone, ∃ moved s₂,
      (Ranking.repeatedly (k.step e already alone) d r).run s = (.ok moved, s₂) ∧
        s₂.view = s₁.view := by
    intro e d reaches already alone
    have bound : i < order.length := (List.getElem?_eq_some_iff.mp here).1
    have size : (order.erase id).length + 1 = order.length := by
      rw [List.length_erase_of_mem (List.mem_of_getElem? here)]
      omega
    have absent : id ∉ order.erase id := listed.nodup.not_mem_erase
    obtain ⟨moved, s₂, t₂, ran₂, view₂, ⟨τ, shifted₂⟩, there₂⟩ :=
      Ranking.repeatedly_travels places.fits (listed.nodup.erase id) absent already alone reaches
        (by omega) (by omega) proper ((listed.insertIdx_erase here).symm ▸ ranked) stands
    obtain rfl := shifted.eq_of_ranks known shifted₂ there there₂
    exact ⟨moved, s₂, ran₂, view₂.trans (view₁ _ rfl).symm⟩
  refine ⟨_, saved, s₁, t₁, set, ran, ranked₁, fun up => ?_, fun down => ?_⟩
  · exact travels .min (i - j) (Nat.add_sub_of_le up) .isFirst .noPrevious
  · exact travels .max (j - i) (Nat.add_sub_of_le down).symm .isLast .noNext

end Registry

/-! A third record behind the two of a type with a column of positions that is declared by hand. -/
namespace Declared

def row (n : Int64) : Row := [.integer n, .integer n]

def longer : Table := { table false with rows := (table false).rows.insert 3 (row 3), nextId := 4 }

def longerSession : Session :=
  { committed := ⟨⟨Dict.empty.insert "t" longer⟩, 0⟩, connection := .idle 0 }

theorem ranked_longer :
    longerSession.view.Ranked (registration false).layout 1 longer [1, 2, 3] := by
  have inserted : (table false).insert [.null, .integer 3] = .ok (3, longer) := by
    have given : (table false).idOf [.null, .integer 3] = .ok 3 := rfl
    have checked : (table false).checkRow (row 3) = .ok () := rfl
    have apart : (table false).checkUnique (row 3) none = .ok () := rfl
    have following : addChecked 3 1 = some 4 := by decide
    exact Table.insert_of given checked rfl apart following
  have before := ranks false
  have unmoved := before.moved_behind_last (q := 3) (by decide)
  exact ⟨rfl, rfl, (sound false).insert inserted,
    before.insert_last Nat.one_pos (by decide) unmoved inserted rfl⟩

theorem reads_third : longerSession.view.Reads (registration false).layout 3 (read 3) :=
  ⟨_, rfl, rfl⟩

end Declared

/-- The last of three records goes to the first place, by a save with the first position or by two
moves up. -/
theorem Registry.save_agrees_with_moves_of_three : ∃ r' saved s₁ t₁ moved s₂,
    (Declared.read 3).set "position" (.integer 1) = .ok r' ∧
    ((Declared.registry false).save r').run Declared.longerSession = (.ok saved, s₁) ∧
    s₁.view.Ranked (Declared.registration false).layout 1 t₁ [3, 1, 2] ∧
    (Ranking.repeatedly Declared.ranking.moveUp 2 (Declared.read 3)).run Declared.longerSession =
      (.ok moved, s₂) ∧
    s₂.view = s₁.view := by
  have positions : (Declared.registration false).Positions Declared.ranking :=
    ⟨rfl, by decide, by decide⟩
  obtain ⟨r', saved, s₁, t₁, set, saves, ranked, ups, _⟩ :=
    save_agrees_with_moves (Declared.registered false) positions rfl (.idle 0)
      Declared.ranked_longer (i := 2) rfl Declared.reads_third (j := 0) (q := 1) (by decide) rfl
  obtain ⟨moved, s₂, ran, same⟩ := ups (by decide)
  exact ⟨r', saved, s₁, t₁, moved, s₂, set, saves, ranked, ran, same⟩

end RankedStore
