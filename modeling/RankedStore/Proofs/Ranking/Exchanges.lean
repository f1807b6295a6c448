import RankedStore.Proofs.Ranking.Spacing

/-! Exchanging, moving and renumbering records whose positions have gaps between them. -/
namespace RankedStore.Ranking

open RankedStore.Action

variable {k : Ranking} {layout : TableLayout} {p : Nat} {c : Catalog} {t : Table} {r other : Record}

/-- Setting the position of a stored record. -/
theorem setPosition_tries (fits : k.Fits layout p) (positioned : c.Positioned layout p t)
    (id m : Int64) :
    Tries Table.Grown (updateById k.entity id k.column (.integer m)) c fun _ c' =>
      t.position? p id ≠ none ∧ ∃ t', c'.Positioned layout p t' ∧
        ∀ key, t'.position? p key = if key = id then some m.toInt else t.position? p key := by
  have stable := Table.grown_stable
  have holds : t.layout.RanksBy k.column p := positioned.same ▸ fits.holds
  have found : c.tables.get? k.entity = some t := fits.entity ▸ positioned.found
  cases stored : t.get? id with
  | none =>
    refine .ofTracked stable (updateById_missing (Catalog.table_eq_ok.mpr found) stored) ?_
    rintro _ ⟨⟩
  | some row =>
    obtain ⟨w, sets⟩ := setPosition_tracked found positioned.sound holds stored m
    obtain ⟨n, cell⟩ := positioned.known id row stored
    have moved := Table.Moved.ofSet (p := p) (m := m) stored
    have written : (row.set p (.integer m))[p]? = some (.integer m) :=
      List.getElem?_set_self (List.getElem?_eq_some_iff.mp cell).1
    have position := t.position?_insert id t.nextId written
    generalize ({ t with rows := t.rows.insert id (row.set p (.integer m)) } : Table) = t'
      at sets moved position
    have positioned' := positioned.moved fits.holds moved
    rw [fits.entity] at positioned'
    refine .ofTracked stable sets fun _ _ => ⟨?_, t', positioned', position⟩
    rw [Table.position?_of stored cell]
    rintro ⟨⟩

/-- Both records are stored with the positions that they have, and then each with that of the other
one. -/
def Exchanged (k : Ranking) (p : Nat) (t : Table) (r other : Record) (t' : Table) : Prop :=
  ∃ id otherId n m, r.id = some id ∧ other.id = some otherId ∧
    k.positionOf r = .ok n ∧ k.positionOf other = .ok m ∧
    t.position? p id = some n.toInt ∧ t.position? p otherId = some m.toInt ∧
    ∀ key, t'.position? p key = t.position? p (exchange id otherId key)

theorem Current.position {id n : Int64} (current : k.Current p t r) (known : t.Known p)
    (persisted : r.id = some id) (there : t.position? p id ≠ none)
    (position : k.positionOf r = .ok n) :
    t.position? p id = some n.toInt := by
  obtain ⟨m, placed⟩ := Option.ne_none_iff_exists'.mp there
  obtain ⟨row, _, stored, _⟩ := known.row_of_position placed
  obtain ⟨n', cell, value⟩ := current id row persisted stored
  have own := (positionOf_eq_ok position).1
  obtain rfl : n' = n := Except.ok.inj ((positionOf_eq own persisted value).symm.trans position)
  exact Table.position?_of stored cell

theorem exchange_exchanges (fits : k.Fits layout p) (positioned : c.Positioned layout p t)
    (current : k.Current p t r) (current' : k.Current p t other) :
    Completes Table.Grown (k.exchangeRows r other) c fun result c' => Fit result.1 result.2 ∧
      ∃ t', c'.Positioned layout p t' ∧ k.Exchanged p t r other t' := by
  have stable := Table.grown_stable
  apply exchangeRows_of stable (Q := fun layout' rows c' => Fit layout' rows ∧
    ∃ t', c'.Positioned layout p t' ∧ k.Exchanged p t r other t')
  intro n m id otherId t₀ position position' persisted persisted' found
  have table : c.table k.entity = .ok t := Catalog.table_eq_ok.mpr (fits.entity ▸ positioned.found)
  obtain rfl : t = t₀ := Except.ok.inj (table.symm.trans found)
  refine .bind stable (setPosition_tries fits positioned id m) ?_
  rintro _ c₁ ⟨there, t₁, positioned₁, first⟩
  refine .bind stable (setPosition_tries fits positioned₁ otherId n) ?_
  rintro _ c₂ ⟨there₁, t₂, positioned₂, second⟩
  have there' : t.position? p otherId ≠ none := by
    rw [first] at there₁
    split at there₁
    case isTrue same => rwa [same]
    case isFalse => exact there₁
  have placed := current.position positioned.known persisted there position
  have placed' := current'.position positioned.known persisted' there' position'
  have exchanged : k.Exchanged p t r other t₂ := by
    refine ⟨id, otherId, n, m, persisted, persisted', position, position', placed, placed',
      fun key => ?_⟩
    rw [second, first, exchange_eq placed placed']
  have widths : ∀ key row, t₂.get? key = some row → row.length = t.layout.columns.length := by
    intro key row stored
    rw [positioned₂.sound.width stored, Table.columns, positioned₂.same, positioned.same]
  have wide : k.Wide t.layout [id, otherId] c₂ := by
    refine ⟨t₂, fits.entity ▸ positioned₂.found, ?_, fun key _ => widths key⟩
    rw [positioned₂.same, positioned.same]
  refine .bind stable (fetch_wide stable wide (by simp)) ?_
  rintro row _ ⟨rfl, width⟩
  refine .bind stable (fetch_wide stable wide (by simp)) ?_
  rintro otherRow _ ⟨rfl, otherWidth⟩
  exact .pure stable ⟨⟨width, otherWidth⟩, t₂, positioned₂, exchanged⟩

theorem swap_continues (fits : k.Fits layout p) (spaced : c.Spaced layout p t)
    (current : k.Current p t r) (current' : k.Current p t other) :
    Completes Table.Grown (k.swap r other) c fun _ c' =>
      c'.Continues layout p t fun id => r.id = some id ∨ other.id = some id := by
  apply swap_of
  refine (exchange_exchanges fits spaced.toPositioned current current').weaken ?_
  rintro result c' ⟨fit, t', positioned, id, otherId, n, m, persisted, persisted', _, _, placed,
    placed', position⟩
  obtain ⟨apart, order⟩ := spaced.spaced.swap id otherId
  rw [← funext position] at apart order
  refine ⟨fit, t', ⟨positioned, apart⟩, order.mono ?_⟩
  rintro key (rfl | rfl)
  · exact .inl persisted
  · exact .inr persisted'

/-- A move by one place names one record, and disturbs the order of no others. -/
theorem step_continues (fits : k.Fits layout p) (spaced : c.Spaced layout p t)
    (current : k.Current p t r) (e : Extremum) (already alone : Error.Precondition) :
    Completes Table.Grown (k.step e already alone r) c fun _ c' =>
      c'.Continues layout p t fun id => r.id = some id := by
  have stable := Table.grown_stable
  have ends : Looks (k.atEnd e r) :=
    .bind (.ofExcept _) fun _ => .bind (k.extremum_looks e) fun _ => .pure _
  cases position : k.positionOf r with
  | error error =>
    have near : Tracked (k.beside e r) c (.error error) c [] := .bind_error (.ofExcept position)
    apply move_of stable already alone ends near
    rintro _ ⟨⟩
  | ok n =>
    obtain ⟨result, found, _, nearest⟩ :=
      neighbor_tracked fits spaced.toPositioned (towards e) n (outwards e)
    have near : Tracked (k.beside e r) c (.ok result) c [] := .after (.ofExcept position) found
    apply move_of stable already alone ends near
    intro other here
    obtain ⟨otherId, m, ⟨⟨_, persisted', value, placed'⟩, _⟩, accepted, closest⟩ :=
      nearest other (Except.ok.inj here)
    have current' : k.Current p t other := by
      intro key row persisted stored
      obtain rfl : otherId = key := Option.some.inj (persisted'.symm.trans persisted)
      obtain ⟨x, cell⟩ := spaced.known otherId row stored
      rw [Table.position?_of stored cell, Option.some.injEq, Int64.toInt_inj] at placed'
      exact ⟨m, placed' ▸ cell, value⟩
    apply swap_of
    refine (exchange_exchanges fits spaced.toPositioned current current').weaken ?_
    rintro rows c' ⟨fit, t', positioned, id, key, n', m', persisted, same, position', _, placed,
      _, moved⟩
    obtain rfl : n = n' := Except.ok.inj (position.symm.trans position')
    obtain rfl : otherId = key := Option.some.inj (persisted'.symm.trans same)
    have apart := (spaced.spaced.swap id otherId).1
    have order : Undisturbed (· = id) (t.position? p)
        fun key => t.position? p (exchange id otherId key) := by
      apply spaced.spaced.swap_adjacent placed placed'
      intro key l there
      have farther := closest key l there
      rw [accepts_towards] at accepted farther
      cases e <;> simp only [outwards, decide_eq_true_eq] at accepted farther <;> omega
    rw [← funext moved] at apart order
    refine ⟨fit, t', ⟨positioned, apart⟩, order.mono ?_⟩
    rintro _ rfl
    exact persisted

/-- Records of rows, each with the position that is stored for it, in the order of these. -/
structure Lists (k : Ranking) (p : Nat) (t : Table) (records : List Record) : Prop where
  stored : ∀ r ∈ records, ∃ id n, k.Stands p t r id n
  ascending : records.Pairwise fun a b => ∀ m n, a.integer? k.column = some m →
    b.integer? k.column = some n → m.toInt < n.toInt

namespace Lists

variable {rest : List Record} {id n expected : Int64} {t₁ : Table}

theorem apart (lists : k.Lists p t (r :: rest)) (persisted : r.id = some id) :
    ∀ r' ∈ rest, r'.id ≠ some id := by
  intro r' member same
  obtain ⟨_, n, _, persisted₁, value, placed⟩ := lists.stored r (List.mem_cons_self ..)
  obtain ⟨_, n', _, persisted', value', placed'⟩ := lists.stored r' (List.mem_cons_of_mem _ member)
  cases persisted.symm.trans persisted₁
  cases same.symm.trans persisted'
  have ascends := (List.pairwise_cons.mp lists.ascending).1 r' member n n' value value'
  rw [placed, Option.some.injEq] at placed'
  omega

/-- The rest of the list, in a table where no more than the position of the first record may have
been set. -/
theorem tail (lists : k.Lists p t (r :: rest)) (persisted : r.id = some id)
    (others : ∀ key, key ≠ id → t₁.position? p key = t.position? p key) : k.Lists p t₁ rest := by
  refine ⟨fun r' member => ?_, (List.pairwise_cons.mp lists.ascending).2⟩
  obtain ⟨id', n', stands⟩ := lists.stored r' (List.mem_cons_of_mem _ member)
  have other : id' ≠ id := fun same => lists.apart persisted r' member (same ▸ stands.persisted)
  exact ⟨id', n', stands.own, stands.persisted, stands.value, (others id' other).trans
    stands.placed⟩

/-- A number that is no larger than the position of the first record has a next one if there is a
record left to get it. -/
theorem next (lists : k.Lists p t (r :: rest)) (value : r.integer? k.column = some n)
    (here : expected.toInt ≤ n.toInt) (more : rest ≠ []) :
    (expected + 1).toInt = expected.toInt + 1 := by
  obtain ⟨r', rest', rfl⟩ := List.exists_cons_of_ne_nil more
  obtain ⟨_, n', stands⟩ := lists.stored r' (by simp)
  have ascends := (List.pairwise_cons.mp lists.ascending).1 r' (List.mem_cons_self ..) n n' value
    stands.value
  have greatest := n'.toInt_lt
  have least := expected.le_toInt
  have one : (1 : Int64).toInt = 1 := rfl
  rw [Int64.toInt_add, one, Int.bmod_eq_of_le (by omega) (by omega)]

end Lists

/-- Where renumbering from a number on has taken the records. -/
def Renumbered (p : Nat) (t : Table) (first : Int) (records : List Record) (t' : Table) : Prop :=
  (∀ (i : Nat) r id, records[i]? = some r → r.id = some id → t'.position? p id = some (first + i)) ∧
    ∀ id, (∀ r ∈ records, r.id ≠ some id) → t'.position? p id = t.position? p id

theorem Renumbered.cons {id : Int64} {first next : Int} {rest : List Record} {t₁ t' : Table}
    (persisted : r.id = some id) (other : ∀ r' ∈ rest, r'.id ≠ some id)
    (own : t₁.position? p id = some first)
    (others : ∀ key, key ≠ id → t₁.position? p key = t.position? p key)
    (more : rest ≠ [] → next = first + 1) (renumbered : Renumbered p t₁ next rest t') :
    Renumbered p t first (r :: rest) t' := by
  obtain ⟨listed, unlisted⟩ := renumbered
  constructor
  · intro i r' key there same
    cases i with
    | zero =>
      cases there
      obtain rfl : id = key := Option.some.inj (persisted.symm.trans same)
      rw [unlisted id other, own]
      simp
    | succ i =>
      have member : r' ∈ rest := List.mem_of_getElem? there
      have after : next + i = first + (i + 1 : Nat) := by
        rw [more (List.ne_nil_of_mem member)]
        omega
      rw [listed i r' key there same, after]
  · intro key absent
    rw [unlisted key fun r' member => absent r' (List.mem_cons_of_mem _ member)]
    apply others
    rintro rfl
    exact absent r (List.mem_cons_self ..) persisted

/-- Renumbering sets one position after the other. None of them is larger than the one that it
replaces, so the numbers do not run out. -/
theorem renumber_renumbers (fits : k.Fits layout p) {records : List Record} {expected : Int64}
    (positioned : c.Positioned layout p t) (lists : k.Lists p t records)
    (low : ∀ r ∈ records, ∀ n, r.integer? k.column = some n → expected.toInt ≤ n.toInt) :
    Tries Table.Grown (k.renumber expected records) c fun _ c' =>
      ∃ t', c'.Positioned layout p t' ∧ Renumbered p t expected.toInt records t' := by
  have stable := Table.grown_stable
  induction records generalizing expected c t with
  | nil =>
    refine .pure stable ⟨t, positioned, ?_, fun _ _ => rfl⟩
    rintro i r id ⟨⟩
  | cons r rest ih =>
    obtain ⟨id, n, _, persisted, value, placed⟩ := lists.stored r (List.mem_cons_self ..)
    have here := low r (List.mem_cons_self ..) n value
    have next := lists.next value here
    have other := lists.apart persisted
    have low' : ∀ r' ∈ rest, ∀ n', r'.integer? k.column = some n' →
      (expected + 1).toInt ≤ n'.toInt := by
      intro r' member n' value'
      have ascends := (List.pairwise_cons.mp lists.ascending).1 r' member n n' value value'
      rw [next (List.ne_nil_of_mem member)]
      omega
    unfold renumber
    split
    case isTrue same =>
      obtain rfl : n = expected := Option.some.inj (value.symm.trans same)
      have others : ∀ key, key ≠ id → t.position? p key = t.position? p key := fun _ _ => rfl
      refine (ih positioned (lists.tail persisted others) low').weaken ?_
      rintro _ c' ⟨t', positioned', renumbered⟩
      exact ⟨t', positioned', renumbered.cons persisted other placed others next⟩
    case isFalse =>
      have own : r.requireId = .ok id := by rw [Record.requireId, persisted]
      refine .after stable (.ofExcept own) ?_
      rintro _ ⟨⟩
      refine .bind stable (setPosition_tries fits positioned id expected) ?_
      rintro _ c₁ ⟨_, t₁, positioned₁, position⟩
      have others : ∀ key, key ≠ id → t₁.position? p key = t.position? p key :=
        fun key apart => by rw [position, if_neg apart]
      refine .bind stable (ih positioned₁ (lists.tail persisted others) low') ?_
      rintro count c' ⟨t', positioned', renumbered⟩
      have set : t₁.position? p id = some expected.toInt := by rw [position, if_pos rfl]
      exact .pure stable ⟨t', positioned', renumbered.cons persisted other set others next⟩

/-- All records, with their positions in strict order. -/
theorem ordered_lists (fits : k.Fits layout p) (separated : c.Separated layout p t) :
    ∃ records, Tracked k.ordered c (.ok records) c [] ∧ k.Lists p t records ∧
      ∀ r, r ∈ records ↔ ∃ id n, k.Taken layout p t r id n := by
  obtain ⟨rows, records, read, count, perm, ascending, alike⟩ :=
    ordered_seen fits separated.toPositioned
  have apart : (rows.map (Table.integerAt p)).Nodup :=
    (perm.map _).nodup_iff.mpr (separated.known.positions_nodup separated.apart)
  have sound : ∀ r ∈ records, ∃ id n, k.Taken layout p t r id n := by
    intro r member
    obtain ⟨i, there⟩ := List.getElem?_of_mem member
    obtain ⟨_, _, _, id, n, _, taken⟩ := alike i r there
    exact ⟨id, n, taken⟩
  refine ⟨records, read, ⟨?_, ?_⟩, fun r => ⟨sound r, ?_⟩⟩
  · intro r member
    obtain ⟨id, n, taken⟩ := sound r member
    exact ⟨id, n, taken.toStands⟩
  · refine List.pairwise_iff_getElem.mpr fun i j here there lt m n value value' => ?_
    obtain ⟨row, from_row, _, _, m', cell, taken⟩ := alike i _ (List.getElem?_eq_getElem here)
    obtain ⟨row', from_row', _, _, n', cell', taken'⟩ := alike j _ (List.getElem?_eq_getElem there)
    obtain rfl : m' = m := Option.some.inj (taken.value.symm.trans value)
    obtain rfl : n' = n := Option.some.inj (taken'.value.symm.trans value')
    obtain ⟨bound, rfl⟩ := List.getElem?_eq_some_iff.mp from_row
    obtain ⟨bound', rfl⟩ := List.getElem?_eq_some_iff.mp from_row'
    have le := List.pairwise_iff_getElem.mp (List.pairwise_map.mp ascending) i j bound bound' lt
    have ne := List.pairwise_iff_getElem.mp (List.pairwise_map.mp apart) i j bound bound' lt
    rw [Table.integerAt_eq cell, Table.integerAt_eq cell'] at le ne
    omega
  · -- A record that is taken from a row is the one that was read at the index of this row.
    rintro ⟨id, n, _, row, stored, taken⟩
    obtain ⟨i, there⟩ := List.getElem?_of_mem (perm.mem_iff.mpr (Dict.mem_values.mpr ⟨id, stored⟩))
    have bound : i < records.length := by
      rw [count]
      exact (List.getElem?_eq_some_iff.mp there).1
    obtain ⟨_, there', read', _⟩ := alike i records[i] (List.getElem?_eq_getElem bound)
    cases there.symm.trans there'
    cases taken.symm.trans read'
    exact List.getElem_mem bound

/-- The ids of listed records. -/
theorem Lists.entry {records : List Record} (lists : k.Lists p t records) {i : Nat} {id : Int64}
    (there : (records.map fun r => r.id.getD 0)[i]? = some id) :
    ∃ r, records[i]? = some r ∧ r.id = some id ∧ ∃ n, r.integer? k.column = some n ∧
      t.position? p id = some n.toInt := by
  rw [List.getElem?_map, Option.map_eq_some_iff] at there
  obtain ⟨r, here, rfl⟩ := there
  obtain ⟨id, n, _, persisted, value, placed⟩ := lists.stored r (List.mem_of_getElem? here)
  rw [persisted, Option.getD_some]
  exact ⟨r, here, persisted, n, value, placed⟩

theorem Renumbered.spaced {records : List Record} {t' : Table} (lists : k.Lists p t records)
    (complete : ∀ id m, t.position? p id = some m → ∃ r ∈ records, r.id = some id)
    (renumbered : Renumbered p t 1 records t') : RankedStore.Spaced (t'.position? p) ∧
      Undisturbed (fun _ => False) (t.position? p) (t'.position? p) := by
  obtain ⟨listed, unlisted⟩ := renumbered
  apply Spaced.renumbered (records.map fun r => r.id.getD 0)
  · intro id m placed
    obtain ⟨r, member, persisted⟩ := complete id m placed
    exact List.mem_map.mpr ⟨r, member, by rw [persisted, Option.getD_some]⟩
  · intro i id there
    obtain ⟨r, here, persisted, n, _, placed⟩ := lists.entry there
    refine ⟨?_, n.toInt, placed⟩
    rw [listed i r id here persisted, Int.add_comm]
  · intro i j a b m n there there' at_a at_b lt
    obtain ⟨r, here, _, m', value, placed⟩ := lists.entry there
    obtain ⟨r', here', _, n', value', placed'⟩ := lists.entry there'
    rw [at_a, Option.some.injEq] at placed
    rw [at_b, Option.some.injEq] at placed'
    obtain ⟨bound, rfl⟩ := List.getElem?_eq_some_iff.mp here
    obtain ⟨bound', rfl⟩ := List.getElem?_eq_some_iff.mp here'
    have ascends := List.pairwise_iff_getElem.mp lists.ascending i j bound bound' lt m' n'
      value value'
    omega
  · intro id missing
    have absent : ∀ r ∈ records, r.id ≠ some id := fun r member persisted =>
      missing (List.mem_map.mpr ⟨r, member, by rw [persisted, Option.getD_some]⟩)
    rw [unlisted id absent]
    cases placed : t.position? p id with
    | none => rfl
    | some m =>
      obtain ⟨r, member, persisted⟩ := complete id m placed
      exact absurd persisted (absent r member)

/-- Renumbering names no record, and all stay in their order. -/
theorem compact_continues (fits : k.Fits layout p) (spaced : c.Spaced layout p t) :
    Completes Table.Grown k.compact c fun _ c' => c'.Continues layout p t fun _ => False := by
  have stable := Table.grown_stable
  obtain ⟨records, read, lists, every⟩ := ordered_lists fits spaced.separated
  have complete : ∀ id m, t.position? p id = some m → ∃ r ∈ records, r.id = some id := by
    intro id m placed
    obtain ⟨row, n, stored, cell, _⟩ := spaced.known.row_of_position placed
    obtain ⟨r, _, taken⟩ := Taken.ofRow fits spaced.toPositioned stored cell
    exact ⟨r, (every r).mpr ⟨id, n, taken⟩, taken.persisted⟩
  have low : ∀ r ∈ records, ∀ n, r.integer? k.column = some n → (1 : Int64).toInt ≤ n.toInt := by
    intro r member n value
    obtain ⟨id, n', stands⟩ := lists.stored r member
    obtain rfl : n' = n := Option.some.inj (stands.value.symm.trans value)
    exact spaced.spaced.positive id _ stands.placed
  have body := (renumber_renumbers fits spaced.toPositioned lists low).transactional stable
  refine .after stable read ?_
  rintro _ ⟨⟩
  refine .followed body ?_
  rintro count c' ⟨t', positioned, renumbered⟩
  obtain ⟨apart, order⟩ := renumbered.spaced lists complete
  exact ⟨count, fun d => .after (.report ..) (.pure ..), t', ⟨positioned, apart⟩, order⟩

end RankedStore.Ranking
