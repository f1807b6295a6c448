import RankedStore.Proofs.Ranking.Reorder

/-! What an exchange of two records writes. Each row gets the position that the other record has in
memory, so the stored positions change places just if both records know them. -/
namespace RankedStore

open RankedStore.Action

/-- Two rows have got new values at one place, and all else is as it was. -/
structure Catalog.Rewrites (c : Catalog) (name : String) (p : Nat) (id otherId : Int64)
    (v w : Value) (c' : Catalog) : Prop where
  first : ∃ row, c.row? name id = some row ∧ c'.row? name id = some (row.set p v)
  second : ∃ row, c.row? name otherId = some row ∧ c'.row? name otherId = some (row.set p w)
  others : ∀ name' key, ¬ (name' = name ∧ (key = id ∨ key = otherId)) →
    c'.row? name' key = c.row? name' key

theorem Record.load_eq_ofRow {r : Record} {layout : TableLayout} {row : Row}
    (own : r.entity = layout.name) :
    r.load layout row = Record.ofRow layout row := by
  rw [Record.ofRow, load, load, own]
  rfl

theorem Catalog.Reads.clean {c : Catalog} {layout : TableLayout} {id : Int64} {r : Record}
    (reads : c.Reads layout id r) : r.isDirty = false := by
  obtain ⟨_, _, read⟩ := reads
  exact Record.ofRow_clean read

namespace Ranking

variable {ρ : Table → Table → Prop} {k : Ranking} {layout : TableLayout} {p : Nat} {c : Catalog}
  {r other : Record} {id otherId : Int64}

theorem integer?_of_positionOf {n : Int64} (position : k.positionOf r = .ok n) :
    r.entity = k.entity ∧ r.integer? k.column = some n := by
  have own := (positionOf_eq_ok position).1
  obtain ⟨_, _, position⟩ := Except.bind_eq_ok position
  obtain ⟨_, _, position⟩ := Except.bind_eq_ok position
  constructor
  · exact own
  · split at position
    case h_1 found =>
      cases position
      exact found
    case h_2 => cases position

/-- A position that was written is there, if the row can be read. -/
theorem positionAt_of_set {row : Row} {v : Value} (place : layout.index k.column = .ok p)
    (written : c.row? layout.name id = some (row.set p v)) (reads : c.Reads layout id r) :
    k.positionAt layout c id = some v := by
  obtain ⟨col, column, _⟩ := TableLayout.column_of_index place
  obtain ⟨row', stored, read⟩ := reads
  cases written.symm.trans stored
  have width := (Record.ofRow_eq_ok read).1
  have bound : p < row.length := by
    rw [← List.length_set, width]
    exact (List.getElem?_eq_some_iff.mp column).1
  rw [positionAt, written, Option.bind_some, positionIn, Table.index?_eq place, Option.bind_some,
    List.getElem?_set_self bound]

/-- Setting the position of one row. -/
theorem setPosition_rewrites (stable : Table.Stable ρ) (wide : k.Wide layout [] c)
    (place : layout.index k.column = .ok p) (id : Int64) (v : Value) :
    Tries ρ (updateById k.entity id k.column v) c fun _ c' => k.Wide layout [] c' ∧
      (∃ row, c.row? k.entity id = some row ∧ c'.row? k.entity id = some (row.set p v)) ∧
      ∀ name key, ¬ (name = k.entity ∧ key = id) → c'.row? name key = c.row? name key := by
  obtain ⟨t, found, same, _⟩ := wide
  rcases updateById_cases k.entity id k.column v c with
    ⟨e, failed⟩ | ⟨t₀, row, i, old, c', found₀, stored, place₀, ran, set⟩
  · apply Tries.ofTracked stable failed
    rintro _ ⟨⟩
  · obtain rfl := Except.ok.inj ((Catalog.table_eq_ok.mpr found).symm.trans found₀)
    rw [same, place, Except.ok.injEq] at place₀
    subst place₀
    apply Tries.ofTracked stable set
    rintro _ ⟨⟩
    obtain ⟨t₁, t', found₁, rfl, same', _⟩ := width_of_replace ran
    cases found.symm.trans found₁
    refine ⟨⟨t', c.get?_withTable_self k.entity t', same'.trans same, by simp⟩, ⟨row, ?_, ?_⟩, ?_⟩
    · rw [Catalog.row?_of_table found, stored]
    · exact (Catalog.replace_row? ran).1
    · exact Catalog.replace_others ran

theorem fetch_row {row : Row} (stored : c.row? k.entity id = some row) :
    Tracked (k.fetch id) c (.ok row) c [] := by
  obtain ⟨t, found, there⟩ := Option.bind_eq_some_iff.mp stored
  exact fetch_found found there

/-- What an exchange answers and leaves: the two rows, each with the position that the other record
has. -/
structure Exchanges (k : Ranking) (layout : TableLayout) (p : Nat) (id otherId : Int64)
    (r other : Record) (c : Catalog) (layout' : TableLayout) (rows : Row × Row) (c' : Catalog) :
    Prop where
  layout : layout' = layout
  first : c'.row? k.entity id = some rows.1
  second : c'.row? k.entity otherId = some rows.2
  rewrites : ∃ n m, k.positionOf r = .ok n ∧ k.positionOf other = .ok m ∧
    c.Rewrites k.entity p id otherId (.integer m) (.integer n) c'

theorem exchange_rewrites (stable : Table.Stable ρ) (wide : k.Wide layout [] c)
    (place : layout.index k.column = .ok p) (persisted : r.id = some id)
    (persisted' : other.id = some otherId) (apart : id ≠ otherId) :
    Completes ρ (k.exchangeRows r other) c fun result c' =>
      k.Exchanges layout p id otherId r other c result.1 result.2 c' := by
  apply exchangeRows_of stable
  intro n m id' otherId' t position position' own own' found
  cases persisted.symm.trans own
  cases persisted'.symm.trans own'
  have same : t.layout = layout := by
    obtain ⟨t₀, found₀, same, _⟩ := wide
    cases (Catalog.table_eq_ok.mpr found₀).symm.trans found
    exact same
  refine .bind stable (setPosition_rewrites stable wide place id _) ?_
  rintro _ c₁ ⟨wide₁, ⟨row, stored, written⟩, others⟩
  refine .bind stable (setPosition_rewrites stable wide₁ place otherId _) ?_
  rintro _ c₂ ⟨_, ⟨row', stored', written'⟩, others'⟩
  -- Neither write touches the row of the other one.
  rw [others _ _ fun both => apart both.2.symm] at stored'
  rw [← others' _ _ fun both => apart both.2] at written
  refine .after stable (fetch_row written) ?_
  rintro _ ⟨⟩
  refine .after stable (fetch_row written') ?_
  rintro _ ⟨⟩
  refine .pure stable ⟨same, written, written', n, m, position, position', ?_⟩
  constructor
  · exact ⟨row, stored, written⟩
  · exact ⟨row', stored', written'⟩
  · intro name key neither
    rw [others' name key fun both => neither ⟨both.1, .inr both.2⟩,
      others name key fun both => neither ⟨both.1, .inl both.2⟩]

/-- The same of the whole operation, which reads the two rows as records. -/
structure Swaps (k : Ranking) (layout : TableLayout) (p : Nat) (id otherId : Int64)
    (r other : Record) (c : Catalog) (records : Record × Record) (c' : Catalog) : Prop where
  rewrites : ∃ n m, r.integer? k.column = some n ∧ other.integer? k.column = some m ∧
    c.Rewrites layout.name p id otherId (.integer m) (.integer n) c'
  first : c'.Reads layout id records.1
  second : c'.Reads layout otherId records.2

theorem swap_swaps (stable : Table.Stable ρ) (entity : layout.name = k.entity)
    (wide : k.Wide layout [] c) (place : layout.index k.column = .ok p) (persisted : r.id = some id)
    (persisted' : other.id = some otherId) (apart : id ≠ otherId) :
    Completes ρ (k.swap r other) c (k.Swaps layout p id otherId r other c) := by
  have fit := k.exchangeRows_completes stable r other c
  have exchanges := exchange_rewrites stable wide place persisted persisted' apart
  refine (swap_loads (Q := k.Exchanges layout p id otherId r other c) (fit.and exchanges)).weaken ?_
  rintro ⟨loaded, otherLoaded⟩ c' ⟨layout', rows, load, load', exchanged⟩
  obtain rfl : layout = layout' := exchanged.layout.symm
  obtain ⟨n, m, position, position', rewrites⟩ := exchanged.rewrites
  obtain ⟨own, value⟩ := integer?_of_positionOf position
  obtain ⟨own', value'⟩ := integer?_of_positionOf position'
  constructor
  · exact ⟨n, m, value, value', entity ▸ rewrites⟩
  · refine ⟨rows.1, entity ▸ exchanged.first, ?_⟩
    rwa [← Record.load_eq_ofRow (own.trans entity.symm)]
  · refine ⟨rows.2, entity ▸ exchanged.second, ?_⟩
    rwa [← Record.load_eq_ofRow (own'.trans entity.symm)]

end Ranking

namespace Registry

variable {g : Registry} {schema : EntitySchema} {reg : Registration} {k : Ranking} {p : Nat}
  {t : Table} {r other loaded otherLoaded : Record} {id otherId : Int64} {s s' : Session}

/-- An exchange of two rows writes the position that each record has in memory into the row of the
other one and changes nothing else. Both records are read anew and have nothing to save. So the
stored positions are exchanged just if both records know them. -/
theorem swap_exchanges_only_current (registered : g.Registered schema reg)
    (ranking : reg.ranking = some k) (place : reg.layout.index k.column = .ok p)
    (proper : s.connection.Proper) (found : s.view.tables.get? reg.layout.name = some t)
    (same : t.layout = reg.layout) (persisted : r.id = some id)
    (persisted' : other.id = some otherId) (apart : id ≠ otherId)
    (ran : (k.swap r other).run s = (.ok (loaded, otherLoaded), s')) :
    ∃ n m, r.integer? k.column = some n ∧ other.integer? k.column = some m ∧
      s.view.Rewrites reg.layout.name p id otherId (.integer m) (.integer n) s'.view ∧
      (s'.view.Reads reg.layout id loaded ∧ loaded.isDirty = false) ∧
      (s'.view.Reads reg.layout otherId otherLoaded ∧ otherLoaded.isDirty = false) ∧
      ((k.positionAt reg.layout s'.view id = k.positionAt reg.layout s.view otherId ∧
          k.positionAt reg.layout s'.view otherId = k.positionAt reg.layout s.view id) ↔
        k.positionAt reg.layout s.view id = some (.integer n) ∧
          k.positionAt reg.layout s.view otherId = some (.integer m)) := by
  have stable := Table.grown_stable
  obtain ⟨entity, name, _⟩ := registered.place ranking
  have own : reg.layout.name = k.entity := name.trans entity.symm
  have wide : k.Wide reg.layout [] s.view := ⟨t, own ▸ found, same, by simp⟩
  obtain ⟨_, _, ran', _, _, achieved, _⟩ :=
    (Ranking.swap_swaps stable own wide place persisted persisted' apart).run stable proper
  cases ran.symm.trans ran'
  obtain ⟨⟨n, m, value, value', rewrites⟩, reads, reads'⟩ := achieved _ rfl
  obtain ⟨_, _, written⟩ := rewrites.first
  obtain ⟨_, _, written'⟩ := rewrites.second
  refine ⟨n, m, value, value', rewrites, ⟨reads, reads.clean⟩, ⟨reads', reads'.clean⟩, ?_⟩
  rw [Ranking.positionAt_of_set place written reads, Ranking.positionAt_of_set place
    written' reads']
  constructor
  · rintro ⟨first, second⟩
    exact ⟨second.symm, first.symm⟩
  · rintro ⟨first, second⟩
    exact ⟨second.symm, first.symm⟩

end Registry

/-- The first record with a position that is not saved. -/
def Declared.edited : Record :=
  { read 1 with fields := (read 1).fields.insert "position" (.integer 5) }

theorem Declared.obtained : edited.Obtained := by
  have load : (Record.ofEntity "t").load (registration false).layout [.integer 1, .integer 1] =
    .ok (read 1) := rfl
  have set : (read 1).set "position" (.integer 5) = .ok edited := rfl
  exact .changed (.loaded load) set

/-- Both records know their positions, so they change places. -/
theorem Registry.swap_exchanges_only_current_of_two : ∃ (records : Record × Record) (s' : Session),
    (Declared.ranking.swap (Declared.read 1) (Declared.read 2)).run (Declared.session false) =
      (.ok records, s') ∧
      Declared.ranking.positionAt (Declared.registration false).layout s'.view 1 =
        some (.integer 2) ∧
      Declared.ranking.positionAt (Declared.registration false).layout s'.view 2 =
        some (.integer 1) ∧
      records.1.isDirty = false ∧ s'.view.Reads (Declared.registration false).layout 2
        records.2 := by
  have ran : (Declared.ranking.swap (Declared.read 1) (Declared.read 2)).run
    (Declared.session false) =
    (.ok (_, _), _) := rfl
  obtain ⟨n, m, value, value', _, ⟨_, clean⟩, ⟨reads, _⟩, exchanged⟩ :=
    swap_exchanges_only_current (Declared.registered false) rfl (p := 1) rfl (.idle 0)
      (t := Declared.table false) rfl rfl rfl rfl (by decide) ran
  cases value
  cases value'
  obtain ⟨first, second⟩ := exchanged.mpr ⟨by decide, by decide⟩
  exact ⟨_, _, ran, first.trans (by decide), second.trans (by decide), clean, reads⟩

/-- The position 5 was not saved, and still goes into the row of the other record. -/
theorem Registry.edited_swap_stores_unsaved_position :
    ∃ (r other : Record) (records : Record × Record) (s s' : Session) (t : Table),
    s.connection.Proper ∧
      s.view.Positioned (Declared.registration false).layout 1 t ∧
      (∀ id id' m, t.position? 1 id = some m → t.position? 1 id' = some m → id = id') ∧
      r.Obtained ∧ other.Obtained ∧ r.entity = (Declared.schema false).name ∧
      other.entity = (Declared.schema false).name ∧ r.id = some 1 ∧ other.id = some 2 ∧
      (s.view.row? "t" 1).isSome ∧ (s.view.row? "t" 2).isSome ∧
      (Declared.ranking.swap r other).run s = (.ok records, s') ∧
      Declared.ranking.positionAt (Declared.registration false).layout s'.view 2 ≠
        Declared.ranking.positionAt (Declared.registration false).layout s.view 1 := by
  have ran : (Declared.ranking.swap Declared.edited (Declared.read 2)).run
    (Declared.session false) =
    (.ok _, _) := rfl
  have ranked := Declared.ranked false
  have load : (Record.ofEntity "t").load (Declared.registration false).layout
    [.integer 2, .integer 2] =
    .ok (Declared.read 2) := rfl
  exact ⟨_, _, _, _, _, Declared.table false, .idle 0, ranked.positioned, ranked.separated.apart,
    Declared.obtained, .loaded load, rfl, rfl, rfl, rfl, rfl, rfl, ran, by decide⟩

end RankedStore
