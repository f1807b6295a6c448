import RankedStore.Proofs.Constraints
import RankedStore.Proofs.Snapshot

/-! What becomes of floats in a snapshot. Those that are not finite are written as NULL, and the
others as decimals that are not always read as the same float. So a table that meets its constraints
may not meet them after it is read back: a cell that must not be NULL is, or two floats of a unique
column have become one. -/
namespace RankedStore

namespace Value

variable {v w : Value}

theorem reread_cases (v : Value) :
    (∃ x, v = .float x ∧ x.isFinite = true ∧ v.reread = .float x.reread) ∨
    (∃ x, v = .float x ∧ x.isFinite = false ∧ v.reread = .null) ∨ (∀ x, v ≠ .float x) ∧
      v.reread = v := by
  cases v with
  | float x =>
    cases finite : x.isFinite with
    | true => exact .inl ⟨x, rfl, finite, reread_float finite⟩
    | false => exact .inr (.inl ⟨x, rfl, finite, reread_infinite finite⟩)
  | null | boolean b | integer n | text s => exact .inr (.inr ⟨nofun, rfl⟩)

theorem admits_reread {t : ColumnType} (admits : t.admits v = true) : t.admits v.reread = true := by
  rcases reread_cases v with ⟨x, rfl, _, read⟩ | ⟨x, rfl, _, read⟩ | ⟨_, read⟩ <;> rw [read]
  · cases t <;> first | rfl | cases admits
  · cases t <;> rfl
  · exact admits

theorem reread_eq_null (lost : v.reread = .null) :
    v = .null ∨ ∃ x, v = .float x ∧ x.isFinite = false := by
  rcases reread_cases v with ⟨x, rfl, _, read⟩ | ⟨x, rfl, infinite, _⟩ | ⟨_, read⟩
  · cases read.symm.trans lost
  · exact .inr ⟨x, rfl, infinite⟩
  · exact .inl (read.symm.trans lost)

/-- Two values that become one were the same, unless they are floats. -/
theorem eq_of_reread_eq (same : v.reread = w.reread) (known : v.reread.isNull = false) :
    v = w ∨ ∃ x y, v = .float x ∧ w = .float y ∧ x.isFinite = true ∧ y.isFinite = true ∧
    x.reread = y.reread := by
  rcases reread_cases v with ⟨x, rfl, finite, read⟩ | ⟨x, rfl, infinite, read⟩ | ⟨other, read⟩ <;>
    rw [read] at same known <;>
    rcases reread_cases w with ⟨y, rfl, finite', read'⟩ | ⟨y, rfl, infinite', read'⟩ | ⟨other',
      read'⟩ <;>
    rw [read'] at same
  case inl.inl => exact .inr ⟨x, y, rfl, rfl, finite, finite', float.inj same⟩
  case inl.inr.inl => cases same
  case inl.inr.inr => exact absurd same.symm (other' _)
  case inr.inl.inl | inr.inl.inr.inl | inr.inl.inr.inr => cases known
  case inr.inr.inl => exact absurd same (other _)
  case inr.inr.inr.inl =>
    rw [same] at known
    cases known
  case inr.inr.inr.inr => exact .inl same

end Value

namespace Table

variable {t : Table} {id : Int64} {row : Row}

theorem get?_reread (t : Table) (id : Int64) :
    t.reread.get? id = (t.get? id).map (·.map Value.reread) :=
  Dict.get?_mapValues _ t.rows id

theorem row_of_reread (stored : t.reread.get? id = some row) :
    ∃ old, t.get? id = some old ∧ old.map Value.reread = row := by
  rwa [get?_reread, Option.map_eq_some_iff] at stored

/-- Where NULL is not admitted there are only finite numbers, and in a unique column only floats
that are read as different ones. -/
structure Withstands (t : Table) : Prop where
  known : ∀ id row (i : Nat) c x, t.get? id = some row → t.columns[i]? = some c →
    row[i]? = some (.float x) → x.isFinite = false → c.nullable = true
  apart : ∀ id row key other (i : Nat) c x y, t.get? id = some row → t.get? key = some other →
    id ≠ key → t.columns[i]? = some c → c.unique = true → row[i]? = some (.float x) →
    other[i]? = some (.float y) → x.isFinite = true → y.isFinite = true → x.reread ≠ y.reread

theorem Constrained.reread (constrained : t.Constrained) (withstands : t.Withstands) :
    t.reread.Constrained where
  width id row stored := by
    obtain ⟨row, there, rfl⟩ := row_of_reread stored
    rw [List.length_map]
    exact constrained.width id row there
  admitted id row i c v stored column cell := by
    obtain ⟨row, there, rfl⟩ := row_of_reread stored
    rw [List.getElem?_map, Option.map_eq_some_iff] at cell
    obtain ⟨w, cell, rfl⟩ := cell
    obtain ⟨admits, null⟩ := constrained.admitted id row i c w there column cell
    refine ⟨Value.admits_reread admits, fun lost => ?_⟩
    rcases Value.reread_eq_null lost with same | ⟨x, rfl, infinite⟩
    · exact null same
    · exact withstands.known id row i c x there column cell infinite
  apart id row key other stored stored' ne := by
    obtain ⟨row, there, rfl⟩ := row_of_reread stored
    obtain ⟨other, there', rfl⟩ := row_of_reread stored'
    intro i c v column unique cell known cell'
    rw [List.getElem?_map, Option.map_eq_some_iff] at cell cell'
    obtain ⟨w, cell, rfl⟩ := cell
    obtain ⟨w', cell', same⟩ := cell'
    rcases Value.eq_of_reread_eq same.symm known with rfl | ⟨x, y, rfl, rfl, finite, finite', same⟩
    · have known : w.isNull = false := by
        cases w <;> first | rfl | exact known
      exact constrained.apart id row key other there there' ne i c w column unique cell known cell'
    · exact withstands.apart id row key other i c x y there there' ne column unique cell cell'
        finite finite' same
  below id row stored := by
    obtain ⟨row, there, rfl⟩ := row_of_reread stored
    exact constrained.below id row there

theorem Constrained.withstands (constrained : t.reread.Constrained) : t.Withstands := by
  have read : ∀ {id row}, t.get? id = some row →
    t.reread.get? id = some (row.map Value.reread) := by
    intro id row stored
    rw [get?_reread, stored, Option.map_some]
  have cells : ∀ {row : Row} {i : Nat} {x}, row[i]? = some (.float x) →
      (row.map Value.reread)[i]? = some (Value.float x).reread := by
    intro row i x cell
    rw [List.getElem?_map, cell, Option.map_some]
  constructor
  case known =>
    intro id row i c x stored column cell infinite
    have lost := cells cell
    rw [Value.reread_infinite infinite] at lost
    exact (constrained.admitted id _ i c .null (read stored) column lost).2 rfl
  case apart =>
    intro id row key other i c x y stored stored' ne column unique cell cell' finite finite' same
    have first := cells cell
    have second := cells cell'
    rw [Value.reread_float finite] at first
    rw [Value.reread_float finite', ← same] at second
    exact constrained.apart id _ key _ (read stored) (read stored') ne i c _ column unique first
      rfl second

/-- A table that meets its constraints meets them again if its floats withstand it, and not
otherwise. -/
theorem Constrained.reread_iff (constrained : t.Constrained) :
    t.reread.Constrained ↔ t.Withstands :=
  ⟨fun again => again.withstands, constrained.reread⟩

end Table

namespace Catalog

variable {c : Catalog}

theorem Constrained.reread_iff (constrained : c.Constrained) :
    c.reread.Constrained ↔ c.All Table.Withstands := by
  have read : ∀ name, c.reread.tables.get? name = (c.tables.get? name).map Table.reread :=
    Dict.get?_mapValues Table.reread c.tables
  constructor
  · intro again name t stored
    have stored' : c.reread.tables.get? name = some t.reread := by
      rw [read, stored, Option.map_some]
    exact (constrained name t stored).reread_iff.mp (again name t.reread stored')
  · intro withstands name t stored
    rw [read, Option.map_eq_some_iff] at stored
    obtain ⟨t, stored, rfl⟩ := stored
    exact (constrained name t stored).reread_iff.mpr (withstands name t stored)

end Catalog

/-- A number whose decimal has digits that are a float, and a power of ten that is one. -/
def Binary64.Short (x : Binary64) : Prop :=
  (Json.Numeral.ofFloat x).significand < 2 ^ 53 ∧ (Json.Numeral.ofFloat x).shift.natAbs ≤ 22

theorem Binary64.Short.kept {x : Binary64} (short : x.Short) (finite : x.isFinite = true) :
    x.Kept :=
  ⟨finite, Json.Numeral.reread_of_short finite short.1 short.2⟩

namespace Snapshot

/-- Whatever tables a snapshot is taken of, it is read, with each float read from its decimal and
with NULL for each that is not finite. The tables are those of the snapshot only if all floats are
kept, as short numbers are. Tables that meet their constraints meet them again only if their floats
withstand it. -/
theorem floats_reread (createdAt : UInt64) (c : Catalog) :
    readOrEmpty (some (write createdAt.toNat c)) = .ok c.reread ∧
      (c.reread = c ↔ ∀ t ∈ c.tables.values, ∀ row ∈ t.rows.values, ∀ x, .float x ∈ row → x.Kept) ∧
      (∀ x : Binary64, x.isFinite = true → x.Short → x.Kept) ∧
      (c.Constrained → (c.reread.Constrained ↔ c.All Table.Withstands)) :=
  ⟨read_write createdAt c, Catalog.reread_eq_self, fun _ finite short => short.kept finite,
    Catalog.Constrained.reread_iff⟩

/-- A column that holds neither NULL nor a value twice, with a float that is not finite and two
neighbors. -/
def readings : List Store.Step :=
  [.connect "a",
    .ask "a" (.createTable ⟨"t",
    [.id, { name := "x", type := .float, nullable := false, unique := true }]⟩),
    .ask "a" (.insert "t" [.null, .float (.quietNaN false)]),
    .ask "a" (.insert "t" [.null, .float ⟨0x40a038f044e18dd7⟩]),
    .ask "a" (.insert "t" [.null, .float ⟨0x40a038f044e18dd8⟩])]

/-- Two of the three floats are not read as they were written, and their rows no longer meet the
constraints. -/
theorem floats_are_lost :
    ∃ c t c' t', c = ((Store.ofCatalog .empty).play readings).committed.catalog ∧
      c.tables.get? "t" = some t ∧ t.Constrained ∧
      t.rows.values =
        [[.integer 1, .float (.quietNaN false)], [.integer 2, .float ⟨0x40a038f044e18dd7⟩],
        [.integer 3, .float ⟨0x40a038f044e18dd8⟩]] ∧
      readOrEmpty (some (write (0 : UInt64).toNat c)) = .ok c' ∧
      c'.tables.get? "t" = some t' ∧ ¬ t'.Constrained ∧
      t'.rows.values = [[.integer 1, .null], [.integer 2, .float ⟨0x40a038f044e18dd7⟩],
        [.integer 3, .float ⟨0x40a038f044e18dd7⟩]] := by
  let columns : Columns := [.id, { name := "x", type := .float, nullable := false, unique := true }]
  let rows : List (Int64 × Row) := [(1, [.integer 1, .float (.quietNaN false)]),
    (2, [.integer 2, .float ⟨0x40a038f044e18dd7⟩]), (3, [.integer 3, .float ⟨0x40a038f044e18dd8⟩])]
  let t : Table := ⟨⟨"t", columns⟩, ⟨rows, by decide⟩, 4⟩
  have stored : ((Store.ofCatalog .empty).play readings).committed.catalog.tables.get? "t" =
    some t := by
    decide +kernel
  have constrained : t.Constrained :=
    (Store.Layered.admissible_play (.ofCatalog .empty) readings
      (by decide +kernel)).committed.constrained "t" t stored
  refine ⟨_, t, _, t.reread, rfl, stored, constrained, rfl, read_write 0 _, ?_,
    ?_, by decide +kernel⟩
  · exact (Dict.get?_mapValues ..).trans (congrArg (Option.map Table.reread) stored)
  · intro again
    have nullable := again.withstands.known 1 [.integer 1, .float (.quietNaN false)] 1 _ _ rfl
      rfl rfl rfl
    cases nullable

end Snapshot
end RankedStore
