import RankedStore.Proofs.Json.Decode
import RankedStore.Proofs.Json.Reread
import RankedStore.Snapshot

/-! Snapshots are read back as they were written, floats apart. Every part of a snapshot is decoded
from the document of its text: a cell, a column, a layout, a table, all tables, each from the parts
it has. -/
namespace RankedStore

open Json Json.Decoder

/-- What a cell is read back as. -/
def Value.reread : Value → Value
  | .float x => if x.isFinite then .float x.reread else .null
  | v => v

theorem Value.reread_float {x : Binary64} (finite : x.isFinite = true) :
    (float x).reread = .float x.reread :=
  if_pos finite

theorem Value.reread_infinite {x : Binary64} (infinite : x.isFinite = false) :
    (float x).reread = .null :=
  if_neg (by simp [infinite])

/-- A float that is read back as it was written. -/
def Binary64.Kept (x : Binary64) : Prop := x.isFinite = true ∧ x.reread = x

theorem Value.reread_eq_self {v : Value} : v.reread = v ↔ ∀ x, v = .float x → x.Kept := by
  cases v with
  | float x =>
    have same : (Value.float x).reread = .float x ↔ x.Kept := by
      unfold reread Binary64.Kept
      by_cases finite : x.isFinite = true <;> simp [finite]
    rw [same]
    exact ⟨fun kept y same => Value.float.inj same ▸ kept, fun each => each x rfl⟩
  | null | boolean b | integer n | text s => exact ⟨nofun, fun _ => rfl⟩

theorem Value.rereads (depth : Nat) (v : Value) : Rereads decoder depth toJson v v.reread := by
  cases v with
  | null => exact ⟨.null, rfl⟩
  | boolean b => exact ⟨.boolean b, rfl⟩
  | text s => exact ⟨.text s, congrArg (Option.map Value.text) (stringOf?_pieces s)⟩
  | integer n =>
    refine ⟨.number n.toInt, ?_⟩
    show decoder depth (.number (Numeral.ofInt n.toInt)) = _
    simp only [decoder, reread, Numeral.number?_int64, int64?_toInt]
  | float x =>
    cases finite : x.isFinite with
    | true =>
      have written : (Value.float x).toJson = .number (.float x) := if_pos finite
      constructor
      · rw [written]
        exact .float finite
      · rw [written, reread_float finite]
        show decoder depth (.number (Numeral.ofFloat x)) = _
        simp only [decoder, Numeral.number?_ofFloat finite]
    | false =>
      have written : (Value.float x).toJson = .null := if_neg (by simp [finite])
      constructor
      · rw [written]
        exact .null
      · rw [written, reread_infinite finite]
        rfl

theorem ColumnType.restores (depth : Nat) (t : ColumnType) :
    Restores decoder depth (fun t => .text t.name) t where
  finite := .text t.name
  reads := by
    have read : choice depth (Json.text t.name).document = some (t.name, none) := by
      show (stringOf? (pieces t.name)).map (·, none) = _
      rw [stringOf?_pieces]
      rfl
    rw [decoder, read]
    cases t <;> rfl

theorem Column.restores (depth : Nat) (c : Column) : Restores decoder (depth + 1) toJson c where
  finite := by
    refine .object ?_
    simp only [List.forall_mem_cons]
    exact ⟨.text _, .text _, .boolean _, .boolean _, .boolean _, nofun⟩
  reads := by
    rw [toJson, decoder]
    refine bind_reads (members_reads rfl (by decide)) ?_
    exact bind_reads (text_restores depth c.name).reads
      (bind_reads (ColumnType.restores depth c.type).reads rfl)

theorem TableLayout.columns_restored (depth : Nat) (columns : Columns) :
    Restores decodeColumns (depth + 3)
      (fun columns => .object [("columns", .array (columns.map Column.toJson))]) columns := by
  have items : Restores (list Column.decoder) (depth + 2)
    (fun columns => .array (columns.map Column.toJson)) columns :=
    list_restores fun c _ => Column.restores depth c
  constructor
  case finite => exact .object (List.forall_mem_singleton.mpr items.finite)
  case reads =>
    rw [decodeColumns]
    exact bind_reads (members_reads rfl (by decide)) items.reads

theorem TableLayout.restores (depth : Nat) (layout : TableLayout) :
    Restores decoder (depth + 4) toJson layout := by
  have columns := columns_restored depth layout.columns
  constructor
  case finite =>
    refine .object ?_
    simp only [List.forall_mem_cons]
    exact ⟨.text _, columns.finite, nofun⟩
  case reads =>
    rw [toJson, decoder]
    refine bind_reads (members_reads rfl (by decide)) ?_
    exact bind_reads (text_restores _ layout.name).reads (bind_reads columns.reads rfl)

/-- No cell of the table holds a float. -/
def Table.FloatFree (t : Table) : Prop := ∀ row ∈ t.rows.values, ∀ x, .float x ∉ row

/-- The table that is read back. -/
def Table.reread (t : Table) : Table := { t with rows := t.rows.mapValues (·.map Value.reread) }

theorem Table.reread_eq_self {t : Table} :
    t.reread = t ↔ ∀ row ∈ t.rows.values, ∀ x, .float x ∈ row → x.Kept := by
  have same : t.reread = t ↔ t.rows.mapValues (·.map Value.reread) = t.rows :=
    ⟨congrArg rows, fun same => congrArg (fun rows => { t with rows }) same⟩
  rw [same, Dict.mapValues_eq_self]
  refine forall₂_congr fun row _ => ?_
  rw [← List.map_id row, List.map_map, List.map_inj_left, List.map_id]
  constructor
  · exact fun each x cell => Value.reread_eq_self.mp (each _ cell) x rfl
  · exact fun each v cell => Value.reread_eq_self.mpr fun x same => each x (same ▸ cell)

theorem Table.rereads (depth : Nat) (t : Table) :
    Rereads decoder (depth + 5) toJson t t.reread := by
  have layout := TableLayout.restores depth t.layout
  have nextId := int64_restores (depth + 4) t.nextId
  have rows : Rereads (dict int64Key? (list Value.decoder)) (depth + 4)
      (fun m => .object (m.entries.map fun e => (toString e.1, .array (e.2.map Value.toJson))))
        t.rows
      (t.rows.mapValues (·.map Value.reread)) :=
    dict_rereads int64Key?_pieces fun e _ => list_rereads fun v _ => Value.rereads _ v
  constructor
  case finite =>
    refine .object ?_
    simp only [List.forall_mem_cons]
    exact ⟨layout.finite, rows.finite, nextId.finite, nofun⟩
  case reads =>
    rw [toJson, decoder]
    refine bind_reads (members_reads rfl (by decide)) ?_
    exact bind_reads layout.reads (bind_reads rows.reads (bind_reads nextId.reads rfl))

/-- No cell of a table holds a float. -/
def Catalog.FloatFree (c : Catalog) : Prop := ∀ t ∈ c.tables.values, t.FloatFree

/-- The same told by the kinds of the cells, which can be decided. -/
theorem Catalog.FloatFree.of_kinds {c : Catalog}
    (kinds : ∀ t ∈ c.tables.values, ∀ row ∈ t.rows.values, ∀ v ∈ row, v.kind ≠ "FLOAT") :
    c.FloatFree :=
  fun t there row member _ cell => kinds t there row member _ cell rfl

/-- The tables that are read back. -/
def Catalog.reread (c : Catalog) : Catalog := ⟨c.tables.mapValues Table.reread⟩

theorem Catalog.reread_eq_self {c : Catalog} :
    c.reread = c ↔ ∀ t ∈ c.tables.values, ∀ row ∈ t.rows.values, ∀ x, .float x ∈ row → x.Kept := by
  have same : c.reread = c ↔ c.tables.mapValues Table.reread = c.tables :=
    ⟨congrArg tables, fun same => congrArg Catalog.mk same⟩
  rw [same, Dict.mapValues_eq_self]
  exact forall₂_congr fun t _ => Table.reread_eq_self

theorem Catalog.FloatFree.reread_eq_self {c : Catalog} (floatFree : c.FloatFree) : c.reread = c :=
  Catalog.reread_eq_self.mpr fun t there row member x cell =>
    absurd cell (floatFree t there row member x)

theorem Catalog.rereads (depth : Nat) (c : Catalog) :
    Rereads decoder (depth + 7) toJson c c.reread := by
  have tables : Rereads (dict stringOf? Table.decoder) (depth + 6)
      (fun m => .object (m.entries.map fun e => (e.1, e.2.toJson))) c.tables
        (c.tables.mapValues Table.reread) :=
    dict_rereads stringOf?_pieces fun e _ => Table.rereads depth e.2
  constructor
  case finite => exact .object (List.forall_mem_singleton.mpr tables.finite)
  case reads =>
    rw [toJson, decoder]
    refine bind_reads (members_reads rfl (by decide)) ?_
    exact bind_reads tables.reads rfl

namespace Snapshot

theorem rereads {s : Snapshot} (depth : Nat) (version : s.version < UInt32.size)
    (createdAt : s.createdAt < UInt64.size) :
    Rereads decoder (depth + 8) toJson s { s with catalog := s.catalog.reread } := by
  have version := natural_restores (depth + 7) version (by decide)
  have createdAt := natural_restores (depth + 7) createdAt (Nat.le_refl _)
  have catalog := Catalog.rereads depth s.catalog
  constructor
  case finite =>
    refine .object ?_
    simp only [List.forall_mem_cons]
    exact ⟨version.finite, createdAt.finite, catalog.finite, nofun⟩
  case reads =>
    rw [toJson, decoder]
    refine bind_reads (members_reads rfl (by decide)) ?_
    exact bind_reads version.reads (bind_reads createdAt.reads (bind_reads catalog.reads rfl))

/-- The tables that are read back from a snapshot, whatever the time it was taken at. -/
theorem read_write (createdAt : UInt64) (c : Catalog) :
    readOrEmpty (some (write createdAt.toNat c)) = .ok c.reread := by
  have version : currentVersion < UInt32.size := by decide
  have rereads : Rereads decoder nestingLimit toJson ⟨currentVersion, createdAt.toNat, c⟩ _ :=
    rereads 119 version createdAt.toNat_lt
  show read (write createdAt.toNat c) = .ok c.reread
  rw [read, write, rereads.run_pretty]
  rfl

/-- Tables without floats are read from their snapshot as they were, whatever the time it was taken
at. -/
theorem written_is_read (createdAt : UInt64) {c : Catalog} (floatFree : c.FloatFree) :
    readOrEmpty (some (write createdAt.toNat c)) = .ok c := by
  rw [read_write, floatFree.reread_eq_self]

/-- Names and cells with characters that are escaped, and keys on both sides of zero. -/
def notes : Catalog :=
  let columns : Columns :=
    [.id, { name := "\"body\"", type := .text, nullable := false },
      { name := "é", type := .boolean }]
  let rows : List (Int64 × Row) :=
    [(-3, [.integer (-3), .text "a\tb\\\x01\n\"", .boolean true]),
      (5, [.integer 5, .text "😀", .null])]
  ⟨Dict.empty.insert "notes\x1f/" ⟨⟨"notes\x1f/", columns⟩, ⟨rows, by decide⟩, 6⟩⟩

theorem notes_are_read :
    notes.FloatFree ∧ readOrEmpty (some (write (1700000000000 : UInt64).toNat notes)) =
      .ok notes := by
  have floatFree : notes.FloatFree := by
    intro t there row member x cell
    obtain rfl := List.mem_singleton.mp there
    rcases List.mem_cons.mp member with rfl | member
    · simp at cell
    · obtain rfl := List.mem_singleton.mp member
      simp at cell
  exact ⟨floatFree, written_is_read 1700000000000 floatFree⟩

end Snapshot
end RankedStore
