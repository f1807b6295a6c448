import RankedStore.Catalog

/-! A whole store as one JSON text. Every part that a snapshot has must be there and of its form;
the version is looked at last. -/
namespace RankedStore

namespace Table

def toJson (t : Table) : Json :=
  .object [("schema", t.layout.toJson),
    ("rows", .object (t.scan.map fun (id, row) => (toString id, .array (row.map Value.toJson)))),
    ("next_id", .ofInt t.nextId.toInt)]

def decoder : Json.Decoder Table := fun depth d => do
  match ← Json.Decoder.members ["schema", "rows", "next_id"] depth d with
  | (depth, [some layout, some rows, some nextId]) =>
    let row := Json.Decoder.list Value.decoder
    return {
      layout := ← TableLayout.decoder depth layout
      rows := ← Json.Decoder.dict Json.Decoder.int64Key? row depth rows
      nextId := ← Json.Decoder.int64 depth nextId }
  | _ => none

end Table

namespace Catalog

def toJson (c : Catalog) : Json :=
  .object [("tables", .object (c.tables.entries.map fun (name, t) => (name, t.toJson)))]

def decoder : Json.Decoder Catalog := fun depth d => do
  match ← Json.Decoder.members ["tables"] depth d with
  | (depth, [some tables]) =>
    return ⟨← Json.Decoder.dict Json.stringOf? Table.decoder depth tables⟩
  | _ => none

end Catalog

structure Snapshot where
  version : Nat
  createdAt : Nat
  catalog : Catalog
deriving DecidableEq

namespace Snapshot

def currentVersion : Nat := 1

def toJson (s : Snapshot) : Json :=
  .object [("version", .ofNat s.version), ("created_at", .ofNat s.createdAt),
    ("catalog", s.catalog.toJson)]

def decoder : Json.Decoder Snapshot := fun depth d => do
  match ← Json.Decoder.members ["version", "created_at", "catalog"] depth d with
  | (depth, [some version, some createdAt, some catalog]) =>
    return {
      version := ← Json.Decoder.natural UInt32.size depth version
      createdAt := ← Json.Decoder.natural UInt64.size depth createdAt
      catalog := ← Catalog.decoder depth catalog }
  | _ => none

/-- The text of a snapshot of these tables. -/
def write (createdAt : Nat) (catalog : Catalog) : String :=
  (toJson ⟨currentVersion, createdAt, catalog⟩).pretty

/-- The tables of a snapshot. -/
def read (text : String) : Except Error Catalog :=
  match decoder.run text with
  | none => .error (.serialization .malformed)
  | some s =>
    if s.version = currentVersion then .ok s.catalog
    else .error (.serialization (.version s.version currentVersion))

/-- Without a text there are no tables. -/
def readOrEmpty (text : Option String) : Except Error Catalog :=
  match text with
  | none => .ok .empty
  | some text => read text

end Snapshot
end RankedStore
