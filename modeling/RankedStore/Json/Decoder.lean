import RankedStore.Dict
import RankedStore.Integer
import RankedStore.Json
import RankedStore.Json.Document

/-! Decoders take a document and the number of levels of nesting that may still be entered. Only
parts that are decoded count: the value of a key that a decoder passes over may nest without bound,
and its strings and numbers are not looked into. -/
namespace RankedStore.Json

/-- How deep decoded arrays and objects may nest. -/
def nestingLimit : Nat := 127

def isHighSurrogate (code : Nat) : Bool := 0xD800 ≤ code ∧ code < 0xDC00

def isLowSurrogate (code : Nat) : Bool := 0xDC00 ≤ code ∧ code < 0xE000

/-- The characters that pieces stand for. Surrogates count only in pairs. -/
def charsOf? (read : List Char) : List Piece → Option (List Char)
  | [] => some read.reverse
  | .char c :: rest => charsOf? (c :: read) rest
  | .unit high :: .unit low :: rest =>
    if isHighSurrogate high then
      if isLowSurrogate low then
        charsOf? (Char.ofNat (0x10000 + (high - 0xD800) * 0x400 + (low - 0xDC00)) :: read) rest
      else none
    else if isLowSurrogate high then none
    else charsOf? (Char.ofNat high :: read) (.unit low :: rest)
  | .unit code :: rest =>
    if isHighSurrogate code ∨ isLowSurrogate code then none
    else charsOf? (Char.ofNat code :: read) rest

def stringOf? (pieces : List Piece) : Option String := (charsOf? [] pieces).map String.ofList

abbrev Decoder (α : Type) := Nat → Document → Option α

namespace Decoder

def run (decoder : Decoder α) (text : String) : Option α :=
  Document.ofText? text >>= decoder nestingLimit

def text : Decoder String
  | _, .text pieces => stringOf? pieces
  | _, _ => none

def boolean : Decoder Bool
  | _, .boolean b => some b
  | _, _ => none

/-- A numeral without fraction and exponent whose value is in range. -/
def integer (low high : Int) : Decoder Int
  | _, .number n => match n.number? with
    | some (.whole n) => if low ≤ n ∧ n ≤ high then some n else none
    | _ => none
  | _, _ => none

def int64 : Decoder Int64 := fun depth d =>
  integer Int64.minValue.toInt Int64.maxValue.toInt depth d >>= int64?

/-- A natural number below a bound. -/
def natural (bound : Nat) : Decoder Nat := fun depth d =>
  (integer 0 ((bound : Int) - 1) depth d).map Int.toNat

def list (decoder : Decoder α) : Decoder (List α)
  | depth + 1, .array items => items.mapM (decoder depth)
  | _, _ => none

/-- An object with arbitrary keys; of values with the same key the last one stays. -/
def dict [LT κ] [DecidableLT κ] [Key κ] (key? : List Piece → Option κ) (decoder : Decoder α) :
    Decoder (Dict κ α)
  | depth + 1, .object members => do
    let pairs ← members.mapM fun (key, value) => return (← key? key, ← decoder depth value)
    return Dict.ofList pairs
  | _, _ => none

/-- A 64-bit integer written as a key, in the one way that a numeral can be written. -/
def int64Key? (pieces : List Piece) : Option Int64 := do
  let chars ← pieces.mapM fun
    | .char c => some c
    | .unit _ => none
  int64 0 (.number (← Numeral.ofChars? chars))

/-- The value of a member, which must not be there twice. -/
def memberOnce? (name : String) (members : List (String × Document)) : Option (Option Document) :=
  match members.filter (fun m => m.1 = name) with
  | [] => some none
  | [(_, value)] => some (some value)
  | _ => none

/-- The values of the named members, with the depth they are decoded at: from an object by name, or
from an array by position. An object may have other members, an array no other items. -/
def members (names : List String) : Decoder (Nat × List (Option Document))
  | depth + 1, .object written => do
    let named ← written.mapM fun (key, value) => return (← stringOf? key, value)
    return (depth, ← names.mapM fun name => memberOnce? name named)
  | depth + 1, .array items =>
    if items.length ≤ names.length then
      some (depth, items.map some ++ List.replicate (names.length - items.length) none)
    else none
  | _, _ => none

/-- A name alone, or an object whose only member has the name and carries a value. -/
def choice : Decoder (String × Option (Nat × Document))
  | _, .text pieces => (stringOf? pieces).map (·, none)
  | depth + 1, .object [(key, value)] => (stringOf? key).map (·, some (depth, value))
  | _, _ => none

mutual

/-- Any document within the limits. Objects become sorted by key. -/
def json (depth : Nat) (d : Document) : Option Json :=
  match d with
  | .null => some .null
  | .boolean b => some (.boolean b)
  | .number n => n.number?.map .number
  | .text pieces => (stringOf? pieces).map .text
  | .array items =>
    match depth with
    | 0 => none
    | depth + 1 => (jsonItems depth items).map .array
  | .object members =>
    match depth with
    | 0 => none
    | depth + 1 => (jsonMembers depth members).map fun pairs => .object (Dict.ofList pairs).entries

def jsonItems (depth : Nat) (items : List Document) : Option (List Json) :=
  match items with
  | [] => some []
  | item :: rest => do return (← json depth item) :: (← jsonItems depth rest)

def jsonMembers (depth : Nat) (members : List (List Piece × Document)) :
    Option (List (String × Json)) :=
  match members with
  | [] => some []
  | (key, value) :: rest => do
    return (← stringOf? key, ← json depth value) :: (← jsonMembers depth rest)

end

end Decoder
end RankedStore.Json
