import RankedStore.Binary64.Text
import RankedStore.Binary64.Numeral
import RankedStore.Integer
import RankedStore.Json.Decoder

/-! The values that cells hold. Two values are equal when they are of one kind and hold the same: an
integer never equals a float, and floats are the same when their bits are. The order of values is
another matter: it compares integers and floats by size, and puts NULL after everything. -/
namespace RankedStore

inductive Value
  | null
  | integer (n : Int64)
  | float (x : Binary64)
  | boolean (b : Bool)
  | text (s : String)
deriving DecidableEq, Inhabited

namespace Value

def isNull : Value → Bool
  | .null => true
  | _ => false

def integer? : Value → Option Int64
  | .integer n => some n
  | _ => none

def text? : Value → Option String
  | .text s => some s
  | _ => none

def kind : Value → String
  | .null => "NULL"
  | .integer _ => "INTEGER"
  | .float _ => "FLOAT"
  | .boolean _ => "BOOLEAN"
  | .text _ => "TEXT"

/-- The order of values, where there is one. Integers meet floats rounded to the nearest float. -/
def order? : Value → Value → Option Ordering
  | .null, .null => some .eq
  | .null, _ => some .gt
  | _, .null => some .lt
  | .integer a, .integer b => some (compare a b)
  | .float a, .float b => some (a.compare b)
  | .integer a, .float b => some ((Binary64.ofInt a.toInt).compare b)
  | .float a, .integer b => some (a.compare (Binary64.ofInt b.toInt))
  | .text a, .text b => some (compare a b)
  | .boolean a, .boolean b => some (compare a b)
  | _, _ => none

/-- The text with quotes around it, and each quote in it doubled. -/
def quoted (s : String) : String :=
  String.ofList ('\'' :: s.toList.flatMap (fun c => if c = '\'' then ['\'', '\''] else [c]) ++
    ['\''])

/-- A value as it stands in a statement. -/
def display : Value → String
  | .null => "NULL"
  | .integer n => toString n
  | .float x => x.text
  | .boolean b => if b then "true" else "false"
  | .text s => quoted s

instance : ToString Value := ⟨display⟩

/-- Reads a value as it is typed: `null` in any case, numbers, `true` and `false`; everything else
is text. -/
def ofLiteral (raw : String) : Value :=
  if raw.toList.map Char.toLower = "null".toList then .null
  else match int64OfText? raw with
    | some n => .integer n
    | none => match Binary64.ofText? raw with
      | some x => .float x
      | none =>
        if raw = "true" then .boolean true
        else if raw = "false" then .boolean false
        else .text raw

/-- Floats that are no numbers have no JSON form and become `null`. -/
def toJson : Value → Json
  | .null => .null
  | .integer n => .ofInt n.toInt
  | .float x => if x.isFinite then .number (.float x) else .null
  | .boolean b => .boolean b
  | .text s => .text s

/-- Whole numbers of 64 bits with sign are integers, all other numbers are floats. -/
def decoder : Json.Decoder Value
  | _, .null => some .null
  | _, .boolean b => some (.boolean b)
  | _, .text pieces => (Json.stringOf? pieces).map .text
  | _, .number numeral => match numeral.number? with
    | some (.whole n) => match int64? n with
      | some i => some (.integer i)
      | none => some (.float (.ofInt n))
    | some (.float x) => some (.float x)
    | none => none
  | _, _ => none

end Value

/-- One value a column. -/
abbrev Row := List Value

end RankedStore
