import RankedStore.Json.Numeral
import RankedStore.Binary64.Text

/-! JSON values and their texts: compact, or laid out over indented lines. Both write strings the
same way, escape what must be escaped and nothing else. -/
namespace RankedStore

inductive Json
  | null
  | boolean (b : Bool)
  | number (n : Json.Number)
  | text (s : String)
  | array (items : List Json)
  | object (members : List (String × Json))
deriving Inhabited

namespace Json

def ofInt (n : Int) : Json := .number (.whole n)

def ofNat (n : Nat) : Json := .ofInt n

def Number.chars : Number → List Char
  | .whole n => (toString n).toList
  | .float x => x.chars Binary64.interchange

/-- The last two digits of an escape. -/
def hexPair (n : Nat) : List Char := [Nat.digitChar (n / 16), Nat.digitChar (n % 16)]

def escape (c : Char) : List Char :=
  match c with
  | '"' => ['\\', '"']
  | '\\' => ['\\', '\\']
  | '\x08' => ['\\', 'b']
  | '\x0c' => ['\\', 'f']
  | '\n' => ['\\', 'n']
  | '\r' => ['\\', 'r']
  | '\t' => ['\\', 't']
  | c => if c.toNat < 0x20 then ['\\', 'u', '0', '0'] ++ hexPair c.toNat else [c]

def quoted (s : String) : List Char := '"' :: s.toList.flatMap escape ++ ['"']

/-- The texts of the parts with a separator between neighbours. -/
def joined (separator : List Char) : List (List Char) → List Char
  | [] => []
  | [part] => part
  | part :: rest => part ++ separator ++ joined separator rest

mutual

def compactChars : Json → List Char
  | .null => "null".toList
  | .boolean b => (if b then "true" else "false").toList
  | .number n => n.chars
  | .text s => quoted s
  | .array items => '[' :: joined [','] (compactItems items) ++ [']']
  | .object members => '\x7b' :: joined [','] (compactMembers members) ++ ['\x7d']

def compactItems : List Json → List (List Char)
  | [] => []
  | item :: rest => item.compactChars :: compactItems rest

def compactMembers : List (String × Json) → List (List Char)
  | [] => []
  | (key, value) :: rest => (quoted key ++ ':' :: value.compactChars) :: compactMembers rest

end

def newline (depth : Nat) : List Char := '\n' :: List.replicate (2 * depth) ' '

/-- Brackets around parts on lines of their own, or around nothing. -/
def block (opening closing : Char) (depth : Nat) : List (List Char) → List Char
  | [] => [opening, closing]
  | parts =>
    opening :: newline (depth + 1) ++ joined (',' :: newline (depth + 1)) parts ++ newline depth ++
      [closing]

mutual

/-- The text over lines indented by two blanks a level. -/
def prettyChars (depth : Nat) : Json → List Char
  | .array items => block '[' ']' depth (prettyItems depth items)
  | .object members => block '\x7b' '\x7d' depth (prettyMembers depth members)
  | .null => "null".toList
  | .boolean b => (if b then "true" else "false").toList
  | .number n => n.chars
  | .text s => quoted s

def prettyItems (depth : Nat) : List Json → List (List Char)
  | [] => []
  | item :: rest => item.prettyChars (depth + 1) :: prettyItems depth rest

def prettyMembers (depth : Nat) : List (String × Json) → List (List Char)
  | [] => []
  | (key, value) :: rest =>
    (quoted key ++ ':' :: ' ' :: value.prettyChars (depth + 1)) :: prettyMembers depth rest

end

def compact (j : Json) : String := String.ofList j.compactChars

def pretty (j : Json) : String := String.ofList (j.prettyChars 0)

end Json
end RankedStore
