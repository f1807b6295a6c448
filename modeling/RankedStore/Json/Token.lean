import RankedStore.Json.Numeral

/-! Tokens of JSON text. Scanning is a fold over the characters: what is still being read is the
scanner's mode, so the scan of a text followed by another one is the scan of the second from where
the first one ends. -/
namespace RankedStore.Json

/-- One unit inside a string: a character, which may have been written with a short escape, or a
code unit written in hexadecimal. -/
inductive Piece
  | char (c : Char)
  | unit (code : Nat)
deriving DecidableEq

inductive Token
  | openArray
  | closeArray
  | openObject
  | closeObject
  | comma
  | colon
  | null
  | boolean (b : Bool)
  | number (n : Numeral)
  | text (pieces : List Piece)
deriving DecidableEq

namespace Token

inductive Mode
  | between
  | word (read : List Char)
  | numeral (read : List Char)
  /-- Inside a string. -/
  | string (read : List Piece)
  /-- Inside a string, after a backslash. -/
  | escape (read : List Piece)
  /-- Inside a string, with some digits of a hexadecimal code still to come. -/
  | code (read : List Piece) (left : Nat) (value : Nat)

/-- What has been read, newest first. -/
structure Scanner where
  mode : Mode
  tokens : List Token

def Scanner.start : Scanner := ⟨.between, []⟩

def Scanner.push (s : Scanner) (t : Token) : Scanner := ⟨.between, t :: s.tokens⟩

def isBlank (c : Char) : Bool := c = ' ' ∨ c = '\t' ∨ c = '\n' ∨ c = '\r'

def ofWord? (read : List Char) : Option Token :=
  if read = "null".toList then some .null
  else if read = "true".toList then some (.boolean true)
  else if read = "false".toList then some (.boolean false)
  else none

def isNumeralChar (c : Char) : Bool :=
  c.isDigit || c = '-' || c = '+' || c = '.' || c = 'e' || c = 'E'

def shortEscape? : Char → Option Char
  | '"' => some '"'
  | '\\' => some '\\'
  | '/' => some '/'
  | 'b' => some '\x08'
  | 'f' => some '\x0c'
  | 'n' => some '\n'
  | 'r' => some '\r'
  | 't' => some '\t'
  | _ => none

def hexDigit? (c : Char) : Option Nat :=
  if c.isDigit then some (Digits.value c)
  else if 'a' ≤ c ∧ c ≤ 'f' then some (c.toNat - 'a'.toNat + 10)
  else if 'A' ≤ c ∧ c ≤ 'F' then some (c.toNat - 'A'.toNat + 10)
  else none

/-- A character outside of every word, numeral and string. -/
def Scanner.begin (s : Scanner) (c : Char) : Option Scanner :=
  if isBlank c then some s
  else match c with
    | '[' => some (s.push .openArray)
    | ']' => some (s.push .closeArray)
    | '\x7b' => some (s.push .openObject)
    | '\x7d' => some (s.push .closeObject)
    | ',' => some (s.push .comma)
    | ':' => some (s.push .colon)
    | '"' => some { s with mode := .string [] }
    | c =>
      if c.isDigit ∨ c = '-' then some { s with mode := .numeral [c] }
      else if c.isLower then some { s with mode := .word [c] }
      else none

/-- Ends the word or numeral under way. Nothing may end inside a string. -/
def Scanner.settle (s : Scanner) : Option Scanner :=
  match s.mode with
  | .between => some s
  | .word read => (ofWord? read.reverse).map s.push
  | .numeral read => (Numeral.ofChars? read.reverse).map fun n => s.push (.number n)
  | _ => none

def Scanner.step (s : Scanner) (c : Char) : Option Scanner :=
  match s.mode with
  | .between => s.begin c
  | .word read =>
    if c.isLower then some { s with mode := .word (c :: read) } else s.settle >>= (·.begin c)
  | .numeral read =>
    if isNumeralChar c then some { s with mode := .numeral (c :: read) }
    else s.settle >>= (·.begin c)
  | .string read =>
    if c = '"' then some (s.push (.text read.reverse))
    else if c = '\\' then some { s with mode := .escape read }
    else if c.toNat < 0x20 then none
    else some { s with mode := .string (.char c :: read) }
  | .escape read =>
    if c = 'u' then some { s with mode := .code read 4 0 }
    else (shortEscape? c).map fun d => { s with mode := .string (.char d :: read) }
  | .code read left value =>
    (hexDigit? c).map fun d =>
      let value := value * 16 + d
      if left ≤ 1 then { s with mode := .string (.unit value :: read) }
      else { s with mode := .code read (left - 1) value }

/-- The tokens of a text, or nothing if it has a word, numeral or string that is not JSON. -/
def scan (text : List Char) : Option (List Token) := do
  let last ← (← text.foldlM Scanner.step Scanner.start).settle
  return last.tokens.reverse

end Token
end RankedStore.Json
