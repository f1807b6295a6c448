import RankedStore.Json.Token

/-! JSON documents as they are written: strings keep their escapes and objects keep repeated keys,
so that a reader can decide what to do with either. Reading is a fold over the tokens with a stack
of open arrays and objects, which bounds nesting by memory alone. -/
namespace RankedStore.Json

inductive Document
  | null
  | boolean (b : Bool)
  | number (n : Numeral)
  | text (pieces : List Piece)
  | array (items : List Document)
  | object (members : List (List Piece × Document))

namespace Document

/-- An open array or object whose next value is under way. What it holds so far is newest first. -/
inductive Frame
  | items (read : List Document)
  | members (read : List (List Piece × Document)) (key : List Piece)

/-- What may come next, inside the given open arrays and objects, innermost first. -/
inductive Stage
  | nextValue (frames : List Frame)
  | firstItem (frames : List Frame)
  | firstKey (frames : List Frame)
  | nextKey (read : List (List Piece × Document)) (frames : List Frame)
  | afterKey (read : List (List Piece × Document)) (key : List Piece) (frames : List Frame)
  | afterValue (value : Document) (frames : List Frame)

def Stage.stepValue (frames : List Frame) : Token → Option Stage
  | .null => some (.afterValue .null frames)
  | .boolean b => some (.afterValue (.boolean b) frames)
  | .number n => some (.afterValue (.number n) frames)
  | .text pieces => some (.afterValue (.text pieces) frames)
  | .openArray => some (.firstItem frames)
  | .openObject => some (.firstKey frames)
  | _ => none

def Stage.step : Stage → Token → Option Stage
  | .nextValue frames, token => stepValue frames token
  | .firstItem frames, .closeArray => some (.afterValue (.array []) frames)
  | .firstItem frames, token => stepValue (.items [] :: frames) token
  | .firstKey frames, .closeObject => some (.afterValue (.object []) frames)
  | .firstKey frames, .text key => some (.afterKey [] key frames)
  | .nextKey read frames, .text key => some (.afterKey read key frames)
  | .afterKey read key frames, .colon => some (.nextValue (.members read key :: frames))
  | .afterValue value (.items read :: frames), .comma =>
    some (.nextValue (.items (value :: read) :: frames))
  | .afterValue value (.items read :: frames), .closeArray =>
    some (.afterValue (.array (value :: read).reverse) frames)
  | .afterValue value (.members read key :: frames), .comma =>
    some (.nextKey ((key, value) :: read) frames)
  | .afterValue value (.members read key :: frames), .closeObject =>
    some (.afterValue (.object ((key, value) :: read).reverse) frames)
  | _, _ => none

def ofTokens? (tokens : List Token) : Option Document :=
  match tokens.foldlM Stage.step (.nextValue []) with
  | some (.afterValue value []) => some value
  | _ => none

/-- The one document that a text holds, with nothing but blanks around it. -/
def ofText? (text : String) : Option Document := Token.scan text.toList >>= ofTokens?

end Document
end RankedStore.Json
