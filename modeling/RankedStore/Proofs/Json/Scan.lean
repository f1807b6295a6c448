import RankedStore.Proofs.Json.Float
import RankedStore.Proofs.Json.Text

/-! Scanning what was written. A JSON value whose numbers are finite is written, over several lines,
as a text with the tokens of one document, in which every string is as it was and every number is
the numeral that it was written as. -/
namespace RankedStore.Json

theorem joined_cons (separator part next : List Char) (parts : List (List Char)) :
    joined separator (part :: next :: parts) = part ++ separator ++ joined separator
      (next :: parts) :=
  rfl

theorem block_cons (opening closing : Char) (depth : Nat) (part : List Char)
    (parts : List (List Char)) :
    block opening closing depth (part :: parts) = opening :: newline (depth + 1) ++
      joined (',' :: newline (depth + 1)) (part :: parts) ++ newline depth ++ [closing] :=
  rfl

mutual

/-- The document that a value is written as. -/
def document : Json → Document
  | .null => .null
  | .boolean b => .boolean b
  | .number (.whole n) => .number (.ofInt n)
  | .number (.float x) => .number (.ofFloat x)
  | .text s => .text (pieces s)
  | .array items => .array (documents items)
  | .object members => .object (memberDocuments members)

def documents : List Json → List Document
  | [] => []
  | item :: rest => item.document :: documents rest

def memberDocuments : List (String × Json) → List (List Piece × Document)
  | [] => []
  | (key, value) :: rest => (pieces key, value.document) :: memberDocuments rest

end

theorem documents_eq (items : List Json) : documents items = items.map document := by
  induction items with
  | nil => rfl
  | cons item rest ih => rw [documents, ih, List.map_cons]

theorem memberDocuments_eq (members : List (String × Json)) :
    memberDocuments members = members.map fun (key, value) => (pieces key, value.document) := by
  induction members with
  | nil => rfl
  | cons member rest ih => rw [memberDocuments, ih, List.map_cons]

/-- Every number in the value is finite. -/
inductive Finite : Json → Prop
  | null : Finite .null
  | boolean (b : Bool) : Finite (.boolean b)
  | number (n : Int) : Finite (.ofInt n)
  | float {x : Binary64} : x.isFinite = true → Finite (.number (.float x))
  | text (s : String) : Finite (.text s)
  | array {items : List Json} : (∀ item ∈ items, Finite item) → Finite (.array items)
  | object {members : List (String × Json)} : (∀ m ∈ members, Finite m.2) → Finite (.object members)

mutual

/-- The tokens of a document. -/
def Document.tokens : Document → List Token
  | .null => [.null]
  | .boolean b => [.boolean b]
  | .number n => [.number n]
  | .text pieces => [.text pieces]
  | .array items => .openArray :: [Token.comma].intercalate (itemTokens items) ++ [.closeArray]
  | .object members =>
    .openObject :: [Token.comma].intercalate (memberTokens members) ++ [.closeObject]

def Document.itemTokens : List Document → List (List Token)
  | [] => []
  | item :: rest => item.tokens :: itemTokens rest

def Document.memberTokens : List (List Piece × Document) → List (List Token)
  | [] => []
  | (key, value) :: rest => (.text key :: .colon :: value.tokens) :: memberTokens rest

end

namespace Token

/-- The tokens of a text that is scanned from here on. -/
def Scanner.finish (s : Scanner) (text : List Char) : Option (List Token) := do
  let last ← (← text.foldlM Scanner.step s).settle
  return last.tokens.reverse

/-- The text goes on with a character that is no part of a word or a numeral, or it is over. -/
def Breaks (text : List Char) : Prop :=
  ∀ c ∈ text.head?, c.isLower = false ∧ isNumeralChar c = false

variable {read : List Token} {s : Scanner} {rest : List Char}

theorem finish_cons (s : Scanner) (c : Char) (rest : List Char) :
    s.finish (c :: rest) = s.step c >>= (·.finish rest) := by
  unfold Scanner.finish
  rw [List.foldlM_cons]
  cases s.step c <;> rfl

/-- At a break the word or numeral under way is over. -/
theorem finish_settled (settled : s.settle = some ⟨.between, read⟩) (breaks : Breaks rest) :
    s.finish rest = Scanner.finish ⟨.between, read⟩ rest := by
  cases rest with
  | nil =>
    show (s.settle >>= fun last => some last.tokens.reverse) = _
    rw [settled]
    rfl
  | cons c rest =>
    obtain ⟨lower, numeral⟩ := breaks c rfl
    have same : s.step c = Scanner.step ⟨.between, read⟩ c := by
      obtain ⟨mode, tokens⟩ := s
      cases mode with
      | between =>
        cases settled
        rfl
      | word letters =>
        simp only [Scanner.step, lower, Bool.false_eq_true, if_false, settled]
        rfl
      | numeral digits =>
        simp only [Scanner.step, numeral, Bool.false_eq_true, if_false, settled]
        rfl
      | string | escape | code => cases settled
    rw [finish_cons, finish_cons, same]

theorem finish_newline (read : List Token) (depth : Nat) (rest : List Char) :
    Scanner.finish ⟨.between, read⟩ (newline depth ++ rest) = Scanner.finish ⟨.between, read⟩
      rest := by
  have blanks : ∀ n, Scanner.finish ⟨.between, read⟩ (List.replicate n ' ' ++ rest) =
      Scanner.finish ⟨.between, read⟩ rest := by
    intro n
    induction n with
    | zero => rfl
    | succ n ih =>
      rw [List.replicate_succ, List.cons_append, finish_cons]
      exact ih
  rw [newline, List.cons_append, finish_cons]
  exact blanks (2 * depth)

theorem finish_quoted (read : List Token) (text : String) (rest : List Char) :
    Scanner.finish ⟨.between, read⟩ (quoted text ++ rest) =
      Scanner.finish ⟨.between, .text (pieces text) :: read⟩ rest := by
  unfold Scanner.finish
  rw [fold_quoted]

/-- A numeral begins outside of words and strings. -/
theorem begin_numeral {c : Char} (first : c.isDigit = true ∨ c = '-') :
    Scanner.begin ⟨.between, read⟩ c = some ⟨.numeral [c], read⟩ := by
  unfold Scanner.begin
  split
  case isTrue blank =>
    simp only [isBlank, decide_eq_true_eq] at blank
    rcases blank with rfl | rfl | rfl | rfl <;> exact absurd first (by decide)
  case isFalse =>
    split
    case h_8 => exact if_pos first
    all_goals exact absurd first (by decide)

theorem fold_numeral {cs : List Char} (numeral : ∀ d ∈ cs, isNumeralChar d = true)
    (digits : List Char) :
    Scanner.finish ⟨.numeral digits, read⟩ (cs ++ rest) =
      Scanner.finish ⟨.numeral (cs.reverse ++ digits), read⟩ rest := by
  induction cs generalizing digits with
  | nil => rfl
  | cons c cs ih =>
    have step : Scanner.step ⟨.numeral digits, read⟩ c = some ⟨.numeral (c :: digits), read⟩ := by
      simp only [Scanner.step, numeral c (List.mem_cons_self ..), if_true]
    rw [List.cons_append, finish_cons, step]
    refine (ih (fun d member => numeral d (List.mem_cons_of_mem _ member)) (c :: digits)).trans ?_
    rw [List.reverse_cons, List.append_assoc, List.singleton_append]

/-- A text that is scanned as these tokens, wherever it stands, if a break follows. -/
def Scans (text : List Char) (tokens : List Token) : Prop :=
  ∀ read rest, Breaks rest → Scanner.finish ⟨.between, read⟩ (text ++ rest) =
    Scanner.finish ⟨.between, tokens.reverse ++ read⟩ rest

namespace Scans

theorem null : Scans "null".toList [.null] := by
  intro read rest breaks
  exact finish_settled (s := ⟨.word "llun".toList, read⟩) rfl breaks

theorem boolean (b : Bool) : Scans (if b then "true" else "false").toList [.boolean b] := by
  intro read rest breaks
  cases b with
  | true => exact finish_settled (s := ⟨.word "eurt".toList, read⟩) rfl breaks
  | false => exact finish_settled (s := ⟨.word "eslaf".toList, read⟩) rfl breaks

theorem numeral {n : Numeral} (valid : n.Valid) : Scans n.written [.number n] := by
  intro read rest breaks
  obtain ⟨c, cs, written, first, others⟩ := Numeral.written_cons valid
  have settled : Scanner.settle ⟨.numeral (cs.reverse ++ [c]), read⟩ =
    some ⟨.between, .number n :: read⟩ := by
    have whole : (cs.reverse ++ [c]).reverse = n.written := by
      rw [List.reverse_append, List.reverse_reverse, written, List.reverse_singleton,
        List.singleton_append]
    simp only [Scanner.settle, whole, Numeral.ofChars?_written valid, Option.map_some, Scanner.push]
  rw [written, List.cons_append, finish_cons]
  show (Scanner.begin ⟨.between, read⟩ c >>= (·.finish (cs ++ rest))) = _
  rw [begin_numeral first]
  exact (fold_numeral others [c]).trans (finish_settled settled breaks)

theorem whole (n : Int) : Scans (Number.chars (.whole n)) [.number (.ofInt n)] := by
  rw [Numeral.chars_whole]
  exact numeral (Numeral.valid_ofInt n)

theorem float {x : Binary64} (finite : x.isFinite = true) :
    Scans (Number.chars (.float x)) [.number (.ofFloat x)] := by
  rw [Numeral.chars_float]
  exact numeral (Numeral.valid_ofFloat finite)

theorem text (s : String) : Scans (quoted s) [.text (pieces s)] :=
  fun read rest _ => finish_quoted read s rest

variable {part : List Char} {tokens next' : List Token} {next : List Char}
  {parts : List (List Char)} {others : List (List Token)} {depth : Nat}

theorem member (key : String) (value : Scans part tokens) :
    Scans (quoted key ++ ':' :: ' ' :: part) (.text (pieces key) :: .colon :: tokens) := by
  intro read rest breaks
  rw [List.append_assoc, finish_quoted, List.reverse_cons, List.reverse_cons]
  simp only [List.append_assoc, List.cons_append, List.nil_append]
  rw [finish_cons, ← value _ rest breaks]
  exact finish_cons ..

theorem one (only : Scans part tokens) : Scans (joined (',' :: newline depth) [part])
    ([Token.comma].intercalate [tokens]) := by
  rw [List.intercalate_singleton]
  exact only

/-- A part, a comma, and the other parts on the next lines. -/
theorem cons (first : Scans part tokens)
    (rest : Scans (joined (',' :: newline depth) (next :: parts))
      ([Token.comma].intercalate (next' :: others))) :
    Scans (joined (',' :: newline depth) (part :: next :: parts))
      ([Token.comma].intercalate (tokens :: next' :: others)) := by
  intro read after breaks
  have comma : Breaks
    (',' :: newline depth ++ (joined (',' :: newline depth) (next :: parts) ++ after)) := by
    rintro c ⟨⟩
    decide
  rw [joined_cons, List.intercalate_cons_cons]
  simp only [List.append_assoc, List.reverse_append]
  rw [first read _ comma, List.cons_append, finish_cons]
  show Scanner.finish ⟨.between, .comma :: (tokens.reverse ++ read)⟩ (newline depth ++ _) = _
  rw [finish_newline, rest _ after breaks, List.reverse_singleton, List.singleton_append]

variable {opening closing : Char} {begins ends : Token}

/-- Brackets around nothing. -/
theorem brackets
    (opens : ∀ read, Scanner.step ⟨.between, read⟩ opening = some ⟨.between, begins :: read⟩)
    (closes : ∀ read, Scanner.step ⟨.between, read⟩ closing = some ⟨.between, ends :: read⟩) :
    Scans [opening, closing] [begins, ends] := by
  intro read rest _
  rw [List.cons_append, finish_cons, opens]
  show Scanner.finish ⟨.between, begins :: read⟩ (closing :: rest) = _
  rw [finish_cons, closes]
  rfl

/-- Brackets around parts, which stand on lines of their own. -/
theorem lines
    (opens : ∀ read, Scanner.step ⟨.between, read⟩ opening = some ⟨.between, begins :: read⟩)
    (closes : ∀ read, Scanner.step ⟨.between, read⟩ closing = some ⟨.between, ends :: read⟩)
    (inner : Scans (joined (',' :: newline (depth + 1)) (part :: parts)) tokens) :
    Scans (block opening closing depth (part :: parts)) (begins :: tokens ++ [ends]) := by
  intro read rest _
  have stops : Breaks (newline depth ++ (closing :: rest)) := by
    rintro c ⟨⟩
    decide
  rw [block_cons]
  simp only [List.append_assoc, List.cons_append, List.nil_append, List.reverse_append,
    List.reverse_cons, List.reverse_nil]
  rw [finish_cons, opens]
  show Scanner.finish ⟨.between, begins :: read⟩ (newline (depth + 1) ++ _) = _
  rw [finish_newline, inner _ _ stops, finish_newline, finish_cons, closes]
  rfl

end Scans

end Token

open Token

mutual

/-- The text of a value is scanned as the tokens of its document. -/
theorem scans_pretty (depth : Nat) :
    ∀ {j : Json}, j.Finite → Scans (j.prettyChars depth) j.document.tokens
  | .null, _ => .null
  | .boolean b, _ => .boolean b
  | .number (.whole n), _ => .whole n
  | .number (.float _), .float finite => .float finite
  | .text s, _ => .text s
  | .array [], _ => .brackets (fun _ => rfl) (fun _ => rfl)
  | .array (_ :: _), .array finite =>
    .lines (fun _ => rfl) (fun _ => rfl) (scans_items depth finite)
  | .object [], _ => .brackets (fun _ => rfl) (fun _ => rfl)
  | .object (_ :: _), .object finite =>
    .lines (fun _ => rfl) (fun _ => rfl) (scans_members depth finite)

theorem scans_items (depth : Nat) : ∀ {items : List Json}, (∀ item ∈ items, item.Finite) →
    Scans (joined (',' :: newline (depth + 1)) (prettyItems depth items))
      ([Token.comma].intercalate (Document.itemTokens (documents items)))
  | [], _ => fun _ _ _ => rfl
  | [item], finite => .one (scans_pretty (depth + 1) (finite item (by simp)))
  | item :: next :: rest, finite =>
    .cons (scans_pretty (depth + 1) (finite item (by simp)))
      (scans_items depth fun other member => finite other (List.mem_cons_of_mem _ member))

theorem scans_members (depth : Nat) :
    ∀ {members : List (String × Json)}, (∀ m ∈ members, m.2.Finite) →
    Scans (joined (',' :: newline (depth + 1)) (prettyMembers depth members))
      ([Token.comma].intercalate (Document.memberTokens (memberDocuments members)))
  | [], _ => fun _ _ _ => rfl
  | [(key, value)], finite =>
    .one (.member key (scans_pretty (depth + 1) (finite (key, value) (by simp))))
  | (key, value) :: next :: rest, finite =>
    .cons (.member key (scans_pretty (depth + 1) (finite (key, value) (by simp))))
      (scans_members depth fun other member => finite other (List.mem_cons_of_mem _ member))

end

/-- The text of a value is one text of tokens. -/
theorem scan_pretty {j : Json} (finite : j.Finite) :
    scan (j.prettyChars 0) = some j.document.tokens := by
  have all := scans_pretty 0 finite [] [] (fun _ none => nomatch none)
  rw [List.append_nil, List.append_nil] at all
  refine Eq.trans all ?_
  show some j.document.tokens.reverse.reverse = _
  rw [List.reverse_reverse]

end RankedStore.Json
