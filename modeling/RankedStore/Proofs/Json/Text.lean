import RankedStore.Json.Decoder

/-! Strings in JSON text. Escaping the characters of a string and scanning what was written gives
pieces that stand for these characters again, whatever they are. -/
namespace RankedStore.Json

/-- The piece that a written character is scanned as. -/
def Piece.ofChar (c : Char) : Piece :=
  match escape c with
  | '\\' :: 'u' :: _ => .unit c.toNat
  | _ => .char c

def pieces (s : String) : List Piece := s.toList.map Piece.ofChar

/-- A character is written with a short escape, as the code of a control character, or as it is. -/
theorem escape_cases (c : Char) :
    (∃ d, escape c = ['\\', d] ∧ d ≠ 'u' ∧ Token.shortEscape? d = some c) ∨
    (escape c = ['\\', 'u', '0', '0'] ++ hexPair c.toNat ∧ c.toNat < 0x20) ∨
    (escape c = [c] ∧ c ≠ '"' ∧ c ≠ '\\' ∧ ¬ c.toNat < 0x20) := by
  unfold escape
  split
  case h_1 => exact .inl ⟨'"', rfl, by decide, rfl⟩
  case h_2 => exact .inl ⟨'\\', rfl, by decide, rfl⟩
  case h_3 => exact .inl ⟨'b', rfl, by decide, rfl⟩
  case h_4 => exact .inl ⟨'f', rfl, by decide, rfl⟩
  case h_5 => exact .inl ⟨'n', rfl, by decide, rfl⟩
  case h_6 => exact .inl ⟨'r', rfl, by decide, rfl⟩
  case h_7 => exact .inl ⟨'t', rfl, by decide, rfl⟩
  case h_8 quote backslash _ _ _ _ _ =>
    split
    case isTrue low => exact .inr (.inl ⟨rfl, low⟩)
    case isFalse high => exact .inr (.inr ⟨rfl, quote, backslash, high⟩)

theorem Piece.ofChar_of_short {c d : Char} (written : escape c = ['\\', d]) (other : d ≠ 'u') :
    ofChar c = .char c := by
  unfold ofChar
  rw [written]
  split
  case h_1 same =>
    injection same with _ same
    injection same with same
    exact absurd same other
  case h_2 => rfl

theorem Piece.ofChar_of_code {c : Char}
    (written : escape c = ['\\', 'u', '0', '0'] ++ hexPair c.toNat) :
    ofChar c = .unit c.toNat := by
  unfold ofChar
  rw [written]
  rfl

theorem Piece.ofChar_of_plain {c : Char} (written : escape c = [c]) : ofChar c = .char c := by
  unfold ofChar
  rw [written]
  split
  case h_1 same =>
    injection same with _ same
    cases same
  case h_2 => rfl

theorem hexDigit?_digitChar : ∀ n < 16, Token.hexDigit? (Nat.digitChar n) = some n := by decide

section

open Token

variable {read : List Piece} {tokens : List Token} {rest : List Char}

theorem step_code {left value d : Nat} (digit : d < 16) (more : ¬ left ≤ 1) :
    Scanner.step ⟨.code read left value, tokens⟩ d.digitChar =
      some ⟨.code read (left - 1) (value * 16 + d), tokens⟩ := by
  simp only [Scanner.step, hexDigit?_digitChar d digit, Option.map_some, if_neg more]

theorem step_code_last {value d : Nat} (digit : d < 16) :
    Scanner.step ⟨.code read 1 value, tokens⟩ d.digitChar =
      some ⟨.string (.unit (value * 16 + d) :: read), tokens⟩ := by
  simp only [Scanner.step, hexDigit?_digitChar d digit, Option.map_some, if_pos (Nat.le_refl 1)]

/-- The characters of an escape are scanned as one piece. -/
theorem fold_escape (c : Char) (read : List Piece) (tokens : List Token) (rest : List Char) :
    (escape c ++ rest).foldlM Scanner.step ⟨.string read, tokens⟩ =
      rest.foldlM Scanner.step ⟨.string (.ofChar c :: read), tokens⟩ := by
  rcases escape_cases c with ⟨d, written, other, back⟩ | ⟨written, low⟩ | ⟨written, quote,
    backslash, high⟩
  · have first : Scanner.step ⟨.string read, tokens⟩ '\\' = some ⟨.escape read, tokens⟩ := rfl
    have second : Scanner.step ⟨.escape read, tokens⟩ d = some ⟨.string (.char c :: read),
      tokens⟩ := by
      simp only [Scanner.step, if_neg other, back, Option.map_some]
    rw [Piece.ofChar_of_short written other, written]
    simp only [List.cons_append, List.nil_append, List.foldlM_cons, first, second, bind,
      Option.bind]
  · have zero : '0' = Nat.digitChar 0 := rfl
    have high : c.toNat / 16 < 16 := by omega
    have value : ((((0 * 16 + 0) * 16 + 0) * 16 + c.toNat / 16) * 16 + c.toNat % 16) = c.toNat := by
      omega
    have first : Scanner.step ⟨.string read, tokens⟩ '\\' = some ⟨.escape read, tokens⟩ := rfl
    have second : Scanner.step ⟨.escape read, tokens⟩ 'u' = some ⟨.code read 4 0, tokens⟩ := rfl
    rw [Piece.ofChar_of_code written, written, hexPair, zero]
    simp only [List.cons_append, List.nil_append, List.foldlM_cons, bind, Option.bind,
      first, second, step_code (Nat.zero_lt_succ 15) (by decide : ¬ 4 ≤ 1),
      step_code (Nat.zero_lt_succ 15) (by decide : ¬ 4 - 1 ≤ 1),
      step_code high (by decide : ¬ 4 - 1 - 1 ≤ 1)]
    rw [step_code_last (Nat.mod_lt _ (by decide))]
    dsimp only
    rw [value]
  · have step : Scanner.step ⟨.string read, tokens⟩ c = some ⟨.string (.char c :: read),
      tokens⟩ := by
      simp only [Scanner.step, if_neg quote, if_neg backslash, if_neg high]
    rw [Piece.ofChar_of_plain written, written]
    simp only [List.cons_append, List.nil_append, List.foldlM_cons, step, bind, Option.bind]

theorem fold_escapes (cs : List Char) (read : List Piece) (tokens : List Token) (rest : List Char) :
    (cs.flatMap escape ++ rest).foldlM Scanner.step ⟨.string read, tokens⟩ =
      rest.foldlM Scanner.step ⟨.string ((cs.map Piece.ofChar).reverse ++ read), tokens⟩ := by
  induction cs generalizing read with
  | nil => rfl
  | cons c cs ih =>
    rw [List.flatMap_cons, List.append_assoc, fold_escape, ih, List.map_cons, List.reverse_cons,
      List.append_assoc, List.singleton_append]

/-- A quoted string is one token. -/
theorem fold_quoted (s : String) (tokens : List Token) (rest : List Char) :
    (quoted s ++ rest).foldlM Scanner.step ⟨.between, tokens⟩ =
      rest.foldlM Scanner.step ⟨.between, .text (pieces s) :: tokens⟩ := by
  have opens : Scanner.step ⟨.between, tokens⟩ '"' = some ⟨.string [], tokens⟩ := rfl
  have closes : ∀ read, Scanner.step ⟨.string read, tokens⟩ '"' =
      some ⟨.between, .text read.reverse :: tokens⟩ := fun _ => rfl
  rw [quoted, List.cons_append, List.cons_append, List.foldlM_cons, opens, List.append_assoc]
  show ((s.toList.flatMap escape ++ (['"'] ++ rest)).foldlM Scanner.step ⟨.string [], tokens⟩) = _
  rw [fold_escapes, List.singleton_append, List.foldlM_cons, closes, List.append_nil,
    List.reverse_reverse]
  rfl

end

theorem charsOf?_unit {code : Nat} (low : code < 0xD800) (read : List Char) (rest : List Piece) :
    charsOf? read (.unit code :: rest) = charsOf? (Char.ofNat code :: read) rest := by
  have high : isHighSurrogate code = false := by simp [isHighSurrogate]; omega
  have second : isLowSurrogate code = false := by simp [isLowSurrogate]; omega
  cases rest with
  | nil => simp only [charsOf?, high, second, Bool.false_eq_true, or_self, if_false]
  | cons piece rest =>
    cases piece <;> simp only [charsOf?, high, second, Bool.false_eq_true, or_self, if_false]

/-- The pieces of characters stand for these characters. -/
theorem charsOf?_pieces (read cs : List Char) :
    charsOf? read (cs.map Piece.ofChar) = some (read.reverse ++ cs) := by
  induction cs generalizing read with
  | nil => rw [List.map_nil, charsOf?, List.append_nil]
  | cons c cs ih =>
    have next : charsOf? read ((c :: cs).map Piece.ofChar) = charsOf? (c :: read)
      (cs.map Piece.ofChar) := by
      rw [List.map_cons]
      rcases escape_cases c with ⟨d, written, other, _⟩ | ⟨written, low⟩ | ⟨written, _⟩
      · rw [Piece.ofChar_of_short written other, charsOf?]
      · rw [Piece.ofChar_of_code written, charsOf?_unit (by omega), Char.ofNat_toNat]
      · rw [Piece.ofChar_of_plain written, charsOf?]
    rw [next, ih, List.reverse_cons, List.append_assoc, List.singleton_append]

theorem stringOf?_pieces (s : String) : stringOf? (pieces s) = some s := by
  rw [stringOf?, pieces, charsOf?_pieces, List.reverse_nil, List.nil_append, Option.map_some,
    String.ofList_toList]

end RankedStore.Json
