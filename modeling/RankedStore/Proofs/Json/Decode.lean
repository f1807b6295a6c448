import RankedStore.Proofs.Dict
import RankedStore.Proofs.Json.Parse

/-! Decoding what was written. Each way to decode a document gives back the value that was written
in the way that goes with it, so a record is restored if its members are. Where a part comes back as
another value, so does the record. -/
namespace RankedStore.Json

/-- The characters of a numeral are not escaped in a string. -/
theorem Piece.ofChar_numeral {c : Char} (numeral : Token.isNumeralChar c = true) :
    ofChar c = .char c := by
  simp only [Token.isNumeralChar, Bool.or_eq_true, decide_eq_true_eq] at numeral
  rcases numeral with ((((digit | rfl) | rfl) | rfl) | rfl) | rfl
  case inl =>
    have high : 0x30 ≤ c.toNat := (Char.isDigit_iff_toNat.mp digit).1
    rcases escape_cases c with ⟨d, written, other, _⟩ | ⟨_, low⟩ | ⟨written, _⟩
    · exact ofChar_of_short written other
    · omega
    · exact ofChar_of_plain written
  all_goals rfl

namespace Decoder

variable {α β κ : Type} {decoder : Decoder α} {toJson : α → Json} {depth : Nat}

theorem mapM_of_forall {f : α → Option β} {g : α → β} {xs : List α}
    (each : ∀ x ∈ xs, f x = some (g x)) :
    xs.mapM f = some (xs.map g) := by
  induction xs with
  | nil => rfl
  | cons x xs ih =>
    have others := ih fun y member => each y (List.mem_cons_of_mem _ member)
    rw [List.mapM_cons, each x (List.mem_cons_self ..), others]
    rfl

/-- Reading each of the things that were written gives all of them. -/
theorem mapM_map_of_forall {f : β → Option α} {g : α → β} {xs : List α}
    (each : ∀ x ∈ xs, f (g x) = some x) : (xs.map g).mapM f = some xs := by
  rw [List.mapM_map]
  exact (mapM_of_forall each).trans (congrArg some (List.map_id' xs))

/-- What is read in two steps. -/
theorem bind_reads {x : Option α} {f : α → Option β} {a : α} {b : β} (first : x = some a)
    (rest : f a = some b) : x >>= f = some b := by
  rw [first]
  exact rest

/-- The value is written with finite numbers, and decoding gives this one. -/
structure Rereads (decoder : Decoder α) (depth : Nat) (toJson : α → Json) (a b : α) : Prop where
  finite : (toJson a).Finite
  reads : decoder depth (toJson a).document = some b

/-- Decoding gives the value back. -/
abbrev Restores (decoder : Decoder α) (depth : Nat) (toJson : α → Json) (a : α) : Prop :=
  Rereads decoder depth toJson a a

/-- What a value is decoded as comes from its text. -/
theorem Rereads.run_pretty {a b : α} (rereads : Rereads decoder nestingLimit toJson a b) :
    decoder.run (toJson a).pretty = some b := by
  rw [run, Document.ofText?_pretty rereads.finite]
  exact rereads.reads

theorem text_restores (depth : Nat) (s : String) : Restores text depth .text s where
  finite := .text s
  reads := stringOf?_pieces s

theorem integer_reads {low high n : Int} (read : (Numeral.ofInt n).number? = some (.whole n))
    (inside : low ≤ n ∧ n ≤ high) : integer low high depth (ofInt n).document = some n := by
  show integer low high depth (.number (Numeral.ofInt n)) = some n
  simp only [integer, read, if_pos inside]

theorem int64_restores (depth : Nat) (n : Int64) :
    Restores int64 depth (fun n => ofInt n.toInt) n where
  finite := .number n.toInt
  reads := by
    rw [int64, integer_reads (Numeral.number?_int64 n) ⟨Int64.minValue_le_toInt n,
      Int64.toInt_le n⟩]
    exact int64?_toInt n

theorem natural_restores (depth : Nat) {bound n : Nat} (below : n < bound)
    (fits : bound ≤ UInt64.size) :
    Restores (natural bound) depth ofNat n where
  finite := .number n
  reads := by
    have least : Int64.minValue.toInt ≤ n := by
      have negative : Int64.minValue.toInt ≤ 0 := by decide
      omega
    have greatest : (n : Int) ≤ Numeral.maxUInt64 := by
      have size : Numeral.maxUInt64 = UInt64.size - 1 := rfl
      omega
    have inside : (0 : Int) ≤ n ∧ (n : Int) ≤ (bound : Int) - 1 := by omega
    show (integer 0 ((bound : Int) - 1) depth (ofInt n).document).map Int.toNat = some n
    rw [integer_reads (Numeral.number?_ofInt least greatest) inside]
    rfl

/-- An array of values that are decoded one by one. -/
theorem list_rereads {g : α → α} {xs : List α}
    (each : ∀ x ∈ xs, Rereads decoder depth toJson x (g x)) :
    Rereads (list decoder) (depth + 1) (fun xs => .array (xs.map toJson)) xs (xs.map g) where
  finite := by
    refine .array fun item member => ?_
    obtain ⟨x, source, rfl⟩ := List.mem_map.mp member
    exact (each x source).finite
  reads := by
    show (documents (xs.map toJson)).mapM (decoder depth) = some (xs.map g)
    rw [documents_eq, List.map_map, List.mapM_map]
    exact mapM_of_forall fun x member => (each x member).reads

theorem list_restores {xs : List α} (each : ∀ x ∈ xs, Restores decoder depth toJson x) :
    Restores (list decoder) (depth + 1) (fun xs => .array (xs.map toJson)) xs := by
  simpa using list_rereads (g := id) each

/-- An object whose keys are restored and whose values are decoded one by one. -/
theorem dict_rereads [LT κ] [DecidableLT κ] [Key κ] {key? : List Piece → Option κ}
    {keyText : κ → String} {g : α → α} {m : Dict κ α}
    (keys : ∀ k, key? (pieces (keyText k)) = some k)
    (each : ∀ e ∈ m.entries, Rereads decoder depth toJson e.2 (g e.2)) :
    Rereads (dict key? decoder) (depth + 1)
      (fun m => .object (m.entries.map fun e => (keyText e.1, toJson e.2))) m (m.mapValues g) where
  finite := by
    refine .object fun member there => ?_
    obtain ⟨e, source, rfl⟩ := List.mem_map.mp there
    exact (each e source).finite
  reads := by
    show dict key? decoder (depth + 1) (.object (memberDocuments _)) = some (m.mapValues g)
    rw [dict, memberDocuments_eq, List.map_map, List.mapM_map]
    refine bind_reads (mapM_of_forall fun e member => ?_)
      (congrArg some (Dict.ofList_entries (m.mapValues g)))
    exact bind_reads (keys e.1) (bind_reads (each e member).reads rfl)

/-- The text of a 64-bit integer is a key that stands for it. -/
theorem int64Key?_pieces (id : Int64) : int64Key? (pieces (toString id)) = some id := by
  have valid := Numeral.valid_ofInt id.toInt
  have numeral : ∀ c ∈ Number.chars (.whole id.toInt), Token.isNumeralChar c = true := by
    obtain ⟨first, others, written, sign, numeral⟩ := Numeral.written_cons valid
    rw [Numeral.chars_whole, written]
    refine List.forall_mem_cons.mpr ⟨?_, numeral⟩
    rcases sign with digit | rfl
    · simp only [Token.isNumeralChar, digit, Bool.true_or]
    · rfl
  have text : pieces (toString id) = (Number.chars (.whole id.toInt)).map .char :=
    List.map_congr_left fun c member => Piece.ofChar_numeral (numeral c member)
  rw [int64Key?, text, Numeral.chars_whole]
  refine bind_reads (mapM_map_of_forall fun _ _ => rfl) ?_
  exact bind_reads (Numeral.ofChars?_written valid) (int64_restores 0 id).reads

/-- Members with different names are found by their names. -/
theorem filter_name {ms : List (String × Document)} (distinct : (ms.map (·.1)).Nodup)
    {m : String × Document} (member : m ∈ ms) : ms.filter (fun other => other.1 = m.1) = [m] := by
  induction ms with
  | nil => cases member
  | cons first rest ih =>
    obtain ⟨new, apart⟩ := List.nodup_cons.mp distinct
    rcases List.mem_cons.mp member with rfl | later
    · have others : rest.filter (fun other => other.1 = m.1) = [] := by
        refine List.filter_eq_nil_iff.mpr fun other there => ?_
        intro same
        exact new (List.mem_map.mpr ⟨other, there, of_decide_eq_true same⟩)
      rw [List.filter_cons, if_pos (decide_eq_true rfl), others]
    · have other : first.1 ≠ m.1 := fun same => new (List.mem_map.mpr ⟨m, later, same.symm⟩)
      rw [List.filter_cons, if_neg (mt of_decide_eq_true other), ih apart later]

theorem memberOnce?_of_mem {ms : List (String × Document)} (distinct : (ms.map (·.1)).Nodup)
    {m : String × Document} (member : m ∈ ms) : memberOnce? m.1 ms = some (some m.2) := by
  rw [memberOnce?, filter_name distinct member]

/-- The members of an object, in the order of the names that are asked for. -/
theorem members_reads {written : List (String × Json)} {names : List String}
    (same : written.map (·.1) = names) (distinct : names.Nodup) :
    members names (depth + 1) (Json.object written).document =
      some (depth, written.map fun m => some m.2.document) := by
  have keys : (written.map fun m => (m.1, m.2.document)).map (·.1) = names := by
    rw [List.map_map, ← same]
    rfl
  have found : names.mapM
    (fun name => memberOnce? name (written.map fun m => (m.1, m.2.document))) =
      some (written.map fun m => some m.2.document) := by
    rw [← same, List.mapM_map]
    refine mapM_of_forall fun m member => ?_
    exact memberOnce?_of_mem (keys ▸ distinct) (List.mem_map.mpr ⟨m, member, rfl⟩)
  show members names (depth + 1) (.object (memberDocuments written)) = _
  rw [members, memberDocuments_eq, List.mapM_map]
  refine bind_reads (mapM_of_forall fun m _ => ?_) (bind_reads found rfl)
  exact bind_reads (stringOf?_pieces m.1) rfl

end Decoder
end RankedStore.Json
