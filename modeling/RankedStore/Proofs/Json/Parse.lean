import RankedStore.Proofs.Json.Scan

/-! Every document is read from its tokens, and so from the text of a value that is written as
it. -/
namespace RankedStore.Json.Document

open Token

/-- Tokens that take the reader from one stage to another. -/
def Reads (start : Stage) (tokens : List Token) (stop : Stage) : Prop :=
  tokens.foldlM Stage.step start = some stop

namespace Reads

variable {start middle stop : Stage} {tokens others : List Token} {token : Token}

theorem cons (step : start.step token = some middle) (rest : Reads middle tokens stop) :
    Reads start (token :: tokens) stop := by
  unfold Reads at rest ⊢
  rw [List.foldlM_cons, step]
  exact rest

theorem one (step : start.step token = some stop) : Reads start [token] stop := .cons step rfl

theorem append (first : Reads start tokens middle) (rest : Reads middle others stop) :
    Reads start (tokens ++ others) stop := by
  unfold Reads at first rest ⊢
  rw [List.foldlM_append, first]
  exact rest

end Reads

/-- The stage takes a value that goes into these frames. -/
def Stage.Awaits (start : Stage) (frames : List Frame) : Prop :=
  ∀ token, token ≠ closeArray → start.step token = stepValue frames token

theorem Stage.nextValue_awaits (frames : List Frame) : (nextValue frames).Awaits frames :=
  fun _ _ => rfl

theorem Stage.firstItem_awaits (frames : List Frame) :
    (firstItem frames).Awaits (.items [] :: frames) := by
  intro token goesOn
  cases token with
  | closeArray => exact absurd rfl goesOn
  | _ => rfl

/-- The stage takes the key of a member that comes after those that were read. -/
def Stage.AwaitsKey (start : Stage) (read : List (List Piece × Document)) (frames : List Frame) :
    Prop :=
  ∀ key, start.step (.text key) = some (.afterKey read key frames)

theorem Stage.firstKey_awaits (frames : List Frame) : (firstKey frames).AwaitsKey [] frames :=
  fun _ => rfl

theorem Stage.nextKey_awaits (read : List (List Piece × Document)) (frames : List Frame) :
    (nextKey read frames).AwaitsKey read frames :=
  fun _ => rfl

theorem Reads.member {start stop : Stage} {read : List (List Piece × Document)}
    {frames : List Frame} {key : List Piece} {tokens : List Token}
    (awaits : start.AwaitsKey read frames)
    (value : Reads (.nextValue (.members read key :: frames)) tokens stop) :
    Reads start (.text key :: colon :: tokens) stop :=
  .cons (awaits key) (.cons rfl value)

-- By recursion on the document. The stage before it is any that awaits a value, for the first item
-- of an array is read in another stage than the later ones, and so is the first key of an object.
mutual

theorem reads_value {start : Stage} {frames : List Frame} (awaits : start.Awaits frames) :
    ∀ d : Document, Reads start d.tokens (.afterValue d frames)
  | .null => .one (awaits _ nofun)
  | .boolean _ => .one (awaits _ nofun)
  | .number _ => .one (awaits _ nofun)
  | .text _ => .one (awaits _ nofun)
  | .array [] => .cons (awaits _ nofun) (.one rfl)
  | .array (item :: rest) =>
    .cons (awaits _ nofun) (reads_items (Stage.firstItem_awaits frames) (item :: rest) nofun)
  | .object [] => .cons (awaits _ nofun) (.one rfl)
  | .object (member :: rest) =>
    .cons (awaits _ nofun) (reads_members (Stage.firstKey_awaits frames) (member :: rest) nofun)

theorem reads_items {start : Stage} {frames : List Frame} {read : List Document}
    (awaits : start.Awaits (.items read :: frames)) : ∀ items, items ≠ [] →
    Reads start ([comma].intercalate (itemTokens items) ++ [closeArray])
      (.afterValue (.array (read.reverse ++ items)) frames)
  | [], filled => absurd rfl filled
  | [item], _ => by
    rw [itemTokens, itemTokens, List.intercalate_singleton, ← List.reverse_cons]
    exact (reads_value awaits item).append (.one rfl)
  | item :: next :: rest, _ => by
    have others := reads_items (Stage.nextValue_awaits (.items (item :: read) :: frames))
      (next :: rest) nofun
    rw [List.reverse_cons, List.append_assoc, List.singleton_append] at others
    rw [itemTokens, itemTokens, List.intercalate_cons_cons, ← itemTokens, List.append_assoc,
      List.append_assoc]
    exact (reads_value awaits item).append (.cons rfl others)

theorem reads_members {start : Stage} {frames : List Frame} {read : List (List Piece × Document)}
    (awaits : start.AwaitsKey read frames) : ∀ members, members ≠ [] →
    Reads start ([comma].intercalate (memberTokens members) ++ [closeObject])
      (.afterValue (.object (read.reverse ++ members)) frames)
  | [], filled => absurd rfl filled
  | [(key, value)], _ => by
    rw [memberTokens, memberTokens, List.intercalate_singleton, ← List.reverse_cons]
    exact (Reads.member awaits (reads_value (Stage.nextValue_awaits _) value)).append (.one rfl)
  | (key, value) :: (next, other) :: rest, _ => by
    have others := reads_members (Stage.nextKey_awaits ((key, value) :: read) frames)
      ((next, other) :: rest) nofun
    rw [List.reverse_cons, List.append_assoc, List.singleton_append] at others
    rw [memberTokens, memberTokens, List.intercalate_cons_cons, ← memberTokens, List.append_assoc,
      List.append_assoc]
    exact (Reads.member awaits (reads_value (Stage.nextValue_awaits _) value)).append
      (.cons rfl others)

end

theorem ofTokens?_tokens (d : Document) : ofTokens? d.tokens = some d := by
  have reads : d.tokens.foldlM Stage.step (.nextValue []) = some (.afterValue d []) :=
    reads_value (Stage.nextValue_awaits []) d
  rw [ofTokens?, reads]

/-- The text of a value holds the document that the value is written as. -/
theorem ofText?_pretty {j : Json} (finite : j.Finite) : ofText? j.pretty = some j.document := by
  rw [ofText?, pretty, String.toList_ofList, scan_pretty finite]
  exact ofTokens?_tokens j.document

end RankedStore.Json.Document
