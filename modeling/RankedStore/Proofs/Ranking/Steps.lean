import RankedStore.Proofs.Ranking.Shift

/-! What the writes of a ranking do to the list: each is a shift of positions, after which a row is
written or deleted. -/
namespace RankedStore.Table

variable {t t₁ t₂ : Table} {p : Nat} {id q : Int64} {row : Row} {order : List Int64} {i : Nat}
  {P : Int64 → Int → Bool} {σ : Int64 → Int → Int} {n : Int64}

theorem Listed.bounds {position : Int64 → Option Int} (listed : Listed order position) {m : Int}
    (known : position id = some m) : 1 ≤ m ∧ m ≤ order.length := by
  obtain ⟨i, here, rfl⟩ := listed.index known
  have := (List.getElem?_eq_some_iff.mp here).1
  omega

theorem shifted_of_pos {delta : Int64} {m : Int} (chosen : P id m = true) :
    shifted P delta id m = m + delta.toInt := if_pos chosen

theorem shifted_of_neg {delta : Int64} {m : Int} (spared : P id m = false) :
    shifted P delta id m = m := if_neg (by simp [spared])

/-- The shift between two positions, away from the new one. -/
theorem shifted_between {old new k : Int64} {m : Int} (other : k ≠ id) (apart : m ≠ old.toInt) :
    shifted (fun k m => decide ((min old new).toInt ≤ m ∧ m ≤ (max old new).toInt ∧ k ≠ id))
      (if old < new then -1 else 1) k m =
        if old.toInt < m ∧ m ≤ new.toInt then m - 1
        else if new.toInt ≤ m ∧ m < old.toInt then m + 1
        else m := by
  have minus : (-1 : Int64).toInt = -1 := by decide
  have one : (1 : Int64).toInt = 1 := rfl
  rw [toInt_min, toInt_max]
  by_cases down : old < new
  · have lt := Int64.lt_iff_toInt_lt.mp down
    rw [if_pos down]
    by_cases inside : old.toInt < m ∧ m ≤ new.toInt
    · rw [shifted_of_pos (by simpa [other] using by omega), minus, if_pos inside]
      rfl
    · rw [shifted_of_neg (by simpa [other] using by omega), if_neg inside, if_neg (by omega)]
  · have le := Int.not_lt.mp fun lt => down (Int64.lt_iff_toInt_lt.mpr lt)
    rw [if_neg down, if_neg (by omega)]
    by_cases inside : new.toInt ≤ m ∧ m < old.toInt
    · rw [shifted_of_pos (by simpa [other] using by omega), one, if_pos inside]
    · rw [shifted_of_neg (by simpa [other] using by omega), if_neg inside]

/-- After the positions have moved, a new row comes in with its own position. -/
theorem Moved.inserted (moved : t.Moved p σ t₁) (known : t.Known p) (behind : 0 < p)
    (inserted : t₁.insert row = .ok (id, t₂)) (cell : row[p]? = some (.integer q)) :
    t.position? p id = none ∧ t₂.Known p ∧
      ∀ k, t₂.position? p k = if k = id then some q.toInt else (t.position? p k).map (σ k) := by
  obtain ⟨_, _, free, _, next, _, rfl⟩ := insert_eq_ok inserted
  have cell' : (Value.integer id :: row.tail)[p]? = some (.integer q) := by
    obtain ⟨j, rfl⟩ := Nat.exists_eq_succ_of_ne_zero (Nat.ne_of_gt behind)
    rw [List.getElem?_cons_succ, List.getElem?_tail]
    exact cell
  have absent : t.get? id = none := by
    cases stored : t.get? id with
    | none => rfl
    | some old =>
      obtain ⟨n, at_p⟩ := known id old stored
      obtain ⟨m, _, stored'⟩ := moved.moved id old n stored at_p
      rw [get?, free] at stored'
      cases stored'
  refine ⟨position?_none absent, (moved.known known).insert id _ cell', fun k => ?_⟩
  rw [position?_insert t₁ id _ cell', moved.position? known]

namespace Ranks

/-- To make room behind the last row moves nothing. -/
theorem moved_behind_last (ranks : t.Ranks p order) (behind : order.length < q.toInt) :
    t.Moved p (shifted (fun _ m => decide (q.toInt ≤ m)) 1) t := by
  refine ⟨rfl, rfl, fun _ absent => absent, fun id row n stored cell => ?_⟩
  have bounds := Listed.bounds ranks.listed (position?_of stored cell)
  obtain ⟨m, value, same⟩ := (Moved.refl t p).moved id row n stored cell
  exact ⟨m, value.trans (shifted_of_neg (by simpa using by omega)).symm, same⟩

/-- A new row with the position after the last one, which leaves all others as they are. -/
theorem insert_last (ranks : t.Ranks p order) (behind : 0 < p) (last : q.toInt = order.length + 1)
    (moved : t.Moved p (shifted (fun _ m => decide (q.toInt ≤ m)) 1) t₁)
    (inserted : t₁.insert row = .ok (id, t₂)) (cell : row[p]? = some (.integer q)) :
    t₂.Ranks p (order ++ [id]) := by
  obtain ⟨absent, known, position⟩ := moved.inserted ranks.known behind inserted cell
  refine ⟨(ranks.listed.append absent).congr fun k => ?_, known⟩
  rw [position, last]
  cases placed : t.position? p k with
  | none => rfl
  | some m =>
    have bounds := Listed.bounds ranks.listed placed
    rw [Option.map_some, shifted_of_neg (by simpa using by omega)]

/-- A new row with position 1, for which all others make room. -/
theorem insert_first (ranks : t.Ranks p order) (behind : 0 < p)
    (moved : t.Moved p (shifted (fun _ m => decide ((1 : Int64).toInt ≤ m)) 1) t₁)
    (inserted : t₁.insert row = .ok (id, t₂)) (cell : row[p]? = some (.integer 1)) :
    t₂.Ranks p (id :: order) := by
  obtain ⟨absent, known, position⟩ := moved.inserted ranks.known behind inserted cell
  refine ⟨(ranks.listed.prepend absent).congr fun k => ?_, known⟩
  rw [position]
  cases placed : t.position? p k with
  | none => rfl
  | some m =>
    have bounds := Listed.bounds ranks.listed placed
    have one : (1 : Int64).toInt = 1 := rfl
    rw [Option.map_some, shifted_of_pos (by simpa [one] using by omega), one]
    rfl

/-- A row leaves, and those behind it close the gap. -/
theorem erase (ranks : t.Ranks p order) (here : order[i]? = some id)
    (place : n.toInt = (i : Int) + 1)
    (moved : t.Moved p (shifted (fun _ m => decide (n.toInt < m)) (-1)) t₁) :
    Ranks { t₁ with rows := t₁.rows.erase id } p (order.erase id) := by
  refine ⟨(ranks.listed.erase here).congr fun k => ?_, (moved.known ranks.known).erase id⟩
  rw [position?_erase, moved.position? ranks.known]
  split
  case isTrue => rfl
  case isFalse =>
    cases placed : t.position? p k with
    | none => rfl
    | some m =>
      have minus : (-1 : Int64).toInt = -1 := by decide
      rw [Option.map_some, Option.map_some]
      by_cases after : n.toInt < m
      · rw [shifted_of_pos (by simpa using after), minus, if_pos (by omega)]
        rfl
      · rw [shifted_of_neg (by simpa using after), if_neg (by omega)]

/-- A row goes to another place in the list, and those in between make room and close the gap. -/
theorem move (ranks : t.Ranks p order) {old new : Int64} {j : Nat} (here : order[i]? = some id)
    (place : old.toInt = (i : Int) + 1) (target : new.toInt = (j : Int) + 1)
    (bound : j < order.length)
    (moved : t.Moved p (shifted (fun k m => decide ((min old new).toInt ≤ m ∧
      m ≤ (max old new).toInt ∧ k ≠ id)) (if old < new then -1 else 1)) t₁)
    (cell : row[p]? = some (.integer new)) (next : Int64) :
    Ranks { t₁ with rows := t₁.rows.insert id row, nextId := next } p
      ((order.erase id).insertIdx j id) := by
  refine ⟨(ranks.listed.move here bound).congr fun k => ?_, (moved.known ranks.known).insert
    id _ cell⟩
  rw [position?_insert t₁ id _ cell, moved.position? ranks.known, target]
  split
  case isTrue => rfl
  case isFalse other =>
    cases placed : t.position? p k with
    | none => rfl
    | some m =>
      have apart : m ≠ old.toInt := by
        rintro rfl
        obtain ⟨i', there, value⟩ := ranks.listed.index placed
        obtain rfl : i = i' := by omega
        rw [here, Option.some.injEq] at there
        exact other there.symm
      rw [Option.map_some, Option.map_some, shifted_between other apart, place, target]

/-- A row is written anew with the position that it has. -/
theorem rewrite (ranks : t.Ranks p order) {old : Row} (stored : t.get? id = some old)
    (same : old[p]? = some (.integer n)) (cell : row[p]? = some (.integer n)) (next : Int64) :
    Ranks { t with rows := t.rows.insert id row, nextId := next } p order := by
  refine ⟨ranks.listed.congr fun k => ?_, ranks.known.insert id _ cell⟩
  rw [position?_insert t id _ cell]
  split
  case isTrue here => rw [here, position?_of stored same]
  case isFalse => rfl

end Ranks

/-- Setting one position. -/
theorem Moved.ofSet {m : Int64} (stored : t.get? id = some row) :
    t.Moved p (fun k x => if k = id then m.toInt else x)
      { t with rows := t.rows.insert id (row.set p (.integer m)) } := by
  refine ⟨rfl, rfl, fun key absent => ?_, fun key other x stored' cell' => ?_⟩
  · have ne : id ≠ key := by
      rintro rfl
      rw [stored] at absent
      cases absent
    rw [get?, Dict.get?_insert_of_ne _ _ ne]
    exact absent
  · by_cases same : key = id
    · subst same
      rw [stored, Option.some.injEq] at stored'
      subst stored'
      exact ⟨m, (if_pos rfl).symm, Dict.get?_insert_self ..⟩
    · obtain ⟨bound, value⟩ := List.getElem?_eq_some_iff.mp cell'
      refine ⟨x, (if_neg same).symm, ?_⟩
      rw [get?, Dict.get?_insert_of_ne _ _ (Ne.symm same), ← value, List.set_getElem_self bound]
      exact stored'

/-- Only positions have changed, and two rows have each other's. -/
structure Swapped (t : Table) (p : Nat) (id other : Int64) (t' : Table) : Prop where
  moved : ∃ σ, t.Moved p σ t'
  position : ∀ key, t'.position? p key = t.position? p (exchange id other key)

namespace Swapped

variable {t' : Table} {other : Int64}

/-- Two rows that are given each other's positions change places. -/
theorem ofMoved {m : Int64} (known : t.Known p) (first : t.position? p id = some n.toInt)
    (second : t.position? p other = some m.toInt)
    (moved : t.Moved p (fun k x => if k = id then m.toInt else x) t₁)
    (moved' : t₁.Moved p (fun k x => if k = other then n.toInt else x) t₂) :
    t.Swapped p id other t₂ := by
  refine ⟨⟨_, moved.trans moved'⟩, fun k => ?_⟩
  rw [moved'.position? (moved.known known), moved.position? known]
  unfold exchange
  by_cases here : k = id
  · subst here
    rw [if_pos rfl, second, first]
    by_cases same : k = other
    · subst same
      rw [first] at second
      simp [Option.some.inj second]
    · simp [same]
  · rw [if_neg here]
    by_cases there : k = other
    · subst there
      simp [second, first]
    · simp [here, there]

theorem ranks (swapped : t.Swapped p id other t') (ranks : t.Ranks p order) :
    t'.Ranks p (order.map (exchange id other)) := by
  obtain ⟨_, moved⟩ := swapped.moved
  exact ⟨(ranks.listed.swap id other).congr swapped.position, moved.known ranks.known⟩

/-- A second exchange of the same rows brings back the table. -/
theorem back (known : t.Known p) (first : t.Swapped p id other t₁)
    (second : t₁.Swapped p id other t₂) :
    t₂ = t := by
  obtain ⟨_, moved⟩ := first.moved
  obtain ⟨_, moved'⟩ := second.moved
  refine (moved.trans moved').ext known (.refl t p) fun key => ?_
  rw [second.position, first.position, exchange_exchange]

end Swapped

end RankedStore.Table
