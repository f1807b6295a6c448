import RankedStore.Proofs.Sound
import RankedStore.Proofs.Ranking.Listed

/-! Tables with positions. The rows are those of a list of ids, in the order of their positions,
which may be in any integer column that is neither unique nor the id. -/
namespace RankedStore

/-- A table whose one column of this name, at this place behind the id, may hold positions. -/
structure TableLayout.RanksBy (layout : TableLayout) (column : String) (p : Nat) : Prop where
  place : layout.index column = .ok p
  behind : 0 < p
  holder : ∃ c, layout.columns[p]? = some c ∧ c.name = column ∧ c.unique = false ∧
    ∀ n, c.check (.integer n) = .ok ()
  only : ∀ (i : Nat) c, layout.columns[i]? = some c → c.name = column → i = p
  first : layout.columns[0]? = some Column.id
  onlyId : ∀ (i : Nat) c, layout.columns[i]? = some c → c.name = Column.idName → i = 0

theorem TableLayout.RanksBy.ne_id {layout : TableLayout} {column : String} {p : Nat}
    (ranks : layout.RanksBy column p) : column ≠ Column.idName := by
  rintro rfl
  obtain ⟨c, at_p, named, _⟩ := ranks.holder
  exact absurd (ranks.onlyId p c at_p named) (Nat.ne_of_gt ranks.behind)

namespace Table

variable {t t' : Table} {p : Nat} {id : Int64} {row : Row} {n : Int64} {order : List Int64}
  {σ : Int64 → Int → Int} {column : String}

/-- The integer that a stored row has at a place. -/
def position? (t : Table) (p : Nat) (id : Int64) : Option Int :=
  (((t.get? id).bind fun row => row[p]?).bind Value.integer?).map Int64.toInt

theorem position?_of (stored : t.get? id = some row) (cell : row[p]? = some (.integer n)) :
    t.position? p id = some n.toInt := by
  simp only [position?, stored, Option.bind_some, cell, Value.integer?, Option.map_some]

theorem position?_none (absent : t.get? id = none) : t.position? p id = none := by
  simp only [position?, absent, Option.bind_none, Option.map_none]

theorem position?_insert (t : Table) (id next : Int64) (cell : row[p]? = some (.integer n))
    (k : Int64) :
    position? { t with rows := t.rows.insert id row, nextId := next } p k =
      if k = id then some n.toInt else t.position? p k := by
  by_cases same : k = id
  · subst same
    rw [if_pos rfl]
    exact position?_of (Dict.get?_insert_self ..) cell
  · rw [if_neg same]
    unfold position? get?
    rw [Dict.get?_insert_of_ne _ _ (Ne.symm same)]

theorem position?_erase (t : Table) (p : Nat) (id k : Int64) :
    position? { t with rows := t.rows.erase id } p k = if k = id then none else t.position?
      p k := by
  by_cases same : k = id
  · subst same
    rw [if_pos rfl]
    exact position?_none (Dict.get?_erase_self ..)
  · rw [if_neg same]
    unfold position? get?
    rw [Dict.get?_erase_of_ne _ (Ne.symm same)]

/-- Every stored row has an integer at the place. -/
def Known (t : Table) (p : Nat) : Prop :=
  ∀ id row, t.get? id = some row → ∃ n, row[p]? = some (.integer n)

theorem Known.insert (known : t.Known p) (id next : Int64) (cell : row[p]? = some (.integer n)) :
    Known { t with rows := t.rows.insert id row, nextId := next } p := by
  intro key other stored
  rw [get?, Dict.get?_insert] at stored
  split at stored
  case isTrue =>
    cases stored
    exact ⟨n, cell⟩
  case isFalse => exact known key other stored

theorem Known.erase (known : t.Known p) (id : Int64) :
    Known { t with rows := t.rows.erase id } p := by
  intro key other stored
  rw [get?, Dict.get?_erase] at stored
  split at stored
  case isTrue => cases stored
  case isFalse => exact known key other stored

theorem Known.row_of_position (known : t.Known p) {m : Int} (placed : t.position? p id = some m) :
    ∃ row n, t.get? id = some row ∧ row[p]? = some (.integer n) ∧ n.toInt = m := by
  cases stored : t.get? id with
  | none =>
    rw [position?_none stored] at placed
    cases placed
  | some row =>
    obtain ⟨n, cell⟩ := known id row stored
    rw [position?_of stored cell, Option.some.injEq] at placed
    exact ⟨row, n, rfl, cell, placed⟩

/-- The rows of the table are those of the ids in the list, each with its place as position. -/
structure Ranks (t : Table) (p : Nat) (order : List Int64) : Prop where
  listed : Listed order (t.position? p)
  known : t.Known p

namespace Ranks

theorem row_at (ranks : t.Ranks p order) {i : Nat} (here : order[i]? = some id) :
    ∃ row n, t.get? id = some row ∧ row[p]? = some (.integer n) ∧ n.toInt = (i : Int) + 1 :=
  ranks.known.row_of_position (ranks.listed.placed i id here)

theorem index (ranks : t.Ranks p order) (stored : t.get? id = some row)
    (cell : row[p]? = some (.integer n)) :
    ∃ i : Nat, order[i]? = some id ∧ n.toInt = (i : Int) + 1 :=
  ranks.listed.index (position?_of stored cell)

theorem mem_iff (ranks : t.Ranks p order) : id ∈ order ↔ ∃ row, t.get? id = some row := by
  constructor
  · intro member
    obtain ⟨i, here⟩ := List.getElem?_of_mem member
    obtain ⟨row, _, stored, _⟩ := ranks.row_at here
    exact ⟨row, stored⟩
  · rintro ⟨row, stored⟩
    obtain ⟨n, cell⟩ := ranks.known id row stored
    obtain ⟨i, here, _⟩ := ranks.index stored cell
    exact List.mem_of_getElem? here

theorem grown (ranks : t.Ranks p order) (larger : t.Grown t') : t'.Ranks p order := by
  obtain ⟨layout, rows, nextId⟩ := t
  obtain ⟨layout', rows', nextId'⟩ := t'
  obtain ⟨rfl, rfl, _⟩ := larger
  exact ⟨ranks.listed, ranks.known⟩

theorem ofEmpty (empty : t.rows = .empty) (p : Nat) : t.Ranks p [] := by
  have absent : ∀ id, t.get? id = none := fun id => by rw [get?, empty, Dict.get?_empty]
  constructor
  · constructor
    · rintro i id ⟨⟩
    · intro id known
      exact absurd (position?_none (absent id)) known
  · intro id row stored
    cases (absent id).symm.trans stored

end Ranks

/-- Nothing but positions has changed, each as the function says. -/
structure Moved (t : Table) (p : Nat) (σ : Int64 → Int → Int) (t' : Table) : Prop where
  layout : t'.layout = t.layout
  nextId : t'.nextId = t.nextId
  absent : ∀ id, t.get? id = none → t'.get? id = none
  moved : ∀ id row n, t.get? id = some row → row[p]? = some (.integer n) →
    ∃ m, m.toInt = σ id n.toInt ∧ t'.get? id = some (row.set p (.integer m))

namespace Moved

theorem position? (moved : t.Moved p σ t') (known : t.Known p) (id : Int64) :
    t'.position? p id = (t.position? p id).map (σ id) := by
  cases stored : t.get? id with
  | none => rw [position?_none stored, position?_none (moved.absent id stored), Option.map_none]
  | some row =>
    obtain ⟨n, cell⟩ := known id row stored
    obtain ⟨m, value, stored'⟩ := moved.moved id row n stored cell
    have bound : p < row.length := (List.getElem?_eq_some_iff.mp cell).1
    rw [position?_of stored cell, position?_of stored' (List.getElem?_set_self bound), value,
      Option.map_some]

theorem known (moved : t.Moved p σ t') (known : t.Known p) : t'.Known p := by
  intro id row stored
  cases before : t.get? id with
  | none =>
    rw [moved.absent id before] at stored
    cases stored
  | some old =>
    obtain ⟨n, cell⟩ := known id old before
    obtain ⟨m, _, stored'⟩ := moved.moved id old n before cell
    rw [stored', Option.some.injEq] at stored
    exact ⟨m, stored ▸ List.getElem?_set_self (List.getElem?_eq_some_iff.mp cell).1⟩

theorem sound (moved : t.Moved p σ t') (sound : t.Sound) (ranks : t.layout.RanksBy column p)
    (known : t.Known p) : t'.Sound := by
  obtain ⟨c, at_p, _, plain, admits⟩ := ranks.holder
  have same : t'.columns = t.columns := congrArg TableLayout.columns moved.layout
  have source : ∀ key other, t'.get? key = some other → ∃ old m, t.get? key = some old ∧
      other = old.set p (.integer m) := by
    intro key other stored
    cases before : t.get? key with
    | none =>
      rw [moved.absent key before] at stored
      cases stored
    | some old =>
      obtain ⟨n, cell⟩ := known key old before
      obtain ⟨m, _, stored'⟩ := moved.moved key old n before cell
      rw [stored', Option.some.injEq] at stored
      exact ⟨old, m, rfl, stored.symm⟩
  constructor
  · intro key other stored
    obtain ⟨old, m, before, rfl⟩ := source key other stored
    have checked := checkRow_set (sound.checked key old before) at_p (admits m)
    unfold checkRow at checked ⊢
    rwa [same, name, moved.layout]
  · intro key other stored
    obtain ⟨old, m, before, rfl⟩ := source key other stored
    have behind := ranks.behind
    rw [List.getElem?_set_ne (by omega)]
    exact sound.keyed key old before
  · intro key other key' other' stored stored' ne
    obtain ⟨old, m, before, rfl⟩ := source key other stored
    obtain ⟨old', m', before', rfl⟩ := source key' other' stored'
    rw [same]
    exact (sound.apart key old key' old' before before' ne).congr
      (Columns.agree_set at_p plain _ _) (Columns.agree_set at_p plain _ _)

theorem refl (t : Table) (p : Nat) : t.Moved p (fun _ m => m) t := by
  refine ⟨rfl, rfl, fun _ absent => absent, fun id row n stored cell => ?_⟩
  obtain ⟨bound, value⟩ := List.getElem?_eq_some_iff.mp cell
  exact ⟨n, rfl, by rw [stored, ← value, List.set_getElem_self bound]⟩

theorem trans {τ : Int64 → Int → Int} {t'' : Table} (first : t.Moved p σ t')
    (second : t'.Moved p τ t'') :
    t.Moved p (fun id m => τ id (σ id m)) t'' := by
  constructor
  · exact second.layout.trans first.layout
  · exact second.nextId.trans first.nextId
  · exact fun id absent => second.absent id (first.absent id absent)
  · intro id row n stored cell
    obtain ⟨m, value, stored'⟩ := first.moved id row n stored cell
    have bound : p < row.length := (List.getElem?_eq_some_iff.mp cell).1
    obtain ⟨l, value', stored''⟩ := second.moved id _ m stored' (List.getElem?_set_self bound)
    exact ⟨l, by rw [value', value], by rw [stored'', List.set_set]⟩

/-- Two ways to move the same rows to the same positions leave the same table. -/
theorem ext {τ : Int64 → Int → Int} {t'' : Table} (known : t.Known p) (left : t.Moved p σ t')
    (right : t.Moved p τ t'') (same : ∀ id, t'.position? p id = t''.position? p id) : t' = t'' := by
  have rows : t'.rows = t''.rows := by
    apply Dict.ext_get?
    intro id
    show t'.get? id = t''.get? id
    cases stored : t.get? id with
    | none => rw [left.absent id stored, right.absent id stored]
    | some row =>
      obtain ⟨n, cell⟩ := known id row stored
      have bound : p < row.length := (List.getElem?_eq_some_iff.mp cell).1
      obtain ⟨m, _, there⟩ := left.moved id row n stored cell
      obtain ⟨m', _, there'⟩ := right.moved id row n stored cell
      have equal := same id
      rw [position?_of there (List.getElem?_set_self bound),
        position?_of there' (List.getElem?_set_self bound), Option.some.injEq,
        Int64.toInt_inj] at equal
      rw [there, there', equal]
  have layouts := left.layout.trans right.layout.symm
  have nextIds := left.nextId.trans right.nextId.symm
  cases t'
  cases t''
  cases rows
  cases layouts
  cases nextIds
  rfl

theorem eq_of_ranks {τ : Int64 → Int → Int} {t'' : Table} (known : t.Known p)
    (left : t.Moved p σ t') (right : t.Moved p τ t'') (ranks : t'.Ranks p order)
    (ranks' : t''.Ranks p order) : t' = t'' :=
  left.ext known right (ranks.listed.position_eq ranks'.listed)

theorem alike (moved : t.Moved p σ t') (ranks : t.layout.RanksBy column p) (known : t.Known p) :
    t.Alike t' := by
  obtain ⟨c, at_p, _, plain, _⟩ := ranks.holder
  refine ⟨moved.layout, moved.nextId, fun id => ?_⟩
  cases stored : t.get? id with
  | none =>
    rw [moved.absent id stored]
    exact .none
  | some row =>
    obtain ⟨n, cell⟩ := known id row stored
    obtain ⟨m, _, stored'⟩ := moved.moved id row n stored cell
    rw [stored']
    exact .some (Columns.agree_set at_p plain row _)

end Moved
end Table
end RankedStore
