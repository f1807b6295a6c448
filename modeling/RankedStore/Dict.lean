/-! Maps held as a list of entries in strictly increasing key order. There is one list for each
finite map, so equality of maps is equality of their look-ups (`Dict.ext_get?`), and walking the
entries is walking the keys in order. -/
namespace RankedStore

/-- Keys are strictly and totally ordered. -/
class Key (κ : Type) [LT κ] : Prop where
  irrefl (a : κ) : ¬ a < a
  trans {a b c : κ} : a < b → b < c → a < c
  connected {a b : κ} : ¬ a < b → ¬ b < a → a = b

instance : Key String where
  irrefl := String.lt_irrefl
  trans := String.lt_trans
  connected h₁ h₂ := String.le_antisymm (String.not_lt.mp h₂) (String.not_lt.mp h₁)

instance : Key Int64 where
  irrefl _ := Int64.lt_irrefl
  trans := Int64.lt_trans
  connected h₁ h₂ := Int64.le_antisymm (Int64.not_lt.mp h₂) (Int64.not_lt.mp h₁)

structure Dict (κ α : Type) [LT κ] where
  entries : List (κ × α)
  sorted : entries.Pairwise (fun a b => a.1 < b.1)

namespace Dict

variable {κ α β : Type} [LT κ]

theorem ext_entries {m n : Dict κ α} (h : m.entries = n.entries) : m = n := by
  cases m; cases n; cases h; rfl

instance [DecidableEq κ] [DecidableEq α] : DecidableEq (Dict κ α) := fun m n =>
  decidable_of_iff (m.entries = n.entries) ⟨ext_entries, fun h => h ▸ rfl⟩

def empty : Dict κ α := ⟨[], .nil⟩

instance : Inhabited (Dict κ α) := ⟨empty⟩

def keys (m : Dict κ α) : List κ := m.entries.map (·.1)

def values (m : Dict κ α) : List α := m.entries.map (·.2)

def size (m : Dict κ α) : Nat := m.entries.length

def isEmpty (m : Dict κ α) : Bool := m.entries.isEmpty

def get? [DecidableEq κ] (m : Dict κ α) (k : κ) : Option α :=
  (m.entries.find? (fun e => e.1 = k)).map (·.2)

def contains [DecidableEq κ] (m : Dict κ α) (k : κ) : Bool := (m.get? k).isSome

/-- Puts an entry in its place, taking the place of one with the same key. -/
def place [DecidableLT κ] (k : κ) (v : α) : List (κ × α) → List (κ × α)
  | [] => [(k, v)]
  | e :: rest =>
    if k < e.1 then (k, v) :: e :: rest
    else if e.1 < k then e :: place k v rest
    else (k, v) :: rest

theorem mem_place [DecidableLT κ] {k : κ} {v : α} {e : κ × α} {l : List (κ × α)}
    (h : e ∈ place k v l) : e = (k, v) ∨ e ∈ l := by
  induction l with
  | nil => simpa [place] using h
  | cons d rest ih =>
    unfold place at h
    split at h
    · simpa using h
    · split at h
      · rcases List.mem_cons.mp h with rfl | h
        · exact .inr (List.mem_cons_self ..)
        · exact (ih h).imp_right (List.mem_cons_of_mem _)
      · exact (List.mem_cons.mp h).imp_right (List.mem_cons_of_mem _)

theorem sorted_place [DecidableLT κ] [Key κ] {k : κ} {v : α} {l : List (κ × α)}
    (h : l.Pairwise (fun a b => a.1 < b.1)) :
    (place k v l).Pairwise (fun a b => a.1 < b.1) := by
  induction l with
  | nil => simp [place]
  | cons d rest ih =>
    obtain ⟨hd, hrest⟩ := List.pairwise_cons.mp h
    unfold place
    split
    · rename_i below
      refine List.pairwise_cons.mpr ⟨fun e he => ?_, h⟩
      rcases List.mem_cons.mp he with rfl | he
      · exact below
      · exact Key.trans below (hd e he)
    · split
      · rename_i above
        refine List.pairwise_cons.mpr ⟨fun e he => ?_, ih hrest⟩
        rcases mem_place he with rfl | he
        · exact above
        · exact hd e he
      · rename_i notBelow notAbove
        have same : k = d.1 := Key.connected notBelow notAbove
        exact List.pairwise_cons.mpr ⟨fun e he => same ▸ hd e he, hrest⟩

def insert [DecidableLT κ] [Key κ] (m : Dict κ α) (k : κ) (v : α) : Dict κ α :=
  ⟨place k v m.entries, sorted_place m.sorted⟩

def erase [DecidableEq κ] (m : Dict κ α) (k : κ) : Dict κ α :=
  ⟨m.entries.filter (fun e => e.1 ≠ k), m.sorted.filter _⟩

/-- A later pair takes the place of an earlier one with the same key. -/
def ofList [DecidableLT κ] [Key κ] (pairs : List (κ × α)) : Dict κ α :=
  pairs.foldl (fun m e => m.insert e.1 e.2) empty

def mapValues (f : α → β) (m : Dict κ α) : Dict κ β :=
  ⟨m.entries.map (fun e => (e.1, f e.2)), List.pairwise_map.mpr m.sorted⟩

/-! Look-ups determine a map, and each operation is known by its look-ups. -/

theorem mem_entries_iff [DecidableEq κ] [Key κ] {m : Dict κ α} {k : κ} {v : α} :
    (k, v) ∈ m.entries ↔ m.get? k = some v := by
  obtain ⟨l, h⟩ := m
  simp only [get?]
  induction l with
  | nil => simp
  | cons d rest ih =>
    obtain ⟨hd, hrest⟩ := List.pairwise_cons.mp h
    by_cases same : d.1 = k
    · have notIn : (k, v) ∉ rest := fun hm =>
        Key.irrefl k (by simpa [same] using hd _ hm)
      simp only [List.mem_cons, notIn, or_false, List.find?_cons, same, decide_true,
        Option.map_some, Option.some.injEq]
      exact ⟨fun h => by rw [← h], fun h => by rw [← same, ← h]⟩
    · have ne : (k, v) ≠ d := fun h => same (by rw [← h])
      simpa [List.find?_cons, same, ne] using ih hrest

@[simp] theorem get?_empty [DecidableEq κ] (k : κ) : (empty : Dict κ α).get? k = none := rfl

@[simp] theorem get?_insert_self [DecidableEq κ] [DecidableLT κ] [Key κ] (m : Dict κ α) (k : κ)
    (v : α) :
    (m.insert k v).get? k = some v := by
  obtain ⟨l, h⟩ := m
  simp only [get?, insert]
  clear h
  induction l with
  | nil => simp [place]
  | cons d rest ih =>
    unfold place
    split
    · simp
    · split
      · rename_i above
        have ne : d.1 ≠ k := fun h => Key.irrefl k (h ▸ above)
        simpa [List.find?_cons, ne] using ih
      · simp

@[simp] theorem get?_insert_of_ne [DecidableEq κ] [DecidableLT κ] [Key κ] (m : Dict κ α) {k k' : κ}
    (v : α) (ne : k ≠ k') : (m.insert k v).get? k' = m.get? k' := by
  obtain ⟨l, h⟩ := m
  simp only [get?, insert]
  clear h
  induction l with
  | nil => simp [place, ne]
  | cons d rest ih =>
    unfold place
    split
    · simp [ne]
    · split
      · by_cases same : d.1 = k'
        · simp [same]
        · simpa [List.find?_cons, same] using ih
      · rename_i notBelow notAbove
        have same : k = d.1 := Key.connected notBelow notAbove
        simp [← same, ne]

@[simp] theorem get?_erase_self [DecidableEq κ] (m : Dict κ α) (k : κ) :
    (m.erase k).get? k = none := by
  simp [get?, erase, List.find?_eq_none]

@[simp] theorem get?_erase_of_ne [DecidableEq κ] (m : Dict κ α) {k k' : κ} (ne : k ≠ k') :
    (m.erase k).get? k' = m.get? k' := by
  simp only [get?, erase, List.find?_filter]
  congr 2
  funext e
  by_cases h : e.1 = k'
  · simp [h, ne.symm]
  · simp [h]

theorem ext_get? [DecidableEq κ] [Key κ] {m n : Dict κ α} (h : ∀ k, m.get? k = n.get? k) :
    m = n := by
  have same : ∀ e, e ∈ m.entries ↔ e ∈ n.entries := fun e => by
    rw [show e = (e.1, e.2) from rfl, mem_entries_iff, mem_entries_iff, h]
  apply ext_entries
  obtain ⟨l, hl⟩ := m
  obtain ⟨r, hr⟩ := n
  simp only at same ⊢
  clear h
  induction l generalizing r with
  | nil =>
    cases r with
    | nil => rfl
    | cons e rest => exact absurd ((same e).mpr (List.mem_cons_self ..)) (by simp)
  | cons d left ih =>
    cases r with
    | nil => exact absurd ((same d).mp (List.mem_cons_self ..)) (by simp)
    | cons e right =>
      obtain ⟨hd, hleft⟩ := List.pairwise_cons.mp hl
      obtain ⟨he, hright⟩ := List.pairwise_cons.mp hr
      have heads : d = e := by
        rcases List.mem_cons.mp ((same d).mp (List.mem_cons_self ..)) with eq | later
        · exact eq
        · rcases List.mem_cons.mp ((same e).mpr (List.mem_cons_self ..)) with eq | later'
          · exact eq.symm
          · exact absurd (Key.trans (he d later) (hd e later')) (Key.irrefl _)
      subst heads
      congr 1
      refine ih hleft right hright fun x => ⟨fun hx => ?_, fun hx => ?_⟩
      · rcases List.mem_cons.mp ((same x).mp (List.mem_cons_of_mem _ hx)) with rfl | hx'
        · exact absurd (hd x hx) (Key.irrefl _)
        · exact hx'
      · rcases List.mem_cons.mp ((same x).mpr (List.mem_cons_of_mem _ hx)) with rfl | hx'
        · exact absurd (he x hx) (Key.irrefl _)
        · exact hx'

end Dict
end RankedStore
