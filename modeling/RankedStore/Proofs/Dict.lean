import RankedStore.Dict

/-! Building a map from its entries, look-ups after a change, and changes that cancel each other. -/
namespace RankedStore.Dict

variable {κ α β : Type} [LT κ]

section

variable [Key κ] [DecidableLT κ]

theorem place_last {k : κ} {v : α} {l : List (κ × α)} (above : ∀ e ∈ l, e.1 < k) :
    place k v l = l ++ [(k, v)] := by
  induction l with
  | nil => rfl
  | cons e rest ih =>
    have below : e.1 < k := above e (List.mem_cons_self ..)
    have notAbove : ¬ k < e.1 := fun beyond => Key.irrefl k (Key.trans beyond below)
    rw [place, if_neg notAbove, if_pos below, ih fun e member =>
      above e (List.mem_cons_of_mem _ member), List.cons_append]

/-- Entries in order are put at the end, one after another. -/
theorem entries_foldl_insert (m : Dict κ α) {rest : List (κ × α)}
    (sorted : (m.entries ++ rest).Pairwise fun a b => a.1 < b.1) :
    (rest.foldl (fun m e => m.insert e.1 e.2) m).entries = m.entries ++ rest := by
  induction rest generalizing m with
  | nil => exact (List.append_nil _).symm
  | cons e rest ih =>
    have above : ∀ d ∈ m.entries, d.1 < e.1 := fun d member =>
      (List.pairwise_append.mp sorted).2.2 d member e (List.mem_cons_self ..)
    have longer : (m.insert e.1 e.2).entries = m.entries ++ [e] := place_last above
    have next := ih (m.insert e.1 e.2) (by rwa [longer, List.append_assoc, List.singleton_append])
    rw [List.foldl_cons, next, longer, List.append_assoc, List.singleton_append]

theorem ofList_entries (m : Dict κ α) : ofList m.entries = m :=
  ext_entries (entries_foldl_insert empty m.sorted)

end

theorem mapValues_eq_self {f : α → α} {m : Dict κ α} :
    m.mapValues f = m ↔ ∀ v ∈ m.values, f v = v := by
  have same : m.mapValues f = m ↔ m.entries.map (fun e => (e.1, f e.2)) = m.entries.map id := by
    rw [List.map_id]
    exact ⟨congrArg entries, fun same => ext_entries same⟩
  rw [same, List.map_inj_left, values, List.forall_mem_map]
  constructor
  · exact fun each e member => congrArg Prod.snd (each e member)
  · exact fun each e member => Prod.ext rfl (each e member)

variable [DecidableEq κ]

theorem get?_mapValues (f : α → β) (m : Dict κ α) (k : κ) :
    (m.mapValues f).get? k = (m.get? k).map f := by
  rw [get?, get?, mapValues, List.find?_map, Option.map_map, Option.map_map]
  rfl

theorem get?_erase (m : Dict κ α) (k k' : κ) :
    (m.erase k).get? k' = if k = k' then none else m.get? k' := by
  split
  case isTrue same => rw [← same, get?_erase_self]
  case isFalse ne => exact get?_erase_of_ne m ne

variable [Key κ]

theorem erase_of_get? {m : Dict κ α} (h : m.get? k = none) : m.erase k = m := by
  apply ext_get?
  intro k'
  rw [get?_erase]
  split
  case isTrue same => rw [← same, h]
  case isFalse => rfl

theorem mem_values {m : Dict κ α} : v ∈ m.values ↔ ∃ k, m.get? k = some v := by
  constructor
  · intro member
    obtain ⟨e, source, rfl⟩ := List.mem_map.mp member
    exact ⟨e.1, mem_entries_iff.mp source⟩
  · rintro ⟨k, found⟩
    exact List.mem_map.mpr ⟨(k, v), mem_entries_iff.mpr found, rfl⟩

variable [DecidableLT κ]

theorem get?_insert (m : Dict κ α) (k k' : κ) (v : α) :
    (m.insert k v).get? k' = if k = k' then some v else m.get? k' := by
  split
  case isTrue same => rw [← same, get?_insert_self]
  case isFalse ne => exact get?_insert_of_ne m v ne

theorem insert_of_get? {m : Dict κ α} (h : m.get? k = some v) : m.insert k v = m := by
  apply ext_get?
  intro k'
  rw [get?_insert]
  split
  case isTrue same => rw [← same, h]
  case isFalse => rfl

theorem erase_insert {m : Dict κ α} (h : m.get? k = none) : (m.insert k v).erase k = m := by
  apply ext_get?
  intro k'
  rw [get?_erase, get?_insert]
  split
  case isTrue same => rw [← same, h]
  case isFalse => rfl

theorem insert_erase {m : Dict κ α} (h : m.get? k = some v) : (m.erase k).insert k v = m := by
  apply ext_get?
  intro k'
  rw [get?_insert, get?_erase]
  split
  case isTrue same => rw [← same, h]
  case isFalse => rfl

theorem insert_insert (m : Dict κ α) (k : κ) (v w : α) :
    (m.insert k v).insert k w = m.insert k w := by
  apply ext_get?
  intro k'
  simp only [get?_insert]
  split <;> rfl

end RankedStore.Dict
