/-!
# Maps that keep the order of insertion

An `OrderedMap` is a list of entries read by key: the first entry of a key is the one that counts.

* `insert` replaces the value of a key that is there and KEEPS its place; a new key goes to the end.
* `erase` and `modify` leave the order of the other keys as it is.
* `ofList` inserts pair after pair: a repeated key keeps its first place and takes its last value.
* `update` inserts the entries of a second map.

Main statements: what `get?` and `keys` answer after each operation. None of them assumes that the
keys are distinct; that they stay distinct is `nodup_keys_insert` and its companions.
-/

namespace MediaCascade

/-- A map from `κ` to `α` whose entries are kept in the order of their first insertion. -/
structure OrderedMap (κ α : Type) where
  entries : List (κ × α)
  deriving DecidableEq, Repr

namespace OrderedMap

variable {κ α : Type}

/-! ## 1. Operations -/

/-- The map without entries. -/
def empty : OrderedMap κ α := ⟨[]⟩

/-- The keys, in order. -/
def keys (m : OrderedMap κ α) : List κ := m.entries.map Prod.fst

/-- The number of entries. -/
def size (m : OrderedMap κ α) : Nat := m.entries.length

/-- Whether there is no entry. -/
def isEmpty (m : OrderedMap κ α) : Bool := m.entries.isEmpty

variable [DecidableEq κ]

/-- The value of a key. -/
def get? (m : OrderedMap κ α) (k : κ) : Option α := m.entries.lookup k

/-- Whether a key is there. -/
def contains (m : OrderedMap κ α) (k : κ) : Bool := (m.get? k).isSome

/-- Sets the value of a key in a list of entries: in place, or at the end. -/
def insertEntry (k : κ) (v : α) : List (κ × α) → List (κ × α)
  | [] => [(k, v)]
  | entry :: rest => if k = entry.1 then (k, v) :: rest else entry :: insertEntry k v rest

/-- Sets the value of a key: in place if the key is there, else at the end. -/
def insert (m : OrderedMap κ α) (k : κ) (v : α) : OrderedMap κ α := ⟨insertEntry k v m.entries⟩

/-- Removes a key. -/
def erase (m : OrderedMap κ α) (k : κ) : OrderedMap κ α :=
  ⟨m.entries.filter fun entry => !decide (entry.1 = k)⟩

/-- Changes the value of a key by `f`. Nothing happens where the key is not there. -/
def modify (m : OrderedMap κ α) (k : κ) (f : α → α) : OrderedMap κ α :=
  ⟨m.entries.map fun entry => if entry.1 = k then (entry.1, f entry.2) else entry⟩

/-- Inserts the pairs of a list, one after the other. -/
def insertAll (m : OrderedMap κ α) (pairs : List (κ × α)) : OrderedMap κ α :=
  pairs.foldl (fun m pair => m.insert pair.1 pair.2) m

/-- The map of a list of pairs. -/
def ofList (pairs : List (κ × α)) : OrderedMap κ α := empty.insertAll pairs

/-- The map with the entries of another one inserted. -/
def update (m other : OrderedMap κ α) : OrderedMap κ α := m.insertAll other.entries

/-! ## 2. The empty map -/

omit [DecidableEq κ] in
@[simp] theorem keys_empty : (empty : OrderedMap κ α).keys = [] := rfl

@[simp] theorem get?_empty (k : κ) : (empty : OrderedMap κ α).get? k = none := rfl

@[simp] theorem contains_empty (k : κ) : (empty : OrderedMap κ α).contains k = false := rfl

/-! ## 3. Reading -/

omit [DecidableEq κ] in
theorem keys_mk (entries : List (κ × α)) :
    (⟨entries⟩ : OrderedMap κ α).keys = entries.map Prod.fst := rfl

@[simp] theorem get?_nil (k : κ) : (⟨[]⟩ : OrderedMap κ α).get? k = none := rfl

theorem get?_cons (entry : κ × α) (rest : List (κ × α)) (k : κ) :
    (⟨entry :: rest⟩ : OrderedMap κ α).get? k =
      if k = entry.1 then some entry.2 else (⟨rest⟩ : OrderedMap κ α).get? k := by
  obtain ⟨k', v'⟩ := entry
  by_cases h : k = k'
  · simp [get?, h]
  · have hb : (k == k') = false := by simpa using h
    simp [get?, List.lookup_cons, hb, h]

/-- A value that is read is the value of an entry. -/
theorem mem_entries_of_get? {m : OrderedMap κ α} {k : κ} {v : α} (h : m.get? k = some v) :
    (k, v) ∈ m.entries := by
  obtain ⟨entries⟩ := m
  induction entries with
  | nil => simp at h
  | cons entry rest ih =>
    rw [get?_cons] at h
    split at h
    · next hk => subst hk; cases h; simp
    · exact List.mem_cons_of_mem _ (ih h)

/-- **A key is there exactly if it is one of the keys.** -/
theorem contains_iff (m : OrderedMap κ α) (k : κ) : m.contains k = true ↔ k ∈ m.keys := by
  obtain ⟨entries⟩ := m
  induction entries with
  | nil => simp [contains, keys]
  | cons entry rest ih =>
    by_cases h : k = entry.1
    · simp [contains, get?_cons, keys, h]
    · have hk : k ∈ (⟨entry :: rest⟩ : OrderedMap κ α).keys ↔
          k ∈ (⟨rest⟩ : OrderedMap κ α).keys := by
        simp [keys, h]
      rw [hk, ← ih]
      simp [contains, get?_cons, h]

theorem get?_eq_none_iff (m : OrderedMap κ α) (k : κ) : m.get? k = none ↔ k ∉ m.keys := by
  rw [← contains_iff]
  simp [contains]

/-- Where the keys are distinct, every entry is read back. -/
theorem get?_of_mem_entries {m : OrderedMap κ α} (hm : m.keys.Nodup) {k : κ} {v : α}
    (h : (k, v) ∈ m.entries) : m.get? k = some v := by
  obtain ⟨entries⟩ := m
  induction entries with
  | nil => simp at h
  | cons entry rest ih =>
    simp only [keys_mk, List.map_cons, List.nodup_cons] at hm
    rw [get?_cons]
    simp only [List.mem_cons] at h
    rcases h with h | h
    · subst h; simp
    · rw [if_neg, ih hm.2 h]
      intro hk
      exact hm.1 (hk ▸ List.mem_map_of_mem h)

/-! ## 4. Insertion -/

@[simp] theorem get?_insert (m : OrderedMap κ α) (k : κ) (v : α) (k' : κ) :
    (m.insert k v).get? k' = if k' = k then some v else m.get? k' := by
  obtain ⟨entries⟩ := m
  simp only [insert]
  induction entries with
  | nil => simp [insertEntry, get?_cons]
  | cons entry rest ih =>
    unfold insertEntry
    by_cases h : k = entry.1
    · rw [if_pos h, get?_cons, get?_cons]
      by_cases hk : k' = k <;> simp [hk, ← h]
    · rw [if_neg h, get?_cons, ih, get?_cons]
      by_cases hk : k' = k
      · simp [hk, h]
      · simp [hk]

theorem map_fst_insertEntry (k : κ) (v : α) (entries : List (κ × α)) :
    (insertEntry k v entries).map Prod.fst =
      if k ∈ entries.map Prod.fst then entries.map Prod.fst
      else entries.map Prod.fst ++ [k] := by
  induction entries with
  | nil => simp [insertEntry]
  | cons entry rest ih =>
    unfold insertEntry
    by_cases h : k = entry.1
    · simp [h]
    · rw [if_neg h, List.map_cons, ih]
      by_cases hk : k ∈ rest.map Prod.fst
      · rw [if_pos hk, if_pos (by simp only [List.map_cons]; exact List.mem_cons_of_mem _ hk),
          List.map_cons]
      · rw [if_neg hk, if_neg (by simp only [List.map_cons, List.mem_cons]; exact not_or.2 ⟨h, hk⟩),
          List.map_cons, List.cons_append]

/-- **A key that is there keeps its place, a new one goes to the end.** -/
theorem keys_insert (m : OrderedMap κ α) (k : κ) (v : α) :
    (m.insert k v).keys = if k ∈ m.keys then m.keys else m.keys ++ [k] :=
  map_fst_insertEntry k v m.entries

theorem nodup_keys_insert {m : OrderedMap κ α} (hm : m.keys.Nodup) (k : κ) (v : α) :
    (m.insert k v).keys.Nodup := by
  rw [keys_insert]
  split
  · exact hm
  · next h => simp [List.nodup_append, hm]; exact fun a ha hk => h (hk ▸ ha)

theorem nodup_keys_insertAll {m : OrderedMap κ α} (hm : m.keys.Nodup) (pairs : List (κ × α)) :
    (m.insertAll pairs).keys.Nodup := by
  induction pairs generalizing m with
  | nil => exact hm
  | cons pair rest ih => exact ih (nodup_keys_insert hm _ _)

theorem nodup_keys_ofList (pairs : List (κ × α)) : (ofList pairs).keys.Nodup :=
  nodup_keys_insertAll (by simp) pairs

/-! ## 5. Removal -/

@[simp] theorem get?_erase (m : OrderedMap κ α) (k k' : κ) :
    (m.erase k).get? k' = if k' = k then none else m.get? k' := by
  obtain ⟨entries⟩ := m
  simp only [erase]
  induction entries with
  | nil => simp
  | cons entry rest ih =>
    by_cases h : entry.1 = k
    · rw [List.filter_cons_of_neg (by simp [h]), ih, get?_cons, h]
      by_cases hk : k' = k <;> simp [hk]
    · rw [List.filter_cons_of_pos (by simp [h]), get?_cons, ih, get?_cons]
      by_cases hk : k' = entry.1
      · simp [hk, h]
      · simp [hk]

/-- Removal leaves the other keys in their order. -/
theorem keys_erase (m : OrderedMap κ α) (k : κ) :
    (m.erase k).keys = m.keys.filter fun k' => !decide (k' = k) := by
  simp [erase, keys, List.filter_map, Function.comp_def]

theorem nodup_keys_erase {m : OrderedMap κ α} (hm : m.keys.Nodup) (k : κ) :
    (m.erase k).keys.Nodup := by
  rw [keys_erase]
  exact hm.filter _

/-! ## 6. Change of a value -/

@[simp] theorem get?_modify (m : OrderedMap κ α) (k : κ) (f : α → α) (k' : κ) :
    (m.modify k f).get? k' = if k' = k then (m.get? k').map f else m.get? k' := by
  obtain ⟨entries⟩ := m
  simp only [modify]
  induction entries with
  | nil => simp
  | cons entry rest ih =>
    rw [List.map_cons, get?_cons, ih, get?_cons]
    by_cases h : entry.1 = k
    · by_cases hk : k' = k
      · simp [h, hk]
      · simp [h, hk]
    · by_cases hk : k' = entry.1
      · simp [h, hk]
      · simp [h, hk]

@[simp] theorem keys_modify (m : OrderedMap κ α) (k : κ) (f : α → α) :
    (m.modify k f).keys = m.keys := by
  obtain ⟨entries⟩ := m
  simp only [modify, keys_mk, List.map_map]
  apply List.map_congr_left
  intro entry _
  simp only [Function.comp_apply]
  split <;> rfl

end OrderedMap

end MediaCascade
