import MediaCascade.OrderedMap
import MediaCascade.Walk

/-!
# Ordered maps, entry by entry

Where the keys are distinct, an operation on a key is an operation on one entry, in its place.

* `OrderedMap.ofList_of_nodup`: pairs with distinct keys are the entries of their map.
* `OrderedMap.keys_insertAll`, `OrderedMap.get?_insertAll_of_last`: of pairs with repeated keys, the
  first one gives the place and the last one the value.
* `OrderedMap.update_ofList`: updating by a map of pairs is inserting the pairs, so that whoever reads
  pairs one after the other may read them in two parts.
* `OrderedMap.walk_entries`: a walk over the keys of a map, each step of which only looks at the
  entry of its key and changes or removes it, does to the list of entries what the steps say, one
  after the other. What a step does must not hang on what the steps before it left.
-/

namespace MediaCascade.OrderedMap

variable {κ α : Type}

/-- A map is its list of entries. -/
theorem ext_entries {m m' : OrderedMap κ α} (h : m.entries = m'.entries) : m = m' := by
  cases m
  cases m'
  cases h
  rfl

theorem isEmpty_iff (m : OrderedMap κ α) : m.isEmpty = true ↔ m.entries = [] := List.isEmpty_iff

theorem nodup_cons_iff {entry : κ × α} {rest : List (κ × α)} :
    (⟨entry :: rest⟩ : OrderedMap κ α).keys.Nodup ↔
      entry.1 ∉ rest.map Prod.fst ∧ (⟨rest⟩ : OrderedMap κ α).keys.Nodup := by
  rw [keys_mk, List.map_cons, List.nodup_cons, keys_mk]

/-- With distinct keys, the key of an entry is neither before nor behind it. -/
theorem not_mem_of_nodup {front back : List (κ × α)} {entry : κ × α}
    (h : ((front ++ entry :: back).map Prod.fst).Nodup) :
    entry.1 ∉ front.map Prod.fst ∧ entry.1 ∉ back.map Prod.fst := by
  rw [List.map_append, List.map_cons, List.nodup_append] at h
  obtain ⟨_, hback, hdisjoint⟩ := h
  exact ⟨fun hm => hdisjoint _ hm _ List.mem_cons_self rfl, (List.nodup_cons.mp hback).1⟩

variable [DecidableEq κ]

/-! ## 1. One entry -/

section Split

variable {front back : List (κ × α)} {k : κ} {v : α}
  (h : ((front ++ (k, v) :: back).map Prod.fst).Nodup)
include h

theorem get?_split : (⟨front ++ (k, v) :: back⟩ : OrderedMap κ α).get? k = some v :=
  get?_of_mem_entries h (List.mem_append_right _ List.mem_cons_self)

theorem modify_split (f : α → α) :
    (⟨front ++ (k, v) :: back⟩ : OrderedMap κ α).modify k f = ⟨front ++ (k, f v) :: back⟩ := by
  obtain ⟨hfront, hback⟩ := not_mem_of_nodup h
  have hother : ∀ l : List (κ × α), k ∉ l.map Prod.fst →
      l.map (fun entry => if entry.1 = k then (entry.1, f entry.2) else entry) = l := by
    intro l hl
    rw [List.map_congr_left (g := id), List.map_id]
    intro entry hentry
    have hne : entry.1 ≠ k := fun e => hl (e ▸ List.mem_map_of_mem hentry)
    exact if_neg hne
  rw [modify, List.map_append, List.map_cons, hother front hfront, hother back hback, if_pos rfl]

theorem erase_split :
    (⟨front ++ (k, v) :: back⟩ : OrderedMap κ α).erase k = ⟨front ++ back⟩ := by
  obtain ⟨hfront, hback⟩ := not_mem_of_nodup h
  have hother : ∀ l : List (κ × α), k ∉ l.map Prod.fst →
      l.filter (fun entry => !decide (entry.1 = k)) = l := by
    intro l hl
    rw [List.filter_eq_self]
    intro entry hentry
    have hne : entry.1 ≠ k := fun e => hl (e ▸ List.mem_map_of_mem hentry)
    simpa using hne
  rw [erase, List.filter_append, List.filter_cons_of_neg (by simp), hother front hfront,
    hother back hback]

end Split

/-- Two changes of one value are one change. -/
theorem modify_modify (m : OrderedMap κ α) (k : κ) (f g : α → α) :
    (m.modify k f).modify k g = m.modify k fun v => g (f v) := by
  rw [modify, modify, modify, List.map_map]
  congr 1
  apply List.map_congr_left
  intro entry _
  by_cases h : entry.1 = k <;> simp [h]

theorem modify_id (m : OrderedMap κ α) (k : κ) : (m.modify k fun v => v) = m := by
  apply ext_entries
  rw [modify, List.map_congr_left (g := id), List.map_id]
  intro entry _
  by_cases h : entry.1 = k
  · simp [← h]
  · simp [h]

/-- Only the value that the key has matters for a change. -/
theorem modify_congr {m : OrderedMap κ α} {k : κ} {f g : α → α}
    (h : ∀ v, (k, v) ∈ m.entries → f v = g v) : m.modify k f = m.modify k g := by
  apply ext_entries
  rw [modify, modify]
  apply List.map_congr_left
  rintro ⟨k', v⟩ hentry
  by_cases hk : k' = k
  · subst hk
    simp [h v hentry]
  · simp [hk]

/-- A change of a key that is not there does nothing. -/
theorem modify_of_not_mem {m : OrderedMap κ α} {k : κ} (h : k ∉ m.keys) (f : α → α) :
    m.modify k f = m := by
  have hsame : m.modify k f = m.modify k fun v => v :=
    modify_congr fun v hv => absurd (List.mem_map_of_mem hv) h
  rw [hsame, modify_id]

/-- Neither does the removal of such a key. -/
theorem erase_of_not_mem {m : OrderedMap κ α} {k : κ} (h : k ∉ m.keys) : m.erase k = m := by
  apply ext_entries
  rw [erase, List.filter_eq_self]
  intro entry hentry
  have hne : entry.1 ≠ k := fun e => h (e ▸ List.mem_map_of_mem hentry)
  simpa using hne

/-- What is left without a key does not hang on its value. -/
theorem erase_insert (m : OrderedMap κ α) (k : κ) (v : α) : (m.insert k v).erase k = m.erase k := by
  obtain ⟨entries⟩ := m
  apply ext_entries
  show (insertEntry k v entries).filter _ = entries.filter _
  induction entries with
  | nil => simp [insertEntry]
  | cons entry rest ih =>
    by_cases hk : k = entry.1
    · simp [insertEntry, hk]
    · simp only [insertEntry, if_neg hk, List.filter_cons, ih]

theorem erase_modify (m : OrderedMap κ α) (k : κ) (f : α → α) :
    (m.modify k f).erase k = m.erase k := by
  obtain ⟨entries⟩ := m
  apply ext_entries
  show (entries.map fun entry => if entry.1 = k then (entry.1, f entry.2) else entry).filter _ =
    entries.filter _
  induction entries with
  | nil => rfl
  | cons entry rest ih =>
    by_cases hk : entry.1 = k
    · simp [hk, ih]
    · simp [hk, ih]

theorem erase_erase (m : OrderedMap κ α) (k : κ) : (m.erase k).erase k = m.erase k := by
  apply ext_entries
  simp [erase]

/-- With distinct keys, a change of a value is the insertion of the changed value. -/
theorem modify_eq_insert {m : OrderedMap κ α} (hm : m.keys.Nodup) {k : κ} {v : α}
    (h : m.get? k = some v) (f : α → α) : m.modify k f = m.insert k (f v) := by
  obtain ⟨entries⟩ := m
  induction entries with
  | nil => cases h
  | cons entry rest ih =>
    obtain ⟨k', v'⟩ := entry
    obtain ⟨hnew, hrest⟩ := nodup_cons_iff.mp hm
    rw [get?_cons] at h
    by_cases hk : k = k'
    · subst hk
      rw [if_pos rfl] at h
      cases h
      have hother := congrArg entries (modify_of_not_mem (m := ⟨rest⟩) hnew f)
      apply ext_entries
      simp only [modify, insert, insertEntry, List.map_cons, if_true] at hother ⊢
      rw [hother]
    · rw [if_neg hk] at h
      have hlater := congrArg entries (ih hrest h)
      have hk' : k' ≠ k := fun e => hk e.symm
      apply ext_entries
      simp only [modify, insert, insertEntry, List.map_cons, if_neg hk, if_neg hk'] at hlater ⊢
      rw [hlater]

/-- The values of a map, changed one by one. -/
theorem get?_map {β : Type} (f : κ × α → β) (m : OrderedMap κ α) (k : κ) :
    (⟨m.entries.map fun entry => (entry.1, f entry)⟩ : OrderedMap κ β).get? k =
      (m.get? k).map fun v => f (k, v) := by
  obtain ⟨entries⟩ := m
  induction entries with
  | nil => rfl
  | cons entry rest ih =>
    obtain ⟨k', v⟩ := entry
    rw [List.map_cons, get?_cons, ih, get?_cons]
    by_cases hk : k = k'
    · subst hk
      simp
    · simp [hk]

/-- With distinct keys, an entry that is filtered out leaves none behind that could take its
    place. -/
theorem get?_filter {m : OrderedMap κ α} (hm : m.keys.Nodup) (p : κ × α → Bool) (k : κ) :
    (⟨m.entries.filter p⟩ : OrderedMap κ α).get? k = (m.get? k).filter fun v => p (k, v) := by
  obtain ⟨entries⟩ := m
  induction entries with
  | nil => rfl
  | cons entry rest ih =>
    obtain ⟨k', v⟩ := entry
    obtain ⟨hnew, hrest⟩ := nodup_cons_iff.mp hm
    have hlater := ih hrest
    by_cases hk : k = k'
    · subst hk
      have hnone : (⟨rest⟩ : OrderedMap κ α).get? k = none := (get?_eq_none_iff _ _).mpr hnew
      rw [hnone] at hlater
      cases hp : p (k, v) <;> simp [get?_cons, hp, hlater, Option.filter]
    · cases hp : p (k', v) <;> simp [get?_cons, hp, hlater, hk]

/-- The map with only the keys that `p` picks. -/
def filterKeys (p : κ → Bool) (m : OrderedMap κ α) : OrderedMap κ α :=
  ⟨m.entries.filter fun entry => p entry.1⟩

omit [DecidableEq κ] in
theorem keys_filterKeys_sublist (p : κ → Bool) (m : OrderedMap κ α) :
    (m.filterKeys p).keys.Sublist m.keys := List.filter_sublist.map _

/-- All entries of a key are picked, or none is. -/
theorem get?_filterKeys (p : κ → Bool) (m : OrderedMap κ α) (k : κ) :
    (m.filterKeys p).get? k = if p k then m.get? k else none := by
  obtain ⟨entries⟩ := m
  induction entries with
  | nil => exact (ite_self _).symm
  | cons entry rest ih =>
    rw [filterKeys] at ih ⊢
    by_cases hk : k = entry.1
    · subst hk
      cases hp : p entry.1 with
      | true => simp [get?_cons, hp]
      | false => simpa [get?_cons, hp] using ih
    · cases hp : p entry.1 <;> simp [get?_cons, hp, hk, ih]

/-! ## 2. Maps of lists with distinct keys -/

theorem insert_of_not_mem {m : OrderedMap κ α} {k : κ} (h : k ∉ m.keys) (v : α) :
    m.insert k v = ⟨m.entries ++ [(k, v)]⟩ := by
  obtain ⟨entries⟩ := m
  apply ext_entries
  show insertEntry k v entries = entries ++ [(k, v)]
  induction entries with
  | nil => rfl
  | cons entry rest ih =>
    rw [keys_mk, List.map_cons, List.mem_cons, not_or] at h
    rw [insertEntry, if_neg h.1, ih h.2, List.cons_append]

theorem insertAll_of_nodup {m : OrderedMap κ α} {pairs : List (κ × α)}
    (h : ((m.entries ++ pairs).map Prod.fst).Nodup) : m.insertAll pairs = ⟨m.entries ++ pairs⟩ := by
  induction pairs generalizing m with
  | nil => rw [List.append_nil]; rfl
  | cons pair rest ih =>
    have hnew := (not_mem_of_nodup h).1
    have hins : m.insert pair.1 pair.2 = ⟨m.entries ++ [pair]⟩ := insert_of_not_mem hnew _
    show (m.insert pair.1 pair.2).insertAll rest = _
    rw [hins, ih]
    · rw [List.append_assoc]
      rfl
    · rw [List.append_assoc]
      exact h

/-- **Pairs with distinct keys are the entries of their map.** -/
theorem ofList_of_nodup {pairs : List (κ × α)} (h : (pairs.map Prod.fst).Nodup) :
    ofList pairs = ⟨pairs⟩ := insertAll_of_nodup (m := empty) h

/-- An entry of a map after an insertion is the inserted one, or was there. -/
theorem mem_entries_insert {m : OrderedMap κ α} {k : κ} {v : α} {entry : κ × α}
    (h : entry ∈ (m.insert k v).entries) : entry = (k, v) ∨ entry ∈ m.entries := by
  obtain ⟨entries⟩ := m
  change entry ∈ insertEntry k v entries at h
  induction entries with
  | nil => exact .inl (List.mem_singleton.mp h)
  | cons e rest ih =>
    rw [insertEntry] at h
    split at h
    · rcases List.mem_cons.mp h with h | h
      · exact .inl h
      · exact .inr (List.mem_cons_of_mem _ h)
    · rcases List.mem_cons.mp h with h | h
      · exact .inr (h ▸ List.mem_cons_self)
      · exact (ih h).imp_right (List.mem_cons_of_mem _)

/-- What holds of the entries of a map and of the inserted pairs holds of all entries. -/
theorem forall_mem_insertAll {P : κ × α → Prop} {m : OrderedMap κ α} {pairs : List (κ × α)}
    (hm : ∀ entry ∈ m.entries, P entry) (hpairs : ∀ pair ∈ pairs, P pair) :
    ∀ entry ∈ (m.insertAll pairs).entries, P entry := by
  induction pairs generalizing m with
  | nil => exact hm
  | cons pair rest ih =>
    refine ih (fun entry hentry => ?_) fun p hp => hpairs p (List.mem_cons_of_mem _ hp)
    rcases mem_entries_insert hentry with rfl | h
    · exact hpairs _ List.mem_cons_self
    · exact hm entry h

theorem forall_mem_ofList {P : κ × α → Prop} {pairs : List (κ × α)}
    (h : ∀ pair ∈ pairs, P pair) : ∀ entry ∈ (ofList pairs).entries, P entry :=
  forall_mem_insertAll (fun _ he => absurd he List.not_mem_nil) h

theorem mem_keys_insert {m : OrderedMap κ α} {k k' : κ} {v : α} :
    k' ∈ (m.insert k v).keys ↔ k' ∈ m.keys ∨ k' = k := by
  rw [keys_insert]
  by_cases hk : k ∈ m.keys
  · rw [if_pos hk]
    exact ⟨Or.inl, fun h => h.elim id fun e => e ▸ hk⟩
  · rw [if_neg hk, List.mem_append, List.mem_singleton]

/-- The keys of a map after insertions are the old ones and the inserted ones. -/
theorem mem_keys_insertAll {m : OrderedMap κ α} {pairs : List (κ × α)} {k : κ} :
    k ∈ (m.insertAll pairs).keys ↔ k ∈ m.keys ∨ k ∈ pairs.map Prod.fst := by
  induction pairs generalizing m with
  | nil => simp [insertAll]
  | cons pair rest ih =>
    show k ∈ ((m.insert pair.1 pair.2).insertAll rest).keys ↔ _
    rw [ih, mem_keys_insert, List.map_cons, List.mem_cons, or_assoc]

/-- Keys that are not inserted keep their values. -/
theorem get?_insertAll_of_not_mem {m : OrderedMap κ α} {pairs : List (κ × α)} {k : κ}
    (h : k ∉ pairs.map Prod.fst) : (m.insertAll pairs).get? k = m.get? k := by
  induction pairs generalizing m with
  | nil => rfl
  | cons pair rest ih =>
    rw [List.map_cons, List.mem_cons, not_or] at h
    have hlater := ih (m := m.insert pair.1 pair.2) h.2
    rw [get?_insert, if_neg h.1] at hlater
    exact hlater

/-- The first key stays the first. -/
theorem head?_keys_insertAll {m : OrderedMap κ α} {k : κ} (h : m.keys.head? = some k)
    (pairs : List (κ × α)) : (m.insertAll pairs).keys.head? = some k := by
  induction pairs generalizing m with
  | nil => exact h
  | cons pair rest ih =>
    refine ih ?_
    rw [keys_insert]
    split
    · exact h
    · rw [List.head?_append, h, Option.some_or]

omit [DecidableEq κ] in
theorem eraseDups_of_nodup [BEq κ] [LawfulBEq κ] {l : List κ} (h : l.Nodup) : l.eraseDups = l := by
  induction l with
  | nil => rfl
  | cons x rest ih =>
    obtain ⟨hx, hrest⟩ := List.nodup_cons.mp h
    have hall : rest.filter (fun y => !y == x) = rest := by
      rw [List.filter_eq_self]
      intro y hy
      have hne : y ≠ x := fun e => hx (e ▸ hy)
      simpa using hne
    rw [List.eraseDups_cons, hall, ih hrest]

/-- **Each key stands where it was inserted first**: the keys are the old ones and the inserted ones
    without later repeats. -/
theorem keys_insertAll [BEq κ] [LawfulBEq κ] {m : OrderedMap κ α} (hm : m.keys.Nodup)
    (pairs : List (κ × α)) :
    (m.insertAll pairs).keys = (m.keys ++ pairs.map Prod.fst).eraseDups := by
  induction pairs generalizing m with
  | nil =>
    rw [List.map_nil, List.append_nil, eraseDups_of_nodup hm]
    rfl
  | cons pair rest ih =>
    have hlater := ih (nodup_keys_insert hm pair.1 pair.2)
    refine hlater.trans ?_
    rw [keys_insert, List.map_cons]
    by_cases hk : pair.1 ∈ m.keys
    · have hthere : (pair.1 :: rest.map Prod.fst).removeAll m.keys =
          (rest.map Prod.fst).removeAll m.keys := by
        rw [List.cons_removeAll, if_neg (by simpa using hk)]
      rw [if_pos hk, List.eraseDups_append, List.eraseDups_append, hthere]
    · rw [if_neg hk, List.append_assoc, List.singleton_append]

theorem keys_ofList [BEq κ] [LawfulBEq κ] (pairs : List (κ × α)) :
    (ofList pairs).keys = (pairs.map Prod.fst).eraseDups :=
  keys_insertAll (by simp) pairs

theorem insertAll_split (m : OrderedMap κ α) (front back : List (κ × α)) (k : κ) (v : α) :
    m.insertAll (front ++ (k, v) :: back) = ((m.insertAll front).insert k v).insertAll back :=
  List.foldl_append

/-- **The value that was inserted last counts.** -/
theorem get?_insertAll_of_last {m : OrderedMap κ α} {front back : List (κ × α)} {k : κ} {v : α}
    (h : k ∉ back.map Prod.fst) : (m.insertAll (front ++ (k, v) :: back)).get? k = some v := by
  rw [insertAll_split, get?_insertAll_of_not_mem h, get?_insert, if_pos rfl]

/-! ## 3. Updates -/

/-- Of two insertions of one key, the second counts. -/
theorem insert_insert_self (m : OrderedMap κ α) (k : κ) (v w : α) :
    (m.insert k v).insert k w = m.insert k w := by
  obtain ⟨entries⟩ := m
  apply ext_entries
  show insertEntry k w (insertEntry k v entries) = insertEntry k w entries
  induction entries with
  | nil => simp [insertEntry]
  | cons entry rest ih =>
    by_cases hk : k = entry.1
    · simp [insertEntry, hk]
    · rw [insertEntry, if_neg hk, insertEntry, if_neg hk, ih, insertEntry, if_neg hk]

/-- A key that is there can be set before or after another key is inserted. -/
theorem insert_insert_comm {m : OrderedMap κ α} {k k' : κ} (hk : k ∈ m.keys) (hne : k' ≠ k)
    (v v' : α) : (m.insert k' v').insert k v = (m.insert k v).insert k' v' := by
  obtain ⟨entries⟩ := m
  apply ext_entries
  show insertEntry k v (insertEntry k' v' entries) = insertEntry k' v' (insertEntry k v entries)
  induction entries with
  | nil => cases hk
  | cons entry rest ih =>
    by_cases hhere : k = entry.1
    · subst hhere
      simp [insertEntry, hne]
    · have hrest : k ∈ (⟨rest⟩ : OrderedMap κ α).keys :=
        (List.mem_cons.mp hk).resolve_left hhere
      by_cases hother : k' = entry.1
      · subst hother
        simp [insertEntry, hhere]
      · simp [insertEntry, hhere, hother, ih hrest]

/-- A key that is there can be set before or after other keys are inserted. -/
theorem insertAll_insert {pairs : List (κ × α)} {k : κ} (h : k ∉ pairs.map Prod.fst)
    {m : OrderedMap κ α} (hk : k ∈ m.keys) (v : α) :
    (m.insertAll pairs).insert k v = (m.insert k v).insertAll pairs := by
  induction pairs generalizing m with
  | nil => rfl
  | cons pair rest ih =>
    rw [List.map_cons, List.mem_cons, not_or] at h
    have hthere : k ∈ (m.insert pair.1 pair.2).keys := mem_keys_insert.mpr (.inl hk)
    have hlater := ih h.2 hthere
    rw [insert_insert_comm hk (fun e => h.1 e.symm)] at hlater
    exact hlater

/-- With distinct keys, setting a key of the second map before an update is setting it afterwards. -/
theorem update_insert (m : OrderedMap κ α) {n : OrderedMap κ α} (hn : n.keys.Nodup) (k : κ) (v : α) :
    m.update (n.insert k v) = (m.update n).insert k v := by
  cases hv : n.get? k with
  | none =>
    have hk : k ∉ n.keys := (get?_eq_none_iff n k).mp hv
    rw [insert_of_not_mem hk, update, insertAll_split]
    rfl
  | some w =>
    obtain ⟨entries⟩ := n
    obtain ⟨front, back, rfl⟩ := List.append_of_mem (mem_entries_of_get? hv)
    have hback : k ∉ back.map Prod.fst := (not_mem_of_nodup hn).2
    have hthere : k ∈ ((m.insertAll front).insert k w).keys :=
      mem_keys_insert.mpr (.inr rfl)
    calc m.update ((⟨front ++ (k, w) :: back⟩ : OrderedMap κ α).insert k v)
      _ = m.update ⟨front ++ (k, v) :: back⟩ := by
        rw [← modify_eq_insert hn hv fun _ => v, modify_split hn]
      _ = ((m.insertAll front).insert k v).insertAll back := insertAll_split m front back k v
      _ = (((m.insertAll front).insert k w).insert k v).insertAll back := by
        rw [insert_insert_self]
      _ = (((m.insertAll front).insert k w).insertAll back).insert k v :=
        (insertAll_insert hback hthere v).symm
      _ = (m.update ⟨front ++ (k, w) :: back⟩).insert k v := by
        rw [update, insertAll_split]

theorem update_insertAll (m : OrderedMap κ α) {n : OrderedMap κ α} (hn : n.keys.Nodup)
    (pairs : List (κ × α)) : m.update (n.insertAll pairs) = (m.update n).insertAll pairs := by
  induction pairs generalizing n with
  | nil => rfl
  | cons pair rest ih =>
    have hlater := ih (nodup_keys_insert hn pair.1 pair.2)
    rw [update_insert m hn] at hlater
    exact hlater

/-- **An update by the map of some pairs inserts the pairs**, repeated keys included. -/
theorem update_ofList (m : OrderedMap κ α) (pairs : List (κ × α)) :
    m.update (ofList pairs) = m.insertAll pairs := by
  have hempty : (empty : OrderedMap κ α).keys.Nodup := List.nodup_nil
  exact update_insertAll m hempty pairs

/-- An update leaves the keys in their places and puts new ones behind. -/
theorem keys_update [BEq κ] [LawfulBEq κ] {m : OrderedMap κ α} (hm : m.keys.Nodup)
    (n : OrderedMap κ α) : (m.update n).keys = (m.keys ++ n.keys).eraseDups :=
  keys_insertAll hm n.entries

/-- The values of the second map count. -/
theorem get?_update (m : OrderedMap κ α) {n : OrderedMap κ α} (hn : n.keys.Nodup) (k : κ) :
    (m.update n).get? k = (n.get? k).or (m.get? k) := by
  cases hv : n.get? k with
  | none => exact get?_insertAll_of_not_mem ((get?_eq_none_iff n k).mp hv)
  | some v =>
    obtain ⟨entries⟩ := n
    obtain ⟨front, back, rfl⟩ := List.append_of_mem (mem_entries_of_get? hv)
    exact get?_insertAll_of_last (not_mem_of_nodup hn).2

/-! ## 4. Walks over the entries -/

/-- What a step leaves of an entry: the entry with another value, or nothing. -/
def replaced (change : κ × α → Option α) (entry : κ × α) : List (κ × α) :=
  (change entry).toList.map fun v => (entry.1, v)

omit [DecidableEq κ] in
theorem keys_replaced_sublist (change : κ × α → Option α) (entry : κ × α) :
    (replaced change entry).map Prod.fst |>.Sublist [entry.1] := by
  unfold replaced
  cases change entry <;> simp

omit [DecidableEq κ] in
theorem flatMap_replaced_some (f : κ × α → α) (l : List (κ × α)) :
    l.flatMap (replaced fun entry => some (f entry)) = l.map fun entry => (entry.1, f entry) := by
  induction l with
  | nil => rfl
  | cons entry rest ih =>
    rw [List.flatMap_cons, ih]
    rfl

/-- The value of an entry, unless `p` holds of it. -/
def dropIf (p : κ × α → Bool) (entry : κ × α) : Option α := if p entry then none else some entry.2

omit [DecidableEq κ] in
theorem replaced_dropIf (p : κ × α → Bool) (entry : κ × α) :
    replaced (dropIf p) entry = if p entry then [] else [entry] := by
  unfold replaced dropIf
  split <;> rfl

omit [DecidableEq κ] in
theorem flatMap_replaced_dropIf (p : κ × α → Bool) (l : List (κ × α)) :
    l.flatMap (replaced (dropIf p)) = l.filter fun entry => !p entry := by
  induction l with
  | nil => rfl
  | cons entry rest ih =>
    rw [List.flatMap_cons, ih, replaced_dropIf]
    cases h : p entry <;> simp [h]

theorem flatMap_singleton_if {β γ : Type} (p : β → Bool) (f : β → γ) (l : List β) :
    (l.flatMap fun x => if p x then [f x] else []) = (l.filter p).map f := by
  induction l with
  | nil => rfl
  | cons x rest ih =>
    rw [List.flatMap_cons, ih]
    cases h : p x <;> simp [h]

omit [DecidableEq κ] in
/-- **A walk whose steps change one entry each changes the list of entries so.** `state` is what is
    walked on, as a function of the map; `view` is what a step is given of an entry. -/
theorem walk_entries {σ β γ : Type} (step : σ → γ → σ × List β) (state : OrderedMap κ α → σ)
    (view : κ × α → γ) (change : κ × α → Option α) (report : κ × α → List β)
    {P : κ × α → Prop}
    (hstep : ∀ front entry back, P entry → ((front ++ entry :: back).map Prod.fst).Nodup →
      step (state ⟨front ++ entry :: back⟩) (view entry) =
        (state ⟨front ++ replaced change entry ++ back⟩, report entry))
    {entries : List (κ × α)} (hP : ∀ entry ∈ entries, P entry)
    (hn : (entries.map Prod.fst).Nodup) :
    walk step (state ⟨entries⟩) (entries.map view) =
      (state ⟨entries.flatMap (replaced change)⟩, entries.flatMap report) := by
  -- the entries before the one at hand are those that the steps have left so far
  suffices h : ∀ front, ((front ++ entries).map Prod.fst).Nodup →
      walk step (state ⟨front ++ entries⟩) (entries.map view) =
        (state ⟨front ++ entries.flatMap (replaced change)⟩, entries.flatMap report) by
    exact h [] hn
  clear hn
  induction entries with
  | nil => intro front _; rfl
  | cons entry rest ih =>
    intro front hfront
    have hhere := hstep front entry rest (hP entry List.mem_cons_self) hfront
    have hrest : ((front ++ replaced change entry ++ rest).map Prod.fst).Nodup := by
      refine hfront.sublist ?_
      rw [List.append_assoc, List.map_append, List.map_append, List.map_append, List.map_cons]
      exact (List.Sublist.refl _).append
        ((keys_replaced_sublist change entry).append (List.Sublist.refl _))
    have hlater := ih (fun e he => hP e (List.mem_cons_of_mem _ he)) _ hrest
    rw [List.map_cons, walk_cons, hhere]
    simp only
    rw [hlater, List.append_assoc]
    rfl

end MediaCascade.OrderedMap
