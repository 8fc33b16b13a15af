import MediaCascade.OrderedMap
import MediaCascade.Proofs.Text.Occurrence

/-!
# How often `@media` stands in a text

`mediaCount` counts the positions of a text at which `@media` stands.

* A text has at least as many as the two parts it is put together from (`mediaCount_append_le`), and
  exactly as many if a character that is not in `@media` stands between the parts
  (`mediaCount_append_cons`).
* `total` adds up a weight over a list. What is stored in an ordered map weighs no more than the
  pairs that were inserted (`OrderedMap.total_insertAll_le`): an insertion adds its pair, or puts it
  in the place of another.
-/

namespace MediaCascade

/-! ## 1. Totals -/

section Total

variable {α β : Type}

/-- The weights of the elements of a list, added up. -/
def total (weight : α → Nat) : List α → Nat
  | [] => 0
  | x :: l => weight x + total weight l

@[simp] theorem total_nil (weight : α → Nat) : total weight [] = 0 := rfl

theorem total_cons (weight : α → Nat) (x : α) (l : List α) :
    total weight (x :: l) = weight x + total weight l := rfl

theorem total_append (weight : α → Nat) (l l' : List α) :
    total weight (l ++ l') = total weight l + total weight l' := by
  induction l with
  | nil => rw [List.nil_append, total_nil, Nat.zero_add]
  | cons x rest ih => rw [List.cons_append, total_cons, ih, total_cons, Nat.add_assoc]

theorem total_map (weight : β → Nat) (f : α → β) (l : List α) :
    total weight (l.map f) = total (fun x => weight (f x)) l := by
  induction l with
  | nil => rfl
  | cons x rest ih => rw [List.map_cons, total_cons, ih, total_cons]

theorem total_one (l : List α) : total (fun _ => 1) l = l.length := by
  induction l with
  | nil => rfl
  | cons x rest ih => rw [total_cons, ih, List.length_cons, Nat.add_comm]

theorem total_le_total {weight weight' : α → Nat} {l : List α}
    (h : ∀ x ∈ l, weight x ≤ weight' x) : total weight l ≤ total weight' l := by
  induction l with
  | nil => exact Nat.le_refl 0
  | cons x rest ih =>
    have hx := h x List.mem_cons_self
    have hrest := ih fun y hy => h y (List.mem_cons_of_mem _ hy)
    rw [total_cons, total_cons]
    omega

theorem le_total_of_mem (weight : α → Nat) {x : α} {l : List α} (h : x ∈ l) :
    weight x ≤ total weight l := by
  obtain ⟨before, behind, rfl⟩ := List.append_of_mem h
  rw [total_append, total_cons]
  omega

theorem total_eq_zero {weight : α → Nat} {l : List α} (h : ∀ x ∈ l, weight x = 0) :
    total weight l = 0 := by
  induction l with
  | nil => rfl
  | cons x rest ih =>
    rw [total_cons, h x List.mem_cons_self, ih fun y hy => h y (List.mem_cons_of_mem _ hy)]

/-- What is taken out of a list weighs no more than what it is taken from. -/
theorem total_filterMap_le {weight : β → Nat} {weight' : α → Nat} {f : α → Option β} {l : List α}
    (h : ∀ x ∈ l, ∀ y, f x = some y → weight y ≤ weight' x) :
    total weight (l.filterMap f) ≤ total weight' l := by
  induction l with
  | nil => exact Nat.le_refl 0
  | cons x rest ih =>
    have hrest := ih fun y hy => h y (List.mem_cons_of_mem _ hy)
    rw [total_cons]
    cases hx : f x with
    | none =>
      rw [List.filterMap_cons_none hx]
      omega
    | some y =>
      have hhere := h x List.mem_cons_self y hx
      rw [List.filterMap_cons_some hx, total_cons]
      omega

theorem total_filter_le (weight : α → Nat) (p : α → Bool) (l : List α) :
    total weight (l.filter p) ≤ total weight l := by
  rw [← List.filterMap_eq_filter]
  refine total_filterMap_le fun x _ y hy => ?_
  obtain ⟨rfl, _⟩ := Option.guard_eq_some_iff.mp hy
  exact Nat.le_refl _

namespace OrderedMap

variable {κ α : Type} [DecidableEq κ] (weight : κ × α → Nat)

theorem total_insert_le (m : OrderedMap κ α) (k : κ) (v : α) :
    total weight (m.insert k v).entries ≤ total weight m.entries + weight (k, v) := by
  obtain ⟨entries⟩ := m
  show total weight (insertEntry k v entries) ≤ total weight entries + weight (k, v)
  induction entries with
  | nil => rw [insertEntry, total_cons, total_nil]; omega
  | cons entry rest ih =>
    rw [insertEntry]
    split
    · rw [total_cons, total_cons]
      omega
    · rw [total_cons, total_cons]
      omega

/-- **What is stored weighs no more than what was there and what was inserted.** -/
theorem total_insertAll_le (m : OrderedMap κ α) (pairs : List (κ × α)) :
    total weight (m.insertAll pairs).entries ≤ total weight m.entries + total weight pairs := by
  induction pairs generalizing m with
  | nil => exact Nat.le_refl _
  | cons pair rest ih =>
    have hinsert : total weight (m.insert pair.1 pair.2).entries ≤
        total weight m.entries + weight pair := total_insert_le weight m pair.1 pair.2
    have hlater := ih (m.insert pair.1 pair.2)
    show total weight ((m.insert pair.1 pair.2).insertAll rest).entries ≤ _
    rw [total_cons]
    omega

theorem total_ofList_le (pairs : List (κ × α)) :
    total weight (ofList pairs).entries ≤ total weight pairs := by
  have h := total_insertAll_le weight empty pairs
  rwa [show (empty : OrderedMap κ α).entries = [] from rfl, total_nil, Nat.zero_add] at h

end OrderedMap

end Total

/-! ## 2. Occurrences -/

/-- The number of positions at which `@media` stands in a text. No two of them overlap. -/
def mediaCount : Text → Nat
  | [] => 0
  | c :: rest => (if mediaKeyword <+: c :: rest then 1 else 0) + mediaCount rest

@[simp] theorem mediaCount_nil : mediaCount [] = 0 := rfl

theorem mediaCount_cons (c : Char) (rest : Text) :
    mediaCount (c :: rest) = (if mediaKeyword <+: c :: rest then 1 else 0) + mediaCount rest := rfl

/-- **Parts have no more occurrences than the text they make up.** -/
theorem mediaCount_append_le (x y : Text) : mediaCount x + mediaCount y ≤ mediaCount (x ++ y) := by
  induction x with
  | nil => rw [mediaCount_nil, List.nil_append]; omega
  | cons c rest ih =>
    rw [List.cons_append, mediaCount_cons, mediaCount_cons]
    by_cases h : mediaKeyword <+: c :: rest
    · have h' : mediaKeyword <+: c :: (rest ++ y) := h.trans (List.prefix_append (c :: rest) y)
      rw [if_pos h, if_pos h']
      omega
    · rw [if_neg h]
      omega

/-- **Across a character that is not in `@media`, occurrences add up.** -/
theorem mediaCount_append_cons {c : Char} (hc : c ∉ mediaKeyword) (x y : Text) :
    mediaCount (x ++ c :: y) = mediaCount x + mediaCount y := by
  induction x with
  | nil =>
    have hp : ¬ mediaKeyword <+: c :: y := fun h =>
      absurd (Text.eq_nil_of_prefix_cons hc h) (by decide)
    rw [List.nil_append, mediaCount_cons, if_neg hp, mediaCount_nil]
  | cons d rest ih =>
    have hp : mediaKeyword <+: d :: (rest ++ c :: y) ↔ mediaKeyword <+: d :: rest :=
      Text.prefix_append_cons_iff hc (d :: rest) y
    rw [List.cons_append, mediaCount_cons, mediaCount_cons, ih]
    simp only [hp]
    omega

theorem mediaCount_cons_of_not_mem {c : Char} (hc : c ∉ mediaKeyword) (y : Text) :
    mediaCount (c :: y) = mediaCount y := by
  have h := mediaCount_append_cons hc [] y
  rwa [List.nil_append, mediaCount_nil, Nat.zero_add] at h

/-- Blanks at the start do not count. -/
theorem mediaCount_blank_append {b : Text} (hb : Text.Blank b) (s : Text) :
    mediaCount (b ++ s) = mediaCount s := by
  induction b with
  | nil => rfl
  | cons c rest ih =>
    have hc : c ∉ mediaKeyword := fun hm =>
      hb.not_mem (isBlank_of_mem_mediaKeyword c hm) List.mem_cons_self
    have hrest : Text.Blank rest := fun d hd => hb d (List.mem_cons_of_mem _ hd)
    rw [List.cons_append, mediaCount_cons_of_not_mem hc, ih hrest]

theorem mediaCount_le_of_infix {s t : Text} (h : s <:+: t) : mediaCount s ≤ mediaCount t := by
  obtain ⟨before, behind, rfl⟩ := h
  have h₁ := mediaCount_append_le (before ++ s) behind
  have h₂ := mediaCount_append_le before s
  omega

theorem mediaCount_trim_le (s : Text) : mediaCount (Text.trim s) ≤ mediaCount s :=
  mediaCount_le_of_infix (Text.trim_isInfix s)

/-- **A text without `@media` has no occurrence of it.** -/
theorem mediaCount_eq_zero_iff (s : Text) : mediaCount s = 0 ↔ MediaFree s := by
  constructor
  · intro h hin
    have hone : mediaCount mediaKeyword = 1 := by decide
    have hle := mediaCount_le_of_infix hin
    omega
  · intro h
    induction s with
    | nil => rfl
    | cons c rest ih =>
      rw [mediaCount_cons, if_neg fun hp => h hp.isInfix,
        ih (h.of_infix (List.suffix_cons c rest).isInfix)]

/-- Pieces have no more occurrences than the text they make up. -/
theorem total_mediaCount_le_flatMap {α : Type} (f : α → Text) (l : List α) :
    total (fun x => mediaCount (f x)) l ≤ mediaCount (l.flatMap f) := by
  induction l with
  | nil => exact Nat.le_refl 0
  | cons x rest ih =>
    have h := mediaCount_append_le (f x) (rest.flatMap f)
    rw [total_cons, List.flatMap_cons]
    omega

/-- Pieces that are cut at a character that is not in `@media` have the occurrences of the text. -/
theorem total_mediaCount_splitOn {sep : Char} (hsep : sep ∉ mediaKeyword) (s : Text) :
    total mediaCount (s.splitOn sep) = mediaCount s := by
  induction hn : s.length using Nat.strongRecOn generalizing s with
  | ind n ih =>
    by_cases hs : sep ∈ s
    · obtain ⟨x, y, rfl, hx⟩ := List.eq_append_cons_of_mem hs
      have hlt : y.length < n := by rw [← hn, List.length_append, List.length_cons]; omega
      rw [List.splitOn_append_cons_self_of_not_mem hx, total_cons, ih y.length hlt y rfl,
        mediaCount_append_cons hsep]
    · rw [List.splitOn_eq_singleton hs, total_cons, total_nil, Nat.add_zero]

end MediaCascade
