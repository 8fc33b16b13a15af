import MediaCascade.Proofs.Source.FlatBody
import MediaCascade.Proofs.Text.Occurrence
import MediaCascade.Source.Basic

/-!
# Which media blocks are found

A media block is well formed if its header is `@media` and something more without an opening
brace, and its body is flat.

* `mediaBlock?_eq_some_iff`: a text begins with the block that is read from it, and every well
  formed block that a text begins with is read. There is no second way to read it.
* `firstMediaBlock?_gap_append`, `Source.cut_gap_append`: what stands before a block is passed over
  if no `@` is in it, so that blocks with such gaps between them are found one after the other.
* `Source.wellFormed_of_mem_cut`: the blocks of a source are well formed.
* `Source.exists_gap_of_bare`: a keyword with nothing between it and the brace is passed over.
-/

namespace MediaCascade

/-- A header is `@media` and at least one more character, none of them an opening brace; a body is
    flat. -/
structure MediaBlock.WellFormed (b : MediaBlock) : Prop where
  header : ∃ query, query ≠ [] ∧ '{' ∉ query ∧ b.header = mediaKeyword ++ query
  body : ∃ f : FlatBody, f.text = b.body

/-! ## 1. One block -/

section Query

variable {query : Text} (hq : '{' ∉ query) (r : Text)
include hq

theorem ne_opening_of_mem : ∀ c ∈ query, (!decide (c = '{')) = true := by
  intro c hc
  have hne : c ≠ '{' := fun e => hq (e ▸ hc)
  simpa using hne

/-- The header ends at the first opening brace. -/
theorem takeWhile_opening : (query ++ '{' :: r).takeWhile (fun c => !decide (c = '{')) = query := by
  rw [List.takeWhile_append_of_pos (ne_opening_of_mem hq), List.takeWhile_cons_of_neg (by simp),
    List.append_nil]

theorem dropWhile_opening :
    (query ++ '{' :: r).dropWhile (fun c => !decide (c = '{')) = '{' :: r := by
  rw [List.dropWhile_append_of_pos (ne_opening_of_mem hq), List.dropWhile_cons_of_neg (by simp)]

end Query

/-- What is taken before the first opening brace has none. -/
theorem opening_not_mem_takeWhile (s : Text) :
    '{' ∉ s.takeWhile (fun c => !decide (c = '{')) := by
  intro h
  have hp := List.all_eq_true.mp List.all_takeWhile _ h
  simp at hp

/-- The text of a block is its header, and its body in braces. -/
theorem MediaBlock.text_append_eq (b : MediaBlock) (rest : Text) :
    b.text ++ rest = b.header ++ '{' :: (b.body ++ '}' :: rest) := by
  simp [MediaBlock.text]

/-- A block begins with the keyword. -/
theorem MediaBlock.WellFormed.keyword_prefix {b : MediaBlock} (hb : b.WellFormed) :
    mediaKeyword <+: b.text := by
  obtain ⟨query, _, _, hheader⟩ := hb.header
  rw [MediaBlock.text, hheader, List.append_assoc, List.append_assoc]
  exact List.prefix_append _ _

/-- A text that begins with `@media` and a header is read as the header says. -/
theorem mediaBlock?_header_append {query : Text} (hq : '{' ∉ query) (r : Text) :
    mediaBlock? (mediaKeyword ++ query ++ '{' :: r) =
      if query.isEmpty then none
      else (flatBody? false r).map fun read => (⟨mediaKeyword ++ query, read.1⟩, read.2) := by
  have hp : mediaKeyword.isPrefixOf (mediaKeyword ++ (query ++ '{' :: r)) = true :=
    List.isPrefixOf_iff_prefix.mpr (List.prefix_append _ _)
  rw [List.append_assoc, mediaBlock?, if_pos hp, List.drop_left]
  simp only [dropWhile_opening hq, takeWhile_opening hq]

/-- **A block is read exactly where a well formed one stands.** -/
theorem mediaBlock?_eq_some_iff (s rest : Text) (b : MediaBlock) :
    mediaBlock? s = some (b, rest) ↔ b.WellFormed ∧ s = b.text ++ rest := by
  constructor
  · intro h
    refine ⟨?_, (MediaBlock.text_append h).symm⟩
    rw [mediaBlock?] at h
    split at h
    · simp only at h
      split at h
      · cases h
      · split at h
        · cases h
        · next hne =>
          obtain ⟨⟨body, r⟩, hb, he⟩ := Option.map_eq_some_iff.mp h
          cases he
          exact ⟨⟨_, by simpa using hne, opening_not_mem_takeWhile _, rfl⟩,
            flatFrom_of_flatBody? hb⟩
    · cases h
  · rintro ⟨⟨⟨query, hne, hq, hh⟩, f, hf⟩, rfl⟩
    obtain ⟨header, body⟩ := b
    simp only at hh hf
    subst hh hf
    rw [MediaBlock.text_append_eq, mediaBlock?_header_append hq, if_neg (by simpa using hne),
      flatBody?_text]
    rfl

theorem mediaBlock?_text_append {b : MediaBlock} (hb : b.WellFormed) (rest : Text) :
    mediaBlock? (b.text ++ rest) = some (b, rest) :=
  (mediaBlock?_eq_some_iff _ _ _).mpr ⟨hb, rfl⟩

/-- **A header without a character behind `@media` is none.** -/
theorem mediaBlock?_bare (r : Text) : mediaBlock? (mediaKeyword ++ '{' :: r) = none := by
  have hnil : '{' ∉ ([] : Text) := List.not_mem_nil
  exact mediaBlock?_header_append hnil r

/-- A block begins with an `@`. -/
theorem mediaBlock?_cons_of_ne {c : Char} (hc : c ≠ '@') (s : Text) :
    mediaBlock? (c :: s) = none := by
  rw [mediaBlock?, if_neg]
  rw [List.isPrefixOf_iff_prefix]
  intro h
  exact hc (List.cons_prefix_cons.mp (h : '@' :: mediaKeyword.tail <+: c :: s)).1.symm

/-! ## 2. The first block -/

/-- A text without an `@` is passed over. -/
theorem firstMediaBlock?_gap_append {gap : Text} (hgap : '@' ∉ gap) (s : Text) :
    firstMediaBlock? (gap ++ s) =
      (firstMediaBlock? s).map fun found => (gap ++ found.1, found.2) := by
  induction gap with
  | nil => simp
  | cons c rest ih =>
    have hc : c ≠ '@' := fun e => hgap (e ▸ List.mem_cons_self)
    have hrest : '@' ∉ rest := fun h => hgap (List.mem_cons_of_mem _ h)
    rw [List.cons_append, firstMediaBlock?, mediaBlock?_cons_of_ne hc]
    simp only
    rw [ih hrest, Option.map_map]
    rfl

theorem firstMediaBlock?_text_append {b : MediaBlock} (hb : b.WellFormed) (rest : Text) :
    firstMediaBlock? (b.text ++ rest) = some ([], b, rest) := by
  have hread := mediaBlock?_text_append hb rest
  cases h : b.text ++ rest with
  | nil => simp [MediaBlock.text] at h
  | cons c r => rw [firstMediaBlock?, ← h, hread]

/-- **A keyword without a header is passed over**, up to the brace. -/
theorem firstMediaBlock?_bare (r : Text) :
    firstMediaBlock? (mediaKeyword ++ '{' :: r) =
      (firstMediaBlock? ('{' :: r)).map fun found => (mediaKeyword ++ found.1, found.2) := by
  have hname : '@' ∉ mediaKeyword.tail := by decide
  have hstart : mediaKeyword ++ '{' :: r = '@' :: (mediaKeyword.tail ++ '{' :: r) := rfl
  rw [hstart, firstMediaBlock?, ← hstart, mediaBlock?_bare]
  simp only
  rw [firstMediaBlock?_gap_append hname, Option.map_map]
  rfl

/-- The block that is found first is well formed. -/
theorem wellFormed_of_firstMediaBlock? {s gap rest : Text} {b : MediaBlock}
    (h : firstMediaBlock? s = some (gap, b, rest)) : b.WellFormed := by
  induction s generalizing gap with
  | nil => cases h
  | cons c r ih =>
    rw [firstMediaBlock?] at h
    split at h
    · next hb =>
      cases h
      exact ((mediaBlock?_eq_some_iff _ _ _).mp hb).1
    · obtain ⟨⟨g, found⟩, hf, he⟩ := Option.map_eq_some_iff.mp h
      cases he
      exact ih hf

/-! ## 3. All blocks -/

namespace Source

/-- **A gap without an `@` and the block behind it are cut off together.** -/
theorem cut_gap_append {gap : Text} (hgap : '@' ∉ gap) {b : MediaBlock} (hb : b.WellFormed)
    (rest : Text) :
    cut (gap ++ (b.text ++ rest)) = ((gap, b) :: (cut rest).1, (cut rest).2) := by
  apply cut_of_some
  rw [firstMediaBlock?_gap_append hgap, firstMediaBlock?_text_append hb]
  simp

/-- A text without an `@` has no blocks. -/
theorem cut_gap {gap : Text} (hgap : '@' ∉ gap) : cut gap = ([], gap) := by
  apply cut_of_none
  have h := firstMediaBlock?_gap_append hgap []
  rw [List.append_nil] at h
  rw [h]
  rfl

/-- What a property of the first block found gives for every text, the blocks of the text have. -/
theorem forall_mem_cut {P : MediaBlock → Prop}
    (first : ∀ {s gap rest b}, firstMediaBlock? s = some (gap, b, rest) → P b) (s : Text) :
    ∀ part ∈ (cut s).1, P part.2 := by
  induction hn : s.length using Nat.strongRecOn generalizing s with
  | ind n ih =>
    cases h : firstMediaBlock? s with
    | none =>
      rw [cut_of_none h]
      intro part hpart
      cases hpart
    | some found =>
      obtain ⟨gap, block, rest⟩ := found
      have hlt := length_lt_of_firstMediaBlock? h
      rw [cut_of_some h]
      intro part hpart
      rcases List.mem_cons.mp hpart with rfl | hpart
      · exact first h
      · exact ih rest.length (hn ▸ hlt) rest rfl part hpart

theorem wellFormed_of_mem_cut (s : Text) : ∀ part ∈ (cut s).1, part.2.WellFormed :=
  forall_mem_cut wellFormed_of_firstMediaBlock? s

/-- **The blocks of a source are well formed.** -/
theorem wellFormed_of_mem_blocks {css : Text} {b : MediaBlock} (hb : b ∈ (ofText css).blocks) :
    b.WellFormed := by
  obtain ⟨part, hpart, rfl⟩ := List.mem_map.mp hb
  exact wellFormed_of_mem_cut _ part hpart

/-- **A text that is one block** has this block and nothing else. -/
theorem ofText_text {b : MediaBlock} (hb : b.WellFormed) : ofText b.text = ⟨[], [([], b)], []⟩ := by
  have hbreak : Text.breakOn mediaKeyword b.text = ([], b.text) :=
    MediaFree.nil.breakOn_append hb.keyword_prefix
  have hnil : '@' ∉ ([] : Text) := List.not_mem_nil
  have hcut := cut_gap_append hnil hb []
  rw [List.nil_append, List.append_nil, cut_gap hnil] at hcut
  rw [ofText, hbreak, hcut]

/-- **A keyword without a header** stands in one of the texts that are passed over. -/
theorem exists_gap_of_bare {gap : Text} (hgap : '@' ∉ gap) (r : Text) :
    ∃ text ∈ (cut (gap ++ (mediaKeyword ++ '{' :: r))).1.map Prod.fst ++
        [(cut (gap ++ (mediaKeyword ++ '{' :: r))).2], mediaKeyword <:+: text := by
  have hfirst := firstMediaBlock?_gap_append hgap (mediaKeyword ++ '{' :: r)
  rw [firstMediaBlock?_bare] at hfirst
  cases h : firstMediaBlock? ('{' :: r) with
  | none =>
    rw [h] at hfirst
    rw [cut_of_none hfirst]
    exact ⟨_, List.mem_singleton_self _, gap, '{' :: r, List.append_assoc _ _ _⟩
  | some found =>
    rw [h] at hfirst
    rw [cut_of_some hfirst]
    exact ⟨_, List.mem_cons_self, gap, found.1, List.append_assoc _ _ _⟩

end Source

end MediaCascade
