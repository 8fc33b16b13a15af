import MediaCascade.Source.MediaBlock
import MediaCascade.Diagnostic

/-!
# The parts of a source text

A source text is its base text, then its media blocks with the text before each, then the text
behind the last block.

* The base text is everything before the first `@media`.
* From there on, the blocks are found from left to right; each search goes on behind the block
  found before (`Source.sections`).
* The text before a block, and behind the last, is dropped with a warning unless it is blank
  (`Source.gapWarning?`).

Main statement: `Source.text_ofText`, the parts make up the text.

A `BaseRegion` says what counts as the base text. With the one in use, `beforeMedia`, every text has
one; with `absent` no text has, and reading fails as a whole (`Source.read`).
-/

namespace MediaCascade

/-- A source text in parts. -/
structure Source where
  /-- The text before the first `@media`. -/
  base : Text
  /-- The media blocks, each with the text that is skipped before it. -/
  sections : List (Text × MediaBlock)
  /-- The text behind the last media block. -/
  rest : Text
  deriving DecidableEq, Repr

namespace Source

/-! ## 1. Cutting a text into parts -/

/-- The media blocks of a text from left to right, each with the text before it, and the text
    behind the last. -/
def cut (s : Text) : List (Text × MediaBlock) × Text :=
  match h : firstMediaBlock? s with
  | none => ([], s)
  | some (gap, block, rest) =>
    have := length_lt_of_firstMediaBlock? h
    let later := cut rest
    ((gap, block) :: later.1, later.2)
termination_by s.length

/-- The parts of a text. -/
def ofText (s : Text) : Source :=
  let halves := Text.breakOn mediaKeyword s
  let media := cut halves.2
  ⟨halves.1, media.1, media.2⟩

/-! ## 2. The parts as a text -/

/-- The media blocks of a source. -/
def blocks (source : Source) : List MediaBlock := source.sections.map Prod.snd

/-- The texts that are skipped: before each block and behind the last. -/
def gaps (source : Source) : List Text := source.sections.map Prod.fst ++ [source.rest]

/-- The text of a source. -/
def text (source : Source) : Text :=
  source.base ++ source.sections.flatMap (fun part => part.1 ++ part.2.text) ++ source.rest

theorem cut_of_none {s : Text} (h : firstMediaBlock? s = none) : cut s = ([], s) := by
  unfold cut
  split
  · rfl
  · next h' => rw [h] at h'; cases h'

theorem cut_of_some {s gap rest : Text} {block : MediaBlock}
    (h : firstMediaBlock? s = some (gap, block, rest)) :
    cut s = ((gap, block) :: (cut rest).1, (cut rest).2) := by
  rw [cut]
  split
  · next h' => rw [h] at h'; cases h'
  · next h' => rw [h] at h'; cases h'; rfl

theorem flatMap_cut_append (s : Text) :
    (cut s).1.flatMap (fun part => part.1 ++ part.2.text) ++ (cut s).2 = s := by
  induction hn : s.length using Nat.strongRecOn generalizing s with
  | ind n ih =>
    cases h : firstMediaBlock? s with
    | none => simp [cut_of_none h]
    | some found =>
      obtain ⟨gap, block, rest⟩ := found
      have hlt := length_lt_of_firstMediaBlock? h
      have hrest := ih rest.length (hn ▸ hlt) rest rfl
      rw [cut_of_some h]
      simp only [List.flatMap_cons, List.append_assoc]
      rw [hrest]
      simpa using firstMediaBlock?_append h

/-- **The parts make up the text.** -/
@[simp] theorem text_ofText (s : Text) : (ofText s).text = s := by
  simp only [text, ofText, List.append_assoc, flatMap_cut_append]
  exact Text.breakOn_append mediaKeyword s

/-! ## 3. What is dropped -/

/-- The warning about a skipped text: none if it is blank. The warning quotes it trimmed. -/
def gapWarning? (gap : Text) : Option Warning :=
  let fragment := Text.trim gap
  if fragment.isEmpty then none
  else if mediaKeyword <:+: fragment then some (.unmatchedMedia fragment)
  else some (.ignoredText fragment)

/-- The warnings about the skipped texts, in order. -/
def warnings (source : Source) : List Warning := source.gaps.filterMap gapWarning?

/-- A skipped text goes without a warning exactly if it is blank. -/
theorem gapWarning?_eq_none_iff (gap : Text) :
    gapWarning? gap = none ↔ ∀ c ∈ gap, isBlank c = true := by
  rw [← Text.trim_eq_nil_iff]
  unfold gapWarning?
  cases h : Text.trim gap with
  | nil => simp
  | cons c rest =>
    simp only [List.isEmpty_cons, Bool.false_eq_true, if_false]
    split <;> simp

end Source

/-! ## 4. Texts without base rules -/

/-- What counts as the base text of a source. -/
inductive BaseRegion where
  /-- The text before the first `@media`. Every text has one. -/
  | beforeMedia
  /-- Nothing: no text has base rules, and none can be read. -/
  | absent
  deriving DecidableEq, Repr

/-- The fault of a text without base rules. -/
structure NoBaseRegion where
  deriving DecidableEq, Repr

/-- The fault in words. -/
def NoBaseRegion.message (_ : NoBaseRegion) : Text :=
  "No match found for text before @media queries.".toList

/-- The parts of a text, where it has base rules. -/
def Source.read (region : BaseRegion) (s : Text) : Except NoBaseRegion Source :=
  match region with
  | .beforeMedia => .ok (.ofText s)
  | .absent => .error ⟨⟩

end MediaCascade
