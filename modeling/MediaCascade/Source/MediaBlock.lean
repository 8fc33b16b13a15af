import MediaCascade.Text.Basic

/-!
# Media blocks

A media block is a header, an opening brace, a flat body and a closing brace. The header is
`@media` and at least one more character, up to the first opening brace. A body is flat if it has
only brace-free text and groups `{…}` of brace-free text.

* `flatBody?` reads a flat body up to the brace that closes it. It goes through the text once and
  knows only whether a group is open: a second open group, or the end of the text, refuses.
* `mediaBlock?` reads the media block that a text starts with.
* `firstMediaBlock?` finds the first place in a text where one can be read.

Main statements: the parts that are read make up the text again (`flatBody?_append`,
`MediaBlock.text_append`, `firstMediaBlock?_append`).
-/

namespace MediaCascade

/-- The word that a media block starts with. -/
def mediaKeyword : Text := ['@', 'm', 'e', 'd', 'i', 'a']

/-- Whether a media block may begin in a text. -/
instance (s : Text) : Decidable (mediaKeyword <:+: s) :=
  List.instDecidableIsInfixOfDecidableEq mediaKeyword s

/-- A media block: its header, and the text between its braces. -/
structure MediaBlock where
  header : Text
  body : Text
  deriving DecidableEq, Repr

/-- A media block as it stands in the source. -/
def MediaBlock.text (b : MediaBlock) : Text := b.header ++ '{' :: b.body ++ ['}']

/-! ## 1. Flat bodies -/

/-- Reads a flat body up to its closing brace: the body, and the text behind the brace. `inGroup`
    says whether a group of the body is open. -/
def flatBody? : (inGroup : Bool) → Text → Option (Text × Text)
  | _, [] => none
  | inGroup, c :: rest =>
    if c = '{' then
      if inGroup then none else (flatBody? true rest).map fun read => (c :: read.1, read.2)
    else if c = '}' then
      if inGroup then (flatBody? false rest).map fun read => (c :: read.1, read.2)
      else some ([], rest)
    else (flatBody? inGroup rest).map fun read => (c :: read.1, read.2)

/-- **The body, the closing brace and the rest make up the text.** -/
theorem flatBody?_append {inGroup : Bool} {s body rest : Text}
    (h : flatBody? inGroup s = some (body, rest)) : body ++ '}' :: rest = s := by
  induction s generalizing inGroup body rest with
  | nil => simp [flatBody?] at h
  | cons c r ih =>
    have step : ∀ {g : Bool}, (flatBody? g r).map (fun read => (c :: read.1, read.2)) =
        some (body, rest) → body ++ '}' :: rest = c :: r := by
      intro g hg
      obtain ⟨⟨b, r'⟩, hb, he⟩ := Option.map_eq_some_iff.1 hg
      cases he
      simp [← ih hb]
    unfold flatBody? at h
    split at h
    · split at h
      · cases h
      · exact step h
    · split at h
      · next hc =>
        split at h
        · exact step h
        · cases h; subst hc; rfl
      · exact step h

/-! ## 2. One block -/

/-- Reads the media block that a text starts with: the block, and the text behind it. -/
def mediaBlock? (s : Text) : Option (MediaBlock × Text) :=
  if mediaKeyword.isPrefixOf s then
    let query := (s.drop mediaKeyword.length).takeWhile fun c => !decide (c = '{')
    match (s.drop mediaKeyword.length).dropWhile fun c => !decide (c = '{') with
    | [] => none
    | _ :: interior =>
      if query.isEmpty then none
      else (flatBody? false interior).map fun read => (⟨mediaKeyword ++ query, read.1⟩, read.2)
  else none

/-- The first character that is not dropped is the one dropping stops at. -/
theorem dropWhile_eq_cons_opening {s rest : Text} {c : Char}
    (h : (s.dropWhile fun c => !decide (c = '{')) = c :: rest) : c = '{' := by
  have := List.head?_dropWhile_not (fun c => !decide (c = '{')) s
  rw [h] at this
  simpa using this

/-- **A block and the text behind it make up the text.** -/
theorem MediaBlock.text_append {s rest : Text} {b : MediaBlock}
    (h : mediaBlock? s = some (b, rest)) : b.text ++ rest = s := by
  unfold mediaBlock? at h
  split at h
  · next hk =>
    have hs : mediaKeyword ++ s.drop mediaKeyword.length = s :=
      (List.prefix_iff_eq_append.1 (List.isPrefixOf_iff_prefix.1 hk))
    simp only at h
    split at h
    · cases h
    · next c interior hd =>
      split at h
      · cases h
      · obtain ⟨⟨body, r⟩, hb, he⟩ := Option.map_eq_some_iff.1 h
        cases he
        have hc : c = '{' := dropWhile_eq_cons_opening hd
        have hbody := flatBody?_append hb
        have ha : ((s.drop mediaKeyword.length).takeWhile fun c => !decide (c = '{')) ++
            c :: interior = s.drop mediaKeyword.length := by
          rw [← hd]
          exact List.takeWhile_append_dropWhile
        rw [← hbody, hc] at ha
        refine Eq.trans ?_ hs
        rw [← ha]
        simp [MediaBlock.text, ha]
  · cases h

/-! ## 3. The first block of a text -/

/-- The first place in a text where a media block can be read: the text before it, the block, and
    the text behind it. -/
def firstMediaBlock? : Text → Option (Text × MediaBlock × Text)
  | [] => none
  | c :: rest =>
    match mediaBlock? (c :: rest) with
    | some (b, after) => some ([], b, after)
    | none => (firstMediaBlock? rest).map fun found => (c :: found.1, found.2)

/-- **The text before the block, the block and the text behind it make up the text.** -/
theorem firstMediaBlock?_append {s gap rest : Text} {b : MediaBlock}
    (h : firstMediaBlock? s = some (gap, b, rest)) : gap ++ b.text ++ rest = s := by
  induction s generalizing gap with
  | nil => simp [firstMediaBlock?] at h
  | cons c r ih =>
    unfold firstMediaBlock? at h
    split at h
    · next hb => cases h; simpa using MediaBlock.text_append hb
    · obtain ⟨⟨g, found⟩, hf, he⟩ := Option.map_eq_some_iff.1 h
      cases he
      simpa using ih hf

/-- The text behind a block is shorter than the text it was found in. -/
theorem length_lt_of_firstMediaBlock? {s gap rest : Text} {b : MediaBlock}
    (h : firstMediaBlock? s = some (gap, b, rest)) : rest.length < s.length := by
  rw [← firstMediaBlock?_append h]
  simp [MediaBlock.text]
  omega

end MediaCascade
