import MediaCascade.Cleaning
import MediaCascade.Proofs.Stylesheet.Formatting
import MediaCascade.Proofs.Stylesheet.Layout

/-!
# A written style sheet is read back

The text of a style sheet is the text of its base block and then that of its media blocks, with
blanks between them and behind the last (`Stylesheet.exists_render_eq`). No `@` stands in the
blanks, so that the blocks are found one after the other, each where it was written.

* `Stylesheet.writtenAs_render`: the printer writes the style sheet that it is given.
* `Stylesheet.read_render`: a well formed style sheet is read back as it was written, without a
  warning.
* `Stylesheet.read_clean_of_writtenAs`: so is every other text that writes it, and cleaning all of
  them gives the same.
-/

namespace MediaCascade

/-! ## 1. Media blocks -/

/-- A media context as the block that is written for it. -/
def writtenBlock (c : Text × Block) : MediaBlock :=
  ⟨c.1, ['\n'] ++ renderBlock indentation c.2 ++ ['\n']⟩

theorem blank_newline : Text.Blank ['\n'] := by decide

theorem blank_separator : Text.Blank ['\n', '\n'] := by decide

section Header

variable {c : Text × Block} (hheader : IsHeader c.1)
include hheader

/-- A media context is written as its block. -/
theorem renderContext_eq : renderContext c.1 c.2 = (writtenBlock c).text := by
  rw [renderContext, if_neg hheader.ne_baseKey, hheader.trim_eq]
  simp [MediaBlock.text, writtenBlock]

/-- The block of a context with complete rules is well formed if its header is longer than the
    keyword. -/
theorem wellFormed_writtenBlock (hrules : ∀ rule ∈ c.2.entries, CompleteRule rule)
    (hlonger : c.1 ≠ mediaKeyword) : (writtenBlock c).WellFormed := by
  obtain ⟨query, hquery⟩ := hheader.keyword
  constructor
  · have hopening : '{' ∉ query := fun h =>
      hheader.no_opening (hquery ▸ List.mem_append_right _ h)
    refine ⟨query, ?_, hopening, hquery.symm⟩
    rintro rfl
    rw [List.append_nil] at hquery
    exact hlonger hquery.symm
  · obtain ⟨f, htext, _⟩ := (c.2.listing_renderBlock blank_newline blank_indentation
      blank_newline).exists_flatBody hrules
    exact ⟨f, htext⟩

end Header

/-- Media contexts as text, each with what stands before it, and `trail` behind the last. -/
def mediaText (media : List (Text × Text × Block)) (trail : Text) : Text :=
  media.flatMap (fun x => x.1 ++ (writtenBlock x.2).text) ++ trail

theorem mediaText_cons (x : Text × Text × Block) (rest : List (Text × Text × Block))
    (trail : Text) :
    mediaText (x :: rest) trail = x.1 ++ ((writtenBlock x.2).text ++ mediaText rest trail) := by
  rw [mediaText, mediaText, List.flatMap_cons]
  simp

/-- **Media contexts are written as their blocks**, with blanks between them. -/
theorem listing_mediaText {parts : List (Text × Text × Block)}
    (hlead : ∀ x ∈ parts, Text.Blank x.1) {trail : Text} (htrail : Text.Blank trail) :
    Listing WritesContext (parts.map Prod.snd) (mediaText parts trail) := by
  refine Listing.of_leads (f := fun c => (writtenBlock c).text) (fun x hx => ?_) htrail
  refine ⟨x.1 ++ x.2.1, _, ⟨x.1, [], hlead x hx, Text.blank_nil, (List.append_nil _).symm⟩,
    x.2.2.listing_renderBlock blank_newline blank_indentation blank_newline, ?_⟩
  simp [MediaBlock.text, writtenBlock]

namespace Stylesheet

/-! ## 2. The text of a style sheet -/

section Text

variable {base : Block} {media : List (Text × Block)}

theorem renderBlock_eq_nil_iff (indent : Text) (b : Block) :
    renderBlock indent b = [] ↔ b.entries = [] := by
  constructor
  · intro h
    obtain ⟨entries⟩ := b
    cases entries with
    | nil => rfl
    | cons rule rest =>
      rw [renderBlock, List.map_cons, joinWith_cons, renderRule_eq] at h
      simp at h
  · intro h
    rw [renderBlock, h]
    rfl

/-- The base block stands in front, unless it is empty. -/
theorem sections_mk (hheaders : ∀ c ∈ media, IsHeader c.1) :
    (⟨⟨(baseKey, base) :: media⟩⟩ : Stylesheet).sections =
      if base.entries = [] then media.map fun c => (writtenBlock c).text
      else renderBlock [] base :: media.map fun c => (writtenBlock c).text := by
  have hmedia : media.map (fun c => renderContext c.1 c.2) =
      media.map fun c => (writtenBlock c).text :=
    List.map_congr_left fun c hc => renderContext_eq (hheaders c hc)
  have hbase : renderContext baseKey base = renderBlock [] base := if_pos rfl
  rw [sections, List.map_cons, hmedia, hbase]
  cases h : renderBlock [] base with
  | nil => rw [if_pos ((renderBlock_eq_nil_iff [] base).mp h)]
  | cons c rest =>
    have hne : base.entries ≠ [] := fun e =>
      List.cons_ne_nil c rest (h.symm.trans ((renderBlock_eq_nil_iff [] base).mpr e))
    rw [if_neg hne]

/-- **The text of a style sheet is that of its base block and those of its media blocks, with
    blanks between them.** -/
theorem exists_render_eq (base : Block) (hheaders : ∀ c ∈ media, IsHeader c.1) :
    ∃ lead trail : Text, Text.Blank lead ∧ Text.Blank trail ∧ (media = [] → trail = []) ∧
      (⟨⟨(baseKey, base) :: media⟩⟩ : Stylesheet).render =
        (renderBlock [] base ++ lead) ++ mediaText (withLeads [] ['\n', '\n'] media) trail := by
  rw [render, sections_mk hheaders]
  by_cases hmedia : media = []
  · -- the line feed at the end stands right behind the base block
    subst hmedia
    refine ⟨['\n'], [], blank_newline, Text.blank_nil, fun _ => rfl, ?_⟩
    split
    · next hbase =>
      rw [(renderBlock_eq_nil_iff [] base).mpr hbase]
      rfl
    · rw [List.map_nil, Text.joinWith_singleton]
      exact (List.append_nil _).symm
  · have hjoin := append_joinWith [] ['\n', '\n'] (fun c => (writtenBlock c).text) hmedia
    rw [List.nil_append] at hjoin
    split
    · next hbase =>
      refine ⟨[], ['\n'], Text.blank_nil, blank_newline, fun h => absurd h hmedia, ?_⟩
      rw [(renderBlock_eq_nil_iff [] base).mpr hbase, hjoin]
      rfl
    · refine ⟨['\n', '\n'], ['\n'], blank_separator, blank_newline, fun h => absurd h hmedia, ?_⟩
      obtain ⟨c, rest, rfl⟩ := List.exists_cons_of_ne_nil hmedia
      rw [List.map_cons] at hjoin ⊢
      rw [Text.joinWith_cons_cons, hjoin, mediaText, List.append_assoc]

/-- **The base text of a written style sheet is that of its base block**; the media blocks are
    looked for behind it. -/
theorem exists_ofText_render (hheaders : ∀ c ∈ media, IsHeader c.1)
    (hfree : ∀ rule ∈ base.entries, MediaFreeRule rule) :
    ∃ lead trail : Text, Text.Blank lead ∧ Text.Blank trail ∧
      Source.ofText (⟨⟨(baseKey, base) :: media⟩⟩ : Stylesheet).render =
        ⟨renderBlock [] base ++ lead,
          (Source.cut (mediaText (withLeads [] ['\n', '\n'] media) trail)).1,
          (Source.cut (mediaText (withLeads [] ['\n', '\n'] media) trail)).2⟩ := by
  obtain ⟨lead, trail, hlead, htrail, hnone, hrender⟩ := exists_render_eq base hheaders
  refine ⟨lead, trail, hlead, htrail, ?_⟩
  have hbase : MediaFree (renderBlock [] base ++ lead) :=
    (base.listing_renderBlock Text.blank_nil Text.blank_nil hlead).mediaFree hfree
  rw [hrender, Source.ofText]
  cases media with
  | nil =>
    have hempty : mediaText (withLeads [] ['\n', '\n'] ([] : List (Text × Block))) trail = [] :=
      hnone rfl
    rw [hempty, List.append_nil, hbase.breakOn_self]
  | cons c rest =>
    have hstart : mediaKeyword <+: mediaText (withLeads [] ['\n', '\n'] (c :: rest)) trail := by
      rw [withLeads, mediaText_cons, List.nil_append, MediaBlock.text_append_eq]
      exact (hheaders c List.mem_cons_self).keyword.trans (List.prefix_append _ _)
    rw [hbase.breakOn_append hstart]

end Text

/-! ## 3. Reading it back -/

/-- The parts that a tidy style sheet without empty rules is written in: its base block, and its
    media blocks with blanks before each. A media block is one that can be read, unless its header
    is the keyword alone. -/
theorem Tidy.exists_parts {s : Stylesheet} (h : s.Tidy)
    (hfull : ∀ c ∈ s.contexts.entries, c.2.Full) :
    ∃ base media, s = ⟨⟨(baseKey, base) :: media⟩⟩ ∧ (∀ c ∈ media, IsHeader c.1) ∧
      (∀ rule ∈ base.entries, MediaFreeRule rule) ∧
      ∀ x ∈ withLeads [] ['\n', '\n'] media,
        Text.Blank x.1 ∧ (x.2.1 ≠ mediaKeyword → (writtenBlock x.2).WellFormed) := by
  have hcomplete := h.completeRule hfull
  obtain ⟨base, media, rfl⟩ := h.valid.exists_eq
  have hheaders : ∀ c ∈ media, IsHeader c.1 := fun c hc => h.headers _ (List.mem_map_of_mem hc)
  have hfree : ∀ rule ∈ base.entries, MediaFreeRule rule := baseBlock_mk base media ▸ h.base_free
  have hblock : ∀ c ∈ media, c.1 ≠ mediaKeyword → (writtenBlock c).WellFormed := fun c hc =>
    wellFormed_writtenBlock (hheaders c hc) (hcomplete c (List.mem_cons_of_mem _ hc))
  exact ⟨base, media, rfl, hheaders, hfree, forall_mem_withLeads [] ['\n', '\n']
    (fun c hc => ⟨Text.blank_nil, hblock c hc⟩) (fun c hc => ⟨blank_separator, hblock c hc⟩)⟩

/-- **The printer writes the style sheet** that it is given. -/
theorem writtenAs_render {s : Stylesheet} (hs : s.Valid)
    (hheaders : ∀ context ∈ s.mediaKeys, IsHeader context) : s.WrittenAs s.render := by
  obtain ⟨base, media, rfl⟩ := hs.exists_eq
  obtain ⟨lead, trail, hlead, htrail, _, hrender⟩ := exists_render_eq base fun c hc =>
    hheaders _ (List.mem_map_of_mem hc)
  have hblank := forall_mem_withLeads [] ['\n', '\n'] (l := media)
    (P := fun x => Text.Blank x.1) (fun _ _ => Text.blank_nil) (fun _ _ => blank_separator)
  have hmedia := listing_mediaText hblank htrail
  rw [map_snd_withLeads] at hmedia
  exact ⟨base, media, _, _, rfl,
    base.listing_renderBlock Text.blank_nil Text.blank_nil hlead, hmedia, hrender⟩

/-- **The text of a well formed style sheet is read as the style sheet**, without a warning. -/
theorem ofText_render {s : Stylesheet} (h : s.WellFormed) : ofText s.render = (s, []) :=
  (writtenAs_render h.valid h.headers).ofText_eq h

/-- **Reading undoes writing**: a well formed style sheet is read back from its text with all
    contexts, selectors, properties and values in their order, without a warning. -/
theorem read_render {s : Stylesheet} (h : s.WellFormed) :
    read .beforeMedia s.render = .ok (s, []) := by
  rw [read_beforeMedia, ofText_render h]

/-- A value with a colon, a header with a closing brace, a context without rules, and a value in a
    media context that is a header itself. -/
def intricate : Stylesheet :=
  ⟨⟨[(baseKey, ⟨[(['a', ':', 'b'], ⟨[(['c'], ['d', ':', 'e'])]⟩)]⟩),
    (mediaKeyword ++ [' ', '}', 'x'], .empty),
    (mediaKeyword ++ ['y'], ⟨[(['.', 'f'], ⟨[(['g'], mediaKeyword ++ ['z']), (['h'], ['i'])]⟩)]⟩)]⟩⟩

theorem read_render_intricate :
    intricate.WellFormed ∧ read .beforeMedia intricate.render = .ok (intricate, []) :=
  ⟨by decide, read_render (by decide)⟩

/-! ## 4. Other layouts -/

/-- **The layout does not matter**: all texts that write a well formed style sheet are read as that
    style sheet, without a warning, and cleaned alike. -/
theorem read_clean_of_writtenAs {s : Stylesheet} (hs : s.WellFormed) {first second : Text}
    (hfirst : s.WrittenAs first) (hsecond : s.WrittenAs second) :
    read .beforeMedia first = .ok (s, []) ∧ read .beforeMedia second = .ok (s, []) ∧
      ∃ cleaned, Cleaned.read .beforeMedia first = .ok cleaned ∧
        Cleaned.read .beforeMedia second = .ok cleaned := by
  have h₁ := hfirst.ofText_eq hs
  have h₂ := hsecond.ofText_eq hs
  refine ⟨by rw [read_beforeMedia, h₁], by rw [read_beforeMedia, h₂], .ofRead (s, []), ?_, ?_⟩
  · rw [Cleaned.read_beforeMedia, clean, h₁]
  · rw [Cleaned.read_beforeMedia, clean, h₂]

/-- The style sheet `intricate` in one line, with blank segments, and with blanks beyond ASCII
    around a header. -/
def packed : Text :=
  ['a', ':', 'b', '{', ';', 'c', ':', 'd', ':', 'e', '}', '\u2003'] ++ mediaKeyword ++
    [' ', '}', 'x', '\u2003', '{', ' ', '}'] ++ mediaKeyword ++
    ['y', '{', '.', 'f', '{', 'g', ':'] ++ mediaKeyword ++
    ['z', ';', 'h', ':', 'i', ';', ';', '}', '}']

theorem writtenAs_packed : intricate.WrittenAs packed := by
  have base : WritesRule (['a', ':', 'b'], ⟨[(['c'], ['d', ':', 'e'])]⟩)
      ['a', ':', 'b', '{', ';', 'c', ':', 'd', ':', 'e', '}'] := by
    refine ⟨_, _, .refl _, ⟨[[], ['c', ':', 'd', ':', 'e']], ?_, rfl⟩, rfl⟩
    exact .blank Text.blank_nil (.declaration ⟨['c'], _, .refl _, .refl _, rfl⟩ .nil)
  have first : WritesContext (mediaKeyword ++ [' ', '}', 'x'], .empty)
      ('\u2003' :: mediaKeyword ++ [' ', '}', 'x', '\u2003', '{', ' ', '}']) :=
    ⟨'\u2003' :: mediaKeyword ++ [' ', '}', 'x', '\u2003'], [' '],
      ⟨['\u2003'], ['\u2003'], by decide, by decide, rfl⟩, .nil (by decide), rfl⟩
  have rule : WritesRule (['.', 'f'], ⟨[(['g'], mediaKeyword ++ ['z']), (['h'], ['i'])]⟩)
      (['.', 'f', '{', 'g', ':'] ++ mediaKeyword ++ ['z', ';', 'h', ':', 'i', ';', ';', '}']) := by
    refine ⟨_, _, .refl _,
      ⟨[['g', ':'] ++ mediaKeyword ++ ['z'], ['h', ':', 'i'], [], []], ?_, rfl⟩, rfl⟩
    exact .declaration ⟨['g'], _, .refl _, .refl _, rfl⟩
      (.declaration ⟨['h'], _, .refl _, .refl _, rfl⟩
        (.blank Text.blank_nil (.blank Text.blank_nil .nil)))
  exact ⟨_, _, _, _, rfl, .singleton base,
    .cons first (.singleton ⟨mediaKeyword ++ ['y'], _, .refl _, .singleton rule, rfl⟩), rfl⟩

theorem read_clean_of_writtenAs_packed :
    intricate.WellFormed ∧ intricate.WrittenAs intricate.render ∧ intricate.WrittenAs packed ∧
      read .beforeMedia intricate.render = .ok (intricate, []) ∧
      read .beforeMedia packed = .ok (intricate, []) ∧
      ∃ cleaned, Cleaned.read .beforeMedia intricate.render = .ok cleaned ∧
        Cleaned.read .beforeMedia packed = .ok cleaned := by
  have hs : intricate.WellFormed := by decide
  have hprinted : intricate.WrittenAs intricate.render := writtenAs_render hs.valid hs.headers
  exact ⟨hs, hprinted, writtenAs_packed, read_clean_of_writtenAs hs hprinted writtenAs_packed⟩

end Stylesheet

end MediaCascade
