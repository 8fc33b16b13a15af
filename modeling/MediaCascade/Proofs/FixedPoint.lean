import MediaCascade.Cleaning
import MediaCascade.Proofs.Stylesheet.RoundTrip

/-!
# When a cleaned text is clean

Cleaning a cleaned text changes nothing and reports nothing, with one exception
(`clean_clean_iff`): a header that is `@media` and blanks. It names the context `@media`, and a
block that is written with this name has nothing between the keyword and the brace, which is no
header. The block is then dropped as text outside the blocks.

* Otherwise the style sheet that is left is well formed, so that it is read back as it is; and
  nothing is left to remove in it.
* With such a header, the written name stands in one of the texts that are skipped.
-/

namespace MediaCascade

/-! ## 1. Headers that name something -/

/-- A header is longer than the keyword unless it is the keyword. -/
theorem IsHeader.length_lt {t : Text} (h : IsHeader t) (hne : t ≠ mediaKeyword) :
    mediaKeyword.length < t.length := by
  obtain ⟨query, rfl⟩ := h.keyword
  have hquery : query ≠ [] := by
    rintro rfl
    exact hne (List.append_nil _)
  have hpos := List.length_pos_iff.mpr hquery
  rw [List.length_append]
  omega

namespace Stylesheet

/-- What cleaning leaves is well formed if no context is named by the keyword alone. -/
theorem wellFormed_simplify {s : Stylesheet} (h : s.Tidy) (hbare : mediaKeyword ∉ s.mediaKeys) :
    s.simplify.1.WellFormed := by
  have htidy := h.simplify
  refine ⟨htidy, h.valid.settled_simplify.full, fun context hcontext => ?_⟩
  refine (htidy.headers context hcontext).length_lt ?_
  rintro rfl
  rw [mediaKeys_simplify] at hcontext
  exact hbare hcontext

/-! ## 2. A header that is written as none -/

/-- **The keyword of a block without a header is skipped.** -/
theorem exists_gap_mediaText {parts : List (Text × Text × Block)}
    (hlead : ∀ x ∈ parts, '@' ∉ x.1)
    (hblock : ∀ x ∈ parts, x.2.1 ≠ mediaKeyword → (writtenBlock x.2).WellFormed)
    (hbare : ∃ x ∈ parts, x.2.1 = mediaKeyword) (trail : Text) :
    ∃ gap ∈ (Source.cut (mediaText parts trail)).1.map Prod.fst ++
        [(Source.cut (mediaText parts trail)).2], mediaKeyword <:+: gap := by
  induction parts with
  | nil =>
    obtain ⟨x, hx, _⟩ := hbare
    cases hx
  | cons x rest ih =>
    rw [mediaText_cons]
    by_cases hx : x.2.1 = mediaKeyword
    · have htext : (writtenBlock x.2).text ++ mediaText rest trail =
          mediaKeyword ++ '{' :: ((writtenBlock x.2).body ++ '}' :: mediaText rest trail) := by
        rw [MediaBlock.text_append_eq, ← hx]
        rfl
      rw [htext]
      exact Source.exists_gap_of_bare (hlead x List.mem_cons_self) _
    · have hlater := ih (fun y hy => hlead y (List.mem_cons_of_mem _ hy))
        (fun y hy => hblock y (List.mem_cons_of_mem _ hy)) (by
          obtain ⟨y, hy, he⟩ := hbare
          rcases List.mem_cons.mp hy with rfl | hy
          · exact absurd he hx
          · exact ⟨y, hy, he⟩)
      obtain ⟨gap, hgap, hin⟩ := hlater
      rw [Source.cut_gap_append (hlead x List.mem_cons_self) (hblock x List.mem_cons_self hx)]
      exact ⟨gap, List.mem_cons_of_mem _ hgap, hin⟩

/-- **A context that is named by the keyword alone is not read back**: the keyword is skipped. -/
theorem exists_gap_render {s : Stylesheet} (h : s.Tidy)
    (hfull : ∀ c ∈ s.contexts.entries, c.2.Full) (hbare : mediaKeyword ∈ s.mediaKeys) :
    ∃ gap ∈ (Source.ofText s.render).gaps, mediaKeyword <:+: gap := by
  obtain ⟨base, media, rfl, hheaders, hfree, hparts⟩ := h.exists_parts hfull
  have hsome : ∃ x ∈ withLeads [] ['\n', '\n'] media, x.2.1 = mediaKeyword := by
    obtain ⟨c, hc, he⟩ := List.mem_map.mp hbare
    rw [← map_snd_withLeads [] ['\n', '\n'] media] at hc
    obtain ⟨x, hx, rfl⟩ := List.mem_map.mp hc
    exact ⟨x, hx, he⟩
  obtain ⟨lead, trail, _, _, hsource⟩ := exists_ofText_render hheaders hfree
  rw [hsource]
  exact exists_gap_mediaText (fun x hx => (hparts x hx).1.not_mem (by decide))
    (fun x hx => (hparts x hx).2) hsome trail

/-- So it does not come back without a warning. -/
theorem warnings_ofText_render {s : Stylesheet} (h : s.Tidy)
    (hfull : ∀ c ∈ s.contexts.entries, c.2.Full) (hbare : mediaKeyword ∈ s.mediaKeys) :
    (ofText s.render).2 ≠ [] := by
  obtain ⟨gap, hgap, hin⟩ := exists_gap_render h hfull hbare
  intro hnone
  rw [ofText] at hnone
  have hwarnings := (List.append_eq_nil_iff.mp (List.append_eq_nil_iff.mp hnone).1).1
  -- a text with an `@` in it is not blank
  have hblank := (Source.gapWarning?_eq_none_iff gap).mp
    (List.filterMap_eq_nil_iff.mp hwarnings gap hgap)
  have hat : '@' ∈ gap := hin.subset (by decide)
  exact absurd (hblank _ hat) (by decide)

end Stylesheet

/-! ## 3. Cleaning twice -/

/-- **What cleaning leaves is clean** if no context is named by the keyword alone. -/
theorem clean_render_simplify {s : Stylesheet} (h : s.Tidy) (hbare : mediaKeyword ∉ s.mediaKeys) :
    clean s.simplify.1.render = ⟨s.simplify.1.render, s.simplify.1, [], []⟩ := by
  have hread := Stylesheet.ofText_render (Stylesheet.wellFormed_simplify h hbare)
  have hsimplify := Stylesheet.simplify_of_settled h.valid.settled_simplify
  rw [clean, hread, Cleaned.ofRead]
  simp only [hsimplify]

/-- **A cleaned text is clean if and only if no media block is named by the keyword alone**: exactly
    then cleaning it again gives the same text and the same style sheet, with no warnings and no
    removals. There is no condition on the text that is cleaned first. -/
theorem clean_clean_iff (css : Text) :
    clean (clean css).css = ⟨(clean css).css, (clean css).sheet, [], []⟩ ↔
      ∀ b ∈ (Source.ofText css).blocks, b.context ≠ mediaKeyword := by
  have htidy := Stylesheet.tidy_ofText css
  have hsettled := htidy.valid.settled_simplify
  have hcss : (clean css).css = (Stylesheet.ofText css).1.simplify.1.render := rfl
  have hsheet : (clean css).sheet = (Stylesheet.ofText css).1.simplify.1 := rfl
  rw [hcss, hsheet]
  constructor
  · intro h b hb hbare
    have hmem : mediaKeyword ∈ (Stylesheet.ofText css).1.simplify.1.mediaKeys := by
      rw [Stylesheet.mediaKeys, Stylesheet.contextKeys_simplify]
      exact (Stylesheet.mem_mediaKeys_ofText_iff css mediaKeyword).mpr ⟨b, hb, hbare⟩
    exact Stylesheet.warnings_ofText_render htidy.simplify hsettled.full hmem
      (congrArg Cleaned.warnings h)
  · intro h
    have hbare : mediaKeyword ∉ (Stylesheet.ofText css).1.mediaKeys := by
      intro hmem
      obtain ⟨b, hb, he⟩ := (Stylesheet.mem_mediaKeys_ofText_iff css mediaKeyword).mp hmem
      exact h b hb he
    exact clean_render_simplify htidy hbare

end MediaCascade
