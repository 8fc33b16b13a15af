import MediaCascade.Proofs.Stylesheet.Quotation
import MediaCascade.Proofs.Stylesheet.WrittenForm

/-!
# The characters of a written style sheet

The printer takes names, selectors, properties and values as they are and puts a few characters of
ASCII between them (`layoutCharacters`). What is read stands in the source, so that cleaning a text
brings in no other characters.

* `Stylesheet.forall_mem_render`: what holds of the characters of the layout and of all parts holds
  of every character of the text.
* `mem_source_or_layout`: a character of a cleaned text stands in the source or in the layout.
-/

namespace MediaCascade

/-- The characters that the printer puts between the parts of a style sheet. -/
def layoutCharacters : Text := ['\n', ' ', ':', ';', '{', '}']

theorem toNat_lt_of_mem_layoutCharacters : ∀ c ∈ layoutCharacters, c.toNat < 128 := by
  simp [layoutCharacters]

section Printer

variable {P : Char → Prop} (hlayout : ∀ c ∈ layoutCharacters, P c)

/-- All characters of the parts of a rule are as `P` says. -/
structure PartsOfRule (P : Char → Prop) (rule : Text × Declarations) : Prop where
  selector : ∀ c ∈ rule.1, P c
  properties : ∀ d ∈ rule.2.entries, ∀ c ∈ d.1, P c
  values : ∀ d ∈ rule.2.entries, ∀ c ∈ d.2, P c

include hlayout

/-- What the printer puts in by itself. -/
theorem forall_mem_layout {s : Text} (hs : s ⊆ layoutCharacters) : ∀ c ∈ s, P c :=
  fun c hc => hlayout c (hs hc)

theorem forall_mem_renderRule {indent : Text} (hindent : indent ⊆ layoutCharacters)
    {rule : Text × Declarations} (h : PartsOfRule P rule) :
    ∀ c ∈ renderRule indent rule.1 rule.2, P c := by
  refine forall_mem_joinWith (forall_mem_layout hlayout (by decide)) fun line hline => ?_
  rcases List.mem_append.mp hline with hline | hline
  · rcases List.mem_cons.mp hline with rfl | hline
    · exact List.forall_mem_append.mpr ⟨List.forall_mem_append.mpr
        ⟨forall_mem_layout hlayout hindent, h.selector⟩, forall_mem_layout hlayout (by decide)⟩
    · obtain ⟨d, hd, rfl⟩ := List.mem_map.mp hline
      simp only [renderDeclaration, List.forall_mem_append]
      exact ⟨⟨⟨⟨forall_mem_layout hlayout (by decide), h.properties d hd⟩,
        forall_mem_layout hlayout (by decide)⟩, h.values d hd⟩,
        forall_mem_layout hlayout (by decide)⟩
  · rw [List.mem_singleton.mp hline]
    exact forall_mem_layout hlayout (by decide)

theorem forall_mem_renderBlock {indent : Text} (hindent : indent ⊆ layoutCharacters) {block : Block}
    (h : ∀ rule ∈ block.entries, PartsOfRule P rule) : ∀ c ∈ renderBlock indent block, P c := by
  refine forall_mem_joinWith (forall_mem_layout hlayout (by decide)) fun text htext => ?_
  obtain ⟨rule, hrule, rfl⟩ := List.mem_map.mp htext
  exact forall_mem_renderRule hlayout hindent (h rule hrule)

theorem forall_mem_renderContext {context : Text × Block}
    (hname : context.1 ≠ baseKey → ∀ c ∈ context.1, P c)
    (h : ∀ rule ∈ context.2.entries, PartsOfRule P rule) :
    ∀ c ∈ renderContext context.1 context.2, P c := by
  unfold renderContext
  split
  · exact forall_mem_renderBlock hlayout (List.nil_subset _) h
  · next hbase =>
    simp only [List.forall_mem_append]
    exact ⟨⟨⟨fun c hc => hname hbase c ((Text.trim_isInfix context.1).subset hc),
      forall_mem_layout hlayout (by decide)⟩, forall_mem_renderBlock hlayout (by decide) h⟩,
      forall_mem_layout hlayout (by decide)⟩

/-- **What holds of the characters of the layout and of all parts of a style sheet holds of all
    characters of its text.** -/
theorem Stylesheet.forall_mem_render {s : Stylesheet}
    (hnames : ∀ context ∈ s.contexts.entries, context.1 ≠ baseKey → ∀ c ∈ context.1, P c)
    (hrules : ∀ context ∈ s.contexts.entries, ∀ rule ∈ context.2.entries, PartsOfRule P rule) :
    ∀ c ∈ s.render, P c := by
  have hsections : ∀ text ∈ s.sections, ∀ c ∈ text, P c := by
    intro text htext
    have hin : text ∈ s.contexts.entries.map fun context => renderContext context.1 context.2 := by
      unfold sections at htext
      split at htext
      · next heq => exact heq ▸ List.mem_cons_of_mem _ htext
      · exact htext
    obtain ⟨context, hcontext, rfl⟩ := List.mem_map.mp hin
    exact forall_mem_renderContext hlayout (hnames context hcontext) (hrules context hcontext)
  exact List.forall_mem_append.mpr ⟨forall_mem_joinWith (forall_mem_layout hlayout (by decide))
    hsections, forall_mem_layout hlayout (by decide)⟩

end Printer

/-- **Cleaning brings in no character** but those of the layout. -/
theorem mem_source_or_layout {css : Text} {c : Char} (h : c ∈ (clean css).css) :
    c ∈ css ∨ c ∈ layoutCharacters := by
  have hvalid := (Stylesheet.tidy_ofText css).valid
  have hquotes := (Stylesheet.quotes_ofText css).simplify hvalid
  obtain ⟨base, media, hsheet⟩ := (Stylesheet.tidy_ofText css).simplify.valid.exists_eq
  refine Stylesheet.forall_mem_render (P := fun c => c ∈ css ∨ c ∈ layoutCharacters)
    (fun c hc => .inr hc) (fun context hcontext hbase c hc => .inl ?_)
    (fun context hcontext rule hrule => ?_) c h
  · refine (hquotes.names_quoted context.1 ?_).subset hc
    rw [hsheet] at hcontext ⊢
    rcases List.mem_cons.mp hcontext with rfl | hcontext
    · exact absurd rfl hbase
    · exact List.mem_map_of_mem hcontext
  · have hquoted := hquotes.rules_quoted context hcontext rule hrule
    exact ⟨fun c hc => .inl (hquoted.selector.subset hc),
      fun d hd c hc => .inl ((hquoted.properties d hd).subset hc),
      fun d hd c hc => .inl ((hquoted.values d hd).subset hc)⟩

/-- Cleaning brings in no carriage return. -/
theorem no_carriageReturn_clean {css : Text} (h : '\r' ∉ css) : '\r' ∉ (clean css).css := by
  intro hm
  rcases mem_source_or_layout hm with hsource | hlayout
  · exact h hsource
  · exact absurd hlayout (by decide)

end MediaCascade
