import MediaCascade.Proofs.Cascade.Settled
import MediaCascade.Proofs.Source.Blocks
import MediaCascade.Proofs.Source.Rules
import MediaCascade.Proofs.Text.Occurrence
import MediaCascade.Stylesheet.Reading

/-!
# Tidy style sheets

In a tidy style sheet every part can stand in a text without being taken for something else: names
and values are trimmed and have no character that ends them, media contexts are named like headers,
and no part of the base rules has `@media` in it.

* `Stylesheet.tidy_ofText`: every text is read as a tidy style sheet.
* `Stylesheet.Tidy.simplify`: the transforms keep a style sheet tidy.

A part that is read is a trimmed piece of the source between two separators (`QuotedRule`). That is
all that is used of it here: it is trimmed, it does not have the separators, and what the source
does not have anywhere, it does not have either.
-/

namespace MediaCascade

/-! ## 1. The parts of a style sheet -/

/-- A text that is not empty, with no blank at its ends and no brace. -/
structure IsToken (t : Text) : Prop where
  ne_nil : t ≠ []
  trimmed : Text.IsTrimmed t
  free : BraceFree t

/-- A property ends at the first colon, and its declaration at the first semicolon. -/
structure IsProperty (t : Text) : Prop extends IsToken t where
  no_colon : ':' ∉ t
  no_semicolon : ';' ∉ t

/-- A value may have colons. -/
structure IsValue (t : Text) : Prop extends IsToken t where
  no_semicolon : ';' ∉ t

/-- A header of a media block without blanks at its end. -/
structure IsHeader (t : Text) : Prop where
  keyword : mediaKeyword <+: t
  no_opening : '{' ∉ t
  trimmed : ∀ c ∈ t.getLast?, isBlank c = false

instance (t : Text) : Decidable (IsToken t) :=
  decidable_of_iff (t ≠ [] ∧ Text.IsTrimmed t ∧ BraceFree t)
    ⟨fun ⟨h, h', h''⟩ => ⟨h, h', h''⟩, fun h => ⟨h.ne_nil, h.trimmed, h.free⟩⟩

instance (t : Text) : Decidable (IsProperty t) :=
  decidable_of_iff (IsToken t ∧ ':' ∉ t ∧ ';' ∉ t)
    ⟨fun ⟨h, h', h''⟩ => ⟨h, h', h''⟩, fun h => ⟨h.toIsToken, h.no_colon, h.no_semicolon⟩⟩

instance (t : Text) : Decidable (IsValue t) :=
  decidable_of_iff (IsToken t ∧ ';' ∉ t)
    ⟨fun ⟨h, h'⟩ => ⟨h, h'⟩, fun h => ⟨h.toIsToken, h.no_semicolon⟩⟩

instance (t : Text) : Decidable (IsHeader t) :=
  decidable_of_iff
    (mediaKeyword <+: t ∧ '{' ∉ t ∧ (t.getLast?.all fun c => !isBlank c) = true)
    ⟨fun ⟨h, h', h''⟩ => ⟨h, h', by simpa [Option.all_eq_true] using h''⟩,
      fun h => ⟨h.keyword, h.no_opening, by simpa [Option.all_eq_true] using h.trimmed⟩⟩

/-- A rule whose selector, properties and values are such. -/
structure TidyRule (rule : Text × Declarations) : Prop where
  selector : IsToken rule.1
  properties : ∀ d ∈ rule.2.entries, IsProperty d.1
  values : ∀ d ∈ rule.2.entries, IsValue d.2

/-- A rule whose parts all stand in `source`. -/
structure QuotedRule (source : Text) (rule : Text × Declarations) : Prop where
  selector : rule.1 <:+: source
  properties : ∀ d ∈ rule.2.entries, d.1 <:+: source
  values : ∀ d ∈ rule.2.entries, d.2 <:+: source

/-- A rule without `@media` in any of its parts. -/
structure MediaFreeRule (rule : Text × Declarations) : Prop where
  selector : MediaFree rule.1
  properties : ∀ d ∈ rule.2.entries, MediaFree d.1
  values : ∀ d ∈ rule.2.entries, MediaFree d.2

instance (rule : Text × Declarations) : Decidable (TidyRule rule) :=
  decidable_of_iff (IsToken rule.1 ∧ (∀ d ∈ rule.2.entries, IsProperty d.1) ∧
      ∀ d ∈ rule.2.entries, IsValue d.2)
    ⟨fun ⟨hs, hp, hv⟩ => ⟨hs, hp, hv⟩, fun h => ⟨h.selector, h.properties, h.values⟩⟩

instance (rule : Text × Declarations) : Decidable (MediaFreeRule rule) :=
  decidable_of_iff (MediaFree rule.1 ∧ (∀ d ∈ rule.2.entries, MediaFree d.1) ∧
      ∀ d ∈ rule.2.entries, MediaFree d.2)
    ⟨fun ⟨hs, hp, hv⟩ => ⟨hs, hp, hv⟩, fun h => ⟨h.selector, h.properties, h.values⟩⟩

/-- A part of a piece of the source is a part of the source. -/
theorem QuotedRule.mono {piece source : Text} {rule : Text × Declarations}
    (h : QuotedRule piece rule) (hin : piece <:+: source) : QuotedRule source rule :=
  ⟨h.selector.trans hin, fun d hd => (h.properties d hd).trans hin,
    fun d hd => (h.values d hd).trans hin⟩

/-- What the source does not have, the rule does not have. -/
theorem QuotedRule.mediaFreeRule {source : Text} {rule : Text × Declarations}
    (h : QuotedRule source rule) (hs : MediaFree source) : MediaFreeRule rule :=
  ⟨hs.of_infix h.selector, fun d hd => hs.of_infix (h.properties d hd),
    fun d hd => hs.of_infix (h.values d hd)⟩

/-- What is left of a token between two separators. -/
theorem isToken_trim {s : Text} (hs : BraceFree s) (hne : Text.trim s ≠ []) :
    IsToken (Text.trim s) :=
  ⟨hne, Text.isTrimmed_trim s, hs.of_infix (Text.trim_isInfix s)⟩

section Subset

variable {selector : Text} {declarations kept : Declarations}
  (hsub : ∀ d ∈ kept.entries, d ∈ declarations.entries)
include hsub

theorem TidyRule.of_subset (h : TidyRule (selector, declarations)) : TidyRule (selector, kept) :=
  ⟨h.selector, fun d hd => h.properties d (hsub d hd), fun d hd => h.values d (hsub d hd)⟩

theorem QuotedRule.of_subset {source : Text} (h : QuotedRule source (selector, declarations)) :
    QuotedRule source (selector, kept) :=
  ⟨h.selector, fun d hd => h.properties d (hsub d hd), fun d hd => h.values d (hsub d hd)⟩

end Subset

/-! ## 2. What is read of a rule -/

/-- A declaration that is read is that of a segment. -/
theorem Declarations.exists_segment {body : Text} {d : Text × Text}
    (h : d ∈ (Declarations.ofText body).entries) :
    ∃ segment ∈ body.splitOn ';', Segment.ofText segment = .declaration d.1 d.2 := by
  refine OrderedMap.forall_mem_ofList (P := fun d => ∃ segment ∈ body.splitOn ';',
    Segment.ofText segment = .declaration d.1 d.2) (fun pair hpair => ?_) d h
  obtain ⟨segment, hsegment, hread⟩ := List.mem_filterMap.mp hpair
  obtain ⟨text, htext, rfl⟩ := List.mem_map.mp hsegment
  exact ⟨text, htext, Segment.eq_of_declaration? hread⟩

/-- **A declaration is read from a body without braces as a property and a value**, both of them
    parts of the body. -/
theorem Declarations.of_mem_ofText {body : Text} (hbody : BraceFree body) {d : Text × Text}
    (h : d ∈ (Declarations.ofText body).entries) :
    IsProperty d.1 ∧ IsValue d.2 ∧ d.1 <:+: body ∧ d.2 <:+: body := by
  obtain ⟨segment, hsegment, hread⟩ := exists_segment h
  obtain ⟨hfree, hin⟩ := of_mem_splitOn hsegment
  obtain ⟨x, y, hx, rfl, hp, hv, hpne, hvne⟩ :=
    (Segment.ofText_eq_declaration_iff _ _ _).mp hread
  have hxin : x <:+: x ++ ':' :: y := (List.prefix_append _ _).isInfix
  have hyin : y <:+: x ++ ':' :: y :=
    ((List.suffix_cons _ _).trans (List.suffix_append _ _)).isInfix
  have hpx : d.1 <:+: x := hp ▸ Text.trim_isInfix x
  have hvy : d.2 <:+: y := hv ▸ Text.trim_isInfix y
  have hsegfree : BraceFree (x ++ ':' :: y) := hbody.of_infix hin
  have htoken : IsToken d.1 := hp ▸ isToken_trim (hsegfree.of_infix hxin) (hp ▸ hpne)
  have htoken' : IsToken d.2 := hv ▸ isToken_trim (hsegfree.of_infix hyin) (hv ▸ hvne)
  have hpsemi : ';' ∉ d.1 := fun hm => hfree ((hpx.trans hxin).subset hm)
  have hvsemi : ';' ∉ d.2 := fun hm => hfree ((hvy.trans hyin).subset hm)
  have hpcolon : ':' ∉ d.1 := fun hm => hx (hpx.subset hm)
  exact ⟨⟨htoken, hpcolon, hpsemi⟩, ⟨htoken', hvsemi⟩, (hpx.trans hxin).trans hin,
    (hvy.trans hyin).trans hin⟩

section Rule

variable {g : Group} {selector body : Text} (h : RawRule.ofText g.text = .rule selector body)
include h

/-- **A rule that is read is tidy.** -/
theorem tidyRule_of_group : TidyRule (selector, .ofText body) := by
  obtain ⟨⟨hs, _⟩, hselector, hbody⟩ := (RawRule.ofText_group_eq_rule_iff g selector body).mp h
  have hfree : BraceFree body := hbody ▸ g.inside_free.of_infix (Text.trim_isInfix _)
  refine ⟨?_, fun d hd => (Declarations.of_mem_ofText hfree hd).1,
    fun d hd => (Declarations.of_mem_ofText hfree hd).2.1⟩
  subst hselector
  exact isToken_trim g.before_free hs

/-- **Its parts stand in the group**, which does not need its closing brace for that. -/
theorem quotedRule_of_group :
    QuotedRule (g.before ++ '{' :: g.inside) (selector, .ofText body) := by
  obtain ⟨_, hselector, hbody⟩ := (RawRule.ofText_group_eq_rule_iff g selector body).mp h
  have hbefore : g.before <:+: g.before ++ '{' :: g.inside := (List.prefix_append _ _).isInfix
  have hinside : g.inside <:+: g.before ++ '{' :: g.inside :=
    ((List.suffix_cons _ _).trans (List.suffix_append _ _)).isInfix
  have hfree : BraceFree body := hbody ▸ g.inside_free.of_infix (Text.trim_isInfix _)
  have hin : body <:+: g.before ++ '{' :: g.inside :=
    hbody ▸ (Text.trim_isInfix _).trans hinside
  refine ⟨hselector ▸ (Text.trim_isInfix _).trans hbefore, fun d hd => ?_, fun d hd => ?_⟩
  · exact (Declarations.of_mem_ofText hfree hd).2.2.1.trans hin
  · exact (Declarations.of_mem_ofText hfree hd).2.2.2.trans hin

end Rule

/-- A rule that is read is that of a raw rule. -/
theorem Block.exists_raw {raws : List Text} {rule : Text × Declarations}
    (h : rule ∈ (Block.ofRules raws).entries) :
    ∃ raw ∈ raws, ∃ body, RawRule.ofText raw = .rule rule.1 body ∧ rule.2 = .ofText body := by
  refine OrderedMap.forall_mem_ofList (P := fun rule => ∃ raw ∈ raws, ∃ body,
    RawRule.ofText raw = .rule rule.1 body ∧ rule.2 = .ofText body) (fun pair hpair => ?_) rule h
  obtain ⟨raw, hraw, hread⟩ := List.mem_filterMap.mp hpair
  exact ⟨raw, hraw, RawRule.exists_of_binding? hread⟩

/-- No selector and no property is stored twice. -/
theorem Block.distinct_ofRules (raws : List Text) : (Block.ofRules raws).Distinct := by
  refine ⟨OrderedMap.nodup_keys_ofList _, fun rule hrule => ?_⟩
  obtain ⟨raw, _, body, _, hbody⟩ := Block.exists_raw hrule
  rw [hbody]
  exact OrderedMap.nodup_keys_ofList _

/-- **The rules in the body of a media block are tidy**, and their parts stand in the body. -/
theorem tidyRule_of_mem_innerRules {b : MediaBlock} (hb : b.WellFormed)
    {rule : Text × Declarations} (h : rule ∈ (Block.ofRules (innerRules b.body)).entries) :
    TidyRule rule ∧ QuotedRule b.body rule := by
  obtain ⟨raw, hraw, body, hread, hbody⟩ := Block.exists_raw h
  obtain ⟨f, hf⟩ := hb.body
  rw [← hf, innerRules_text] at hraw
  obtain ⟨g, hg, rfl⟩ := List.mem_map.mp hraw
  have hpiece : g.before ++ '{' :: g.inside <:+: g.text := (List.prefix_append _ _).isInfix
  have hin : g.text <:+: b.body := hf ▸ f.text_infix_of_mem (List.mem_filter.mp hg).1
  have htidy := tidyRule_of_group hread
  have hquoted := (quotedRule_of_group hread).mono (hpiece.trans hin)
  rw [← hbody] at htidy hquoted
  exact ⟨htidy, hquoted⟩

/-- **The rules of a base text are tidy**, and their parts stand in the base text. -/
theorem tidyRule_of_mem_baseRules {base : Text} {rule : Text × Declarations}
    (h : rule ∈ (Block.ofRules (baseRules base)).entries) :
    TidyRule rule ∧ QuotedRule base rule := by
  obtain ⟨raw, hraw, body, hread, hbody⟩ := Block.exists_raw h
  obtain ⟨piece, hpiece, rfl⟩ := List.mem_map.mp hraw
  obtain ⟨hclosing, hin⟩ := of_mem_splitOn hpiece
  obtain ⟨g, hg⟩ := RawRule.exists_group_of_rule hclosing hread
  have hparts : g.before ++ '{' :: g.inside = piece := List.append_cancel_right hg
  rw [← hg] at hread
  have htidy := tidyRule_of_group hread
  have hquoted := quotedRule_of_group hread
  rw [hparts] at hquoted
  rw [← hbody] at htidy hquoted
  exact ⟨htidy, hquoted.mono hin⟩

/-! ## 3. Headers -/

/-- A media context is not named `base`. -/
theorem IsHeader.ne_baseKey {t : Text} (h : IsHeader t) : t ≠ baseKey := by
  rintro rfl
  exact absurd h.keyword (by decide)

/-- A header has no blank at its start, because of the keyword. -/
theorem IsHeader.trim_eq {t : Text} (h : IsHeader t) : Text.trim t = t := by
  refine Text.trim_of_isTrimmed ⟨?_, h.trimmed⟩
  obtain ⟨query, hquery⟩ := h.keyword
  intro x hx
  rw [← hquery] at hx
  cases hx
  decide

/-- Trimming a header stops at the keyword. -/
theorem MediaBlock.context_eq {b : MediaBlock} {query : Text}
    (h : b.header = mediaKeyword ++ query) : b.context = mediaKeyword ++ Text.trimEnd query := by
  rw [context, h]
  exact Text.trimEnd_append_cons (c := 'a') (by decide) ['@', 'm', 'e', 'd', 'i'] query

/-- The name of the context of a media block is a header. -/
theorem MediaBlock.WellFormed.isHeader {b : MediaBlock} (hb : b.WellFormed) :
    IsHeader b.context := by
  obtain ⟨query, _, hq, hheader⟩ := hb.header
  have hcontext := MediaBlock.context_eq hheader
  refine ⟨hcontext ▸ List.prefix_append _ _, ?_, Text.getLast_trimEnd _⟩
  rw [hcontext]
  intro hm
  rcases List.mem_append.mp hm with h | h
  · exact absurd h (by decide)
  · exact hq ((Text.trimEnd_prefix_self query).subset h)

namespace Stylesheet

/-! ## 4. Tidy style sheets -/

/-- Every part can stand in a text without being taken for something else. -/
structure Tidy (s : Stylesheet) : Prop where
  valid : s.Valid
  headers : ∀ context ∈ s.mediaKeys, IsHeader context
  rules : ∀ context ∈ s.contexts.entries, ∀ rule ∈ context.2.entries, TidyRule rule
  base_free : ∀ rule ∈ s.baseBlock.entries, MediaFreeRule rule

instance (s : Stylesheet) : Decidable s.Tidy :=
  decidable_of_iff (s.Valid ∧ (∀ context ∈ s.mediaKeys, IsHeader context) ∧
      (∀ context ∈ s.contexts.entries, ∀ rule ∈ context.2.entries, TidyRule rule) ∧
      ∀ rule ∈ s.baseBlock.entries, MediaFreeRule rule)
    ⟨fun ⟨hs, hh, hr, hb⟩ => ⟨hs, hh, hr, hb⟩, fun h => ⟨h.valid, h.headers, h.rules, h.base_free⟩⟩

/-- The contexts of a style sheet that is read are `base` and those of the media blocks. -/
theorem contexts_walk_addMediaBlock (s : Stylesheet) (blocks : List MediaBlock) :
    (walk addMediaBlock s blocks).1.contexts =
      s.contexts.insertAll
        (blocks.map fun b => (b.context, Block.ofRules (innerRules b.body))) := by
  induction blocks generalizing s with
  | nil => rfl
  | cons b rest ih =>
    rw [walk_cons, ih, addMediaBlock, Block.addRules_empty_fst]
    rfl

theorem contexts_ofSource (source : Source) :
    (ofSource source).1.contexts =
      (⟨[(baseKey, Block.ofRules (baseRules source.base))]⟩ : OrderedMap Text Block).insertAll
        (source.blocks.map fun b => (b.context, Block.ofRules (innerRules b.body))) := by
  rw [ofSource, Block.addRules_empty_fst]
  exact contexts_walk_addMediaBlock _ _

/-- The context of a media block is there. -/
theorem context_mem_ofSource (source : Source) {b : MediaBlock} (hb : b ∈ source.blocks) :
    b.context ∈ (ofSource source).1.contextKeys := by
  rw [contextKeys, contexts_ofSource, OrderedMap.mem_keys_insertAll, List.map_map]
  exact .inr (List.mem_map_of_mem hb)

/-- A context is the base context or that of a media block. -/
theorem of_mem_ofSource (source : Source) {c : Text × Block}
    (h : c ∈ (ofSource source).1.contexts.entries) :
    c = (baseKey, Block.ofRules (baseRules source.base)) ∨
      ∃ b ∈ source.blocks, c = (b.context, Block.ofRules (innerRules b.body)) := by
  rw [contexts_ofSource] at h
  refine OrderedMap.forall_mem_insertAll
    (P := fun c => c = (baseKey, Block.ofRules (baseRules source.base)) ∨
      ∃ b ∈ source.blocks, c = (b.context, Block.ofRules (innerRules b.body)))
    (fun c hc => ?_) (fun pair hpair => ?_) c h
  · exact .inl (List.mem_singleton.mp hc)
  · obtain ⟨b, hb, rfl⟩ := List.mem_map.mp hpair
    exact .inr ⟨b, hb, rfl⟩

theorem valid_ofSource (source : Source) : (ofSource source).1.Valid := by
  have hdistinct : ∀ c ∈ (ofSource source).1.contexts.entries, c.2.Distinct := by
    intro c hc
    rcases of_mem_ofSource source hc with rfl | ⟨b, _, rfl⟩
    · exact Block.distinct_ofRules _
    · exact Block.distinct_ofRules _
  refine ⟨?_, ?_, fun c hc => (hdistinct c hc).selectors, fun c hc => (hdistinct c hc).properties⟩
  · rw [contextKeys, contexts_ofSource]
    exact OrderedMap.head?_keys_insertAll rfl _
  · rw [contextKeys, contexts_ofSource]
    exact OrderedMap.nodup_keys_insertAll (by simp [OrderedMap.keys]) _

/-- The media contexts of a style sheet that is read are those of the media blocks. -/
theorem mem_mediaKeys_ofText_iff (css context : Text) :
    context ∈ (ofText css).1.mediaKeys ↔ ∃ b ∈ (Source.ofText css).blocks, b.context = context := by
  have hvalid := valid_ofSource (.ofText css)
  have hcontexts := fun c => of_mem_ofSource (.ofText css) (c := c)
  have hblocks := fun b => context_mem_ofSource (.ofText css) (b := b)
  rw [ofText]
  obtain ⟨base, media, he⟩ := hvalid.exists_eq
  rw [he] at hvalid hcontexts hblocks ⊢
  have hn := (List.nodup_cons.mp (valid_mk_iff.mp hvalid).1).1
  constructor
  · intro h
    obtain ⟨c, hc, rfl⟩ := List.mem_map.mp h
    rcases hcontexts c (List.mem_cons_of_mem _ hc) with rfl | ⟨b, hb, rfl⟩
    · exact absurd (List.mem_map_of_mem hc) hn
    · exact ⟨b, hb, rfl⟩
  · rintro ⟨b, hb, rfl⟩
    rcases List.mem_cons.mp (hblocks b hb) with hbase | hmedia
    · exact absurd hbase (Source.wellFormed_of_mem_blocks hb).isHeader.ne_baseKey
    · exact hmedia

/-- **Every text is read as a tidy style sheet.** -/
theorem tidy_ofText (css : Text) : (ofText css).1.Tidy := by
  have hfree : MediaFree (Source.ofText css).base := mediaFree_breakOn css
  have hwellFormed : ∀ b ∈ (Source.ofText css).blocks, b.WellFormed := fun b hb =>
    Source.wellFormed_of_mem_blocks hb
  have hvalid := valid_ofSource (.ofText css)
  have hcontexts := fun c => of_mem_ofSource (.ofText css) (c := c)
  rw [ofText]
  obtain ⟨base, media, he⟩ := hvalid.exists_eq
  rw [he] at hvalid hcontexts ⊢
  have hn := (List.nodup_cons.mp (valid_mk_iff.mp hvalid).1).1
  refine ⟨hvalid, ?_, ?_, ?_⟩
  · intro context hcontext
    obtain ⟨c, hc, rfl⟩ := List.mem_map.mp hcontext
    rcases hcontexts c (List.mem_cons_of_mem _ hc) with rfl | ⟨b, hb, rfl⟩
    · exact absurd (List.mem_map_of_mem hc) hn
    · exact (hwellFormed b hb).isHeader
  · intro c hc rule hrule
    rcases hcontexts c hc with rfl | ⟨b, hb, rfl⟩
    · exact (tidyRule_of_mem_baseRules hrule).1
    · exact (tidyRule_of_mem_innerRules (hwellFormed b hb) hrule).1
  · intro rule hrule
    rw [baseBlock_mk] at hrule
    -- no header is named like the base context, so that the latter is read from the base text
    rcases hcontexts _ List.mem_cons_self with hbase | ⟨b, hb, hbase⟩
    · rw [(Prod.mk.inj hbase).2] at hrule
      exact (tidyRule_of_mem_baseRules hrule).2.mediaFreeRule hfree
    · exact absurd (Prod.mk.inj hbase).1.symm (hwellFormed b hb).isHeader.ne_baseKey

/-! ## 5. The transforms -/

/-- The rules that a context keeps are rules of it with fewer declarations. -/
theorem exists_rule_of_mem_without {b given : Block} {rule : Text × Declarations}
    (h : rule ∈ (b.without given).entries) :
    ∃ declarations : Declarations, (rule.1, declarations) ∈ b.entries ∧
      ∀ d ∈ rule.2.entries, d ∈ declarations.entries := by
  obtain ⟨old, hold, rfl⟩ := List.mem_map.mp h
  exact ⟨old.2, hold, fun d hd => (List.mem_filter.mp hd).1⟩

theorem exists_rule_of_mem_dedupeAfter {origin : Origin} {given : Block}
    {media : List (Text × Block)} {c : Text × Block} (hc : c ∈ (dedupeAfter origin given media).1)
    {rule : Text × Declarations} (hrule : rule ∈ c.2.entries) :
    ∃ old ∈ media, old.1 = c.1 ∧ ∃ declarations : Declarations,
      (rule.1, declarations) ∈ old.2.entries ∧
        ∀ d ∈ rule.2.entries, d ∈ declarations.entries := by
  induction media generalizing origin given with
  | nil => cases hc
  | cons first rest ih =>
    rcases List.mem_cons.mp hc with rfl | hc
    · exact ⟨first, List.mem_cons_self, rfl, exists_rule_of_mem_without hrule⟩
    · obtain ⟨old, hold, hkept⟩ := ih hc
      exact ⟨old, List.mem_cons_of_mem _ hold, hkept⟩

/-- **The transforms leave rules that were there**, in their contexts, with fewer declarations. -/
theorem exists_rule_of_mem_simplify {s : Stylesheet} (hs : s.Valid) {c : Text × Block}
    (hc : c ∈ s.simplify.1.contexts.entries) {rule : Text × Declarations}
    (hrule : rule ∈ c.2.entries) :
    ∃ old ∈ s.contexts.entries, old.1 = c.1 ∧ ∃ declarations : Declarations,
      (rule.1, declarations) ∈ old.2.entries ∧
        ∀ d ∈ rule.2.entries, d ∈ declarations.entries := by
  obtain ⟨base, media, rfl⟩ := hs.exists_eq
  rw [simplify_eq hs] at hc
  obtain ⟨deduped, hdeduped, rfl⟩ := List.mem_map.mp hc
  have hkept : rule ∈ deduped.2.entries := (List.mem_filter.mp hrule).1
  rcases List.mem_cons.mp hdeduped with rfl | hdeduped
  · exact ⟨(baseKey, base), List.mem_cons_self, rfl, rule.2, hkept, fun d hd => hd⟩
  · obtain ⟨old, hold, hname, hrest⟩ := exists_rule_of_mem_dedupeAfter hdeduped hkept
    exact ⟨old, List.mem_cons_of_mem _ hold, hname, hrest⟩

/-- **The transforms keep a style sheet tidy.** -/
theorem Tidy.simplify {s : Stylesheet} (h : s.Tidy) : s.simplify.1.Tidy := by
  obtain ⟨hs, hheaders, hrules, hfree⟩ := h
  refine ⟨hs.simplify, ?_, ?_, ?_⟩
  · rw [mediaKeys_simplify]
    exact hheaders
  · intro c hc rule hrule
    obtain ⟨old, hold, _, declarations, hdeclared, hsub⟩ := exists_rule_of_mem_simplify hs hc hrule
    exact (hrules old hold _ hdeclared).of_subset hsub
  · obtain ⟨base, media, rfl⟩ := hs.exists_eq
    rw [simplify_eq hs, List.map_cons, baseBlock_mk]
    rw [baseBlock_mk] at hfree
    exact fun rule hrule => hfree rule (List.mem_filter.mp hrule).1

end Stylesheet

end MediaCascade
