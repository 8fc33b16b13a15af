import MediaCascade.Proofs.Stylesheet.Tidy
import MediaCascade.Proofs.Text.Joining

/-!
# Texts that write rules

A rule can be written in many ways: with blanks around each of its parts, with or without a
semicolon behind the last declaration, and with blank segments anywhere. `WritesRule` holds of all
these texts, and `Listing` of texts that write one thing after the other.

* `WritesBody.ofText`, `WritesBody.trim`: whatever the layout, a body is read as the declarations
  that it writes, without a warning, and so is what trimming leaves of it.
* `Listing.exists_flatBody`: rules that are written one after the other are a flat body, and are
  stored as they are.

The reader trims at four places: a selector, a body, and the two sides of a colon. Each time it
takes away what the layout may have put there and nothing else.
-/

namespace MediaCascade

/-! ## 1. Blanks around a part -/

namespace Text

/-- The text `s` is `t` with blanks before and behind it. -/
def Padded (t s : Text) : Prop :=
  ∃ before behind, Blank before ∧ Blank behind ∧ s = before ++ t ++ behind

namespace Padded

variable {t s : Text}

theorem refl (t : Text) : Padded t t := ⟨[], [], blank_nil, blank_nil, by simp⟩

theorem trim_eq (h : Padded t s) (ht : IsTrimmed t) : Text.trim s = t := by
  obtain ⟨before, behind, hb, hr, rfl⟩ := h
  exact trim_pad hb ht hr

/-- A character that is not blank stands in a padded text if it stands in the text. -/
theorem mem_iff (h : Padded t s) {c : Char} (hc : isBlank c = false) : c ∈ s ↔ c ∈ t := by
  obtain ⟨before, behind, hb, hr, rfl⟩ := h
  simp [hb.not_mem hc, hr.not_mem hc]

theorem braceFree (h : Padded t s) (ht : BraceFree t) : BraceFree s := by
  refine .of_not_mem ?_ ?_
  · rw [h.mem_iff (by decide)]
    exact ht.opening_not_mem
  · rw [h.mem_iff (by decide)]
    exact ht.closing_not_mem

theorem mediaFree (h : Padded t s) (ht : MediaFree t) : MediaFree s := by
  obtain ⟨before, behind, hb, hr, rfl⟩ := h
  intro hm
  rw [infix_append_blank_iff isBlank_of_mem_mediaKeyword hr,
    infix_blank_append_iff isBlank_of_mem_mediaKeyword hb] at hm
  exact ht hm

theorem trimStart (h : Padded t s) (ht : IsTrimmed t) (hne : t ≠ []) :
    Padded t (Text.trimStart s) := by
  obtain ⟨before, behind, hb, hr, rfl⟩ := h
  obtain ⟨c, rest, rfl⟩ := List.exists_cons_of_ne_nil hne
  refine ⟨[], behind, blank_nil, hr, ?_⟩
  rw [List.append_assoc, trimStart_append_of_blank hb, trimStart_of_head]
  · rfl
  · exact ht.1

theorem trimEnd (h : Padded t s) (ht : IsTrimmed t) (hne : t ≠ []) :
    Padded t (Text.trimEnd s) := by
  obtain ⟨before, behind, hb, hr, rfl⟩ := h
  obtain ⟨front, c, rfl⟩ := (List.eq_nil_or_concat t).resolve_left hne
  refine ⟨before, [], hb, blank_nil, ?_⟩
  rw [trimEnd_append_of_blank hr, trimEnd_of_getLast, List.append_nil]
  rw [List.concat_eq_append] at ht ⊢
  rw [← List.append_assoc, List.getLast?_concat]
  have hlast := ht.2
  rwa [List.getLast?_concat] at hlast

end Padded

end Text

/-- A blank is no brace. -/
theorem braceFree_of_blank {s : Text} (h : Text.Blank s) : BraceFree s :=
  .of_not_mem (h.not_mem (by decide)) (h.not_mem (by decide))

/-! ## 2. Written forms -/

/-- Things that are written one after the other, each as `writes` says, with blanks at the end. -/
inductive Listing {α : Type} (writes : α → Text → Prop) : List α → Text → Prop where
  | nil {s : Text} : Text.Blank s → Listing writes [] s
  | cons {x : α} {rest : List α} {s t : Text} :
      writes x s → Listing writes rest t → Listing writes (x :: rest) (s ++ t)

/-- The text writes a declaration: its property and its value, with blanks around both. -/
def WritesDeclaration (d : Text × Text) (s : Text) : Prop :=
  ∃ property value, Text.Padded d.1 property ∧ Text.Padded d.2 value ∧ s = property ++ ':' :: value

/-- The segments write declarations: one each, in their order, and blank ones between them. -/
inductive WritesSegments : List (Text × Text) → List Text → Prop where
  | nil : WritesSegments [] []
  | blank {declarations : List (Text × Text)} {s : Text} {rest : List Text} :
      Text.Blank s → WritesSegments declarations rest → WritesSegments declarations (s :: rest)
  | declaration {d : Text × Text} {declarations : List (Text × Text)} {s : Text}
      {rest : List Text} :
      WritesDeclaration d s → WritesSegments declarations rest →
        WritesSegments (d :: declarations) (s :: rest)

/-- The text writes the declarations of a rule. A blank last segment is what makes a semicolon stand
    behind the last declaration. -/
def WritesBody (declarations : Declarations) (body : Text) : Prop :=
  ∃ parts, WritesSegments declarations.entries parts ∧ body = Text.joinWith [';'] parts

/-- The text writes a rule. -/
def WritesRule (rule : Text × Declarations) (s : Text) : Prop :=
  ∃ selector body, Text.Padded rule.1 selector ∧ WritesBody rule.2 body ∧
    s = selector ++ '{' :: body ++ ['}']

/-- The text writes a media context. -/
def WritesContext (c : Text × Block) (s : Text) : Prop :=
  ∃ header body, Text.Padded c.1 header ∧ Listing WritesRule c.2.entries body ∧
    s = header ++ '{' :: body ++ ['}']

/-! ## 3. Bodies -/

/-- A text of declarations has segments that are read one by one. -/
theorem segments_joinWith {parts : List Text} (hne : parts ≠ []) (h : ∀ p ∈ parts, ';' ∉ p) :
    segments (Text.joinWith [';'] parts) = parts.map Segment.ofText := by
  rw [segments, Text.joinWith, List.splitOn_intercalate ';' h hne]

namespace WritesDeclaration

variable {d : Text × Text} {s : Text} (h : WritesDeclaration d s) (hp : IsProperty d.1)
  (hv : IsValue d.2)
include h hp hv

/-- **A declaration is read as it is written.** -/
theorem ofText_eq : Segment.ofText s = .declaration d.1 d.2 := by
  obtain ⟨property, value, hproperty, hvalue, rfl⟩ := h
  have hcolon : ':' ∉ property := fun hm => hp.no_colon ((hproperty.mem_iff (by decide)).mp hm)
  exact (Segment.ofText_eq_declaration_iff _ _ _).mpr
    ⟨property, value, hcolon, rfl, (hproperty.trim_eq hp.trimmed).symm,
      (hvalue.trim_eq hv.trimmed).symm, hp.ne_nil, hv.ne_nil⟩

theorem no_semicolon : ';' ∉ s := by
  obtain ⟨property, value, hproperty, hvalue, rfl⟩ := h
  have hproperty' : ';' ∉ property := by
    rw [hproperty.mem_iff (by decide)]
    exact hp.no_semicolon
  have hvalue' : ';' ∉ value := by
    rw [hvalue.mem_iff (by decide)]
    exact hv.no_semicolon
  simp [hproperty', hvalue']

theorem braceFree : BraceFree s := by
  obtain ⟨property, value, hproperty, hvalue, rfl⟩ := h
  exact (hproperty.braceFree hp.free).append ((hvalue.braceFree hv.free).cons (by decide))

omit hv in
theorem trimStart : WritesDeclaration d (Text.trimStart s) := by
  obtain ⟨property, value, hproperty, hvalue, rfl⟩ := h
  exact ⟨_, value, hproperty.trimStart hp.trimmed hp.ne_nil, hvalue,
    Text.trimStart_append_cons (by decide) property value⟩

omit hp in
theorem trimEnd : WritesDeclaration d (Text.trimEnd s) := by
  obtain ⟨property, value, hproperty, hvalue, rfl⟩ := h
  exact ⟨property, _, hproperty, hvalue.trimEnd hv.trimmed hv.ne_nil,
    Text.trimEnd_append_cons (by decide) property value⟩

end WritesDeclaration

namespace WritesSegments

variable {declarations : List (Text × Text)} {parts : List Text}

/-- What holds of blank texts and of written declarations holds of all segments. -/
theorem forall_mem {P : Text → Prop} (h : WritesSegments declarations parts)
    (blank : ∀ s, Text.Blank s → P s)
    (written : ∀ d ∈ declarations, ∀ s, WritesDeclaration d s → P s) : ∀ s ∈ parts, P s := by
  induction h with
  | nil => exact fun _ hs => absurd hs List.not_mem_nil
  | blank hb _ ih => exact List.forall_mem_cons.mpr ⟨blank _ hb, ih written⟩
  | declaration hd _ ih =>
    exact List.forall_mem_cons.mpr ⟨written _ List.mem_cons_self _ hd,
      ih fun d hmem => written d (List.mem_cons_of_mem _ hmem)⟩

theorem exists_written (h : WritesSegments declarations parts) (hne : declarations ≠ []) :
    ∃ s ∈ parts, ∃ d, WritesDeclaration d s := by
  induction h with
  | nil => exact absurd rfl hne
  | blank _ _ ih =>
    obtain ⟨s, hs, hd⟩ := ih hne
    exact ⟨s, List.mem_cons_of_mem _ hs, hd⟩
  | declaration hd _ _ => exact ⟨_, List.mem_cons_self, _, hd⟩

/-- The first segment may be trimmed at its start. -/
theorem trimStart {p : Text} {rest : List Text} (h : WritesSegments declarations (p :: rest))
    (hp : ∀ d ∈ declarations, IsProperty d.1) :
    WritesSegments declarations (Text.trimStart p :: rest) := by
  cases h with
  | blank hb hrest =>
    rw [(Text.trimStart_eq_nil_iff p).mpr hb]
    exact .blank Text.blank_nil hrest
  | declaration hd hrest => exact .declaration (hd.trimStart (hp _ List.mem_cons_self)) hrest

/-- The last segment may be trimmed at its end. -/
theorem trimEnd {front : List Text} {p : Text} (h : WritesSegments declarations (front ++ [p]))
    (hv : ∀ d ∈ declarations, IsValue d.2) :
    WritesSegments declarations (front ++ [Text.trimEnd p]) := by
  induction front generalizing declarations with
  | nil =>
    cases h with
    | blank hb hrest =>
      rw [(Text.trimEnd_eq_nil_iff p).mpr hb]
      exact .blank Text.blank_nil hrest
    | declaration hd hrest => exact .declaration (hd.trimEnd (hv _ List.mem_cons_self)) hrest
  | cons q rest ih =>
    cases h with
    | blank hb hrest => exact .blank hb (ih hrest hv)
    | declaration hd hrest =>
      exact .declaration hd (ih hrest fun d hmem => hv d (List.mem_cons_of_mem _ hmem))

/-- **Segments are read as the declarations that they write.** None is malformed. -/
theorem readings (h : WritesSegments declarations parts) (hp : ∀ d ∈ declarations, IsProperty d.1)
    (hv : ∀ d ∈ declarations, IsValue d.2) (context selector : Option Text) :
    (parts.map Segment.ofText).filterMap Segment.declaration? = declarations ∧
      (parts.map Segment.ofText).filterMap (Segment.warning? context selector) = [] := by
  induction h with
  | nil => exact ⟨rfl, rfl⟩
  | @blank declarations s rest hb _ ih =>
    have hread : Segment.ofText s = .blank := by
      rw [Segment.ofText, Text.trim_eq_nil_of_blank hb]
      rfl
    rw [List.map_cons, hread]
    exact ih hp hv
  | @declaration d declarations s rest hd _ ih =>
    have hread := hd.ofText_eq (hp d List.mem_cons_self) (hv d List.mem_cons_self)
    obtain ⟨hdeclared, hwarned⟩ := ih (fun e he => hp e (List.mem_cons_of_mem _ he))
      (fun e he => hv e (List.mem_cons_of_mem _ he))
    rw [List.map_cons, hread]
    exact ⟨congrArg (d :: ·) hdeclared, hwarned⟩

end WritesSegments

namespace WritesBody

variable {declarations : Declarations} {body : Text} (h : WritesBody declarations body)
  (hp : ∀ d ∈ declarations.entries, IsProperty d.1) (hv : ∀ d ∈ declarations.entries, IsValue d.2)
include h hp hv

theorem braceFree : BraceFree body := by
  obtain ⟨parts, hparts, rfl⟩ := h
  refine joinWith_induction .nil (fun s t hs ht => hs.append (ht.cons (by decide))) ?_
  exact hparts.forall_mem (fun _ hb => braceFree_of_blank hb)
    fun d hd _ hwritten => hwritten.braceFree (hp d hd) (hv d hd)

/-- **Trimming a body leaves one that writes the same declarations.** -/
theorem trim : WritesBody declarations (Text.trim body) := by
  obtain ⟨parts, hparts, rfl⟩ := h
  cases parts with
  | nil => exact ⟨[], hparts, rfl⟩
  | cons p rest =>
    have hstart := hparts.trimStart hp
    obtain ⟨front, q, hlast⟩ := (List.eq_nil_or_concat (Text.trimStart p :: rest)).resolve_left
      (List.cons_ne_nil _ _)
    rw [List.concat_eq_append] at hlast
    rw [hlast] at hstart
    refine ⟨front ++ [Text.trimEnd q], hstart.trimEnd hv, ?_⟩
    rw [Text.trim, Text.trimStart_joinWith (by decide), hlast, Text.trimEnd_joinWith (by decide)]

omit hp hv in
/-- A body of declarations is not blank. -/
theorem trim_ne_nil (hne : declarations.entries ≠ []) : Text.trim body ≠ [] := by
  obtain ⟨parts, hparts, rfl⟩ := h
  obtain ⟨s, hs, d, property, value, _, _, rfl⟩ := hparts.exists_written hne
  have hcolon : ':' ∈ Text.joinWith [';'] parts :=
    mem_joinWith hs (List.mem_append_right _ List.mem_cons_self)
  exact List.ne_nil_of_mem ((Text.mem_trim_iff (by decide) _).mpr hcolon)

/-- **A body is read as the declarations that it writes**, without a warning. -/
theorem ofText (hn : declarations.keys.Nodup) (context selector : Option Text) :
    Declarations.ofText body = declarations ∧ declarationWarnings context selector body = [] := by
  obtain ⟨parts, hparts, rfl⟩ := h
  have hsegments : (segments (Text.joinWith [';'] parts)).filterMap Segment.declaration? =
      declarations.entries ∧ (segments (Text.joinWith [';'] parts)).filterMap
        (Segment.warning? context selector) = [] := by
    cases parts with
    | nil =>
      cases declarations with
      | mk entries =>
        cases hparts
        exact ⟨rfl, rfl⟩
    | cons p rest =>
      rw [segments_joinWith (List.cons_ne_nil p rest)]
      · exact hparts.readings hp hv context selector
      · exact hparts.forall_mem (fun _ hb => hb.not_mem (by decide))
          fun d hd _ hwritten => hwritten.no_semicolon (hp d hd) (hv d hd)
  refine ⟨?_, hsegments.2⟩
  rw [Declarations.ofText, hsegments.1]
  exact OrderedMap.ofList_of_nodup hn

end WritesBody

/-! ## 4. Rules -/

/-- A rule that can be written and read back: a tidy one that has declarations. -/
structure CompleteRule (rule : Text × Declarations) : Prop extends TidyRule rule where
  declared : rule.2.entries ≠ []
  distinct : rule.2.keys.Nodup

/-- **A written rule is stored as it is.** There is a group that is its text. -/
theorem WritesRule.exists_group {rule : Text × Declarations} {s : Text} (h : WritesRule rule s)
    (hrule : CompleteRule rule) :
    ∃ g : Group, g.text = s ∧ g.before.isEmpty = false ∧ ∀ context block,
      Block.addRule context block g.text =
        (block.insert rule.1 rule.2,
          if block.contains rule.1 then [.duplicateSelector context rule.1] else []) := by
  obtain ⟨selector, body, hselector, hbody, rfl⟩ := h
  have hselectorFree := hselector.braceFree hrule.selector.free
  have hbodyFree := hbody.braceFree hrule.properties hrule.values
  have htrimmed := hbody.trim hrule.properties hrule.values
  refine ⟨⟨selector, body, hselectorFree, hbodyFree⟩, rfl, ?_, fun context block => ?_⟩
  · have htrim := hselector.trim_eq hrule.selector.trimmed
    cases selector with
    | nil => exact absurd htrim.symm hrule.selector.ne_nil
    | cons c rest => rfl
  · have hread : RawRule.ofText (selector ++ '{' :: body ++ ['}']) =
        .rule rule.1 (Text.trim body) :=
      (RawRule.ofText_group_eq_rule_iff ⟨selector, body, hselectorFree, hbodyFree⟩ _ _).mpr
        ⟨⟨hrule.selector.ne_nil, hbody.trim_ne_nil hrule.declared⟩,
          (hselector.trim_eq hrule.selector.trimmed).symm, rfl⟩
    obtain ⟨hdeclared, hwarned⟩ := htrimmed.ofText hrule.properties hrule.values hrule.distinct
      (some context) (some rule.1)
    rw [Block.addRule, Group.text, hread]
    simp only [hdeclared, hwarned, List.nil_append]

namespace Listing

/-- A single thing. -/
theorem singleton {α : Type} {writes : α → Text → Prop} {x : α} {s : Text} (h : writes x s) :
    Listing writes [x] s :=
  List.append_nil s ▸ .cons h (.nil Text.blank_nil)

/-- Parts with what stands before each, and blanks at the end. -/
theorem of_leads {α : Type} {writes : α → Text → Prop} {f : α → Text} {parts : List (Text × α)}
    (h : ∀ x ∈ parts, writes x.2 (x.1 ++ f x.2)) {trail : Text} (htrail : Text.Blank trail) :
    Listing writes (parts.map Prod.snd) (parts.flatMap (fun x => x.1 ++ f x.2) ++ trail) := by
  induction parts with
  | nil => exact .nil htrail
  | cons x rest ih =>
    rw [List.flatMap_cons, List.append_assoc, List.map_cons]
    exact .cons (h x List.mem_cons_self) (ih fun y hy => h y (List.mem_cons_of_mem _ hy))

/-- Blanks at the end belong to the listing. -/
theorem append_blank {α : Type} {writes : α → Text → Prop} {l : List α} {s b : Text}
    (h : Listing writes l s) (hb : Text.Blank b) : Listing writes l (s ++ b) := by
  induction h with
  | nil hs => exact .nil (hs.append hb)
  | cons hx _ ih =>
    rw [List.append_assoc]
    exact .cons hx ih

section Rules

variable {rules : List (Text × Declarations)} {s : Text} (h : Listing WritesRule rules s)

include h in
/-- **Rules that are written one after the other are a flat body**, and are stored behind those that
    are there. -/
theorem exists_flatBody (hrules : ∀ rule ∈ rules, CompleteRule rule) :
    ∃ f : FlatBody, f.text = s ∧ Text.Blank f.tail ∧ f.rules = f.groups ∧
      ∀ context front, ((front ++ rules).map Prod.fst).Nodup →
        Block.addRules context ⟨front⟩ (f.groups.map Group.text) = (⟨front ++ rules⟩, []) := by
  induction h with
  | nil hs =>
    refine ⟨.ofTail _ (braceFree_of_blank hs), rfl, hs, rfl, fun context front _ => ?_⟩
    rw [List.append_nil]
    rfl
  | @cons rule rest s t hrule hlist ih =>
    obtain ⟨f, htext, htail, hgroups, hlater⟩ := ih fun r hr => hrules r (List.mem_cons_of_mem _ hr)
    obtain ⟨g, hg, hbefore, hadd⟩ := hrule.exists_group (hrules _ List.mem_cons_self)
    refine ⟨.cons g f, ?_, htail, ?_, fun context front hn => ?_⟩
    · rw [FlatBody.text_cons, hg, htext]
    · rw [FlatBody.rules, FlatBody.cons, List.filter_cons_of_pos (by rw [hbefore]; rfl),
        ← FlatBody.rules, hgroups]
    · have hnew : rule.1 ∉ front.map Prod.fst := (OrderedMap.not_mem_of_nodup hn).1
      have hinsert : OrderedMap.insert ⟨front⟩ rule.1 rule.2 = ⟨front ++ [rule]⟩ :=
        OrderedMap.insert_of_not_mem hnew rule.2
      have hcontains : OrderedMap.contains ⟨front⟩ rule.1 = false := by
        rw [Bool.eq_false_iff]
        exact fun hc => hnew ((OrderedMap.contains_iff ⟨front⟩ rule.1).mp hc)
      have hhere : Block.addRule context ⟨front⟩ g.text = (⟨front ++ [rule]⟩, []) := by
        rw [hadd, hinsert, hcontains]
        rfl
      have hrest := hlater context (front ++ [rule]) (by simpa using hn)
      rw [FlatBody.cons, List.map_cons, Block.addRules, walk_cons, hhere]
      simp only
      rw [← Block.addRules, hrest, List.append_assoc]
      rfl

section Read

variable (hrules : ∀ rule ∈ rules, CompleteRule rule) (hn : (rules.map Prod.fst).Nodup)
include h hrules hn

/-- **Written rules are read from the body of a media block.** -/
theorem addRules_innerRules (context : Text) :
    Block.addRules context .empty (innerRules s) = (⟨rules⟩, []) := by
  obtain ⟨f, rfl, _, hgroups, hadd⟩ := h.exists_flatBody hrules
  rw [innerRules_text, hgroups]
  exact hadd context [] hn

/-- **Written rules are read from a base text.** What is behind the last of them is the end of the
    text, which the reader skips. -/
theorem addRules_baseRules (context : Text) :
    Block.addRules context .empty (baseRules s) = (⟨rules⟩, []) := by
  obtain ⟨f, rfl, htail, _, hadd⟩ := h.exists_flatBody hrules
  have hgroups : walk (Block.addRule context) .empty (f.groups.map Group.text) = (⟨rules⟩, []) :=
    hadd context [] hn
  have hend : Block.addRule context ⟨rules⟩ (f.tail ++ ['}']) = (⟨rules⟩, []) := by
    rw [Block.addRule, RawRule.ofText_tail f.tail_free, if_pos htail]
  rw [baseRules_text, Block.addRules, walk_append, hgroups, walk_cons, hend]
  rfl

end Read

include h in
/-- **`@media` stands in written rules only if it stands in a part of them.** -/
theorem mediaFree (hfree : ∀ rule ∈ rules, MediaFreeRule rule) : MediaFree s := by
  induction h with
  | nil hs => simpa using MediaFree.append_of_blank hs .nil
  | @cons rule rest s t hrule _ ih =>
    obtain ⟨selector, body, hselector, ⟨parts, hparts, rfl⟩, rfl⟩ := hrule
    have hrest := ih fun r hr => hfree r (List.mem_cons_of_mem _ hr)
    have hrule := hfree rule List.mem_cons_self
    have hbody : MediaFree (Text.joinWith [';'] parts) := by
      refine joinWith_induction .nil (fun s t hs ht => hs.append_cons (by decide) ht) ?_
      refine hparts.forall_mem (fun s hb => ?_) fun d hd s hwritten => ?_
      · simpa using MediaFree.append_of_blank hb .nil
      · obtain ⟨property, value, hproperty, hvalue, rfl⟩ := hwritten
        exact (hproperty.mediaFree (hrule.properties d hd)).append_cons (by decide)
          (hvalue.mediaFree (hrule.values d hd))
    have hinside := hbody.append_cons (c := '}') (by decide) hrest
    have htext := (hselector.mediaFree hrule.selector).append_cons (c := '{') (by decide) hinside
    simpa using htext

end Rules

end Listing

end MediaCascade
