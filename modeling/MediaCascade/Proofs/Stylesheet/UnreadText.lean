import MediaCascade.Proofs.Source.Blocks
import MediaCascade.Proofs.Text.Trimming
import MediaCascade.Stylesheet.Reading

/-!
# Text in a media block that nobody reads

Of a flat body `p₁{d₁}…pₙ{dₙ}t` the reader is handed the groups with something before their brace
(`FlatBody.rules`). A group with nothing before it, and the tail, leave no trace:

* `Stylesheet.ofSource_setBody`: two bodies with the same rules give the same style sheet AND the
  same warnings, whatever else stands in them.
* `Stylesheet.accounted_iff`: every text of a block is handed to the reader or makes a difference
  to the warnings if and only if no group without a selector holds text and the tail is blank.

The base text has no such places: a group without a selector and a tail are raw rules there
(`baseRules_text`), and each is reported unless it is blank.
-/

namespace MediaCascade

/-- The source with another body in its media block number `i`. -/
def Source.setBody (source : Source) (i : Nat) (body : Text) : Source :=
  { source with
    sections := source.sections.modify i fun part => (part.1, { part.2 with body := body }) }

/-! ## 1. A block is read through its header and its rules -/

/-- What the reader takes from a media block: the name of its context, and its raw rules. -/
def MediaBlock.reading (b : MediaBlock) : Text × List Text := (b.context, innerRules b.body)

theorem Stylesheet.addMediaBlock_congr (s : Stylesheet) {b b' : MediaBlock}
    (h : b.reading = b'.reading) : s.addMediaBlock b = s.addMediaBlock b' := by
  obtain ⟨hcontext, hrules⟩ := Prod.mk.inj h
  rw [addMediaBlock, addMediaBlock, hcontext, hrules]

namespace Source

variable {source : Source} {i : Nat} {b : MediaBlock}

theorem gaps_setBody (source : Source) (i : Nat) (body : Text) :
    (source.setBody i body).gaps = source.gaps := by
  have hfst : (source.setBody i body).sections.map Prod.fst = source.sections.map Prod.fst := by
    apply List.ext_getElem?
    intro j
    simp only [setBody, List.getElem?_map, List.getElem?_modify]
    split <;> cases source.sections[j]? <;> rfl
  rw [gaps, gaps, hfst]
  rfl

theorem map_reading_setBody (hb : source.blocks[i]? = some b) {body : Text}
    (h : innerRules body = innerRules b.body) :
    (source.setBody i body).blocks.map MediaBlock.reading =
      source.blocks.map MediaBlock.reading := by
  apply List.ext_getElem?
  intro j
  simp only [blocks, setBody, List.getElem?_map, List.getElem?_modify] at hb ⊢
  by_cases hj : i = j
  · subst hj
    cases hp : source.sections[i]? with
    | none => rfl
    | some part =>
      rw [hp] at hb
      have hpart : part.2 = b := Option.some.inj hb
      simp [MediaBlock.reading, MediaBlock.context, hpart, h]
  · simp [hj]

end Source

/-- **What is not handed to the reader does not matter.** -/
theorem Stylesheet.ofSource_setBody {source : Source} {i : Nat} {b : MediaBlock}
    (hb : source.blocks[i]? = some b) {body : Text} (h : innerRules body = innerRules b.body) :
    ofSource (source.setBody i body) = ofSource source := by
  have hwalk := fun s => walk_congr addMediaBlock MediaBlock.reading
    (fun s b b' e => addMediaBlock_congr s e) (Source.map_reading_setBody hb h) s
  have hwarnings : (source.setBody i body).warnings = source.warnings := by
    rw [Source.warnings, Source.warnings, Source.gaps_setBody]
  have hbase : (source.setBody i body).base = source.base := rfl
  rw [ofSource, ofSource, hbase, hwarnings]
  simp only [hwalk]

/-! ## 2. Bodies without one of their pieces -/

namespace FlatBody

/-- The body without its tail. -/
def dropTail (f : FlatBody) : FlatBody := { f with tail := [], tail_free := .nil }

/-- The body with other groups. -/
def withGroups (f : FlatBody) (groups : List Group) : FlatBody := { f with groups := groups }

@[simp] theorem rules_dropTail (f : FlatBody) : f.dropTail.rules = f.rules := rfl

/-- A group with nothing before its brace is no rule. -/
theorem rules_withGroups {f : FlatBody} {front back : List Group} {g : Group}
    (hf : f.groups = front ++ g :: back) (hg : g.before = []) :
    (f.withGroups (front ++ back)).rules = f.rules := by
  simp [rules, withGroups, hf, hg]

/-- A rule has something before its brace. -/
theorem not_mem_rules_text {f : FlatBody} {g : Group} (hg : g.before = []) :
    g.text ∉ f.rules.map Group.text := by
  intro h
  obtain ⟨r, hr, he⟩ := List.mem_map.mp h
  have hne : r.before ≠ [] := by
    have := (List.mem_filter.mp hr).2
    simpa using this
  obtain ⟨c, rest, hc⟩ := List.exists_cons_of_ne_nil hne
  have hfree : isBraceFree c = true := r.before_free c (by rw [hc]; exact List.mem_cons_self)
  rw [Group.text, Group.text, hg, hc] at he
  have hbrace : c = '{' := (List.cons.inj he).1
  rw [hbrace] at hfree
  cases hfree

end FlatBody

/-! ## 3. Which texts are accounted for -/

namespace Stylesheet

/-- The warnings of a source with another body in its media block number `i`. -/
def warningsWith (css : Text) (i : Nat) (f : FlatBody) : List Warning :=
  (ofSource ((Source.ofText css).setBody i f.text)).2

/-- A group of a media block is accounted for if it is handed to the reader, or if the warnings
    would be others without it. -/
def GroupAccounted (css : Text) (i : Nat) (f : FlatBody) (front : List Group) (g : Group)
    (back : List Group) : Prop :=
  g.text ∈ innerRules f.text ∨ warningsWith css i (f.withGroups (front ++ back)) ≠ (ofText css).2

/-- The tail of a media block is never handed to the reader. It is accounted for if the warnings
    would be others without it. -/
def TailAccounted (css : Text) (i : Nat) (f : FlatBody) : Prop :=
  warningsWith css i f.dropTail ≠ (ofText css).2

section Block

variable {css : Text} {i : Nat} {b : MediaBlock} {f : FlatBody}

theorem ofSource_setBody_flat (hb : (Source.ofText css).blocks[i]? = some b) (hf : f.text = b.body)
    {f' : FlatBody} (h : f'.rules = f.rules) :
    ofSource ((Source.ofText css).setBody i f'.text) = ofText css := by
  apply ofSource_setBody hb
  rw [← hf, innerRules_text, innerRules_text, h]

theorem groupAccounted_iff (hb : (Source.ofText css).blocks[i]? = some b) (hf : f.text = b.body)
    {front back : List Group} {g : Group} (hg : f.groups = front ++ g :: back) :
    GroupAccounted css i f front g back ↔ g.before ≠ [] := by
  constructor
  · rintro (h | h) hnil
    · rw [innerRules_text] at h
      exact FlatBody.not_mem_rules_text hnil h
    · have hrules := FlatBody.rules_withGroups hg hnil
      exact h (congrArg Prod.snd (ofSource_setBody_flat hb hf hrules))
  · intro hne
    left
    rw [innerRules_text]
    refine List.mem_map_of_mem (List.mem_filter.mpr ⟨?_, by simpa using hne⟩)
    rw [hg]
    exact List.mem_append_right _ List.mem_cons_self

theorem not_tailAccounted (hb : (Source.ofText css).blocks[i]? = some b) (hf : f.text = b.body) :
    ¬ TailAccounted css i f :=
  fun h => h (congrArg Prod.snd (ofSource_setBody_flat hb hf f.rules_dropTail))

end Block

/-- **Every text of a media block is handed to the reader or surfaces as a warning exactly if no
    group without a selector holds text and the tail is blank.** The shape of the body is the only
    one it has; and a style sheet with other text in the places that are not read, in this block, is
    read in the same way, warnings included. -/
theorem accounted_iff (css : Text) (i : Nat) (b : MediaBlock)
    (hb : (Source.ofText css).blocks[i]? = some b) :
    ∃ f : FlatBody, f.text = b.body ∧ (∀ f' : FlatBody, f'.text = b.body → f' = f) ∧
      (∀ f' : FlatBody, f'.rules = f.rules →
        ofSource ((Source.ofText css).setBody i f'.text) = ofText css) ∧
      (((∀ front g back, f.groups = front ++ g :: back →
            ¬ (Text.Blank g.before ∧ Text.Blank g.inside) → GroupAccounted css i f front g back) ∧
          (¬ Text.Blank f.tail → TailAccounted css i f)) ↔
        (∀ g ∈ f.groups, g.before = [] → Text.Blank g.inside) ∧ Text.Blank f.tail) := by
  obtain ⟨f, hf⟩ := (Source.wellFormed_of_mem_blocks (List.mem_of_getElem? hb)).body
  refine ⟨f, hf, fun f' hf' => FlatBody.text_injective (hf'.trans hf.symm),
    fun f' h => ofSource_setBody_flat hb hf h, ?_⟩
  constructor
  · rintro ⟨hgroups, htail⟩
    refine ⟨fun g hg hnil => ?_, ?_⟩
    · refine Classical.byContradiction fun hblank => ?_
      obtain ⟨front, back, hsplit⟩ := List.append_of_mem hg
      have haccounted := hgroups front g back hsplit fun h => hblank h.2
      exact (groupAccounted_iff hb hf hsplit).mp haccounted hnil
    · exact Classical.byContradiction fun hblank => not_tailAccounted hb hf (htail hblank)
  · rintro ⟨hgroups, htail⟩
    refine ⟨fun front g back hsplit hblank => ?_, fun hblank => absurd htail hblank⟩
    refine (groupAccounted_iff hb hf hsplit).mpr fun hnil => hblank ⟨?_, hgroups g ?_ hnil⟩
    · rw [hnil]
      exact Text.blank_nil
    · rw [hsplit]
      exact List.mem_append_right _ List.mem_cons_self

/-- A body with a group without a selector, a rule, and text behind it. -/
def strayBody : FlatBody where
  groups := [⟨[], ['a', ':', 'b'], by decide, by decide⟩,
    ⟨['s'], ['c', ':', 'd'], by decide, by decide⟩]
  tail := ['t']
  tail_free := by decide

/-- A block with this body. -/
def strayBlock : MediaBlock := ⟨mediaKeyword ++ ['x'], strayBody.text⟩

/-- In a text that is this block, some text is not accounted for. -/
theorem accounted_iff_stray :
    (Source.ofText strayBlock.text).blocks[0]? = some strayBlock ∧
      ¬ ((∀ front g back, strayBody.groups = front ++ g :: back →
            ¬ (Text.Blank g.before ∧ Text.Blank g.inside) →
            GroupAccounted strayBlock.text 0 strayBody front g back) ∧
          (¬ Text.Blank strayBody.tail → TailAccounted strayBlock.text 0 strayBody)) := by
  have hwellFormed : strayBlock.WellFormed := ⟨⟨['x'], by decide, by decide, rfl⟩, strayBody, rfl⟩
  have hb : (Source.ofText strayBlock.text).blocks[0]? = some strayBlock := by
    rw [Source.ofText_text hwellFormed]
    rfl
  obtain ⟨f, _, hunique, _, hiff⟩ := accounted_iff strayBlock.text 0 strayBlock hb
  have hf : strayBody = f := hunique strayBody rfl
  subst hf
  refine ⟨hb, fun h => ?_⟩
  have htail := (hiff.mp h).2
  exact absurd htail (by decide)

end Stylesheet

end MediaCascade
