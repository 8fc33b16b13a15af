import MediaCascade.Proofs.Source.Composition
import MediaCascade.Proofs.Stylesheet.Regions

/-!
# Two texts with a separator between them

A base text is cut at `}` into rules, a body is cut at `;` into declarations. Two texts with the
separator between them therefore read as the first updated by the second, whatever they are: what is
cut at the separator is the same on both sides, also where the first text ends within a rule, since a
brace is put behind its last piece in any case.

* `Block.isUpdate_ofRules`, `Declarations.isUpdate_ofText`: the two levels.
* `Stylesheet.read_separated`: both, for every text that is read.
-/

namespace MediaCascade

/-- `whole` is `first` updated by `second` from left to right: a key that both have keeps its place and
    takes the later value, and the keys that are new stand behind the others. -/
structure OrderedMap.IsUpdate {κ α : Type} [DecidableEq κ] (first second whole : OrderedMap κ α) :
    Prop where
  update : whole = first.update second
  keys : whole.keys = (first.keys ++ second.keys).eraseDups
  values : ∀ k, whole.get? k = (second.get? k).or (first.get? k)

/-- **Pairs in two parts**: the map of all is that of the first part, updated by that of the second. -/
theorem OrderedMap.isUpdate_ofList {κ α : Type} [DecidableEq κ] (front back : List (κ × α)) :
    IsUpdate (ofList front) (ofList back) (ofList (front ++ back)) := by
  have hwhole : ofList (front ++ back) = (ofList front).update (ofList back) := by
    rw [update_ofList]
    exact List.foldl_append
  refine ⟨hwhole, ?_, fun k => ?_⟩
  · rw [hwhole, keys_update (nodup_keys_ofList front)]
  · rw [hwhole, get?_update _ (nodup_keys_ofList back)]

/-- The raw rules of two texts with a closing brace between them. -/
theorem baseRules_append (first second : Text) :
    baseRules (first ++ '}' :: second) = baseRules first ++ baseRules second := by
  rw [baseRules, List.splitOn_append_cons_self, List.map_append]
  rfl

/-- **Raw rules in two parts.** -/
theorem Block.isUpdate_ofRules (front back : List Text) :
    OrderedMap.IsUpdate (ofRules front) (ofRules back) (ofRules (front ++ back)) := by
  rw [ofRules, ofRules, ofRules, List.filterMap_append]
  exact OrderedMap.isUpdate_ofList _ _

/-- **A body in two parts.** -/
theorem Declarations.isUpdate_ofText (first second : Text) :
    OrderedMap.IsUpdate (ofText first) (ofText second) (ofText (first ++ ';' :: second)) := by
  rw [ofText, ofText, ofText, segments_append, List.filterMap_append]
  exact OrderedMap.isUpdate_ofList _ _

namespace Stylesheet

/-- A text is read, and `block` is what its base context holds. -/
def BaseReads (css : Text) (block : Block) : Prop :=
  ∃ sheet warnings, read .beforeMedia css = .ok (sheet, warnings) ∧
    sheet.block? baseKey = some block

/-- A text without `@media` is read as a base text. -/
theorem baseReads_of_mediaFree {css : Text} (hcss : MediaFree css) :
    BaseReads css (Block.ofRules (baseRules css)) := by
  refine ⟨(ofText css).1, (ofText css).2, rfl, ?_⟩
  rw [block?_baseKey_ofText, Source.ofText_of_mediaFree hcss]

/-- **Separators can be read over.** Of two texts without `@media`, with a closing brace between them,
    the base context is that of the first text updated by that of the second, even if the first
    ends within a rule. Of any two bodies with a semicolon between them, the declarations are those
    of the first updated by those of the second, and the warnings are those of the first and then
    those of the second. -/
theorem read_separated :
    (∀ first second, MediaFree first → MediaFree second →
      ∃ base base' whole, BaseReads first base ∧ BaseReads second base' ∧
        BaseReads (first ++ '}' :: second) whole ∧ OrderedMap.IsUpdate base base' whole) ∧
    (∀ first second : Text,
      OrderedMap.IsUpdate (Declarations.ofText first) (Declarations.ofText second)
        (Declarations.ofText (first ++ ';' :: second)) ∧
      ∀ context selector, declarationWarnings context selector (first ++ ';' :: second) =
        declarationWarnings context selector first ++
          declarationWarnings context selector second) := by
  constructor
  · intro first second hfirst hsecond
    have hclosing : '}' ∉ mediaKeyword := by decide
    refine ⟨_, _, _, baseReads_of_mediaFree hfirst, baseReads_of_mediaFree hsecond,
      baseReads_of_mediaFree (hfirst.append_cons hclosing hsecond), ?_⟩
    rw [baseRules_append]
    exact Block.isUpdate_ofRules _ _
  · intro first second
    exact ⟨Declarations.isUpdate_ofText first second,
      fun context selector => declarationWarnings_append context selector first second⟩

/-- A text that ends within the rule `q{c:d`. -/
def unfinished : Text := ['p', '{', 'a', ':', 'b', '}', 'q', '{', 'c', ':', 'd']

/-- A text that begins with rules for `q` and `p` once more, and ends within a rule as well. -/
def continued : Text :=
  ['q', '{', 'e', ':', 'f', '}', 'p', '{', 'g', '}', 'r', '{', 'h', ':', 'i']

theorem read_separated_unfinished :
    MediaFree unfinished ∧ MediaFree continued ∧
      ∃ base base' whole, BaseReads unfinished base ∧ BaseReads continued base' ∧
        BaseReads (unfinished ++ '}' :: continued) whole ∧
        OrderedMap.IsUpdate base base' whole := by
  have hfirst : MediaFree unfinished := by decide
  have hsecond : MediaFree continued := by decide
  exact ⟨hfirst, hsecond, read_separated.1 unfinished continued hfirst hsecond⟩

end Stylesheet

end MediaCascade
