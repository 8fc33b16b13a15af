import MediaCascade.Proofs.Source.MediaPattern

/-!
# What the searches of a text find

A source text is searched for the media pattern, and the body of a block for the pattern of a rule.
The library has a reader for each, with no pattern in it.

* `Source.search_mediaPattern`: the search for the media pattern finds the blocks that the source is
  cut into, one behind the other.
* `search_rulePattern`: the search for the rule pattern finds the rules that are cut out of a body.
-/

namespace MediaCascade

variable (preference : Preference)

/-! ## 1. Blocks -/

/-- The search for the media pattern goes on behind the first block. -/
theorem search_mediaPattern_eq (s : Text) :
    (mediaPattern preference).search s =
      match firstMediaBlock? s with
      | none => []
      | some (_, b, rest) => b.way rest :: (mediaPattern preference).search rest := by
  induction s with
  | nil => rfl
  | cons c r ih =>
    have hways := ways_mediaPattern preference (c :: r)
    cases hread : mediaBlock? (c :: r) with
    | none =>
      rw [hread] at hways
      rw [Pattern.search_cons_of_nil hways, ih, firstMediaBlock?, hread]
      cases firstMediaBlock? r <;> rfl
    | some read =>
      obtain ⟨b, rest⟩ := read
      have hs : b.text ++ rest = c :: r := MediaBlock.text_append hread
      have hne : b.text ≠ [] := by simp [MediaBlock.text]
      rw [hread, ← hs] at hways
      rw [firstMediaBlock?, hread, ← hs]
      exact Pattern.search_append_of_cons hne hways rfl

/-- **The blocks of a text are what the search for the media pattern finds.** -/
theorem Source.search_mediaPattern (s : Text) :
    ((mediaPattern preference).search s).map Way.picked =
      (cut s).1.map fun part => [part.2.header, part.2.body] := by
  induction hn : s.length using Nat.strongRecOn generalizing s with
  | ind n ih =>
    rw [search_mediaPattern_eq]
    cases h : firstMediaBlock? s with
    | none =>
      rw [cut_of_none h]
      rfl
    | some found =>
      obtain ⟨gap, b, rest⟩ := found
      have hlt := length_lt_of_firstMediaBlock? h
      rw [cut_of_some h, List.map_cons, List.map_cons, ih rest.length (hn ▸ hlt) rest rfl]
      rfl

/-! ## 2. Rules -/

/-- At least one brace-free character, and brace-free text in braces. -/
def rulePattern : Pattern := .seq (.oneOf isBraceFree) (groupPattern preference)

variable {preference}

/-- A rule begins with a brace-free character, and goes on as a group. -/
theorem ways_rulePattern_cons (c : Char) (rest : Text) :
    (rulePattern preference).ways (c :: rest) =
      if isBraceFree c then
        ((groupPattern preference).ways rest).map (Way.followedBy ⟨[c], [], rest⟩)
      else [] := by
  rw [rulePattern, Pattern.ways, Pattern.ways]
  split
  · exact List.flatMap_singleton _ _
  · rfl

theorem search_rulePattern_brace {brace : Char} (hb : isBraceFree brace = false) (rest : Text) :
    (rulePattern preference).search (brace :: rest) = (rulePattern preference).search rest := by
  refine Pattern.search_cons_of_nil ?_
  rw [ways_rulePattern_cons, hb]
  rfl

section BraceFree

variable {t : Text} (ht : BraceFree t)
include ht

/-- Brace-free text is passed over where no group can be read from any place of it. -/
theorem search_rulePattern_append_of_nil {s : Text}
    (h : ∀ u, BraceFree u → (groupPattern preference).ways (u ++ s) = []) :
    (rulePattern preference).search (t ++ s) = (rulePattern preference).search s := by
  refine Pattern.search_append_of_nil fun c rest htail => ?_
  have hfree : BraceFree (c :: rest) := ht.of_infix htail.isInfix
  rw [List.cons_append, ways_rulePattern_cons, if_pos hfree.head, h rest hfree.tail, List.map_nil]

theorem search_rulePattern_of_braceFree : (rulePattern preference).search t = [] := by
  have hgroup : ∀ u, BraceFree u → (groupPattern preference).ways (u ++ []) = [] := by
    intro u hu
    rw [List.append_nil]
    exact ways_groupPattern_of_braceFree hu
  have h := search_rulePattern_append_of_nil ht hgroup
  rwa [List.append_nil] at h

/-- A closing brace that closes no group is passed over. -/
theorem search_rulePattern_closing (r : Text) :
    (rulePattern preference).search (t ++ '}' :: r) = (rulePattern preference).search r := by
  rw [search_rulePattern_append_of_nil ht fun u hu => ways_groupPattern_closing hu r,
    search_rulePattern_brace isBraceFree_closing]

/-- An opening brace is passed over if nothing closes what it opens. -/
theorem search_rulePattern_opening {r : Text} (hr : (closingPattern preference).ways r = []) :
    (rulePattern preference).search (t ++ '{' :: r) = (rulePattern preference).search r := by
  rw [search_rulePattern_append_of_nil ht fun u hu => ways_groupPattern_opening_of_nil hu hr,
    search_rulePattern_brace isBraceFree_opening]

end BraceFree

/-- A group with something before its brace is a rule. -/
theorem ways_rulePattern_text {g : Group} (hg : g.before ≠ []) (s : Text) :
    (rulePattern preference).ways (g.text ++ s) = [⟨g.text, [], s⟩] := by
  obtain ⟨before, inside, hbefore, hinside⟩ := g
  cases before with
  | nil => exact absurd rfl hg
  | cons c rest =>
    have hgroup := @ways_groupPattern_text preference ⟨rest, inside, hbefore.tail, hinside⟩ s
    rw [Group.text_append] at hgroup ⊢
    rw [List.cons_append, ways_rulePattern_cons, if_pos hbefore.head, hgroup]
    rfl

/-- **A group with nothing before its brace is passed over**, and any other one is found. -/
theorem search_rulePattern_group (g : Group) (s : Text) :
    ((rulePattern preference).search (g.text ++ s)).map Way.taken =
      (if g.before.isEmpty then [] else [g.text]) ++
        ((rulePattern preference).search s).map Way.taken := by
  by_cases hg : g.before = []
  · rw [Group.text_append, hg, List.nil_append, search_rulePattern_brace isBraceFree_opening,
      search_rulePattern_closing g.inside_free]
    rfl
  · have hne : g.text ≠ [] := by simp [Group.text]
    rw [Pattern.search_append_of_cons hne (ways_rulePattern_text hg s) rfl,
      if_neg (mt List.isEmpty_iff.mp hg)]
    rfl

variable (preference)

/-- **The rules cut out of a body are what the search for the rule pattern finds**, whether the body
    is flat or not. -/
theorem search_rulePattern (body : Text) :
    ((rulePattern preference).search body).map Way.taken = innerRules body := by
  induction hn : body.length using Nat.strongRecOn generalizing body with
  | ind n ih =>
    rcases braceFree_or_exists_first body with hs | ⟨t, r, ht, rfl⟩ | ⟨t, r, ht, rfl⟩
    · rw [search_rulePattern_of_braceFree hs, innerRules_of_braceFree hs]
      rfl
    · rcases braceFree_or_exists_first r with hr | ⟨u, v, hu, rfl⟩ | ⟨u, v, hu, rfl⟩
      · rw [search_rulePattern_opening ht (ways_closingPattern_of_braceFree hr),
          search_rulePattern_of_braceFree hr, innerRules_opening_of_braceFree ht hr]
        rfl
      · have hlt : (u ++ '{' :: v).length < n := by simp [← hn]; omega
        rw [search_rulePattern_opening ht (ways_closingPattern_opening hu v),
          innerRules_opening_opening ht hu, ih _ hlt _ rfl]
      · obtain ⟨g, hg⟩ : ∃ g : Group, t ++ '{' :: (u ++ '}' :: v) = g.text ++ v :=
          ⟨⟨t, u, ht, hu⟩, (Group.text_append ⟨t, u, ht, hu⟩ v).symm⟩
        have hlt : v.length < n := by rw [← hn, hg]; simp [Group.text]; omega
        rw [hg, search_rulePattern_group, innerRules_group_append, ih _ hlt _ rfl]
    · have hlt : r.length < n := by simp [← hn]; omega
      rw [search_rulePattern_closing ht, innerRules_closing ht, ih _ hlt _ rfl]

end MediaCascade
