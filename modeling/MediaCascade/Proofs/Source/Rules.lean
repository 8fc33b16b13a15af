import MediaCascade.Proofs.Source.FlatBody
import MediaCascade.Proofs.Text.Trimming

/-!
# How a raw rule and a declaration read

* `RawRule.ofText_group`: a group reads as the rule of its two trimmed parts, or as incomplete if
  one of them is blank. It is never residue, and never refused as not flat.
* `RawRule.exists_group_of_rule`: of the pieces that end with a closing brace, only groups read as
  rules. Both ways of cutting a source into rules therefore store what `RawRule.ofText_group` says.
* `baseRules_text`: of a flat base text, the raw rules are its groups and then its tail.
* `Segment.ofText_eq_declaration_iff`: a segment is a declaration if and only if its first colon has
  something that is not blank on both sides.
-/

namespace MediaCascade

/-! ## 1. Cutting at a separator -/

/-- A piece of a list that is cut at a separator is a part of the list without the separator. -/
theorem of_mem_splitOn {α : Type} [DecidableEq α] {sep : α} {s piece : List α}
    (h : piece ∈ s.splitOn sep) : sep ∉ piece ∧ piece <:+: s := by
  induction hn : s.length using Nat.strongRecOn generalizing s with
  | ind n ih =>
    by_cases hs : sep ∈ s
    · obtain ⟨x, y, rfl, hx⟩ := List.eq_append_cons_of_mem hs
      rw [List.splitOn_append_cons_self_of_not_mem hx] at h
      rcases List.mem_cons.mp h with rfl | h
      · exact ⟨hx, (List.prefix_append _ _).isInfix⟩
      · have hlt : y.length < n := by rw [← hn]; simp; omega
        obtain ⟨hfree, hin⟩ := ih y.length hlt h rfl
        exact ⟨hfree, hin.trans ((List.suffix_cons _ _).trans (List.suffix_append _ _)).isInfix⟩
    · rw [List.splitOn_eq_singleton hs] at h
      rcases List.mem_singleton.mp h with rfl
      exact ⟨hs, List.infix_rfl⟩

/-- Two pieces are what stands before and behind the one separator. -/
theorem eq_append_cons_of_splitOn_eq_pair {α : Type} [DecidableEq α] {sep : α} {s x y : List α}
    (h : s.splitOn sep = [x, y]) : s = x ++ sep :: y ∧ sep ∉ x ∧ sep ∉ y := by
  have hs : [sep].intercalate (s.splitOn sep) = s := List.intercalate_splitOn sep
  rw [h, List.intercalate_cons_cons, List.intercalate_singleton] at hs
  refine ⟨by rw [← hs]; simp, ?_, ?_⟩
  · exact (of_mem_splitOn (s := s) (by rw [h]; exact List.mem_cons_self)).1
  · exact (of_mem_splitOn (s := s) (by rw [h]; simp)).1

/-! ## 2. Groups as raw rules -/

theorem dropClosingBrace_append (s : Text) : dropClosingBrace (s ++ ['}']) = s := by
  rw [dropClosingBrace, List.getLast?_concat, if_pos rfl, List.dropLast_concat]

namespace RawRule

/-- **A text with one opening brace reads as the rule of its two sides**, or as incomplete if one of
    them is blank. A closing brace at the end does not count for the second. -/
theorem ofText_split {x y : Text} (hx : '{' ∉ x) (hy : '{' ∉ y) :
    ofText (x ++ '{' :: y) =
      if (Text.trim x).isEmpty || (Text.trim (dropClosingBrace (Text.trim y))).isEmpty then
        .incomplete (Text.trim x) (Text.trim (x ++ '{' :: y))
      else .rule (Text.trim x) (Text.trim (dropClosingBrace (Text.trim y))) := by
  have hbrace : '{' ∈ Text.trim (x ++ '{' :: y) := (Text.mem_trim_iff (by decide) _).mpr (by simp)
  have hfragment : ¬ (Text.trim (x ++ '{' :: y) = [] ∨ Text.trim (x ++ '{' :: y) = ['}']) := by
    rintro (h | h) <;> rw [h] at hbrace <;> simp at hbrace
  have hsplit : (x ++ '{' :: y).splitOn '{' = [x, y] := by
    rw [List.splitOn_append_cons_self_of_not_mem hx, List.splitOn_eq_singleton hy]
  rw [ofText, if_neg hfragment, hsplit]

/-- A text that reads as a rule has one opening brace. -/
theorem exists_split_of_rule {raw selector body : Text} (h : ofText raw = .rule selector body) :
    ∃ x y, raw = x ++ '{' :: y ∧ '{' ∉ x ∧ '{' ∉ y := by
  rw [ofText] at h
  split at h
  · cases h
  · split at h
    · next x y hsplit => exact ⟨x, y, eq_append_cons_of_splitOn_eq_pair hsplit⟩
    · cases h

/-- **A group reads as the rule of its two trimmed parts**, or as incomplete if one is blank. -/
theorem ofText_group (g : Group) :
    ofText g.text =
      if (Text.trim g.before).isEmpty || (Text.trim g.inside).isEmpty then
        .incomplete (Text.trim g.before) (Text.trim g.text)
      else .rule (Text.trim g.before) (Text.trim g.inside) := by
  have hinside : '{' ∉ g.inside ++ ['}'] := by
    simpa using g.inside_free.opening_not_mem
  have htext : g.text = g.before ++ '{' :: (g.inside ++ ['}']) := by simp [Group.text]
  have hbody : dropClosingBrace (Text.trim (g.inside ++ ['}'])) = Text.trimStart g.inside := by
    rw [Text.trim_append_singleton (by decide), dropClosingBrace_append]
  rw [htext, ofText_split g.before_free.opening_not_mem hinside, hbody, Text.trim_trimStart]

/-- A group reads as a rule if and only if neither part is blank. -/
theorem ofText_group_eq_rule_iff (g : Group) (selector body : Text) :
    ofText g.text = .rule selector body ↔
      (selector ≠ [] ∧ body ≠ []) ∧ selector = Text.trim g.before ∧ body = Text.trim g.inside := by
  rw [ofText_group]
  constructor
  · intro h
    split at h
    · cases h
    · next hne =>
      cases h
      simpa using hne
  · rintro ⟨⟨hs, hb⟩, rfl, rfl⟩
    rw [if_neg (by simp [hs, hb])]

/-- What stands behind the last group reads as residue if it is blank, and is refused otherwise. -/
theorem ofText_tail {t : Text} (ht : BraceFree t) :
    ofText (t ++ ['}']) =
      if Text.Blank t then .residue else .notFlat (Text.trim (t ++ ['}'])) := by
  have htrim : Text.trim (t ++ ['}']) = Text.trimStart t ++ ['}'] :=
    Text.trim_append_singleton (by decide) t
  have hopen : '{' ∉ t ++ ['}'] := by simpa using ht.opening_not_mem
  rw [ofText, htrim, List.splitOn_eq_singleton hopen]
  by_cases hb : Text.Blank t
  · rw [if_pos hb, (Text.trimStart_eq_nil_iff t).mpr hb]
    rfl
  · have hne : Text.trimStart t ≠ [] := fun h => hb ((Text.trimStart_eq_nil_iff t).mp h)
    have hfragment : ¬ (Text.trimStart t ++ ['}'] = [] ∨ Text.trimStart t ++ ['}'] = ['}']) := by
      simp [hne]
    rw [if_neg hb, if_neg hfragment]

/-- **Of the pieces that end with their only closing brace, only groups read as rules.** -/
theorem exists_group_of_rule {piece selector body : Text} (hp : '}' ∉ piece)
    (h : ofText (piece ++ ['}']) = .rule selector body) : ∃ g : Group, g.text = piece ++ ['}'] := by
  obtain ⟨before, behind, heq, hbefore, hbehind⟩ := exists_split_of_rule h
  rcases List.eq_nil_or_concat behind with rfl | ⟨inside, c, rfl⟩
  · -- the last character would be the opening brace
    have hlast := congrArg List.getLast? heq
    rw [List.getLast?_concat, List.getLast?_concat] at hlast
    cases hlast
  · rw [List.concat_eq_append] at heq hbehind
    rw [← List.cons_append, ← List.append_assoc] at heq
    obtain ⟨rfl, hc⟩ := List.append_inj' heq rfl
    have hbc : '}' ∉ before := fun hm => hp (List.mem_append_left _ hm)
    have hic : '}' ∉ inside := fun hm => hp (by simp [hm])
    have hio : '{' ∉ inside := fun hm => hbehind (List.mem_append_left _ hm)
    exact ⟨⟨before, inside, .of_not_mem hbefore hbc, .of_not_mem hio hic⟩, by simp [Group.text]⟩

/-- What a raw rule stores is read from it as a rule. -/
theorem exists_of_binding? {raw : RawRule} {rule : Text × Declarations}
    (h : raw.binding? = some rule) : ∃ body, raw = .rule rule.1 body ∧ rule.2 = .ofText body := by
  cases raw with
  | residue => cases h
  | notFlat fragment => cases h
  | incomplete selector fragment => cases h
  | rule selector body => cases h; exact ⟨body, rfl, rfl⟩

end RawRule

/-- **The raw rules of a flat base text are its groups and its tail.** -/
theorem baseRules_text (f : FlatBody) :
    baseRules f.text = f.groups.map Group.text ++ [f.tail ++ ['}']] := by
  induction f using FlatBody.induction_on with
  | nil t ht =>
    rw [baseRules, FlatBody.text_ofTail, List.splitOn_eq_singleton ht.closing_not_mem]
    rfl
  | cons g f ih =>
    have hfree : '}' ∉ g.before ++ '{' :: g.inside := by
      simpa using ⟨g.before_free.closing_not_mem, g.inside_free.closing_not_mem⟩
    have htext : g.text ++ f.text = (g.before ++ '{' :: g.inside) ++ '}' :: f.text := by
      simp [Group.text]
    rw [baseRules, FlatBody.text_cons, htext, List.splitOn_append_cons_self_of_not_mem hfree,
      List.map_cons, ← baseRules, ih]
    simp [FlatBody.cons, Group.text]

/-! ## 3. Segments -/

namespace Segment

/-- Dropping up to the first colon. -/
theorem dropWhile_colon {x : Text} (hx : ':' ∉ x) (y : Text) :
    (x ++ ':' :: y).dropWhile (fun c => !decide (c = ':')) = ':' :: y := by
  rw [List.dropWhile_append_of_pos, List.dropWhile_cons_of_neg (by simp)]
  intro c hc
  have hne : c ≠ ':' := fun e => hx (e ▸ hc)
  simpa using hne

theorem takeWhile_colon {x : Text} (hx : ':' ∉ x) (y : Text) :
    (x ++ ':' :: y).takeWhile (fun c => !decide (c = ':')) = x := by
  rw [List.takeWhile_append_of_pos, List.takeWhile_cons_of_neg (by simp), List.append_nil]
  intro c hc
  have hne : c ≠ ':' := fun e => hx (e ▸ hc)
  simpa using hne

/-- A segment with a colon is the declaration of what stands before and behind the first one, or
    malformed if one of these is blank. -/
theorem ofText_colon {x : Text} (hx : ':' ∉ x) (y : Text) :
    ofText (x ++ ':' :: y) =
      if (Text.trim x).isEmpty || (Text.trim y).isEmpty then .malformed (x ++ ':' :: y)
      else .declaration (Text.trim x) (Text.trim y) := by
  have hcolon : ':' ∈ Text.trim (x ++ ':' :: y) := (Text.mem_trim_iff (by decide) _).mpr (by simp)
  have hne : ¬ (Text.trim (x ++ ':' :: y)).isEmpty = true := by
    intro h
    rw [List.isEmpty_iff.mp h] at hcolon
    cases hcolon
  rw [ofText, if_neg hne, dropWhile_colon hx, takeWhile_colon hx]

/-- A segment without a colon is no declaration. -/
theorem ofText_of_not_mem {s : Text} (hs : ':' ∉ s) (property value : Text) :
    ofText s ≠ .declaration property value := by
  have hdrop : s.dropWhile (fun c => !decide (c = ':')) = [] := by
    refine dropWhile_eq_nil_of_forall fun c hc => ?_
    have hne : c ≠ ':' := fun e => hs (e ▸ hc)
    simpa using hne
  rw [ofText, hdrop]
  split <;> simp

/-- What a segment stores is read from it as a declaration. -/
theorem eq_of_declaration? {segment : Segment} {d : Text × Text}
    (h : segment.declaration? = some d) : segment = .declaration d.1 d.2 := by
  cases segment with
  | blank => cases h
  | malformed text => cases h
  | declaration property value => cases h; rfl

/-- **A segment is a declaration if and only if its first colon has something that is not blank on
    both sides.** -/
theorem ofText_eq_declaration_iff (s property value : Text) :
    ofText s = .declaration property value ↔
      ∃ x y, ':' ∉ x ∧ s = x ++ ':' :: y ∧ property = Text.trim x ∧ value = Text.trim y ∧
        property ≠ [] ∧ value ≠ [] := by
  constructor
  · intro h
    by_cases hs : ':' ∈ s
    · obtain ⟨x, y, rfl, hx⟩ := List.eq_append_cons_of_mem hs
      rw [ofText_colon hx] at h
      split at h
      · cases h
      · next hne =>
        cases h
        refine ⟨x, y, hx, rfl, rfl, rfl, ?_⟩
        simpa using hne
    · exact absurd h (ofText_of_not_mem hs property value)
  · rintro ⟨x, y, hx, rfl, rfl, rfl, hp, hv⟩
    rw [ofText_colon hx, if_neg (by simp [hp, hv])]

end Segment

end MediaCascade
