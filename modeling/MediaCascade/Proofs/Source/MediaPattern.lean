import MediaCascade.Proofs.Source.BraceDepth
import MediaCascade.Proofs.Text.Pattern

/-!
# Media blocks as matches of a pattern

What a media block looks like can be said by a pattern: the keyword and at least one character that is
no opening brace; an opening brace; groups `{…}` with brace-free text before each; brace-free text;
a closing brace. Its five repetitions overlap, so that a search might have to choose how much each
takes. There is never a choice:

* `ways_groupPattern_text`, `flatMap_bodyEnds`: each repetition takes all that it can, because what
  comes next begins with a brace that the repetition does not take.
* `ways_mediaPattern`: so the pattern has one way to match, or none, and matches as `mediaBlock?`
  reads.
* `mediaPattern_counts_braces`: where it matches, and what, is found by counting braces.
-/

namespace MediaCascade

/-! ## 1. The patterns -/

/-- Whether a character may stand in a header. -/
def isNoOpening (c : Char) : Bool := !decide (c = '{')

section Patterns

variable (preference : Preference)

/-- Brace-free text. -/
def braceFreePattern : Pattern := .repeated preference (.oneOf isBraceFree)

/-- Brace-free text up to a closing brace. -/
def closingPattern : Pattern := .seq (braceFreePattern preference) (.word ['}'])

/-- Brace-free text, and then brace-free text in braces. -/
def groupPattern : Pattern :=
  .seq (braceFreePattern preference) (.seq (.word ['{']) (closingPattern preference))

/-- Groups, and brace-free text behind the last. -/
def bodyPattern : Pattern :=
  .seq (.repeated preference (groupPattern preference)) (braceFreePattern preference)

/-- `@media` and at least one character more, none of them an opening brace. -/
def headerPattern : Pattern :=
  .seq (.word mediaKeyword)
    (.seq (.oneOf isNoOpening) (.repeated preference (.oneOf isNoOpening)))

/-- A header, and a body in braces. Header and body are picked out. -/
def mediaPattern : Pattern :=
  .seq (.pick (headerPattern preference))
    (.seq (.word ['{']) (.seq (.pick (bodyPattern preference)) (.word ['}'])))

end Patterns

/-- The way to match the media pattern that has a block and what is behind it. -/
def MediaBlock.way (b : MediaBlock) (behind : Text) : Way := ⟨b.text, [b.header, b.body], behind⟩

theorem MediaBlock.way_eq_iff {b b' : MediaBlock} {rest rest' : Text} :
    b.way rest = b'.way rest' ↔ b = b' ∧ rest = rest' := by
  constructor
  · intro h
    obtain ⟨_, hpicked, hrest⟩ := Way.mk.inj h
    refine ⟨?_, hrest⟩
    cases b
    cases b'
    simpa using hpicked
  · rintro ⟨rfl, rfl⟩
    rfl

/-! ## 2. Groups -/

section Group

variable {preference : Preference}

/-- No brace-free character is a brace. -/
theorem ways_brace_of_braceFree {brace : Char} (hb : isBraceFree brace = false) (c : Char)
    (rest : Text) (hc : isBraceFree c = true) : (Pattern.word [brace]).ways (c :: rest) = [] := by
  have hne : brace ≠ c := fun e => by rw [e, hc] at hb; cases hb
  rw [Pattern.ways_word_cons, if_neg hne]

/-- Before a pattern that begins with a brace, brace-free text is taken up to the next brace. -/
theorem ways_braceFree_seq {behind : Pattern}
    (hbehind : ∀ c rest, isBraceFree c = true → behind.ways (c :: rest) = [])
    {t : Text} (ht : BraceFree t) {brace : Char} (hb : isBraceFree brace = false) (r : Text) :
    (Pattern.seq (braceFreePattern preference) behind).ways (t ++ brace :: r) =
      (behind.ways (brace :: r)).map (Way.followedBy ⟨t, [], brace :: r⟩) := by
  rw [braceFreePattern, Pattern.ways_seq_repeated hbehind, ht.takeWhile_append hb,
    ht.dropWhile_append hb]

/-- Without a brace, such a pattern does not match. -/
theorem ways_braceFree_seq_of_braceFree {behind : Pattern}
    (hbehind : ∀ c rest, isBraceFree c = true → behind.ways (c :: rest) = [])
    (hnil : behind.ways [] = []) {t : Text} (ht : BraceFree t) :
    (Pattern.seq (braceFreePattern preference) behind).ways t = [] := by
  rw [braceFreePattern, Pattern.ways_seq_repeated hbehind, ht.dropWhile_eq_nil, hnil, List.map_nil]

variable {t : Text} (ht : BraceFree t) (r : Text)
include ht

/-- A closing brace is reached. -/
theorem ways_closingPattern :
    (closingPattern preference).ways (t ++ '}' :: r) = [⟨t ++ ['}'], [], r⟩] := by
  rw [closingPattern, ways_braceFree_seq (ways_brace_of_braceFree isBraceFree_closing) ht
    isBraceFree_closing, Pattern.ways_word_cons, if_pos rfl]
  rfl

/-- An opening brace stands before it. -/
theorem ways_closingPattern_opening :
    (closingPattern preference).ways (t ++ '{' :: r) = [] := by
  rw [closingPattern, ways_braceFree_seq (ways_brace_of_braceFree isBraceFree_closing) ht
    isBraceFree_opening, Pattern.ways_word_cons, if_neg (by decide), List.map_nil]

theorem ways_closingPattern_of_braceFree : (closingPattern preference).ways t = [] :=
  ways_braceFree_seq_of_braceFree (ways_brace_of_braceFree isBraceFree_closing) rfl ht

omit ht in
/-- What opens a group begins with an opening brace. -/
theorem ways_opening_seq (brace : Char) (r : Text) (behind : Pattern) :
    (Pattern.seq (.word ['{']) behind).ways (brace :: r) =
      if '{' = brace then (behind.ways r).map (Way.followedBy ⟨['{'], [], r⟩) else [] := by
  rw [Pattern.ways, Pattern.ways_word_cons]
  split
  · exact List.flatMap_singleton _ _
  · rfl

omit ht in
theorem ways_opening_seq_of_braceFree (behind : Pattern) (c : Char) (rest : Text)
    (hc : isBraceFree c = true) : (Pattern.seq (.word ['{']) behind).ways (c :: rest) = [] := by
  have hne : '{' ≠ c := fun e => by rw [← e, isBraceFree_opening] at hc; cases hc
  rw [ways_opening_seq, if_neg hne]

/-- A group goes on behind its opening brace. -/
theorem ways_groupPattern_opening :
    (groupPattern preference).ways (t ++ '{' :: r) =
      ((closingPattern preference).ways r).map (Way.followedBy ⟨t ++ ['{'], [], r⟩) := by
  rw [groupPattern, ways_braceFree_seq (ways_opening_seq_of_braceFree _) ht isBraceFree_opening,
    ways_opening_seq, if_pos rfl, List.map_map]
  refine List.map_congr_left fun way _ => ?_
  exact (Way.followedBy_assoc _ _ _).symm

/-- No group is opened that is not closed. -/
theorem ways_groupPattern_opening_of_nil {r : Text}
    (hr : (closingPattern preference).ways r = []) :
    (groupPattern preference).ways (t ++ '{' :: r) = [] := by
  rw [ways_groupPattern_opening ht, hr, List.map_nil]

/-- A closing brace closes the body, and no group. -/
theorem ways_groupPattern_closing : (groupPattern preference).ways (t ++ '}' :: r) = [] := by
  rw [groupPattern, ways_braceFree_seq (ways_opening_seq_of_braceFree _) ht isBraceFree_closing,
    ways_opening_seq, if_neg (by decide), List.map_nil]

theorem ways_groupPattern_of_braceFree : (groupPattern preference).ways t = [] :=
  ways_braceFree_seq_of_braceFree (ways_opening_seq_of_braceFree _) rfl ht

omit ht in
/-- **A group is taken in one way.** -/
theorem ways_groupPattern_text (g : Group) (r : Text) :
    (groupPattern preference).ways (g.text ++ r) = [⟨g.text, [], r⟩] := by
  rw [Group.text_append, ways_groupPattern_opening g.before_free, ways_closingPattern g.inside_free]
  simp [Way.followedBy, Group.text]

end Group

/-! ## 3. Bodies -/

section Body

variable {preference : Preference}

/-- The ways to close a body of which `way` is taken: the brace-free text up to the closing brace is
    the last piece of the body. -/
def bodyEnds (way : Way) : List Way :=
  let body := way.taken ++ way.behind.takeWhile isBraceFree
  let rest := way.behind.dropWhile isBraceFree
  ((Pattern.word ['}']).ways rest).map (Way.followedBy ⟨body, body :: way.picked, rest⟩)

section Ends

variable {t : Text} (ht : BraceFree t) {way : Way}
include ht

theorem bodyEnds_closing {r : Text} (h : way.behind = t ++ '}' :: r) :
    bodyEnds way = [⟨way.taken ++ t ++ ['}'], (way.taken ++ t) :: way.picked, r⟩] := by
  rw [bodyEnds, h, ht.takeWhile_append isBraceFree_closing, ht.dropWhile_append isBraceFree_closing,
    Pattern.ways_word_cons, if_pos rfl]
  simp [Way.followedBy]

theorem bodyEnds_opening {r : Text} (h : way.behind = t ++ '{' :: r) : bodyEnds way = [] := by
  rw [bodyEnds, h, ht.dropWhile_append isBraceFree_opening, Pattern.ways_word_cons,
    if_neg (by decide)]
  rfl

theorem bodyEnds_of_braceFree (h : way.behind = t) : bodyEnds way = [] := by
  rw [bodyEnds, h, ht.dropWhile_eq_nil]
  rfl

end Ends

/-- A body is its groups, and then its end. -/
theorem ways_body_eq (s : Text) :
    (Pattern.seq (.pick (bodyPattern preference)) (.word ['}'])).ways s =
      ((Pattern.repeated preference (groupPattern preference)).ways s).flatMap bodyEnds := by
  rw [Pattern.ways_seq, Pattern.flatMap_ways_pick, bodyPattern, Pattern.flatMap_ways_seq]
  congr 1
  funext way
  refine (Pattern.flatMap_ways_repeated_oneOf _ _
    (fun tail c rest htail hc => ?_) way.behind).trans ?_
  · have hbehind : (way.followedBy tail).pickAll.behind = c :: rest := htail
    rw [hbehind, ways_brace_of_braceFree isBraceFree_closing c rest hc, List.map_nil]
  · have hbody : (way.followedBy ⟨way.behind.takeWhile isBraceFree, [],
        way.behind.dropWhile isBraceFree⟩).pickAll =
        ⟨way.taken ++ way.behind.takeWhile isBraceFree,
          (way.taken ++ way.behind.takeWhile isBraceFree) :: way.picked,
          way.behind.dropWhile isBraceFree⟩ := by
      simp [Way.followedBy, Way.pickAll]
    rw [hbody, bodyEnds]

/-- Where no group is in front, the end has to come at once. -/
theorem flatMap_bodyEnds_of_nil {s : Text} (h : (groupPattern preference).ways s = [])
    (way : Way) :
    ((Pattern.repeated preference (groupPattern preference)).ways s).flatMap
        (fun later => bodyEnds (way.followedBy later)) = bodyEnds (way.followedBy (.stay s)) := by
  rw [Pattern.ways_repeated_of_nil h, List.flatMap_singleton]

/-- The way that goes on with a body and its closing brace. -/
def Way.close (way : Way) (read : Text × Text) : Way :=
  ⟨way.taken ++ read.1 ++ ['}'], (way.taken ++ read.1) :: way.picked, read.2⟩

/-- A group that is taken belongs to the body. -/
theorem Way.close_followedBy (way : Way) (g : Group) (v : Text) (read : Text × Text) :
    (way.followedBy ⟨g.text, [], v⟩).close read = way.close (g.text ++ read.1, read.2) := by
  simp [close, followedBy]

/-- **The groups of a body are taken one after the other, and then its end**, as the scanner reads
    them, which only knows whether a group is open. `way` is what is taken of the body so far. -/
theorem flatMap_bodyEnds (way : Way) (s : Text) :
    ((Pattern.repeated preference (groupPattern preference)).ways s).flatMap
        (fun later => bodyEnds (way.followedBy later)) =
      (flatBody? false s).toList.map way.close := by
  induction hn : s.length using Nat.strongRecOn generalizing way s with
  | ind n ih =>
    rcases braceFree_or_exists_first s with hs | ⟨t, r, ht, rfl⟩ | ⟨t, r, ht, rfl⟩
    · rw [flatMap_bodyEnds_of_nil (ways_groupPattern_of_braceFree hs),
        bodyEnds_of_braceFree hs rfl, flatBody?_of_braceFree hs]
      rfl
    · -- a group is opened; without a brace that closes it there is no way at all
      have hend : bodyEnds (way.followedBy (.stay (t ++ '{' :: r))) = [] := bodyEnds_opening ht rfl
      rcases braceFree_or_exists_first r with hr | ⟨u, v, hu, rfl⟩ | ⟨u, v, hu, rfl⟩
      · rw [flatMap_bodyEnds_of_nil
          (ways_groupPattern_opening_of_nil ht (ways_closingPattern_of_braceFree hr)), hend,
          flatBody?_opening ht, flatBody?_of_braceFree hr]
        rfl
      · rw [flatMap_bodyEnds_of_nil
          (ways_groupPattern_opening_of_nil ht (ways_closingPattern_opening hu v)), hend,
          flatBody?_opening ht, flatBody?_opening_inGroup hu]
        rfl
      · obtain ⟨g, hg⟩ : ∃ g : Group, t ++ '{' :: (u ++ '}' :: v) = g.text ++ v :=
          ⟨⟨t, u, ht, hu⟩, (Group.text_append ⟨t, u, ht, hu⟩ v).symm⟩
        rw [hg] at hn hend ⊢
        have hlt : v.length < (g.text ++ v).length := by simp [Group.text]; omega
        rw [Pattern.flatMap_ways_repeated_of_one (ways_groupPattern_text g v) hlt hend,
          flatBody?_group_append]
        simp only [← Way.followedBy_assoc]
        rw [ih v.length (hn ▸ hlt) _ v rfl]
        cases flatBody? false v with
        | none => rfl
        | some read => exact congrArg (fun w => [w]) (way.close_followedBy g v read)
    · have hread : flatBody? false (t ++ '}' :: r) = some (t, r) := flatBody?_text (.ofTail t ht) r
      rw [flatMap_bodyEnds_of_nil (ways_groupPattern_closing ht r), bodyEnds_closing ht rfl, hread]
      simp [Way.followedBy, Way.stay, Way.close]

/-- **A body in braces is matched as it is read**: in one way if it is flat, and else in none. -/
theorem ways_body (s : Text) :
    (Pattern.seq (.pick (bodyPattern preference)) (.word ['}'])).ways s =
      (flatBody? false s).toList.map fun read => ⟨read.1 ++ ['}'], [read.1], read.2⟩ := by
  have h := @flatMap_bodyEnds preference (.stay s) s
  simp only [Way.stay_followedBy] at h
  rw [ways_body_eq, h]
  rfl

end Body

/-! ## 4. Blocks -/

section Block

variable (preference : Preference)

/-- The ways to go on behind a header. -/
def headerEnds (header : Way) : List Way :=
  ((Pattern.seq (.word ['{'])
    (.seq (.pick (bodyPattern preference)) (.word ['}']))).ways header.behind).map
      header.pickAll.followedBy

/-- A header does not end before a character that it may hold. -/
theorem headerEnds_of_noOpening {header : Way} {c : Char} {rest : Text}
    (h : header.behind = c :: rest) (hc : isNoOpening c = true) :
    headerEnds preference header = [] := by
  have hne : '{' ≠ c := by rintro rfl; cases hc
  rw [headerEnds, h, ways_opening_seq, if_neg hne, List.map_nil]

/-- **A header is the keyword, one character, and all characters up to an opening brace.** -/
theorem ways_mediaPattern_keyword (s : Text) :
    (mediaPattern preference).ways (mediaKeyword ++ s) =
      ((Pattern.oneOf isNoOpening).ways s).flatMap fun first =>
        headerEnds preference ⟨mediaKeyword ++ (first.taken ++ first.behind.takeWhile isNoOpening),
          first.picked, first.behind.dropWhile isNoOpening⟩ := by
  rw [mediaPattern, Pattern.ways_seq, Pattern.flatMap_ways_pick, headerPattern,
    Pattern.flatMap_ways_seq, Pattern.ways_word_append, List.flatMap_singleton,
    Pattern.flatMap_ways_seq]
  congr 1
  funext first
  let next (later : Way) : List Way :=
    headerEnds preference (Way.followedBy ⟨mediaKeyword, [], s⟩ (first.followedBy later))
  refine (Pattern.flatMap_ways_repeated_oneOf isNoOpening next
    (fun _ _ _ hway hc => headerEnds_of_noOpening preference hway hc) first.behind).trans ?_
  simp [next, Way.followedBy]

/-- A text without an opening brace begins with no block. -/
theorem mediaBlock?_eq_none_of_not_mem {s : Text} (hs : '{' ∉ s) : mediaBlock? s = none := by
  refine Option.eq_none_iff_forall_ne_some.mpr fun read hread => hs ?_
  rw [← MediaBlock.text_append hread, MediaBlock.text_append_eq]
  exact List.mem_append_right _ List.mem_cons_self

section Query

variable {query : Text} (hq : '{' ∉ query)
include hq

/-- A header is not empty behind the keyword, and its body follows. -/
theorem ways_mediaPattern_header (r : Text) :
    (mediaPattern preference).ways (mediaKeyword ++ query ++ '{' :: r) =
      if query.isEmpty then [] else
        (flatBody? false r).toList.map fun read =>
          (⟨mediaKeyword ++ query, read.1⟩ : MediaBlock).way read.2 := by
  rw [List.append_assoc, ways_mediaPattern_keyword]
  cases query with
  | nil => rfl
  | cons c rest =>
    have hc : isNoOpening c = true := ne_opening_of_mem hq c List.mem_cons_self
    have hrest : '{' ∉ rest := fun h => hq (List.mem_cons_of_mem _ h)
    have htake : (rest ++ '{' :: r).takeWhile isNoOpening = rest := takeWhile_opening hrest r
    have hdrop : (rest ++ '{' :: r).dropWhile isNoOpening = '{' :: r := dropWhile_opening hrest r
    have hfirst : (Pattern.oneOf isNoOpening).ways (c :: rest ++ '{' :: r) =
        [⟨[c], [], rest ++ '{' :: r⟩] := if_pos hc
    rw [hfirst, List.flatMap_singleton, htake, hdrop, headerEnds, ways_opening_seq, if_pos rfl,
      ways_body, List.map_map, List.map_map]
    refine List.map_congr_left fun read _ => ?_
    simp [Way.followedBy, Way.pickAll, MediaBlock.way, MediaBlock.text]

/-- Without an opening brace a header does not end. -/
theorem ways_mediaPattern_of_not_mem :
    (mediaPattern preference).ways (mediaKeyword ++ query) = [] := by
  rw [ways_mediaPattern_keyword]
  cases query with
  | nil => rfl
  | cons c rest =>
    have hrest : ∀ d ∈ rest, isNoOpening d = true :=
      ne_opening_of_mem fun h => hq (List.mem_cons_of_mem _ h)
    have hfirst : (Pattern.oneOf isNoOpening).ways (c :: rest) = [⟨[c], [], rest⟩] :=
      if_pos (ne_opening_of_mem hq c List.mem_cons_self)
    rw [hfirst, List.flatMap_singleton, headerEnds, dropWhile_eq_nil_of_forall hrest]
    rfl

end Query

/-- **The media pattern matches as a block is read**, in one way or in none. -/
theorem ways_mediaPattern (s : Text) :
    (mediaPattern preference).ways s =
      (mediaBlock? s).toList.map fun read => read.1.way read.2 := by
  by_cases hk : mediaKeyword <+: s
  · obtain ⟨behind, rfl⟩ := hk
    by_cases hopen : '{' ∈ behind
    · obtain ⟨query, r, rfl, hq⟩ := List.eq_append_cons_of_mem hopen
      rw [← List.append_assoc, ways_mediaPattern_header preference hq, mediaBlock?_header_append hq]
      split
      · rfl
      · cases flatBody? false r <;> rfl
    · have hnone : mediaBlock? (mediaKeyword ++ behind) = none := by
        refine (mediaBlock?_eq_none_of_not_mem ?_)
        simpa using ⟨by decide, hopen⟩
      rw [ways_mediaPattern_of_not_mem preference hopen, hnone]
      rfl
  · have hnone : mediaBlock? s = none := if_neg (mt List.isPrefixOf_iff_prefix.mp hk)
    rw [hnone, mediaPattern, Pattern.ways_seq, Pattern.flatMap_ways_pick, headerPattern,
      Pattern.flatMap_ways_seq, Pattern.ways_word_of_not_prefix hk]
    rfl

/-- **The media pattern takes a block in one way**, exactly where its braces are right. -/
theorem ways_mediaPattern_eq_iff (s : Text) (b : MediaBlock) (rest : Text) :
    (mediaPattern preference).ways s = [b.way rest] ↔ b.IsCounted ∧ s = b.text ++ rest := by
  rw [← MediaBlock.wellFormed_iff_isCounted, ← mediaBlock?_eq_some_iff, ways_mediaPattern]
  cases mediaBlock? s with
  | none => simp
  | some read => simp [MediaBlock.way_eq_iff, Prod.ext_iff]

end Block

/-- **The media pattern is a counter of braces.** At any position of a text, in whatever order its
    repetitions try more or fewer parts, the pattern matches if and only if a block can be found
    there by counting braces: `@media` and at least one character more up to the first opening
    brace, which has depth 1, and a closing brace that comes back to depth 0 before the depth has
    exceeded 2. Then there is one way to match, and no other: the header is what stands before the
    first opening brace, the match ends with that closing brace, and the body is what stands between,
    whatever is behind. So it is read. -/
theorem mediaPattern_counts_braces (preference : Preference) (css : Text) (i : Nat) :
    ((mediaPattern preference).ways (css.drop i) ≠ [] ↔
        ∃ b rest, MediaBlock.IsCounted b ∧ css.drop i = b.text ++ rest) ∧
      ∀ b rest,
        ((mediaPattern preference).ways (css.drop i) = [b.way rest] ↔
          b.IsCounted ∧ css.drop i = b.text ++ rest) ∧
        (mediaBlock? (css.drop i) = some (b, rest) ↔
          b.IsCounted ∧ css.drop i = b.text ++ rest) := by
  refine ⟨?_, fun b rest => ⟨ways_mediaPattern_eq_iff preference _ b rest, ?_⟩⟩
  · constructor
    · intro hmatch
      rw [ways_mediaPattern] at hmatch
      cases hread : mediaBlock? (css.drop i) with
      | none => exact absurd (by rw [hread]; rfl) hmatch
      | some read =>
        obtain ⟨hb, hs⟩ := (mediaBlock?_eq_some_iff _ read.2 read.1).mp hread
        exact ⟨read.1, read.2, (MediaBlock.wellFormed_iff_isCounted read.1).mp hb, hs⟩
    · rintro ⟨b, rest, hfound⟩
      rw [(ways_mediaPattern_eq_iff preference _ b rest).mpr hfound]
      exact List.cons_ne_nil _ _
  · rw [mediaBlock?_eq_some_iff, MediaBlock.wellFormed_iff_isCounted]

end MediaCascade
