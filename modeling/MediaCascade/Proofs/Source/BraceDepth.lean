import MediaCascade.Proofs.Source.Blocks

/-!
# Media blocks by counting braces

A media block can be found without knowing what a body is made of. The opening brace behind the
header has depth 1; from there on an opening brace goes one deeper and a closing brace comes back by
one. The block is closed where the depth comes back to 0, and it is refused if the depth exceeds 2
before that.

* `flatBody?_eq_some_iff_closesFrom`: a scanner that knows only whether a group is open counts right.
* `MediaBlock.wellFormed_iff_isCounted`: the blocks that are found by counting are the well formed ones.

The depth is not counted in the header: it may have closing braces, and `@media` once more.
-/

namespace MediaCascade

/-! ## 1. Depth -/

/-- The depth of braces behind a text, if it is `start` before it. -/
def depth (start : Int) (s : Text) : Int := start + s.count '{' - s.count '}'

@[simp] theorem depth_nil (start : Int) : depth start [] = start := by simp [depth]

theorem depth_append (start : Int) (s t : Text) :
    depth start (s ++ t) = depth (depth start s) t := by
  simp only [depth, List.count_append, Int.natCast_add]
  omega

@[simp] theorem depth_opening (start : Int) : depth start ['{'] = start + 1 := by
  simp [depth]

@[simp] theorem depth_closing (start : Int) : depth start ['}'] = start - 1 := by
  simp [depth]

theorem depth_of_braceFree {s : Text} (hs : BraceFree s) (start : Int) :
    depth start s = start := by
  rw [depth, List.count_eq_zero_of_not_mem hs.opening_not_mem,
    List.count_eq_zero_of_not_mem hs.closing_not_mem]
  omega

/-! ## 2. Bodies -/

/-- With the depth `start` in front of it, a body never comes back to depth 0 and never exceeds depth
    2, and the closing brace behind it comes back to 0. -/
structure ClosesFrom (start : Int) (body : Text) : Prop where
  within : ∀ p, p <+: body → 0 < depth start p ∧ depth start p ≤ 2
  closed : depth start (body ++ ['}']) = 0

namespace ClosesFrom

variable {start : Int} {body : Text}

theorem start_within (h : ClosesFrom start body) : 0 < start ∧ start ≤ 2 := by
  have hnil := h.within [] List.nil_prefix
  rwa [depth_nil] at hnil

theorem nil_iff : ClosesFrom start [] ↔ start = 1 := by
  constructor
  · intro h
    have hclosed := h.closed
    rw [List.nil_append, depth_closing] at hclosed
    omega
  · rintro rfl
    refine ⟨fun p hp => ?_, rfl⟩
    rw [List.prefix_nil.mp hp, depth_nil]
    decide

/-- **One character more**: the depth has to be right before it, and the rest has to be right from
    the depth behind it. -/
theorem cons_iff {c : Char} :
    ClosesFrom start (c :: body) ↔
      (0 < start ∧ start ≤ 2) ∧ ClosesFrom (depth start [c]) body := by
  have hcons : ∀ s, depth start (c :: s) = depth (depth start [c]) s := depth_append start [c]
  constructor
  · intro h
    refine ⟨h.start_within, fun p hp => ?_, ?_⟩
    · rw [← hcons]
      exact h.within (c :: p) (List.cons_prefix_cons.mpr ⟨rfl, hp⟩)
    · rw [← hcons]
      exact h.closed
  · rintro ⟨hstart, h⟩
    refine ⟨fun p hp => ?_, ?_⟩
    · rcases List.prefix_cons_iff.mp hp with rfl | ⟨q, rfl, hq⟩
      · rwa [depth_nil]
      · rw [hcons]
        exact h.within q hq
    · rw [List.cons_append, hcons]
      exact h.closed

end ClosesFrom

/-- The depth at which a body is read: 1, and within a group 2. -/
def openDepth (inGroup : Bool) : Int := if inGroup then 2 else 1

/-- **A scanner that knows only whether a group is open counts the depth of braces.** -/
theorem flatBody?_eq_some_iff_closesFrom (inGroup : Bool) (body rest : Text) :
    flatBody? inGroup (body ++ '}' :: rest) = some (body, rest) ↔
      ClosesFrom (openDepth inGroup) body := by
  induction body generalizing inGroup with
  | nil =>
    rw [List.nil_append, ClosesFrom.nil_iff]
    cases inGroup <;> simp [flatBody?, openDepth]
  | cons c body ih =>
    rw [List.cons_append, ClosesFrom.cons_iff]
    -- a step of the scanner that goes on, and the depth that it goes on with
    have hstep : ∀ next : Bool, depth (openDepth inGroup) [c] = openDepth next →
        ((flatBody? next (body ++ '}' :: rest)).map (fun read => (c :: read.1, read.2)) =
            some (c :: body, rest) ↔
          (0 < openDepth inGroup ∧ openDepth inGroup ≤ 2) ∧
            ClosesFrom (depth (openDepth inGroup) [c]) body) := by
      intro next hnext
      have hstart : 0 < openDepth inGroup ∧ openDepth inGroup ≤ 2 := by cases inGroup <;> decide
      rw [hnext, ← ih next, and_iff_right hstart]
      simp
    by_cases ho : c = '{'
    · subst ho
      cases inGroup with
      | false => simpa [flatBody?] using hstep true rfl
      | true =>
        have hdeep : ¬ ClosesFrom 3 body := fun h => absurd h.start_within (by decide)
        simpa [flatBody?, openDepth] using hdeep
    · by_cases hc : c = '}'
      · subst hc
        cases inGroup with
        | false =>
          have hclosed : ¬ ClosesFrom 0 body := fun h => absurd h.start_within (by decide)
          simpa [flatBody?, openDepth] using hclosed
        | true => simpa [flatBody?] using hstep false rfl
      · have hfree : BraceFree [c] := BraceFree.nil.cons ((isBraceFree_iff c).mpr ⟨ho, hc⟩)
        rw [flatBody?, if_neg ho, if_neg hc]
        exact hstep inGroup (depth_of_braceFree hfree _)

/-- A body is flat exactly if its depth, from 1 on, is within 1 and 2, and is 0 behind it. -/
theorem exists_flatBody_iff_closesFrom (body : Text) :
    (∃ f : FlatBody, f.text = body) ↔ ClosesFrom 1 body := by
  have hread := flatBody?_eq_some_iff (body ++ ['}']) body []
  rw [flatBody?_eq_some_iff_closesFrom false, and_iff_left rfl] at hread
  exact hread.symm

/-! ## 3. Blocks -/

/-- A media block found by its braces: between `@media` and the first opening brace stands at least
    one character, and from this brace on, which has depth 1, the depth comes back to 0 behind the
    body without having exceeded 2. -/
structure MediaBlock.IsCounted (b : MediaBlock) : Prop where
  keyword : mediaKeyword <+: b.header
  longer : mediaKeyword.length < b.header.length
  no_opening : '{' ∉ b.header
  closes : ClosesFrom 1 b.body

/-- **The blocks that are found by their braces are the well formed ones.** -/
theorem MediaBlock.wellFormed_iff_isCounted (b : MediaBlock) : b.WellFormed ↔ b.IsCounted := by
  constructor
  · rintro ⟨⟨query, hne, hq, hheader⟩, hbody⟩
    have hno : '{' ∉ mediaKeyword := by decide
    refine ⟨⟨query, hheader.symm⟩, ?_, ?_, (exists_flatBody_iff_closesFrom b.body).mp hbody⟩
    · have hpos : 0 < query.length := List.length_pos_iff.mpr hne
      rw [hheader, List.length_append]
      omega
    · rw [hheader, List.mem_append]
      exact not_or.mpr ⟨hno, hq⟩
  · rintro ⟨⟨query, hquery⟩, hlonger, hno, hcloses⟩
    refine ⟨⟨query, ?_, ?_, hquery.symm⟩, (exists_flatBody_iff_closesFrom b.body).mpr hcloses⟩
    · rintro rfl
      rw [← hquery, List.append_nil] at hlonger
      exact Nat.lt_irrefl _ hlonger
    · intro hmem
      exact hno (hquery ▸ List.mem_append_right _ hmem)

end MediaCascade
