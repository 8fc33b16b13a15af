import MediaCascade.Proofs.Stylesheet.WrittenForm
import MediaCascade.Stylesheet.Printer

/-!
# The layout of a written block

The printer's layout is one of those in which rules can be written: a rule on lines of its own, its
declarations behind a line feed and the indentation each, and an empty line between two rules.

* `writesRule_renderRule`: a rule that is printed is written.
* `Block.listing_renderBlock`: so are the rules of a block, with blanks before and behind them.

Nothing is assumed of the parts here. That they are read back as they were is what
`Listing.addRules_innerRules` and `Listing.addRules_baseRules` say of every layout.
-/

namespace MediaCascade

/-! ## 1. Separators -/

/-- The elements of a list, each with what stands before it: `first` before the first one, `sep`
    before each of the others. -/
def withLeads {α : Type} (first sep : Text) : List α → List (Text × α)
  | [] => []
  | x :: rest => (first, x) :: rest.map fun y => (sep, y)

section Leads

variable {α : Type} (first sep : Text)

theorem map_snd_withLeads (l : List α) : (withLeads first sep l).map Prod.snd = l := by
  cases l with
  | nil => rfl
  | cons x rest =>
    rw [withLeads, List.map_cons, List.map_map]
    exact congrArg (x :: ·) (List.map_id rest)

theorem forall_mem_withLeads {P : Text × α → Prop} {l : List α} (hfirst : ∀ x ∈ l, P (first, x))
    (hsep : ∀ x ∈ l, P (sep, x)) : ∀ x ∈ withLeads first sep l, P x := by
  cases l with
  | nil => exact fun _ h => absurd h List.not_mem_nil
  | cons x rest =>
    intro y hy
    rcases List.mem_cons.mp hy with rfl | hy
    · exact hfirst x List.mem_cons_self
    · obtain ⟨z, hz, rfl⟩ := List.mem_map.mp hy
      exact hsep z (List.mem_cons_of_mem _ hz)

/-- **Joined parts are parts with leads.** -/
theorem append_joinWith (f : α → Text) {l : List α} (hne : l ≠ []) :
    first ++ Text.joinWith sep (l.map f) =
      (withLeads first sep l).flatMap fun x => x.1 ++ f x.2 := by
  cases l with
  | nil => exact absurd rfl hne
  | cons x rest =>
    rw [List.map_cons, joinWith_cons, withLeads, List.flatMap_cons, List.flatMap_map,
      List.flatMap_map, List.append_assoc]

end Leads

/-! ## 2. The text of a rule -/

/-- What stands before a declaration, and before the closing brace of a rule. -/
def lineLead : Text := '\n' :: indentation

/-- Declarations as lines, with the line feed before each. -/
def linesOf (entries : List (Text × Text)) : Text :=
  entries.flatMap fun d => '\n' :: renderDeclaration d.1 d.2

/-- What stands between the braces of a rule. -/
def Declarations.innerText (declarations : Declarations) : Text :=
  linesOf declarations.entries ++ lineLead

/-- A rule is its selector, and the text of its declarations in braces. -/
theorem renderRule_eq (indent selector : Text) (declarations : Declarations) :
    renderRule indent selector declarations =
      indent ++ selector ++ [' '] ++ '{' :: declarations.innerText ++ ['}'] := by
  rw [renderRule, List.cons_append, joinWith_cons, List.flatMap_append, List.flatMap_map,
    Declarations.innerText, linesOf, lineLead]
  simp

/-- A line is a declaration behind blanks, with its semicolon. -/
theorem linesOf_cons (d : Text × Text) (rest : List (Text × Text)) :
    linesOf (d :: rest) = (lineLead ++ d.1 ++ ':' :: ' ' :: d.2) ++ ';' :: linesOf rest := by
  rw [linesOf, List.flatMap_cons, linesOf]
  simp [renderDeclaration, lineLead]

theorem blank_lineLead : Text.Blank lineLead := by decide

theorem blank_indentation : Text.Blank indentation := by decide

/-! ## 3. The text of a block -/

/-- The lines of declarations are segments, with a blank one behind the last semicolon. -/
theorem writesBody_innerText (declarations : Declarations) :
    WritesBody declarations declarations.innerText := by
  refine ⟨declarations.entries.map (fun d => lineLead ++ d.1 ++ ':' :: ' ' :: d.2) ++ [lineLead],
    ?_, ?_⟩
  · induction declarations.entries with
    | nil => exact .blank blank_lineLead .nil
    | cons d rest ih =>
      have hspace : Text.Blank [' '] := by decide
      refine .declaration ⟨lineLead ++ d.1, ' ' :: d.2, ?_, ?_, rfl⟩ ih
      · exact ⟨lineLead, [], blank_lineLead, Text.blank_nil, (List.append_nil _).symm⟩
      · exact ⟨[' '], [], hspace, Text.blank_nil, (List.append_nil _).symm⟩
  · rw [Declarations.innerText]
    induction declarations.entries with
    | nil => exact (Text.joinWith_singleton _ _).symm
    | cons d rest ih =>
      rw [linesOf_cons, List.append_assoc, List.cons_append, ih, List.map_cons, List.cons_append,
        joinWith_cons_of_ne_nil (List.append_ne_nil_of_right_ne_nil _ (List.cons_ne_nil _ _)),
        List.append_assoc _ [';'], List.singleton_append]

/-- **A rule that is printed is written**, with what stands before it. -/
theorem writesRule_renderRule {lead indent : Text} (hlead : Text.Blank lead)
    (hindent : Text.Blank indent) (rule : Text × Declarations) :
    WritesRule rule (lead ++ renderRule indent rule.1 rule.2) := by
  have hspace : Text.Blank [' '] := by decide
  refine ⟨(lead ++ indent) ++ rule.1 ++ [' '], rule.2.innerText,
    ⟨_, _, hlead.append hindent, hspace, rfl⟩, writesBody_innerText rule.2, ?_⟩
  rw [renderRule_eq]
  simp

/-- **The rules of a block are written one after the other.** -/
theorem Block.listing_renderBlock (b : Block) {first indent trail : Text}
    (hfirst : Text.Blank first) (hindent : Text.Blank indent) (htrail : Text.Blank trail) :
    Listing WritesRule b.entries (first ++ renderBlock indent b ++ trail) := by
  by_cases hne : b.entries = []
  · rw [hne, renderBlock, hne]
    exact .nil ((hfirst.append Text.blank_nil).append htrail)
  · have hsep : Text.Blank ['\n', '\n'] := by decide
    have hleads := forall_mem_withLeads first ['\n', '\n'] (l := b.entries)
      (P := fun x => Text.Blank x.1) (fun _ _ => hfirst) (fun _ _ => hsep)
    have hwrites : ∀ x ∈ withLeads first ['\n', '\n'] b.entries,
        WritesRule x.2 (x.1 ++ renderRule indent x.2.1 x.2.2) := fun x hx =>
      writesRule_renderRule (hleads x hx) hindent x.2
    have hlist := Listing.of_leads
      (f := fun rule : Text × Declarations => renderRule indent rule.1 rule.2) hwrites htrail
    rw [map_snd_withLeads] at hlist
    rwa [renderBlock, append_joinWith first _ _ hne]

end MediaCascade
