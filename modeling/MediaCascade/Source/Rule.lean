import MediaCascade.Source.Declaration
import MediaCascade.Walk

/-!
# Rules

A raw rule is the text of one rule as it is cut out of a region of the source. It reads as one of
four things (`RawRule`): nothing but the end of the text before it, a text that is not flat, a rule
with an empty part, or a rule.

* The base text is cut behind every `}` (`baseRules`).
* The body of a media block is searched for brace-free text, `{`, brace-free text and `}`
  (`innerRules`). A group with nothing before it, and what follows the last group, is passed over.

Rules go into a block one after the other (`Block.addRules`): a selector that comes again keeps its
place and takes the later declarations, with a warning.
-/

namespace MediaCascade

/-! ## 1. Cutting out the rules -/

/-- The raw rules of a base text. Each ends with a brace; of the last, the brace is not in the
    text. -/
def baseRules (base : Text) : List Text := (base.splitOn '}').map fun piece => piece ++ ['}']

/-- Whether a character is no brace. -/
def isBraceFree (c : Char) : Bool := !decide (c = '{') && !decide (c = '}')

/-- What follows the first character that is not dropped is shorter than the text. -/
theorem length_lt_of_dropWhile {p : Char → Bool} {s rest : Text} {c : Char}
    (h : s.dropWhile p = c :: rest) : rest.length < s.length := by
  have hle := (List.dropWhile_suffix (l := s) p).length_le
  rw [h, List.length_cons] at hle
  omega

/-- The raw rules in the body of a media block. -/
def innerRules (body : Text) : List Text :=
  match h : body.dropWhile isBraceFree with
  | [] => []
  | brace :: interior =>
    have := length_lt_of_dropWhile h
    if brace = '{' then
      match h' : interior.dropWhile isBraceFree with
      | [] => []
      | closing :: rest =>
        have := length_lt_of_dropWhile h'
        if closing = '}' then
          let selector := body.takeWhile isBraceFree
          if selector.isEmpty then innerRules rest
          else (selector ++ '{' :: interior.takeWhile isBraceFree ++ ['}']) :: innerRules rest
        else innerRules interior
    else innerRules interior
termination_by body.length

/-! ## 2. Reading a raw rule -/

/-- What a raw rule reads as. -/
inductive RawRule where
  /-- Blank text, or the brace that was put behind it. -/
  | residue
  /-- A text without opening brace, or with several. -/
  | notFlat (fragment : Text)
  /-- A rule whose selector or body is blank. -/
  | incomplete (selector fragment : Text)
  /-- A rule. -/
  | rule (selector body : Text)
  deriving DecidableEq, Repr

/-- A text without the closing brace at its end. -/
def dropClosingBrace (s : Text) : Text :=
  if s.getLast? = some '}' then s.dropLast else s

/-- Reads a raw rule. -/
def RawRule.ofText (raw : Text) : RawRule :=
  let fragment := Text.trim raw
  if fragment = [] ∨ fragment = ['}'] then .residue
  else
    match raw.splitOn '{' with
    | [before, after] =>
      let selector := Text.trim before
      let body := Text.trim (dropClosingBrace (Text.trim after))
      if selector.isEmpty || body.isEmpty then .incomplete selector fragment
      else .rule selector body
    | _ => .notFlat fragment

/-- The selector of a rule and its declarations, if the raw rule is one. -/
def RawRule.binding? : RawRule → Option (Text × Declarations)
  | .residue => none
  | .notFlat _ => none
  | .incomplete _ _ => none
  | .rule selector body => some (selector, .ofText body)

/-! ## 3. Adding rules to a block -/

namespace Block

/-- Adds a raw rule to the block of a context: the block, and the warnings about the rule. -/
def addRule (context : Text) (block : Block) (raw : Text) : Block × List Warning :=
  match RawRule.ofText raw with
  | .residue => (block, [])
  | .notFlat fragment => (block, [.notFlat context fragment])
  | .incomplete selector fragment =>
    (block, [.emptyRule context (if selector.isEmpty then none else some selector) fragment])
  | .rule selector body =>
    (block.insert selector (.ofText body),
      declarationWarnings (some context) (some selector) body ++
        if block.contains selector then [.duplicateSelector context selector] else [])

/-- Adds raw rules to the block of a context, one after the other. -/
def addRules (context : Text) (block : Block) (raws : List Text) : Block × List Warning :=
  walk (addRule context) block raws

/-- The block of a list of raw rules. -/
def ofRules (raws : List Text) : Block :=
  OrderedMap.ofList (raws.filterMap fun raw => (RawRule.ofText raw).binding?)

/-- **Adding rules inserts their entries**: what is not a rule leaves the block as it is. -/
theorem addRules_fst (context : Text) (block : Block) (raws : List Text) :
    (addRules context block raws).1 =
      block.insertAll (raws.filterMap fun raw => (RawRule.ofText raw).binding?) := by
  unfold addRules
  induction raws generalizing block with
  | nil => rfl
  | cons raw rest ih =>
    rw [walk_cons, ih]
    unfold addRule
    cases h : RawRule.ofText raw with
    | residue => simp [h, RawRule.binding?]
    | notFlat fragment => simp [h, RawRule.binding?]
    | incomplete selector fragment => simp [h, RawRule.binding?]
    | rule selector body => simp [h, RawRule.binding?, OrderedMap.insertAll]

theorem addRules_empty_fst (context : Text) (raws : List Text) :
    (addRules context .empty raws).1 = ofRules raws :=
  addRules_fst context .empty raws

end Block

end MediaCascade
