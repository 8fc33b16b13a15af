import MediaCascade.Source.Basic
import MediaCascade.Source.Rule

/-!
# Reading a style sheet

The base text gives the rules of the context `base`, each media block those of the context named by
its header. A header that comes again starts its context anew, in the place it has.

* `Stylesheet.ofSource` reads the parts of a source, `Stylesheet.ofText` a text.
* Warnings come in this order: skipped text, base rules, then block after block.
* `Stylesheet.addRule` reads one raw rule into a context of a style sheet.
-/

namespace MediaCascade

/-- The name of the context of a media block: its header without blanks at the end. -/
def MediaBlock.context (b : MediaBlock) : Text := Text.trimEnd b.header

namespace Stylesheet

/-- Adds a media block to a style sheet: the style sheet, and the warnings about the block. -/
def addMediaBlock (s : Stylesheet) (b : MediaBlock) : Stylesheet × List Warning :=
  let read := Block.addRules b.context .empty (innerRules b.body)
  (⟨s.contexts.insert b.context read.1⟩,
    (if s.hasContext b.context then [.repeatedContext b.context] else []) ++ read.2)

/-- Reads the parts of a source: the style sheet, and all warnings. -/
def ofSource (source : Source) : Stylesheet × List Warning :=
  let base := Block.addRules baseKey .empty (baseRules source.base)
  let media := walk addMediaBlock ⟨⟨[(baseKey, base.1)]⟩⟩ source.blocks
  (media.1, source.warnings ++ base.2 ++ media.2)

/-- Reads a text: the style sheet, and all warnings. -/
def ofText (css : Text) : Stylesheet × List Warning := ofSource (.ofText css)

/-- Reads a text that has to have base rules. -/
def read (region : BaseRegion) (css : Text) : Except NoBaseRegion (Stylesheet × List Warning) :=
  (Source.read region css).map ofSource

/-- Where texts have base rules, reading does not fail. -/
@[simp] theorem read_beforeMedia (css : Text) : read .beforeMedia css = .ok (ofText css) := rfl

/-- Reads one raw rule into a context. The context has to be there if the text is a rule; any other
    text only has warnings. -/
def addRule (s : Stylesheet) (context raw : Text) : Except Missing (Stylesheet × List Warning) :=
  match s.block? context with
  | some block =>
    let read := Block.addRule context block raw
    .ok (s.modifyBlock context fun _ => read.1, read.2)
  | none =>
    match RawRule.ofText raw with
    | .rule _ _ => .error (.context context)
    | _ => .ok (s, (Block.addRule context .empty raw).2)

end Stylesheet

end MediaCascade
