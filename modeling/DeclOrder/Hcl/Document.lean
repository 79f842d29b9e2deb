import DeclOrder.Hcl.Expression

/-! Bodies, blocks and whole documents. -/
namespace DeclOrder.Hcl

/-- A structure with the text that is left at its start, after its header and after its end. The
header of an attribute is its name. -/
structure Placed where
  item : Structure
  start : List Char
  header : List Char
  stop : List Char

namespace Read
open Reader

def attributeValue : Reader Expr := do
  char '='
  gap
  fullExpression .line

def definition : Reader Structure := do
  let name ← identifier
  gap
  return .attribute name (← attributeValue)

def label : Reader Label := do
  match ← left with
  | '"' :: _ => return .quoted (← quotedText)
  | _ => return .word (← identifier)

def placedLabel : Reader (Label × List Char) := do
  gap
  return (← label, ← left)

/-- The body of a block between its braces: at most one attribute on the same line, or a line end
and then a body. -/
def blockBody (body : Reader (List Placed)) : Reader Body := do
  char '{'
  if ← given lineEnd then
    let items ← body
    char '}'
    return items.map Placed.item
  else
    gap
    let item ← tried definition
    gap
    char '}'
    return item.toList

def placed (body : Reader (List Placed)) : Reader Placed := do
  let start ← left
  let name ← identifier
  let named ← left
  gap
  match ← left with
  | '=' :: _ =>
      let value ← attributeValue
      return ⟨.attribute name value, start, named, ← left⟩
  | _ =>
      set named
      let labels ← many placedLabel
      gap
      let items ← blockBody body
      return ⟨.block name (labels.map Prod.fst) items, start, (labels.getLast?.map Prod.snd).getD named, ← left⟩

def structureEnd : Reader Unit := do
  gap
  let _ ← tried comment
  if ← given lineBreak then pure () else atEnd

def distinctAttributes (items : List Placed) : Bool :=
  let names := items.filterMap (·.item.attributeName?)
  decide names.Nodup

/-- The body of a document or a block, with blocks in it nested less deep than `bound` is long. -/
def bodyUpTo : List Char → Reader (List Placed)
  | [] => pure []
  | _ :: bound => do
      space
      let items ← many (do
        let item ← placed (bodyUpTo bound)
        structureEnd
        space
        return item)
      if distinctAttributes items then return items else failure

end Read

/-- Stands for the description of a syntax error: a text is a document or it is not, and where it
stops being one is not reported. -/
def syntaxErrorText : String := "<hcl>"

def parsePlaced? (text : List Char) : Option (List Placed) :=
  match Read.bodyUpTo text text with
  | some (items, []) => some items
  | _ => none

def parse? (text : List Char) : Option Body := (parsePlaced? text).map (·.map Placed.item)

end DeclOrder.Hcl
