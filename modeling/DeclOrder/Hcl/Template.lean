import DeclOrder.Hcl.Syntax
import DeclOrder.Hcl.Word

/-! Templates: literal text with interpolations and directives. What may stand literally depends on
where the template is. Between quotes a quote ends it and a backslash escapes; in a heredoc the
line that starts with the marker ends it; inside a directive only the next mark does. -/
namespace DeclOrder.Hcl

/-- What an expression may hold where it stands: line breaks between its tokens, a conditional,
and a conditional in the branches of that one. -/
structure Scope where
  extent : Extent
  conditional : Bool
  nested : Bool

namespace Scope

def line : Scope := ⟨.withinLine, true, true⟩

def lines : Scope := ⟨.acrossLines, true, true⟩

/-- Behind a binary operator. If line breaks do not matter there, the branches of a conditional hold
another one only inside further parentheses, braces or quotes. -/
def behindOperator (scope : Scope) : Scope :=
  { scope with nested := scope.nested && scope.extent = .withinLine }

def branch (scope : Scope) : Scope := { scope with conditional := scope.conditional && scope.nested }

def items (scope : Scope) : Scope := { lines with conditional := scope.conditional }

end Scope

structure Inner where
  expression : Scope → Reader Expr
  template : Reader (List Part)

inductive Setting where
  | quotes
  | directive
  | heredoc (marker : List Char)

def isGap (c : Char) : Bool := c == ' ' || c == '\t'

def afterMarker? (marker text : List Char) : Option (List Char) := do
  let (_, line) ← Read.lineBreak text
  let ((), rest) ← Reader.word marker (line.dropWhile isGap)
  return rest

def escape? : Reader Char := fun text =>
  match text with
  | 'n' :: rest => some ('\n', rest)
  | 'r' :: rest => some ('\r', rest)
  | 't' :: rest => some ('\t', rest)
  | 'b' :: rest => some ('\x08', rest)
  | 'f' :: rest => some ('\x0c', rest)
  | '\\' :: rest => some ('\\', rest)
  | '"' :: rest => some ('"', rest)
  | '/' :: rest => some ('/', rest)
  | 'u' :: rest => Reader.scalarOf 4 rest
  | 'U' :: rest => Reader.scalarOf 8 rest
  | _ => none

def literal? (setting : Setting) : List Char → Option (List Char × List Char)
  | '$' :: '$' :: '{' :: rest => some (['$', '{'], rest)
  | '%' :: '%' :: '{' :: rest => some (['%', '{'], rest)
  | '$' :: '{' :: _ => none
  | '%' :: '{' :: _ => none
  | [] => none
  | c :: rest => match setting with
      | .directive => some ([c], rest)
      | .quotes => if c = '"' then none else if c = '\\' then (escape? rest).map (fun (d, left) => ([d], left)) else some ([c], rest)
      | .heredoc marker => if (afterMarker? marker (c :: rest)).isSome then none else some ([c], rest)

namespace Read
open Reader

def literal (setting : Setting) : Reader String := do
  return String.ofList (← many (literal? setting)).flatten

def stripMark : Reader Bool := given (char '~')

def marked {α : Type} (r : Reader α) : Reader (Strip × α) := do
  let before ← stripMark
  let value ← spaced r
  let after ← stripMark
  char '}'
  return (⟨before, after⟩, value)

def interpolation (inner : Inner) : Reader Part := do
  keyword "$\x7b"
  let (strip, value) ← marked (inner.expression .lines)
  return .interpolation strip value

def directiveStart : Reader Unit := keyword "%\x7b"

def closing (w : String) : Reader Strip := do
  directiveStart
  let (strip, ()) ← marked (keyword w)
  return strip

def binding (inner : Inner) : Reader (List String × Expr) := do
  keyword "for"
  let first ← spaced identifier
  let second ← tried (do char ','; spaced identifier)
  keyword "in"
  let collection ← spaced (inner.expression .lines)
  return (first :: second.toList, collection)

def choice (inner : Inner) : Reader Part := do
  directiveStart
  let (strip, condition) ← marked (do keyword "if"; spaced (inner.expression .lines))
  let yes ← inner.template
  let otherwise ← tried (do return (← closing "else", ← inner.template))
  let close ← closing "endif"
  return .choice strip condition yes otherwise close

def loop (inner : Inner) : Reader Part := do
  directiveStart
  let (strip, names, collection) ← marked (binding inner)
  let each ← inner.template
  let close ← closing "endfor"
  return .loop strip names collection each close

/-- Whether a directive that opens a choice or a loop comes next. The other directives end the
template they stand in. -/
def opensDirective : Reader Bool := fun text =>
  let opens : Reader Unit := do
    directiveStart
    let _ ← stripMark
    space
    if ← given (keyword "if") then pure () else keyword "for"
  some ((opens text).isSome, text)

/-- The parts of a template up to where no part can start. Nothing if a part starts and is malformed. -/
def partsUpTo (inner : Inner) (setting : Setting) : List Char → Reader (List Part)
  | [] => pure []
  | _ :: bound => do
      match ← left with
      | '$' :: '{' :: _ => return (← interpolation inner) :: (← partsUpTo inner setting bound)
      | '%' :: '{' :: _ =>
          if ← opensDirective then
            let part ← match ← tried (choice inner) with
              | some part => pure part
              | none => loop inner
            return part :: (← partsUpTo inner setting bound)
          else return []
      | _ =>
          let text ← literal setting
          if text.isEmpty then return [] else return .literal text :: (← partsUpTo inner setting bound)

def parts (inner : Inner) (setting : Setting) : Reader (List Part) := fun text =>
  partsUpTo inner setting text text

def quotedTemplate (inner : Inner) : Reader (List Part) := do
  char '"'
  let found ← parts inner .quotes
  char '"'
  return found

def quotedText : Reader String := do
  char '"'
  let text ← literal .quotes
  char '"'
  return text

def endMarker (marker : List Char) : Reader Unit := fun text => (afterMarker? marker text).map ((), ·)

/-- A heredoc. The first line that starts with the marker ends it, except that the line right after
the opening one does so only if no later line does. -/
def heredoc (inner : Inner) : Reader Expr := do
  keyword "<<"
  let indented ← given (char '-')
  let marker ← identifier
  lineBreak
  let start ← left
  let found ← parts inner (.heredoc marker.toList)
  if ← given (endMarker marker.toList) then return .heredoc indented marker found
  else
    set (start.dropWhile isGap)
    word marker.toList
    return .heredoc indented marker []

end Read
end DeclOrder.Hcl
