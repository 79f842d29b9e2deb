import DeclOrder.Text.Digits
import DeclOrder.Layout.Line
import DeclOrder.Text.Lines

/-! The canonical text of a sequence of lines: two spaces per open group, the equals signs of
neighbouring attributes in one column, no blank line at either end and one line feed at the end. A text
is padded to no more than 65535 characters, so where a key is longer than that there is no canonical
text. -/
namespace DeclOrder.Layout

def indent (depth : Nat) : List Char := List.replicate (2 * depth) ' '

def widthLimit : Nat := twoTo 16 - 1

def pad (width : Nat) (text : List Char) : Option (List Char) :=
  if width ≤ widthLimit then some (text ++ List.replicate (width - text.length) ' ') else none

def runWidth (depth : Nat) : List Line → Nat
  | .attribute d key _ :: rest => if d = depth then max key.length (runWidth depth rest) else 0
  | _ => 0

def attributeText (depth width : Nat) (key value : List Char) : Option (List Char) := do
  return Text.trimEnd (indent depth ++ (← pad width key) ++ [' ', '=', ' '] ++ value)

/-- Depth and key width of the run of attributes that the line before belongs to. -/
abbrev Run := Option (Nat × Nat)

/-- The width for an attribute in front of `rest`: that of its run, or of the run it starts. -/
def widthIn (run : Run) (depth : Nat) (lines : List Line) : Nat :=
  match run with
  | some (d, width) => if d = depth then width else runWidth depth lines
  | none => runWidth depth lines

def textsFrom (run : Run) : List Line → Option (List (List Char))
  | [] => some []
  | .blank :: rest => do return [] :: (← textsFrom none rest)
  | .literal text :: rest => do return text :: (← textsFrom none rest)
  | .code depth text :: rest => do return (indent depth ++ text) :: (← textsFrom none rest)
  | .attribute depth key value :: rest => do
      let width := widthIn run depth (.attribute depth key value :: rest)
      return (← attributeText depth width key value) :: (← textsFrom (some (depth, width)) rest)

def dropBlankEnds (texts : List (List Char)) : List (List Char) :=
  ((texts.dropWhile Text.allBlank).reverse.dropWhile Text.allBlank).reverse

def render (lines : List Line) : Option (List Char) := do
  return Text.unlines (dropBlankEnds (← textsFrom none lines))

def ofText (text : List Char) : List Line := linesFrom .start (Text.lines text)

def canonical (text : List Char) : Option (List Char) := render (ofText text)

end DeclOrder.Layout
