import DeclOrder.Layout.Scan
import DeclOrder.Text.Blank

/-! Lines as the canonical layout sees them, and how a text falls into them. -/
namespace DeclOrder.Layout

inductive Line where
  | blank
  /-- A line that starts inside a comment, a heredoc or a quote. -/
  | literal (text : List Char)
  | code (depth : Nat) (text : List Char)
  | attribute (depth : Nat) (key value : List Char)
  deriving DecidableEq, Repr

def isCloser (c : Char) : Bool := c == '}' || c == ']' || c == ')'

def hasMark : List Char → Bool
  | '$' :: '{' :: _ => true
  | '%' :: '{' :: _ => true
  | _ :: rest => hasMark rest
  | [] => false

/-- The key an attribute could have, with what follows it: an ASCII identifier, or quoted text
without escapes and template marks. -/
def leadingKey? : List Char → Option (List Char × List Char)
  | '"' :: rest =>
      let name := rest.takeWhile (fun c => c != '"' && c != '\\')
      match rest.dropWhile (fun c => c != '"' && c != '\\') with
      | '"' :: more => if hasMark name then none else some ('"' :: name ++ ['"'], more)
      | _ => none
  | text =>
      let name := Scan.leadingIdentifier text
      if name.isEmpty then none else some (name, text.drop name.length)

/-- Key and value of a trimmed line that starts like an attribute. A comparison and the arrow of a
`for` do not. -/
def splitAttribute? (text : List Char) : Option (List Char × List Char) := do
  let (key, rest) ← leadingKey? text
  match Text.trimStart rest with
  | '=' :: '=' :: _ => none
  | '=' :: '>' :: _ => none
  | '=' :: value => some (key, Text.trim value)
  | _ => none

def codeLine (s : Scan) (text : List Char) : Line × Scan :=
  let depth := s.depth - (text.takeWhile isCloser).length
  let after := s.through text
  let closed := after.openings.length == s.openings.length && !after.literal
  let line := match splitAttribute? text with
    | some (key, value) => if closed then .attribute depth key value else .code depth (key ++ [' ', '=', ' '] ++ value)
    | none => .code depth text
  (line, after)

/-- A line that is kept as it is. Inside a heredoc only its end marker counts. -/
def literalLine (s : Scan) (raw : List Char) : Line × Scan :=
  (.literal raw, match s.heredoc with
    | some marker => if Text.trim raw = marker then { s with heredoc := none } else s
    | none => s.through raw)

def lineOf (s : Scan) (raw : List Char) : Line × Scan :=
  if s.literal then literalLine s raw
  else if (Text.trim raw).isEmpty then (.blank, s)
  else codeLine s (Text.trim raw)

def linesFrom (s : Scan) : List (List Char) → List Line
  | [] => []
  | raw :: rest => let (line, after) := lineOf s raw; line :: linesFrom after rest

def scanFrom (s : Scan) : List (List Char) → Scan
  | [] => s
  | raw :: rest => scanFrom (lineOf s raw).2 rest

end DeclOrder.Layout
