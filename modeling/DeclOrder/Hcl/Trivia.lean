import DeclOrder.Text.Reader

/-! What may stand between tokens. Within a line it is spaces, tabs and block comments, which may
span lines; where line breaks do not matter it is also carriage returns, line feeds and line
comments. -/
namespace DeclOrder.Hcl

def afterBlockComment? : List Char → Option (List Char)
  | '*' :: '/' :: rest => some rest
  | _ :: rest => afterBlockComment? rest
  | [] => none

/-- The line end that closes a line comment. A carriage return without its line feed is no line
end and may not stand in the comment either. -/
def lineCommentEnd? : List Char → Option (List Char)
  | [] => some []
  | '\n' :: rest => some ('\n' :: rest)
  | '\r' :: '\n' :: rest => some ('\r' :: '\n' :: rest)
  | '\r' :: _ => none
  | _ :: rest => lineCommentEnd? rest

inductive Extent where
  | withinLine | acrossLines
  deriving DecidableEq, Repr

def lineComment? : List Char → Option (List Char)
  | '#' :: rest => lineCommentEnd? rest
  | '/' :: '/' :: rest => lineCommentEnd? rest
  | _ => none

def trivium? : Extent → List Char → Option (List Char)
  | _, ' ' :: rest => some rest
  | _, '\t' :: rest => some rest
  | _, '/' :: '*' :: rest => afterBlockComment? rest
  | .acrossLines, '\r' :: rest => some rest
  | .acrossLines, '\n' :: rest => some rest
  | .acrossLines, text => lineComment? text
  | .withinLine, _ => none

/-- At most one skip for each character of `bound`. -/
def skipTriviaUpTo (extent : Extent) : List Char → List Char → List Char
  | [], text => text
  | _ :: bound, text => match trivium? extent text with
      | some rest => skipTriviaUpTo extent bound rest
      | none => text

def skipTrivia (extent : Extent) (text : List Char) : List Char := skipTriviaUpTo extent text text

namespace Read
open Reader

def trivia (extent : Extent) : Reader Unit := skip (skipTrivia extent)

def gap : Reader Unit := trivia .withinLine

def space : Reader Unit := trivia .acrossLines

def spaced {α : Type} (r : Reader α) : Reader α := do
  space
  let value ← r
  space
  return value

def lineBreak : Reader Unit := fun text =>
  match text with
  | '\n' :: rest => some ((), rest)
  | '\r' :: '\n' :: rest => some ((), rest)
  | _ => none

def comment : Reader Unit := fun text => (lineComment? text).map ((), ·)

def lineEnd : Reader Unit := do
  gap
  let _ ← tried comment
  lineBreak

def atEnd : Reader Unit := fun text => if text.isEmpty then some ((), text) else none

end Read
end DeclOrder.Hcl
