/-! Where a line leaves the text: which brackets, quotes, comments and heredocs are open after it.
The scan reads lines on their own and never a syntax tree. -/
namespace DeclOrder.Layout

inductive Opening where
  | group
  | quote
  | mark
  deriving DecidableEq, Repr

structure Scan where
  openings : List Opening
  comment : Bool
  heredoc : Option (List Char)
  deriving DecidableEq, Repr

namespace Scan

def start : Scan := ⟨[], false, none⟩

def depth (s : Scan) : Nat := s.openings.count .group

def literal (s : Scan) : Bool := s.comment || s.heredoc.isSome || s.openings.any (· != .group)

def inQuote (s : Scan) : Bool := s.openings.head? == some .quote

def push (s : Scan) (o : Opening) : Scan := { s with openings := o :: s.openings }

def pop (s : Scan) : Scan := { s with openings := s.openings.tail }

/-- A closing bracket ends the innermost opening, unless that is a quote or nothing is open. -/
def close (s : Scan) : Scan := if s.inQuote then s else s.pop

def isMarkerStart (c : Char) : Bool := c.isAlpha || c == '_'

def isMarkerPart (c : Char) : Bool := isMarkerStart c || c.isDigit || c == '-'

def leadingIdentifier : List Char → List Char
  | [] => []
  | c :: rest => if isMarkerStart c then c :: rest.takeWhile isMarkerPart else []

def marker? (text : List Char) : Option (List Char) :=
  let found := leadingIdentifier (match text with
    | '-' :: rest => rest
    | _ => text)
  if found.isEmpty then none else some found

/-- What the scan does with the next character: take it alone, take the one behind it too, or stop
for this line. -/
inductive Move where
  | one (after : Scan)
  | two (after : Scan)
  | stop (after : Scan)

def inComment (s : Scan) : Char → List Char → Move
  | '*', '/' :: _ => .two { s with comment := false }
  | _, _ => .one s

def inText (s : Scan) : Char → List Char → Move
  | '\\', _ => .two s
  | '"', _ => .one s.pop
  | '$', '$' :: _ => .two s
  | '%', '%' :: _ => .two s
  | '$', '{' :: _ => .two (s.push .mark)
  | '%', '{' :: _ => .two (s.push .mark)
  | _, _ => .one s

def inCode (s : Scan) : Char → List Char → Move
  | '"', _ => .one (s.push .quote)
  | '#', _ => .stop s
  | '/', '/' :: _ => .stop s
  | '/', '*' :: _ => .two { s with comment := true }
  | '<', '<' :: rest => match marker? rest with
      | some found => .stop { s with heredoc := some found }
      | none => .one s
  | '{', _ => .one (s.push .group)
  | '[', _ => .one (s.push .group)
  | '(', _ => .one (s.push .group)
  | '}', _ => .one s.close
  | ']', _ => .one s.close
  | ')', _ => .one s.close
  | _, _ => .one s

def move (s : Scan) (c : Char) (rest : List Char) : Move :=
  if s.comment then s.inComment c rest else if s.inQuote then s.inText c rest else s.inCode c rest

def Move.after : Move → Scan
  | .one s => s
  | .two s => s
  | .stop s => s

def through (s : Scan) : List Char → Scan
  | [] => s
  | [c] => (s.move c []).after
  | c :: d :: rest => match s.move c (d :: rest) with
      | .one after => through after (d :: rest)
      | .two after => through after rest
      | .stop after => after

end Scan
end DeclOrder.Layout
