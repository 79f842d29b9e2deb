import DeclOrder.Layout.Canonical
import DeclOrder.Text.Utf8

/-! The layout by offsets: lines are read byte by byte, and keys and markers are cut out of them. A cut that does
not exist is a fault, and no step goes on behind one. -/
namespace DeclOrder.Layout.Bytes

structure Fault where
  text : List Char
  offset : Nat
  deriving DecidableEq, Repr

def sliceFrom (text : List Char) (offset : Nat) : Except Fault (List Char) :=
  match Text.dropBytes? text offset with
  | some rest => .ok rest
  | none => .error ⟨text, offset⟩

def sliceTo (text : List Char) (offset : Nat) : Except Fault (List Char) :=
  match Text.takeBytes? text offset with
  | some front => .ok front
  | none => .error ⟨text, offset⟩

def offsetsFrom (offset : Nat) : List Char → List (Nat × Char)
  | [] => []
  | c :: rest => (offset, c) :: offsetsFrom (offset + c.utf8Size) rest

def firstOffset? (p : Nat → Char → Bool) (text : List Char) : Option Nat :=
  ((offsetsFrom 0 text).find? (fun (offset, c) => p offset c)).map Prod.fst

def endsIdentifier (offset : Nat) (c : Char) : Bool :=
  !(Scan.isMarkerStart c || (0 < offset && (c.isDigit || c == '-')))

def identifierSize (text : List Char) : Nat := (firstOffset? endsIdentifier text).getD (Text.byteSize text)

def dropDash (text : List Char) : List Char :=
  match text with
  | '-' :: rest => rest
  | _ => text

def marker (text : List Char) : Except Fault (Option (List Char)) :=
  let named := dropDash text
  let size := identifierSize named
  if 0 < size then (sliceTo named size).map some else .ok none

def inComment (s : Scan) (b : UInt8) (next : Option UInt8) : Scan.Move :=
  if b = '*'.toUInt8 ∧ next = some '/'.toUInt8 then .two { s with comment := false } else .one s

def inText (s : Scan) (b : UInt8) (next : Option UInt8) : Scan.Move :=
  if b = '\\'.toUInt8 then .two s
  else if b = '"'.toUInt8 then .one s.pop
  else if (b = '$'.toUInt8 ∨ b = '%'.toUInt8) ∧ next = some b then .two s
  else if (b = '$'.toUInt8 ∨ b = '%'.toUInt8) ∧ next = some '{'.toUInt8 then .two (s.push .mark)
  else .one s

def inCode (line : List Char) (offset : Nat) (s : Scan) (b : UInt8) (next : Option UInt8) : Except Fault Scan.Move :=
  if b = '"'.toUInt8 then .ok (.one (s.push .quote))
  else if b = '#'.toUInt8 then .ok (.stop s)
  else if b = '/'.toUInt8 ∧ next = some '/'.toUInt8 then .ok (.stop s)
  else if b = '/'.toUInt8 ∧ next = some '*'.toUInt8 then .ok (.two { s with comment := true })
  else if b = '<'.toUInt8 ∧ next = some '<'.toUInt8 then do
    match ← marker (← sliceFrom line (offset + 2)) with
    | some found => return .stop { s with heredoc := some found }
    | none => return .one s
  else if b = '{'.toUInt8 ∨ b = '['.toUInt8 ∨ b = '('.toUInt8 then .ok (.one (s.push .group))
  else if b = '}'.toUInt8 ∨ b = ']'.toUInt8 ∨ b = ')'.toUInt8 then .ok (.one s.close)
  else .ok (.one s)

/-- What the scan does with the byte at an offset. Unlike a character, a byte can be taken as the second one of a
move although it has others behind it. -/
def move (line : List Char) (offset : Nat) (s : Scan) (b : UInt8) (next : Option UInt8) : Except Fault Scan.Move :=
  if s.comment then .ok (inComment s b next)
  else if s.inQuote then .ok (inText s b next)
  else inCode line offset s b next

/-- The scan of a line on its way: in front of the byte at an offset, over, or broken off by a fault. -/
inductive Loop where
  | reading (s : Scan) (offset : Nat)
  | finished (s : Scan)
  | broken (fault : Fault)

namespace Loop

def behind (offset : Nat) : Except Fault Scan.Move → Loop
  | .ok (.one after) => .reading after (offset + 1)
  | .ok (.two after) => .reading after (offset + 2)
  | .ok (.stop after) => .finished after
  | .error fault => .broken fault

def step (line : List Char) : Loop → Loop
  | .reading s offset => match (Text.utf8 line)[offset]? with
      | some b => behind offset (move line offset s b (Text.utf8 line)[offset + 1]?)
      | none => .finished s
  | ended => ended

def left (line : List Char) : Loop → Nat
  | .reading _ offset => Text.byteSize line - offset + 1
  | _ => 0

theorem leftBehind {line : List Char} {offset : Nat} (inside : offset < Text.byteSize line)
    (found : Except Fault Scan.Move) : (behind offset found).left line < Text.byteSize line - offset + 1 := by
  unfold behind
  split <;> simp only [left] <;> omega

theorem leftStep (line : List Char) (s : Scan) (offset : Nat) :
    (step line (.reading s offset)).left line < (reading s offset).left line := by
  cases byte : (Text.utf8 line)[offset]? with
  | none => simp [step, byte, left]
  | some b =>
      obtain ⟨inside, -⟩ := List.getElem?_eq_some_iff.mp byte
      rw [Text.utf8Length] at inside
      simp only [step, byte]
      exact leftBehind inside _

def run (line : List Char) : Loop → Except Fault Scan
  | .reading s offset => run line (step line (.reading s offset))
  | .finished s => .ok s
  | .broken fault => .error fault
termination_by l => l.left line
decreasing_by exact leftStep line s offset

end Loop

def keySize (text : List Char) : Except Fault Nat :=
  match text with
  | '"' :: rest =>
      match firstOffset? (fun _ c => c == '"' || c == '\\') rest with
      | none => .ok 0
      | some size => do
          if (← sliceFrom rest size).head? = some '"' then
            return if hasMark (← sliceTo rest size) then 0 else size + 2
          else return 0
  | _ => .ok (identifierSize text)

def attributeOf? (key rest : List Char) : Option (List Char × List Char) :=
  match Text.trimStart rest with
  | '=' :: '=' :: _ => none
  | '=' :: '>' :: _ => none
  | '=' :: value => some (key, Text.trim value)
  | _ => none

def splitAttribute (text : List Char) : Except Fault (Option (List Char × List Char)) := do
  let size ← keySize text
  if size = 0 ∨ size = Text.byteSize text then return none
  return attributeOf? (← sliceTo text size) (← sliceFrom text size)

def isCloser (b : UInt8) : Bool := b == '}'.toUInt8 || b == ']'.toUInt8 || b == ')'.toUInt8

def codeLine (s : Scan) (text : List Char) : Except Fault (Line × Scan) := do
  let depth := s.depth - ((Text.utf8 text).takeWhile isCloser).length
  let after ← Loop.run text (.reading s 0)
  let closed := after.openings.length == s.openings.length && !after.literal
  let found ← splitAttribute text
  let line := match found with
    | some (key, value) => if closed then .attribute depth key value else .code depth (key ++ [' ', '=', ' '] ++ value)
    | none => .code depth text
  return (line, after)

def literalLine (s : Scan) (raw : List Char) : Except Fault (Line × Scan) :=
  match s.heredoc with
  | some marker => .ok (.literal raw, if Text.trim raw = marker then { s with heredoc := none } else s)
  | none => (Loop.run raw (.reading s 0)).map (.literal raw, ·)

def lineOf (s : Scan) (raw : List Char) : Except Fault (Line × Scan) :=
  if s.literal then literalLine s raw
  else if (Text.trim raw).isEmpty then .ok (.blank, s)
  else codeLine s (Text.trim raw)

def linesFrom (s : Scan) : List (List Char) → Except Fault (List Line)
  | [] => .ok []
  | raw :: rest => do
      let (line, after) ← lineOf s raw
      return line :: (← linesFrom after rest)

def ofText (text : List Char) : Except Fault (List Line) := linesFrom .start (Text.lines text)

end DeclOrder.Layout.Bytes
