import DeclOrder.Text.Digits
import DeclOrder.Path
import DeclOrder.Text.Bytes

/-! Positions in a source text: line and column count from one, columns in characters, and bytes
from zero. Lines and columns have 32 bits. -/
namespace DeclOrder

structure Position where
  line : Nat
  column : Nat
  byte : Nat
  deriving DecidableEq, Repr

structure SourceRange where
  path : RepoPath
  start : Position
  stop : Position
  deriving DecidableEq, Repr

def SourceRange.slice? (r : SourceRange) (source : List Char) : Option (List Char) :=
  Text.slice? source r.start.byte r.stop.byte

/-- Where the lines of a text start behind its line feeds: the offset, given that the text itself
starts at `offset`, and the text from there on. -/
def lineStartsFrom (offset : Nat) : List Char → List (Nat × List Char)
  | [] => []
  | c :: rest =>
      if c = '\n' then (offset + 1, rest) :: lineStartsFrom (offset + 1) rest
      else lineStartsFrom (offset + c.utf8Size) rest

structure LineIndex where
  size : Nat
  starts : List (Nat × List Char)

namespace LineIndex

def ofText (source : List Char) : LineIndex :=
  ⟨Text.byteSize source, (0, source) :: lineStartsFrom 0 source⟩

/-- The position of a byte offset. One past the end counts as the end. -/
def position (index : LineIndex) (offset : Nat) : Position :=
  let byte := min offset index.size
  let before := index.starts.takeWhile (·.1 ≤ byte)
  let (start, line) := before.getLast?.getD (0, [])
  let column := match Text.takeBytes? line (byte - start) with
    | some text => text.length
    | none => byte - start
  ⟨before.length % twoTo 32, (column + 1) % twoTo 32, byte⟩

def offsetOf (index : LineIndex) (rest : List Char) : Nat := index.size - Text.byteSize rest

def range (index : LineIndex) (path : RepoPath) (start stop : Nat) : SourceRange :=
  ⟨path, index.position start, index.position stop⟩

end LineIndex
end DeclOrder
