/-! Paths of files in a module: forward slashes, no leading `./`, and `.` for the module root. -/
namespace DeclOrder

@[ext]
structure RepoPath where
  text : String
  deriving DecidableEq, Repr

namespace Path

def slashed (text : List Char) : List Char := text.map (fun c => if c = '\\' then '/' else c)

def dropHere : List Char → List Char
  | '.' :: '/' :: rest => dropHere rest
  | text => text

def normalize (text : List Char) : List Char :=
  match dropHere (slashed text) with
  | [] => ['.']
  | found => found

inductive Component where
  | root
  | here
  | name (text : List Char)
  deriving DecidableEq, Repr

def Component.text : Component → List Char
  | .root => ['/']
  | .here => ['.']
  | .name text => text

/-- A path on its way through its components. Only at its start are a slash and a dot components. -/
structure Walk where
  begun : Bool
  left : List Char
  deriving DecidableEq, Repr

def isSegmentStart : List Char → Bool
  | [] => true
  | '/' :: _ => true
  | _ => false

def dropEmptySegments : List Char → List Char
  | '/' :: rest => dropEmptySegments rest
  | ['.'] => []
  | '.' :: '/' :: rest => dropEmptySegments rest
  | text => text

def isSlash (c : Char) : Bool := c == '/'

def nextName? (text : List Char) : Option (Component × Walk) :=
  match dropEmptySegments text with
  | [] => none
  | found => some (.name (found.takeWhile (!isSlash ·)), ⟨true, found.dropWhile (!isSlash ·)⟩)

def Walk.next? (w : Walk) : Option (Component × Walk) :=
  if w.begun then nextName? w.left
  else match w.left with
    | '/' :: rest => some (.root, ⟨true, rest⟩)
    | '.' :: rest => if isSegmentStart rest then some (.here, ⟨true, rest⟩) else nextName? w.left
    | text => nextName? text

def start (text : List Char) : Walk := ⟨false, text⟩

def componentsUpTo : Nat → Walk → List Component
  | 0, _ => []
  | n + 1, w => match w.next? with
      | some (c, rest) => c :: componentsUpTo n rest
      | none => []

def components (text : List Char) : List Component := componentsUpTo (text.length + 1) (start text)

def Walk.past? (w : Walk) : List Component → Option Walk
  | [] => some w
  | c :: rest => match w.next? with
      | some (d, more) => if c = d then more.past? rest else none
      | none => none

def dropEmptyEnd (text : List Char) : List Char :=
  let rec go : Nat → List Char → List Char
    | 0, reversed => reversed
    | n + 1, reversed => match reversed with
        | '/' :: rest => go n rest
        | ['.'] => []
        | '.' :: '/' :: rest => go n rest
        | found => found
  (go text.length text.reverse).reverse

/-- What is left of a path: without slashes and dot segments at its end, and once the walk has
begun, without those at its start. The first slash or dot of a path stays. -/
def Walk.text (w : Walk) : List Char :=
  if w.begun then dropEmptyEnd (dropEmptySegments w.left)
  else match w.left with
    | '/' :: rest => '/' :: dropEmptyEnd rest
    | '.' :: rest => if isSegmentStart rest then '.' :: dropEmptyEnd rest else dropEmptyEnd w.left
    | text => dropEmptyEnd text

def relative (root path : List Char) : List Char :=
  match (start path).past? (components root) with
  | some rest => rest.text
  | none => path

def lastSegment (text : List Char) : List Char := (text.reverse.takeWhile (!isSlash ·)).reverse

end Path

namespace RepoPath

def ofString (text : String) : RepoPath := ⟨String.ofList (Path.normalize text.toList)⟩

def relativeTo (root path : String) : RepoPath :=
  ofString (String.ofList (Path.relative root.toList path.toList))

def fileName (p : RepoPath) : String := String.ofList (Path.lastSegment p.text.toList)

def components (p : RepoPath) : List String :=
  (Path.components p.text.toList).map (fun c => String.ofList c.text)

end RepoPath
end DeclOrder
