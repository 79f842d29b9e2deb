import DeclOrder.Path

/-! Paths as a file system takes them: joined, cut at their last component, and walked step by step. -/
namespace DeclOrder.Path

def isAbsolute (path : List Char) : Bool := path.head? == some '/'

def join (root path : List Char) : List Char :=
  if isAbsolute path then path
  else if root.isEmpty || root.getLast? == some '/' then root ++ path
  else root ++ '/' :: path

def parent? (path : List Char) : Option (List Char) :=
  let own := (start path).text
  if own.isEmpty || own == ['/'] then none
  else some (start (own.take (own.length - (lastSegment own).length))).text

def extension? (name : List Char) : Option (List Char) :=
  match name.reverse.dropWhile (· != '.') with
  | [] => none
  | [_] => none
  | _ => some (name.reverse.takeWhile (· != '.')).reverse

inductive Step where
  | here
  | up
  | down (name : String)
  deriving DecidableEq, Repr

def segments : List Char → List (List Char)
  | [] => [[]]
  | c :: rest =>
      if isSlash c then [] :: segments rest
      else match segments rest with
        | [] => [[c]]
        | first :: others => (c :: first) :: others

def stepOf? (segment : List Char) : Option Step :=
  if segment = [] then none
  else if segment = ['.'] then some .here
  else if segment = ['.', '.'] then some .up
  else some (.down (String.ofList segment))

/-- The steps that a path takes from where it starts. A slash at its end asks for a directory. -/
def steps (path : List Char) : List Step :=
  (segments path).filterMap stepOf? ++ if path.getLast? == some '/' then [.here] else []

end DeclOrder.Path
