import DeclOrder.Disk.Tree
import DeclOrder.Path.Location
import DeclOrder.Timestamp

/-! A file system, as a process sees it that works in one of its directories. -/
namespace DeclOrder

inductive FileError where
  | notFound
  | exists
  | notDirectory
  | isDirectory
  | notText
  | other (description : String)
  deriving DecidableEq, Repr

def FileError.message : FileError → String
  | .notFound => "No such file or directory (os error 2)"
  | .exists => "File exists (os error 17)"
  | .notDirectory => "Not a directory (os error 20)"
  | .isDirectory => "Is a directory (os error 21)"
  | .notText => "stream did not contain valid UTF-8"
  | .other description => description

inductive SaveError where
  | directory (path : String) (cause : FileError)
  | file (path : String) (cause : FileError)
  deriving DecidableEq, Repr

def SaveError.chain : SaveError → List String
  | .directory path cause => ["create directory: " ++ path, cause.message]
  | .file path cause => ["write " ++ path, cause.message]

def textOf (content : ByteArray) : Except FileError String :=
  match String.fromUTF8? content with
  | some text => .ok text
  | none => .error .notText

structure Disk where
  home : List String
  top : Tree ByteArray
  /-- The nanoseconds since the start of 1970 that the clock tells, one reading after another. -/
  clock : Nat → Nat
  dated : ∀ n, (Timestamp.ofUnix (clock n)).hasText = true

namespace Disk
open DeclOrder.Path (Step)

def now (d : Disk) : Timestamp := .ofUnix (d.clock 0)

def ticked (d : Disk) : Disk where
  home := d.home
  top := d.top
  clock n := d.clock (n + 1)
  dated n := d.dated (n + 1)

def stepsTo (d : Disk) (path : String) : Except FileError (List String × List Step) :=
  if path.isEmpty then .error .notFound
  else .ok (if Path.isAbsolute path.toList then [] else d.home, Path.steps path.toList)

/-- The names of what one step leads to. Only a directory leads anywhere, and the root is above itself. -/
def advance (top : Tree ByteArray) (names : List String) (step : Step) : Except FileError (List String) :=
  match top.find? names with
  | none => .error .notFound
  | some (.file _) => .error .notDirectory
  | some (.directory entries) => match step with
      | .here => .ok names
      | .up => .ok names.dropLast
      | .down name => if (entries.lookup name).isSome then .ok (names ++ [name]) else .error .notFound

def follow (top : Tree ByteArray) (steps : List Step) (names : List String) : Except FileError (List String) :=
  steps.foldlM (advance top) names

def resolve (d : Disk) (path : String) : Except FileError (List String) := do
  let (start, steps) ← d.stepsTo path
  follow d.top steps start

def read (d : Disk) (path : String) : Except FileError ByteArray := do
  match d.top.find? (← d.resolve path) with
  | some (.file content) => .ok content
  | some (.directory _) => .error .isDirectory
  | none => .error .notFound

def survey (d : Disk) (path : String) : Option (String × Tree Unit) :=
  match d.resolve path with
  | .error _ => none
  | .ok names => (d.top.find? names).map (fun t => ("/" ++ "/".intercalate names, t.map (fun _ => ())))

/-- The tree with a directory at the end of the steps, and on the way to it; an error comes with the tree
as it is left. Behind the first directory that is made they are made one by one, so a file in the way is
met as a last step then. -/
def makeAt (made : Bool) :
    List Step → List String → Tree ByteArray → Except (FileError × Tree ByteArray) (Tree ByteArray)
  | [], _, top => .ok top
  | .here :: rest, names, top => makeAt made rest names top
  | .up :: rest, names, top => makeAt made rest names.dropLast top
  | .down name :: rest, names, top => match top.find? (names ++ [name]) with
      | some (.directory _) => makeAt made rest (names ++ [name]) top
      | some (.file _) => .error (if made || rest.isEmpty then .exists else .notDirectory, top)
      | none => makeAt true rest (names ++ [name]) (.put (.directory []) (names ++ [name]) top)

def makeDirectories (d : Disk) (path : String) : Except (FileError × Disk) Disk :=
  match d.stepsTo path with
  | .error e => .error (e, d)
  | .ok (start, steps) => match makeAt false steps start d.top with
      | .error (e, top) => .error (e, { d with top })
      | .ok top => .ok { d with top }

/-- Writes a file into a directory that is there. A path with a slash at its end names no file. -/
def write (d : Disk) (path : String) (content : ByteArray) : Except FileError Disk := do
  let (start, steps) ← d.stepsTo path
  if path.toList.getLast? = some '/' then throw .isDirectory
  let names ← follow d.top steps.dropLast start
  match d.top.find? names, steps.getLast? with
  | some (.directory entries), some (.down name) => match entries.lookup name with
      | some (.directory _) => .error .isDirectory
      | _ => return { d with top := .put (.file content) (names ++ [name]) d.top }
  | some (.file _), some (.down _) => .error .notDirectory
  | none, _ => .error .notFound
  | _, _ => .error .isDirectory

/-- Makes the directories that a path needs; a path with one component needs none. -/
def prepare (d : Disk) (path : String) : Except (SaveError × Disk) Disk :=
  match Path.parent? path.toList with
  | none => .ok d
  | some above =>
      if above.isEmpty then .ok d
      else (d.makeDirectories (String.ofList above)).mapError
        (fun (e, left) => (.directory (String.ofList above) e, left))

def save (d : Disk) (path : String) (content : ByteArray) : Disk × Except SaveError Unit :=
  match d.prepare path with
  | .error (e, left) => (left, .error e)
  | .ok prepared => match prepared.write path content with
      | .error e => (prepared, .error (.file path e))
      | .ok written => (written, .ok ())

end Disk
end DeclOrder
