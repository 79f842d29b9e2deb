import DeclOrder.Command.Run
import Std.Time.DateTime.Timestamp

/-! The command line. It answers the requests of a run from the disk and prints how the run ends. -/
namespace DeclOrder.Main

def fileError : IO.Error → FileError
  | .noFileOrDirectory .. => .notFound
  | .alreadyExists .. => .exists
  | .inappropriateType _ 20 _ => .notDirectory
  | .inappropriateType _ 21 _ => .isDirectory
  | e => .other (toString e)

def caught {α : Type} (act : IO α) : IO (Except FileError α) := do
  match ← act.toBaseIO with
  | .ok value => return .ok value
  | .error e => return .error (fileError e)

/-- The tree below a path. Symbolic links are not followed. -/
partial def shape (path : String) : IO (Tree Unit) := do
  let here := (← IO.currentDir) / path
  if !(← here.isDir) then return .file ()
  let mut entries := []
  for entry in ← here.readDir do
    let below ← entry.path.symlinkMetadata
    match below.type with
    | .dir => entries := (entry.fileName, ← shape entry.path.toString) :: entries
    | .file => entries := (entry.fileName, .file ()) :: entries
    | _ => pure ()
  return .directory entries

def survey (path : String) : IO (Option (String × Tree Unit)) := do
  match ← (do IO.FS.realPath ((← IO.currentDir) / path) : IO _).toBaseIO with
  | .error _ => return none
  | .ok found => if ← found.pathExists then return some (found.toString, ← shape found.toString) else return none

def save (path : String) (content : ByteArray) : IO (Except SaveError Unit) := do
  match Path.parent? path.toList with
  | none | some [] => pure ()
  | some above =>
      let place := String.ofList above
      if let .error e ← caught (IO.FS.createDirAll place) then return .error (.directory place e)
  match ← caught (IO.FS.writeBinFile path content) with
  | .ok () => return .ok ()
  | .error e => return .error (.file path e)

def now : IO Timestamp := do
  let sinceEpoch := (← Std.Time.Timestamp.now).toNanosecondsSinceUnixEpoch
  return .ofUnix sinceEpoch.val.toNat

def perform {α : Type} : Action α → IO (Option α)
  | .done value => return some value
  | .survey path next => do perform (next (← survey path))
  | .read path next => do perform (next (← caught (IO.FS.readBinFile path)))
  | .save path content next => do perform (next (← save path content))
  | .clock next => do perform (next (← now))
  | .crash => return none

end DeclOrder.Main

def main (arguments : List String) : IO UInt32 := do
  let found ← DeclOrder.Main.perform (DeclOrder.Command.runArguments arguments)
  if let some exit := found then
    (← IO.getStdout).putStr exit.output
    (← IO.getStderr).putStr exit.errors
  return (DeclOrder.Command.status found).toUInt32
