import DeclOrder.Disk.Action
import DeclOrder.Source.Module

/-! Loading a module from a directory. Every Terraform file below it belongs to the module, except
what is hidden or in a hidden directory. A file that cannot be read stays in the module without its
content. -/
namespace DeclOrder.Source

def isHidden (name : String) : Bool := name.toList.head? == some '.'

def fileExtension : String := "tf"

def isConfigFile (names : List String) : Bool :=
  match names.getLast? with
  | some name => Path.extension? name.toList == some fileExtension.toList
  | none => false

def pathOf (names : List String) : RepoPath := .ofString ("/".intercalate names)

def discover {α : Type} (tree : Tree α) : List RepoPath :=
  let found := (tree.files (!isHidden ·)).filter (fun (names, _) => isConfigFile names)
  (Table.ofList (found.map (fun (names, _) => ((pathOf names).text, ())))).keys.map RepoPath.mk

def loadFile (root : String) (path : RepoPath) : Action SourceFile := do
  let place := String.ofList (Path.join root.toList path.text.toList)
  match ← Action.readText place with
  | .ok text => return ofText path text.toList
  | .error e => return ⟨path, .unavailable ("read " ++ place ++ ": " ++ e.message)⟩

def loadFiles (root : String) : List RepoPath → Action (List SourceFile)
  | [] => return []
  | path :: rest => do
      let file ← loadFile root path
      return file :: (← loadFiles root rest)

def loadModule (root : String) : Action (Option Module) := do
  match ← Action.lookAt root with
  | some (_, .directory entries) => return some (.ofFiles (← loadFiles root (discover (.directory entries))))
  | _ => return none

def notDirectoryText (root : String) : String := root ++ " is not a directory"

end DeclOrder.Source
