import DeclOrder.Source.Loading
import DeclOrder.Proofs.Disk.Following
import DeclOrder.Proofs.History

/-! The files of a loaded module: one for each path that is found in the directory, read again from
below the root. -/
namespace DeclOrder.Source

def placeOf (root : String) (path : RepoPath) : String := String.ofList (Path.join root.toList path.text.toList)

def fileOf (path : RepoPath) (place : String) : Except FileError String → SourceFile
  | .ok text => ofText path text.toList
  | .error e => ⟨path, .unavailable ("read " ++ place ++ ": " ++ e.message)⟩

def fileOn (d : Disk) (root : String) (path : RepoPath) : SourceFile :=
  fileOf path (placeOf root path) ((d.read (placeOf root path)).bind textOf)

theorem ofTextPath (path : RepoPath) (text : List Char) : (ofText path text).path = path := by
  unfold ofText parse?
  cases Hcl.parsePlaced? text <;> rfl

theorem fileOfPath (path : RepoPath) (place : String) (answer : Except FileError String) :
    (fileOf path place answer).path = path := by
  cases answer with
  | error e => rfl
  | ok text => exact ofTextPath path text.toList

theorem loadFileOn (d : Disk) (root : String) (path : RepoPath) : (loadFile root path).on d =
    (some (fileOn d root path), d) := by
  unfold loadFile fileOn
  rw [Action.onBindSome (Action.onReadText _ d), ← placeOf]
  cases (d.read (placeOf root path)).bind textOf <;> rfl

theorem loadFilesOn (d : Disk) (root : String) (paths : List RepoPath) :
    (loadFiles root paths).on d = (some (paths.map (fileOn d root)), d) := by
  induction paths with
  | nil => exact Action.onPure [] d
  | cons path rest ih =>
      unfold loadFiles
      rw [Action.onBindSome (loadFileOn d root path), Action.onBindSome ih]
      rfl

def moduleOn (d : Disk) (root : String) : Option Module :=
  match d.survey root with
  | some (_, .directory entries) => some (.ofFiles ((discover (.directory entries)).map (fileOn d root)))
  | _ => none

theorem loadModuleOn (d : Disk) (root : String) : (loadModule root).on d = (some (moduleOn d root), d) := by
  unfold loadModule moduleOn
  rw [Action.onBindSome (Action.onLookAt root d)]
  rcases d.survey root with _ | ⟨place, content | entries⟩
  · rfl
  · rfl
  · show Action.on (loadFiles root (discover (.directory entries)) >>= _) d = _
    rw [Action.onBindSome (loadFilesOn d root _)]
    rfl

variable {d : Disk} {root : String} {base : List String} {entries : List (String × Tree ByteArray)}

theorem moduleDirectory (leads : d.resolve root = .ok base) (directory : d.top.find? base = some (.directory entries)) :
    moduleOn d root =
      some (.ofFiles ((discover (Tree.map (fun _ => ()) (.directory entries))).map (fileOn d root))) := by
  simp only [moduleOn, Disk.survey, leads, directory]
  rfl

theorem memLoaded {paths : List RepoPath} (distinct : paths.Nodup) {file : SourceFile} :
    file ∈ (Module.ofFiles (paths.map (fileOn d root))).fileList ↔ ∃ path ∈ paths, fileOn d root path = file := by
  have own : (paths.map (fileOn d root)).map (·.path) = paths := by
    rw [List.map_map]
    exact (List.map_congr_left (fun path _ => fileOfPath path _ _)).trans (List.map_id _)
  rw [← own] at distinct
  rw [Module.memOfFiles distinct, List.mem_map]

theorem discoverDistinct {α : Type} (tree : Tree α) : (discover tree).Nodup := by
  unfold discover Table.keys
  rw [List.nodup_map_iff (fun a b same => congrArg RepoPath.text same)]
  exact Table.ascendingKeys (Table.ofList _).ascending

theorem memDiscover {α : Type} {tree : Tree α} {path : RepoPath} :
    path ∈ discover tree ↔
      ∃ names content, (names, content) ∈ tree.files (!isHidden ·) ∧ isConfigFile names = true ∧ path = pathOf names := by
  have key {keys : List String} : path ∈ keys.map RepoPath.mk ↔ path.text ∈ keys :=
    ⟨fun member => by obtain ⟨_, there, rfl⟩ := List.mem_map.mp member; exact there,
      fun there => List.mem_map.mpr ⟨path.text, there, rfl⟩⟩
  unfold discover
  rw [key, Table.memOfList, List.map_map, List.mem_map]
  constructor
  · rintro ⟨⟨names, content⟩, member, same⟩
    obtain ⟨listed, terraform⟩ := List.mem_filter.mp member
    exact ⟨names, content, listed, terraform, RepoPath.ext same.symm⟩
  · rintro ⟨names, content, listed, terraform, rfl⟩
    exact ⟨(names, content), List.mem_filter.mpr ⟨listed, terraform⟩, rfl⟩

end DeclOrder.Source
