import DeclOrder.Proofs.Loading.Files

/-! What a module is to a directory. It should hold one file for each visible Terraform file, under a
path of its own and with what that file holds. That is so, whatever the files hold, exactly when no name
on the way to one of them has a backslash: in the path of a file a backslash becomes a slash, and the
file is read again by that path. -/
namespace DeclOrder.Source

/-- A Terraform file below a directory that is not hidden: the names on the way to it, and what it holds. -/
structure Listed (tree : Tree ByteArray) (names : List String) (content : ByteArray) : Prop where
  stands : tree.find? names = some (.file content)
  visible : ∀ n ∈ names, n.toList.head? ≠ some '.'
  terraform : ∃ stem, names.getLast? = some (stem ++ ".tf")

def fileFor (root : String) (names : List String) (content : ByteArray) : SourceFile :=
  fileOf (.relativeTo root (Path.below root names)) (Path.below root names) (textOf content)

/-- The module holds one file for each listed file of the tree, and nothing else. -/
structure Faithful (root : String) (tree : Tree ByteArray) (m : Module) : Prop where
  holds : ∀ file, file ∈ m.fileList ↔ ∃ names content, Listed tree names content ∧ file = fileFor root names content
  apart : ∀ {names content others other}, Listed tree names content → Listed tree others other →
    (fileFor root names content).path = (fileFor root others other).path → names = others
  once : (m.fileList.map (·.path)).Nodup

def LoadsFaithfully (d : Disk) (root : String) (base : List String) : Prop :=
  ∃ tree m, d.top.find? base = some tree ∧ ((loadModule root).on d).1 = some (some m) ∧ Faithful root tree m

theorem isHiddenIff {name : String} : isHidden name = true ↔ name.toList.head? = some '.' := beq_iff_eq

theorem extensionTf {name : String} (visible : name.toList.head? ≠ some '.') :
    Path.extension? name.toList = some ['t', 'f'] ↔ ∃ stem, name = stem ++ ".tf" := by
  unfold Path.extension?
  constructor
  · intro found
    have whole : name.toList.reverse.takeWhile (· != '.') ++ name.toList.reverse.dropWhile (· != '.') = _ :=
      List.takeWhile_append_dropWhile
    have edge := List.head?_dropWhile_not (· != '.') name.toList.reverse
    cases behind : name.toList.reverse.dropWhile (· != '.') with
    | nil =>
        rw [behind] at found
        cases found
    | cons c rest =>
        rw [behind] at found edge whole
        obtain rfl : c = '.' := by simpa using edge
        cases rest with
        | nil => cases found
        | cons d rest =>
            rw [List.reverse_eq_iff.mp (Option.some.inj found)] at whole
            refine ⟨String.ofList (d :: rest).reverse, String.toList_inj.mp ?_⟩
            rw [← List.reverse_reverse name.toList, ← whole, String.toList_append, String.toList_ofList]
            simp
  · rintro ⟨stem, rfl⟩
    have turned : (stem ++ ".tf").toList.reverse = 'f' :: 't' :: '.' :: stem.toList.reverse := by
      rw [String.toList_append, List.reverse_append]
      rfl
    rw [turned]
    cases before : stem.toList.reverse with
    | nil =>
        rw [String.toList_append, List.reverse_eq_nil_iff.mp before] at visible
        exact (visible rfl).elim
    | cons d rest => rfl

theorem configIff {names : List String} (visible : ∀ n ∈ names, n.toList.head? ≠ some '.') :
    isConfigFile names = true ↔ ∃ stem, names.getLast? = some (stem ++ ".tf") := by
  unfold isConfigFile
  cases last : names.getLast? with
  | none => simp
  | some name =>
      have own := extensionTf (visible name (List.mem_of_getLast? last))
      simpa [fileExtension] using own

section Listing
variable {tree : Tree ByteArray} {names : List String} {content : ByteArray}

theorem Listed.nonempty (listed : Listed tree names content) : names ≠ [] := by
  obtain ⟨stem, last⟩ := listed.terraform
  intro none
  rw [none] at last
  cases last

theorem listedIff (sound : tree.Sound) :
    Listed tree names content ↔ (names, content) ∈ tree.files (!isHidden ·) ∧ isConfigFile names = true := by
  have visible : (∀ n ∈ names, (!isHidden n) = true) ↔ ∀ n ∈ names, n.toList.head? ≠ some '.' :=
    forall₂_congr (fun n _ => by rw [Bool.not_eq_true', Bool.eq_false_iff, Ne, isHiddenIff])
  rw [Tree.memFiles sound, visible]
  constructor
  · exact fun listed => ⟨⟨listed.stands, listed.visible⟩, (configIff listed.visible).mpr listed.terraform⟩
  · exact fun ⟨⟨stands, seen⟩, terraform⟩ => ⟨stands, seen, (configIff seen).mp terraform⟩

theorem foundIff (sound : tree.Sound) {path : RepoPath} :
    path ∈ discover (tree.map (fun _ => ())) ↔ ∃ names content, Listed tree names content ∧ path = pathOf names := by
  have files {names : List String} : (names, ()) ∈ (tree.map (fun _ => ())).files (!isHidden ·) ↔
      ∃ content, (names, content) ∈ tree.files (!isHidden ·) := by
    rw [Tree.memFiles ((Tree.soundMap _).mpr sound), Tree.findMap]
    simp only [Tree.memFiles sound, exists_and_right]
    refine and_congr_left (fun _ => ?_)
    constructor
    · intro mapped
      obtain ⟨u, stands, same⟩ := Option.map_eq_some_iff.mp mapped
      cases u with
      | file content => exact ⟨content, stands⟩
      | directory entries => cases same
    · rintro ⟨content, stands⟩
      rw [stands]
      rfl
  rw [memDiscover]
  constructor
  · rintro ⟨names, _, member, terraform, same⟩
    obtain ⟨content, member⟩ := files.mp member
    exact ⟨names, content, (listedIff sound).mpr ⟨member, terraform⟩, same⟩
  · rintro ⟨names, content, listed, same⟩
    obtain ⟨member, terraform⟩ := (listedIff sound).mp listed
    exact ⟨names, (), files.mpr ⟨content, member⟩, terraform, same⟩

end Listing

/-- A root that leads to a directory of a sound tree. -/
structure Rooted (d : Disk) (root : String) (base : List String) (entries : List (String × Tree ByteArray)) : Prop where
  sound : d.top.Sound
  leads : d.resolve root = .ok base
  stands : d.top.find? base = some (.directory entries)

section Loaded
variable {d : Disk} {root : String} {base : List String} {entries : List (String × Tree ByteArray)}
  {names : List String} {content : ByteArray}

theorem Rooted.present (rooted : Rooted d root base entries) : root ≠ "" := by
  rintro rfl
  cases rooted.leads

theorem Rooted.below (rooted : Rooted d root base entries) (listed : Listed (.directory entries) names content) :
    d.top.find? (base ++ names) = some (.file content) := by
  rw [Tree.findAppend, rooted.stands]
  exact listed.stands

theorem Rooted.legal (rooted : Rooted d root base entries) (listed : Listed (.directory entries) names content) :
    ∀ n ∈ names, Path.Legal n := Tree.legalNames (rooted.sound.below rooted.stands) listed.stands

theorem Rooted.path (rooted : Rooted d root base entries) (listed : Listed (.directory entries) names content) :
    (fileFor root names content).path = pathOf names := by
  rw [fileFor, fileOfPath, Path.relativeBelow rooted.present listed.nonempty (rooted.legal listed)]
  rfl

theorem pathPlain (rooted : Rooted d root base entries) (listed : Listed (.directory entries) names content)
    (plain : ∀ n ∈ names, '\\' ∉ n.toList) : pathOf names = ⟨"/".intercalate names⟩ :=
  Path.ofNames listed.nonempty (rooted.legal listed) listed.visible plain

theorem readAgain (rooted : Rooted d root base entries) (listed : Listed (.directory entries) names content)
    (plain : ∀ n ∈ names, '\\' ∉ n.toList) : fileOn d root (pathOf names) = fileFor root names content := by
  have nonempty := listed.nonempty
  have legal := rooted.legal listed
  have place : placeOf root (pathOf names) = Path.below root names := by
    rw [placeOf, pathPlain rooted listed plain, ← Path.joined, ← Path.belowJoined root nonempty legal, String.ofList_toList]
  have resolved : d.resolve (Path.below root names) = .ok (base ++ names) := by
    rw [← String.ofList_toList (s := Path.below root names), Path.belowJoined root nonempty legal,
      Disk.resolveJoin (Path.joinedRelative nonempty legal) (Path.joinedNonempty nonempty legal) rooted.leads,
      Path.stepsJoined nonempty legal]
    exact Disk.followNames (rooted.below listed)
  have held : d.read (Path.below root names) = .ok content := by
    simp only [Disk.read, resolved, rooted.below listed, bind, Except.bind]
  rw [fileOn, place, held, fileFor, ← rooted.path listed, fileFor, fileOfPath]
  rfl

theorem Rooted.loaded (rooted : Rooted d root base entries) :
    ∃ m, ((loadModule root).on d).1 = some (some m) ∧ ∀ file, file ∈ m.fileList ↔
      ∃ names content, Listed (.directory entries) names content ∧ file = fileOn d root (pathOf names) := by
  have sound := rooted.sound.below rooted.stands
  have loaded : moduleOn d root = _ := moduleDirectory rooted.leads rooted.stands
  refine ⟨_, congrArg Prod.fst ((loadModuleOn d root).trans (congrArg (fun m => (some m, d)) loaded)), fun file => ?_⟩
  rw [memLoaded (discoverDistinct _)]
  constructor
  · rintro ⟨path, found, same⟩
    obtain ⟨names, content, listed, rfl⟩ := (foundIff sound).mp found
    exact ⟨names, content, listed, same.symm⟩
  · rintro ⟨names, content, listed, same⟩
    have found := (foundIff sound).mpr ⟨names, content, listed, rfl⟩
    exact ⟨pathOf names, found, same.symm⟩

theorem faithfulPlain (rooted : Rooted d root base entries)
    (plain : ∀ names content, Listed (.directory entries) names content → ∀ n ∈ names, '\\' ∉ n.toList) :
    LoadsFaithfully d root base := by
  obtain ⟨m, loaded, held⟩ := rooted.loaded
  refine ⟨_, m, rooted.stands, loaded, fun file => ?_, ?_, m.pathsDistinct⟩
  · rw [held]
    constructor
    · rintro ⟨names, content, listed, same⟩
      exact ⟨names, content, listed, same.trans (readAgain rooted listed (plain names content listed))⟩
    · rintro ⟨names, content, listed, same⟩
      exact ⟨names, content, listed, same.trans (readAgain rooted listed (plain names content listed)).symm⟩
  · intro names content others other left right same
    rw [rooted.path left, rooted.path right, pathPlain rooted left (plain _ _ left),
      pathPlain rooted right (plain _ _ right)] at same
    exact Path.joinedInjective left.nonempty right.nonempty (fun n member => (rooted.legal left n member).slashless)
      (fun n member => (rooted.legal right n member).slashless) (congrArg (fun path => path.text.toList) same)

theorem Listed.alike {tree other : Tree ByteArray} (listed : Listed tree names content) (alike : Tree.Alike tree other) :
    ∃ content, Listed other names content := by
  rcases Tree.alikeCases alike names with ⟨left, -⟩ | ⟨_, new, _, right⟩ | ⟨_, _, left, -⟩
  · rw [listed.stands] at left
    cases left
  · exact ⟨new, right, listed.visible, listed.terraform⟩
  · rw [listed.stands] at left
    cases left

theorem Rooted.alike {top : Tree ByteArray} (rooted : Rooted d root base entries) (alike : Tree.Alike top d.top) :
    ∃ others, Rooted { d with top } root base others ∧ Tree.Alike (.directory others) (.directory entries) := by
  have leads : { d with top }.resolve root = .ok base := (Disk.resolveAlike alike root).trans rooted.leads
  have same := Tree.alikeFind alike base
  rw [rooted.stands] at same
  obtain ⟨t, stands, same⟩ := Option.map_eq_some_iff.mp same
  cases t with
  | file content => cases same
  | directory others => exact ⟨others, ⟨alike.sound rooted.sound, leads, stands⟩, same⟩

theorem readElsewhere (rooted : Rooted d root base entries) {n : String} (member : n ∈ names)
    (backslash : '\\' ∈ n.toList) : d.resolve (placeOf root (pathOf names)) ≠ .ok (base ++ names) := by
  intro leads
  have text : (pathOf names).text.toList = Path.normalize (Path.joined names) := String.toList_ofList
  rw [placeOf, text] at leads
  have kept := Disk.joinKeeps (Path.normalizeNonempty _) rooted.leads leads (Path.normalizePlain _)
  rw [List.drop_left] at kept
  exact kept n member backslash

/-- Where the loading is faithful whatever the files hold, a file with a backslash in its names would have
to be what is read elsewhere, whatever it holds. -/
theorem toldElsewhere (rooted : Rooted d root base entries) (listed : Listed (.directory entries) names content)
    {n : String} (member : n ∈ names) (backslash : '\\' ∈ n.toList)
    (faithful : ∀ top, Tree.Alike top d.top → LoadsFaithfully { d with top } root base) (new : ByteArray) :
    fileFor root names new = fileOn d root (pathOf names) := by
  have below := rooted.below listed
  have alike := Tree.putAlike new below
  obtain ⟨others, rooted', -⟩ := rooted.alike alike
  obtain ⟨tree, m, stands, loaded, faithful⟩ := faithful _ alike
  cases rooted'.stands.symm.trans stands
  -- With the new content the file is still listed, so the module has to hold it, and holds it at its path.
  have changed : Listed (.directory others) names new := by
    refine ⟨?_, listed.visible, listed.terraform⟩
    have here := Tree.findPut (.file new) (base ++ names) d.top
    rw [Tree.findAppend, rooted'.stands] at here
    exact here
  obtain ⟨m', loaded', held⟩ := rooted'.loaded
  cases loaded.symm.trans loaded'
  obtain ⟨found, _, listed', same⟩ := (held _).mp ((faithful.holds _).mpr ⟨names, new, changed, rfl⟩)
  have path := congrArg SourceFile.path same
  rw [rooted'.path changed, fileOn, fileOfPath] at path
  rw [same, ← path, fileOn, fileOn, Disk.readPut new below (readElsewhere rooted member backslash)]

/-- A module is loaded faithfully, whatever the files hold, exactly when no listed file has a backslash in
its names. -/
theorem everyFileLoaded (rooted : Rooted d root base entries) :
    (∀ top, Tree.Alike top d.top → LoadsFaithfully { d with top } root base) ↔
      ∀ names content, Listed (.directory entries) names content → ∀ n ∈ names, '\\' ∉ n.toList := by
  constructor
  · intro faithful names content listed n member backslash
    have told := toldElsewhere rooted listed member backslash faithful
    -- An empty file and one with a comment are different documents.
    have same := congrArg SourceFile.content ((told "".toUTF8).trans (told "#".toUTF8).symm)
    cases same
  · intro plain top alike
    obtain ⟨others, rooted', same⟩ := rooted.alike alike
    refine faithfulPlain rooted' (fun names content listed => ?_)
    obtain ⟨content, before⟩ := listed.alike same
    exact plain names content before

end Loaded

def netEntries : List (String × Tree ByteArray) :=
  [("main.tf", .file "a = 1\n".toUTF8), (".terraform", .directory [("cache.tf", .file "".toUTF8)]),
    ("vpc", .directory [("main.tf", .file "b = \n".toUTF8), ("readme.md", .file "".toUTF8)])]

def netDisk : Disk := .atRest ["work"] (.directory [("work", .directory []), ("net", .directory netEntries)])

theorem everyFileLoadedNet : Rooted netDisk "../net/" ["net"] netEntries ∧ LoadsFaithfully netDisk "../net/" ["net"] := by
  have file (text : String) : (Tree.file text.toUTF8).Sound := Tree.soundFile _
  have hidden : (Tree.directory [("cache.tf", Tree.file "".toUTF8)]).Sound :=
    Tree.soundDirectory (by decide) (by decide) (by simpa using file "")
  have vpc : (Tree.directory [("main.tf", Tree.file "b = \n".toUTF8), ("readme.md", Tree.file "".toUTF8)]).Sound :=
    Tree.soundDirectory (by decide) (by decide) (by simpa using ⟨file "b = \n", file ""⟩)
  have net : (Tree.directory netEntries).Sound :=
    Tree.soundDirectory (by decide) (by decide) (by simpa [netEntries] using ⟨file "a = 1\n", hidden, vpc⟩)
  have work : (Tree.directory ([] : List (String × Tree ByteArray))).Sound :=
    Tree.soundDirectory (by decide) (by decide) (List.forall_mem_nil _)
  have sound : netDisk.top.Sound := Tree.soundDirectory (by decide) (by decide) (by simpa using ⟨work, net⟩)
  have rooted : Rooted netDisk "../net/" ["net"] netEntries := ⟨sound, by rfl, by rfl⟩
  refine ⟨rooted, (everyFileLoaded rooted).mpr (fun names content listed => ?_) netDisk.top rfl⟩
  have files : ∀ found ∈ (Tree.directory netEntries).files (!isHidden ·), ∀ n ∈ found.1, '\\' ∉ n.toList := by decide
  exact files _ ((listedIff net).mp listed).1

def twistedEntries : List (String × Tree ByteArray) := [("a\\b.tf", .file "a = 1\n".toUTF8)]

def twistedDisk : Disk := .atRest [] (.directory twistedEntries)

/-- A file with a backslash in its name is looked for in a directory that is not there. -/
theorem backslashLost : Rooted twistedDisk "." [] twistedEntries ∧
    ((loadModule ".").on twistedDisk).1.join.map (·.fileList) =
      some [⟨⟨"a/b.tf"⟩, .unavailable "read ./a/b.tf: No such file or directory (os error 2)"⟩] ∧
    ¬ LoadsFaithfully twistedDisk "." [] := by
  have sound : twistedDisk.top.Sound :=
    Tree.soundDirectory (by decide) (by decide) (by simpa [twistedEntries] using Tree.soundFile "a = 1\n".toUTF8)
  have run : ((loadModule ".").on twistedDisk).1.join.map (·.fileList) =
    some [⟨⟨"a/b.tf"⟩, .unavailable "read ./a/b.tf: No such file or directory (os error 2)"⟩] := by rfl
  refine ⟨⟨sound, by rfl, by rfl⟩, run, ?_⟩
  rintro ⟨tree, m, stands, loaded, faithful⟩
  cases stands
  have listed : Listed (.directory twistedEntries) ["a\\b.tf"] "a = 1\n".toUTF8 :=
    ⟨by rfl, by decide, "a\\b", by rfl⟩
  have member := (faithful.holds _).mpr ⟨_, _, listed, rfl⟩
  rw [loaded] at run
  have held : m.fileList = _ := Option.some.inj run
  rw [held, List.mem_singleton] at member
  have same := congrArg SourceFile.content member
  cases same

end DeclOrder.Source
