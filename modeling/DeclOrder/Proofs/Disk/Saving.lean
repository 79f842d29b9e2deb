import DeclOrder.Proofs.Disk.Look

/-! Saving files. Nothing changes but the file itself and the directories that are made for it, and the
disk decides about a path as it did before. -/
namespace DeclOrder.Disk
open DeclOrder.Path (Step)
open DeclOrder.Tree (Grown SameFiles)

def left {ε α : Type} : Except (ε × α) α → α
  | .ok value => value
  | .error (_, value) => value

theorem leftMapError {ε φ α : Type} (x : Except (ε × α) α) (wrap : ε → φ) :
    left (x.mapError (fun (e, value) => (wrap e, value))) = left x ∧
      (x.mapError (fun (e, value) => (wrap e, value))).isOk = x.isOk := by
  cases x <;> exact ⟨rfl, rfl⟩

theorem leftOk {ε α : Type} {x : Except (ε × α) α} (ok : x.isOk = true) : x = .ok (left x) := by
  cases x with
  | error e => cases ok
  | ok value => rfl

/-! Making directories. -/

section Making
variable {steps : List Step} {names : List String} {top later : Tree ByteArray}

theorem makeAtDown (made : Bool) (name : String) (rest : List Step) (names : List String) (top : Tree ByteArray) :
    makeAt made (.down name :: rest) names top = match top.look (names ++ [name]) with
      | some .directory => makeAt made rest (names ++ [name]) top
      | some (.file _) => .error (if made || rest.isEmpty then .exists else .notDirectory, top)
      | none => makeAt true rest (names ++ [name]) (.put (.directory []) (names ++ [name]) top) := by
  rw [makeAt, Tree.look]
  cases top.find? (names ++ [name]) with
  | none => rfl
  | some u => cases u <;> rfl

theorem makeAtKeeps (made : Bool) (base : top.look names = some .directory) :
    Grown top (left (makeAt made steps names top)) ∧ SameFiles top (left (makeAt made steps names top)) := by
  induction steps generalizing made names top with
  | nil => exact ⟨.refl top, .refl top⟩
  | cons step rest ih =>
      cases step with
      | here => exact ih made base
      | up => exact ih made (Tree.lookDropLast base)
      | down name =>
          rw [makeAtDown]
          split
          · rename_i directory
            exact ih made directory
          · exact ⟨.refl top, .refl top⟩
          · rename_i absent
            have there : (Tree.put (.directory []) (names ++ [name]) top).look (names ++ [name]) = some .directory := by
              rw [Tree.lookDirectory base absent, if_pos rfl]
            obtain ⟨grown, same⟩ := ih true there
            exact ⟨(Tree.directoryGrown base absent).trans grown, (Tree.directorySame base absent).trans same⟩

theorem makeAtAgain (made again : Bool) (base : top.look names = some .directory)
    (grown : Grown (left (makeAt made steps names top)) later) :
    left (makeAt again steps names later) = later ∧
      (makeAt again steps names later).isOk = (makeAt made steps names top).isOk := by
  induction steps generalizing made names top with
  | nil => exact ⟨rfl, rfl⟩
  | cons step rest ih =>
      cases step with
      | here => exact ih made base grown
      | up => exact ih made (Tree.lookDropLast base) grown
      | down name =>
          rw [makeAtDown] at grown
          rw [makeAtDown again, makeAtDown made]
          cases found : top.look (names ++ [name]) with
          | none =>
              rw [found] at grown
              have there : (Tree.put (.directory []) (names ++ [name]) top).look (names ++ [name]) = some .directory := by
                rw [Tree.lookDirectory base found, if_pos rfl]
              rw [((makeAtKeeps true there).1.trans grown).directories _ there]
              exact ih true there grown
          | some kind =>
              rw [found] at grown
              cases kind with
              | file content =>
                  obtain ⟨held, file⟩ := grown.files _ content found
                  rw [file]
                  exact ⟨rfl, rfl⟩
              | directory =>
                  rw [((makeAtKeeps made found).1.trans grown).directories _ found]
                  exact ih made found grown

end Making

/-! Disks that only grow. -/

/-- The same working directory, with what was there and perhaps more. -/
structure Later (d e : Disk) : Prop where
  home : e.home = d.home
  grown : Grown d.top e.top

theorem Later.refl (d : Disk) : Later d d := ⟨rfl, .refl d.top⟩

theorem Later.trans {d e f : Disk} (first : Later d e) (second : Later e f) : Later d f :=
  ⟨second.home.trans first.home, first.grown.trans second.grown⟩

variable {d e : Disk} {path : String} {content : ByteArray} {start : List String}

theorem stepsLater (later : Later d e) (path : String) : e.stepsTo path = d.stepsTo path := by
  rw [stepsTo, stepsTo, later.home]

def fileOf? (d : Disk) (path : String) : Option (List String) :=
  match d.stepsTo path with
  | .error _ => none
  | .ok (start, steps) => match steps.getLast? with
      | some (.down name) => some (steps.dropLast.foldl lead start ++ [name])
      | _ => none

/-- Paths that name different files, if each of them names one. -/
def Apart (d : Disk) (path other : String) : Prop := ∀ place, d.fileOf? path = some place → d.fileOf? other ≠ some place

theorem fileLater (later : Later d e) (path : String) : e.fileOf? path = d.fileOf? path := by
  rw [fileOf?, fileOf?, stepsLater later]

def Rooted (d : Disk) : Prop := d.top.look d.home = some .directory

theorem Later.rooted (later : Later d e) (rooted : d.Rooted) : e.Rooted := by
  rw [Rooted, later.home]
  exact later.grown.directories d.home rooted

theorem Rooted.root (rooted : d.Rooted) : d.top.look [] = some .directory := by
  unfold Rooted at rooted
  cases top : d.top with
  | directory entries => rfl
  | file content =>
      rw [top] at rooted
      cases home : d.home with
      | nil =>
          rw [home] at rooted
          cases rooted
      | cons name names =>
          rw [home] at rooted
          cases rooted

theorem startDirectory (rooted : d.Rooted) {steps : List Step} (found : d.stepsTo path = .ok (start, steps)) :
    d.top.look start = some .directory := by
  unfold stepsTo at found
  split at found
  · cases found
  · cases found
    split
    · exact rooted.root
    · exact rooted

theorem makeSteps {steps : List Step} (found : d.stepsTo path = .ok (start, steps)) :
    left (d.makeDirectories path) = { d with top := left (makeAt false steps start d.top) } ∧
      (d.makeDirectories path).isOk = (makeAt false steps start d.top).isOk := by
  unfold makeDirectories
  rw [found]
  dsimp only
  cases makeAt false steps start d.top <;> exact ⟨rfl, rfl⟩

section Preparing
variable (rooted : d.Rooted)
include rooted

theorem makeKeeps (path : String) :
    Later d (left (d.makeDirectories path)) ∧ SameFiles d.top (left (d.makeDirectories path)).top := by
  cases found : d.stepsTo path with
  | error e =>
      rw [makeDirectories, found]
      exact ⟨.refl d, .refl d.top⟩
  | ok taken =>
      obtain ⟨grown, same⟩ := @makeAtKeeps taken.2 taken.1 d.top false (startDirectory rooted found)
      rw [(makeSteps found).1]
      exact ⟨⟨rfl, grown⟩, same⟩

theorem makeAgain (later : Later (left (d.makeDirectories path)) e) :
    left (e.makeDirectories path) = e ∧ (e.makeDirectories path).isOk = (d.makeDirectories path).isOk := by
  have steps := stepsLater ((makeKeeps rooted path).1.trans later) path
  cases found : d.stepsTo path with
  | error cause =>
      rw [makeDirectories, makeDirectories, steps, found]
      exact ⟨rfl, rfl⟩
  | ok taken =>
      rw [found] at steps
      obtain ⟨first, firstOk⟩ := makeSteps found
      obtain ⟨second, secondOk⟩ := makeSteps steps
      rw [first] at later
      obtain ⟨same, asBefore⟩ := makeAtAgain false false (startDirectory rooted found) later.grown
      rw [second, same, firstOk, secondOk]
      exact ⟨rfl, asBefore⟩

theorem prepareKeeps (path : String) :
    Later d (left (d.prepare path)) ∧ SameFiles d.top (left (d.prepare path)).top := by
  unfold prepare
  cases Path.parent? path.toList with
  | none => exact ⟨.refl d, .refl d.top⟩
  | some above =>
      dsimp only
      split
      · exact ⟨.refl d, .refl d.top⟩
      · rw [(leftMapError _ _).1]
        exact makeKeeps rooted _

theorem prepareAgain (later : Later (left (d.prepare path)) e) :
    left (e.prepare path) = e ∧ (e.prepare path).isOk = (d.prepare path).isOk := by
  unfold prepare at later ⊢
  cases parent : Path.parent? path.toList with
  | none => exact ⟨rfl, rfl⟩
  | some above =>
      rw [parent] at later
      dsimp only at later ⊢
      split
      · exact ⟨rfl, rfl⟩
      · rename_i some
        rw [if_neg some, (leftMapError _ _).1] at later
        rw [(leftMapError _ _).1, (leftMapError _ _).2, (leftMapError _ _).2]
        exact makeAgain rooted later

end Preparing

/-! Writing. -/

structure Room (d : Disk) (path : String) (names : List String) (name : String) : Prop where
  plain : path.toList.getLast? ≠ some '/'
  leads : ∃ start front, d.stepsTo path = .ok (start, front ++ [.down name]) ∧ follow d.top front start = .ok names
  parent : d.top.look names = some .directory
  free : d.top.look (names ++ [name]) ≠ some .directory

section Writing
variable {names : List String} {name : String}

theorem roomFile (room : d.Room path names name) : d.fileOf? path = some (names ++ [name]) := by
  obtain ⟨start, front, steps, leads⟩ := room.leads
  rw [fileOf?, steps]
  simp only [List.getLast?_append, List.getLast?_singleton, Option.some_or, List.dropLast_concat]
  rw [followLead leads]

theorem writeRoom (room : d.Room path names name) (content : ByteArray) :
    d.write path content = .ok { d with top := .put (.file content) (names ++ [name]) d.top } := by
  obtain ⟨entries, found⟩ := Tree.findDirectory.mpr room.parent
  have free := room.free
  rw [Tree.lookBelow found] at free
  obtain ⟨start, front, steps, leads⟩ := room.leads
  unfold write
  rw [steps]
  simp only [bind, Except.bind, room.plain, if_false, List.dropLast_concat, leads, found, List.getLast?_append,
    List.getLast?_singleton, Option.some_or]
  cases entry : entries.lookup name with
  | none => rfl
  | some t =>
      cases t with
      | file old => rfl
      | directory below => exact (free (by rw [entry]; rfl)).elim

theorem roomOfWrite {after : Disk} (written : d.write path content = .ok after) :
    ∃ names name, d.Room path names name := by
  unfold write at written
  obtain ⟨⟨start, steps⟩, taken, written⟩ := bindOk.mp written
  dsimp only at written
  split at written
  · cases written
  · rename_i plain
    obtain ⟨names, leads, written⟩ := bindOk.mp written
    split at written
    · rename_i entries name found last
      refine ⟨names, name, plain, ⟨start, steps.dropLast, ?_, leads⟩, Tree.findDirectory.mp ⟨entries, found⟩, ?_⟩
      · rw [taken, ← List.dropLast_append_getLast? _ last]
        simp
      · rw [Tree.lookBelow found]
        split at written
        · cases written
        · rename_i other
          cases entry : entries.lookup name with
          | none => exact nofun
          | some t => cases t with
              | file old => exact nofun
              | directory below => exact (other below entry).elim
    · cases written
    · cases written
    · cases written

theorem Room.later (room : d.Room path names name) (later : Later d e)
    (free : e.top.look (names ++ [name]) ≠ some .directory) : e.Room path names name where
  plain := room.plain
  leads := by
    obtain ⟨start, front, steps, leads⟩ := room.leads
    exact ⟨start, front, (stepsLater later path).trans steps, followGrown later.grown leads⟩
  parent := later.grown.directories names room.parent
  free := free

theorem Room.resolve (room : d.Room path names name) {held : ByteArray}
    (file : d.top.look (names ++ [name]) = some (.file held)) : d.resolve path = .ok (names ++ [name]) := by
  have last : advance d.top names (.down name) = .ok (names ++ [name]) :=
    advanceOk.mpr ⟨rfl, room.parent, by rw [file]; rfl⟩
  obtain ⟨start, front, steps, leads⟩ := room.leads
  have whole : follow d.top (front ++ [.down name]) start = .ok (names ++ [name]) := by
    rw [followAppend, leads]
    exact followConsOk.mpr ⟨_, last, rfl⟩
  rw [Disk.resolve, steps]
  exact whole

theorem saveRoom {prepared : Disk} (made : d.prepare path = .ok prepared) (room : prepared.Room path names name)
    (content : ByteArray) : d.save path content =
      ({ prepared with top := .put (.file content) (names ++ [name]) prepared.top }, .ok ()) := by
  simp only [save, made, writeRoom room content]

end Writing

/-! Saving. -/

theorem saveCases (d : Disk) (path : String) :
    (∃ prepared names name, d.prepare path = .ok prepared ∧ prepared.Room path names name ∧
      ∀ content, d.save path content =
        ({ prepared with top := .put (.file content) (names ++ [name]) prepared.top }, .ok ())) ∨
    ∀ content, ∃ e, d.save path content = (left (d.prepare path), .error e) := by
  cases made : d.prepare path with
  | error cause => exact .inr fun content => ⟨cause.1, by rw [save, made]; rfl⟩
  | ok prepared =>
      by_cases fits : ∃ names name, prepared.Room path names name
      · obtain ⟨names, name, room⟩ := fits
        exact .inl ⟨prepared, names, name, rfl, room, saveRoom made room⟩
      · refine .inr fun content => ?_
        cases written : prepared.write path content with
        | error e => exact ⟨.file path e, by simp only [save, made, written]; rfl⟩
        | ok after => exact (fits (roomOfWrite written)).elim

section Saving
variable (rooted : d.Rooted)
include rooted

theorem saveLater (path : String) (content : ByteArray) : Later d (d.save path content).1 := by
  have prepared := (prepareKeeps rooted path).1
  rcases saveCases d path with ⟨ready, names, name, made, room, saves⟩ | fails
  · rw [made] at prepared
    rw [saves content]
    exact prepared.trans ⟨rfl, Tree.fileGrown content room.parent room.free⟩
  · obtain ⟨e, failed⟩ := fails content
    rw [failed]
    exact prepared

theorem saveElsewhere {place : List String} (other : d.fileOf? path ≠ some place) (content held : ByteArray) :
    (d.save path content).1.top.look place = some (.file held) ↔ d.top.look place = some (.file held) := by
  obtain ⟨later, same⟩ := prepareKeeps rooted path
  rcases saveCases d path with ⟨ready, names, name, made, room, saves⟩ | fails
  · rw [made] at later same
    have differ : place ≠ names ++ [name] := by
      rintro rfl
      exact other (by rw [← fileLater later, left, roomFile room])
    rw [saves content]
    show (Tree.put _ _ ready.top).look place = _ ↔ _
    rw [Tree.lookPut rfl room.parent room.free, if_neg differ]
    exact same place held
  · obtain ⟨e, failed⟩ := fails content
    rw [failed]
    exact same place held

/-- A path that refuses one content refuses any, now and behind the attempt. No file is changed. -/
theorem saveRefused {e : SaveError} (refused : (d.save path content).2 = .error e) :
    SameFiles d.top (d.save path content).1.top ∧ (∀ other, ∃ e, (d.save path other).2 = .error e) ∧
      ∀ other, ∃ e, (d.save path content).1.save path other = ((d.save path content).1, .error e) := by
  obtain ⟨later, same⟩ := prepareKeeps rooted path
  rcases saveCases d path with ⟨ready, names, name, made, room, saves⟩ | fails
  · rw [saves content] at refused
    cases refused
  · obtain ⟨e, failed⟩ := fails content
    rw [failed]
    refine ⟨same, fun other => (fails other).imp fun e failed => by rw [failed], fun other => ?_⟩
    obtain ⟨kept, asBefore⟩ := prepareAgain rooted (.refl (left (d.prepare path)))
    rcases saveCases (left (d.prepare path)) path with ⟨ready, names, name, made, room, saves⟩ | again
    · rw [made] at kept asBefore
      obtain rfl : ready = left (d.prepare path) := kept
      have saved := congrArg Prod.snd ((saveRoom (leftOk asBefore.symm) room content).symm.trans failed)
      cases saved
    · rw [kept] at again
      exact again other

theorem saveDone (done : (d.save path content).2 = .ok ()) :
    ∃ place, d.fileOf? path = some place ∧ (d.save path content).1.top.look place = some (.file content) ∧
      ∀ e, Later (d.save path content).1 e → e.resolve path = .ok place ∧ ∀ other, (e.save path other).2 = .ok () := by
  have later := (prepareKeeps rooted path).1
  rcases saveCases d path with ⟨ready, names, name, made, room, saves⟩ | fails
  · rw [made] at later
    have grown := Tree.fileGrown content room.parent room.free
    rw [saves content]
    have place := (fileLater later path).symm.trans (roomFile room)
    have written : (Tree.put (.file content) (names ++ [name]) ready.top).look (names ++ [name]) = some (.file content) := by
      rw [Tree.lookPut rfl room.parent room.free, if_pos rfl]
      rfl
    refine ⟨names ++ [name], place, written, fun e further => ?_⟩
    have since : Later ready e := ⟨further.home, grown.trans further.grown⟩
    obtain ⟨held, file⟩ := further.grown.files _ content written
    have still : e.Room path names name := room.later since (by rw [file]; exact nofun)
    have sincePrepared : Later (left (d.prepare path)) e := by
      rw [made]
      exact since
    obtain ⟨kept, asBefore⟩ := prepareAgain rooted sincePrepared
    rw [made] at asBefore
    have again : e.prepare path = .ok e := (leftOk asBefore).trans (congrArg Except.ok kept)
    exact ⟨still.resolve file, fun other => by rw [saveRoom again still other]⟩
  · obtain ⟨e, failed⟩ := fails content
    rw [failed] at done
    cases done

end Saving

/-! The clock. -/

structure Waited (d e : Disk) : Prop where
  home : e.home = d.home
  top : e.top = d.top
  clock : ∃ n, ∀ k, e.clock k = d.clock (n + k)

theorem Waited.refl (d : Disk) : Waited d d := ⟨rfl, rfl, 0, fun k => by rw [Nat.zero_add]⟩

theorem Waited.ticked (waited : Waited d e) : Waited d e.ticked where
  home := waited.home
  top := waited.top
  clock := by
    obtain ⟨n, same⟩ := waited.clock
    exact ⟨n + 1, fun k => (same (k + 1)).trans (by rw [Nat.add_right_comm, Nat.add_assoc])⟩

theorem prepareClock (d : Disk) (clock : Nat → Nat) (dated) (path : String) :
    ({ d with clock, dated } : Disk).prepare path = match d.prepare path with
      | .ok ready => .ok { ready with clock, dated }
      | .error (e, left) => .error (e, { left with clock, dated }) := by
  have steps (path : String) : ({ d with clock, dated } : Disk).stepsTo path = d.stepsTo path := rfl
  unfold prepare makeDirectories
  cases Path.parent? path.toList with
  | none => rfl
  | some above =>
      dsimp only
      split
      · rfl
      · rw [steps]
        rcases d.stepsTo (String.ofList above) with cause | ⟨start, taken⟩
        · rfl
        · dsimp only
          cases makeAt false taken start d.top <;> rfl

theorem writeClock (d : Disk) (clock : Nat → Nat) (dated) (path : String) (content : ByteArray) :
    ({ d with clock, dated } : Disk).write path content =
      (d.write path content).map (fun written => { written with clock, dated }) := by
  have steps (path : String) : ({ d with clock, dated } : Disk).stepsTo path = d.stepsTo path := rfl
  unfold write
  rw [steps]
  rcases d.stepsTo path with cause | ⟨start, taken⟩
  · rfl
  · simp only [bind, Except.bind]
    split
    · rfl
    · cases follow d.top taken.dropLast start with
      | error cause => rfl
      | ok names =>
          dsimp only
          rcases d.top.find? names with _ | content | entries
          · rfl
          · rcases taken.getLast? with _ | _ | _ | name <;> rfl
          · rcases taken.getLast? with _ | _ | _ | name
            · rfl
            · rfl
            · rfl
            · dsimp only
              rcases entries.lookup name with _ | old | below <;> rfl

theorem saveClock (d : Disk) (clock : Nat → Nat) (dated) (path : String) (content : ByteArray) :
    ({ d with clock, dated } : Disk).save path content =
      ({ (d.save path content).1 with clock, dated }, (d.save path content).2) := by
  unfold save
  rw [prepareClock]
  rcases d.prepare path with ⟨cause, left⟩ | ready
  · rfl
  · dsimp only
    rw [writeClock]
    cases ready.write path content <;> rfl

theorem saveKeepsClock (d : Disk) (path : String) (content : ByteArray) : (d.save path content).1.clock = d.clock :=
  congrArg (·.1.clock) (saveClock d d.clock d.dated path content)

theorem Waited.save (waited : Waited d e) (path : String) (content : ByteArray) :
    (e.save path content).2 = (d.save path content).2 ∧ Waited (d.save path content).1 (e.save path content).1 := by
  obtain ⟨home, top, clock, dated⟩ := e
  obtain ⟨rfl, rfl, n, later⟩ := waited
  obtain ⟨left, answer⟩ := Prod.ext_iff.mp (saveClock d clock dated path content)
  refine ⟨answer, by rw [left], by rw [left], n, fun k => ?_⟩
  rw [saveKeepsClock, saveKeepsClock]
  exact later k

theorem Waited.rooted (waited : Waited d e) (rooted : d.Rooted) : e.Rooted := by
  unfold Rooted
  rw [waited.home, waited.top]
  exact rooted

theorem Waited.apart {other : String} (waited : Waited d e) (apart : d.Apart path other) : e.Apart path other := by
  obtain ⟨home, top, clock, dated⟩ := e
  obtain ⟨rfl, rfl, -⟩ := waited
  exact apart

theorem readPlace {place : List String} (leads : d.resolve path = .ok place)
    (file : d.top.look place = some (.file content)) : d.read path = .ok content := by
  unfold read
  rw [leads]
  simp only [bind, Except.bind, Tree.findFile.mpr file]

section Saved
variable (rooted : d.Rooted) (done : (d.save path content).2 = .ok ())
include rooted done

theorem readSaved : (d.save path content).1.read path = .ok content := by
  obtain ⟨place, -, file, since⟩ := saveDone rooted done
  exact readPlace (since _ (.refl _)).1 file

theorem readApart {other : String} (apart : d.Apart path other) (written : ByteArray) :
    ((d.save path content).1.save other written).1.read path = .ok content := by
  obtain ⟨place, names, file, since⟩ := saveDone rooted done
  have later := saveLater rooted path content
  have rootedAfter := later.rooted rooted
  have differ : (d.save path content).1.fileOf? other ≠ some place := fileLater later other ▸ apart place names
  exact readPlace (since _ (saveLater rootedAfter other written)).1
    ((saveElsewhere rootedAfter differ written content).mpr file)

theorem saveOver (other : String) (written again : ByteArray) :
    (((d.save path content).1.save other written).1.save path again).2 = .ok () := by
  obtain ⟨place, -, -, since⟩ := saveDone rooted done
  exact (since _ (saveLater ((saveLater rooted path content).rooted rooted) other written)).2 again

end Saved
end DeclOrder.Disk
