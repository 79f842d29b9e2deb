import DeclOrder.Proofs.Command.Steps
import DeclOrder.Proofs.Independence
import DeclOrder.Proofs.Overlong

/-! The exit status of a check and the report that it leaves. Whatever stage fails, the report tells the
same as the exit status, unless no report can be written. Only a run that panics leaves neither. -/
namespace DeclOrder.Command
open OutputOrder (Overlong checkPanics turnedText)

variable {d e after : Disk} {o : Options} {report root : String} {comment : Option String} {found : Report}

/-! Stages. -/

def saving (report : String) (comment : Option String) (root : String) (found : Report) :
    ExceptT CheckFailure Action (String × Report) := do
  saveReport report found
  match comment with
  | some path => attempt .markdownNotSaved (Action.saveText path (markdownText found))
  | none => pure ()
  return (root, found)

theorem checkModuleOn (o : Options) (report : String) (comment : Option String) (d : Disk) :
    (∃ cause left, Disk.Waited d left ∧ (checkModule o report comment).run.on d = (some (.error cause), left) ∧
      ∀ root policy m, ¬ Reads o d root policy m) ∨
    ∃ root policy m, Reads o d root policy m ∧
      (checkModule o report comment).run.on d = match Check.evaluated policy m with
        | none => (none, d.ticked)
        | some r => (saving report comment root (.ofDomain d.now d.ticked.now r)).run.on d.ticked.ticked := by
  unfold checkModule
  obtain ⟨rootAnswer, rootRan, rootIs⟩ := findRootOn o.root d
  rw [onThen, rootRan]
  cases rootAnswer with
  | error cause =>
      refine .inl ⟨cause, d, .refl d, rfl, fun root policy m reads => ?_⟩
      cases (rootIs root).mpr reads.directory
  | ok root =>
      have directory := (rootIs root).mp rfl
      have sameRoot {other : String} {policy : Policy} {m : Module} (reads : Reads o d other policy m) : root = other :=
        Except.ok.inj ((rootIs other).mpr reads.directory)
      obtain ⟨configAnswer, configRan, configIs⟩ := configTextOn root o.config d
      dsimp only
      rw [onThen, configRan]
      cases configAnswer with
      | error cause =>
          refine .inl ⟨cause, d, .refl d, rfl, fun other policy m reads => ?_⟩
          obtain rfl := sameRoot reads
          obtain ⟨text, told, -⟩ := reads.config
          cases (configIs text).mpr told
      | ok text =>
          have told := (configIs text).mp rfl
          dsimp only
          rw [onThen, onAttempt]
          rcases checkRunOn root text o.overrides d with ⟨cause, ran, never⟩ | ⟨policy, m, settled, files, ran⟩
          · refine .inl ⟨.unchecked cause, d.ticked, (Disk.Waited.refl d).ticked, by rw [ran]; rfl, fun other policy m reads => ?_⟩
            obtain rfl := sameRoot reads
            obtain ⟨text', told', settled⟩ := reads.config
            obtain rfl := configOnce told told'
            exact never policy m settled reads.files
          · refine .inr ⟨root, policy, m, ⟨directory, ⟨text, told, settled⟩, files⟩, ?_⟩
            rw [ran]
            cases Check.evaluated policy m <;> rfl

theorem savingOn {text : String} (written : found.written = .ok text) (d : Disk) :
    (saving report comment root found).run.on d = match d.save report text.toUTF8 with
      | (after, .error cause) => (some (.error (.reportNotSaved cause)), after)
      | (after, .ok _) => match comment with
          | none => (some (.ok (root, found)), after)
          | some path => match after.save path (markdownText found).toUTF8 with
              | (last, .error cause) => (some (.error (.markdownNotSaved cause)), last)
              | (last, .ok _) => (some (.ok (root, found)), last) := by
  rw [saving, onThen, saveReportOn, written]
  dsimp only
  rcases d.save report text.toUTF8 with ⟨after, _ | _⟩
  · rfl
  · cases comment with
    | none => rfl
    | some path =>
        show (attempt CheckFailure.markdownNotSaved (Action.saveText path (markdownText found)) >>= fun _ => pure (root, found)).run.on
          after = _
        rw [onThen, onAttempt, onSaveText]
        dsimp only
        rcases after.save path (markdownText found).toUTF8 with ⟨last, _ | _⟩ <;> rfl

/-! What is left. -/

def Stored (d : Disk) (path : String) (r : Report) : Prop := ((readReport path).run.on d).1 = some (.ok r)

theorem textOfBytes (text : String) : textOf text.toUTF8 = .ok text := by
  have valid : text.toUTF8.IsValidUTF8 := text.isValidUTF8
  rw [textOf, String.fromUTF8?, dif_pos valid]
  rfl

theorem storedText {path text : String} {r : Report} (read : d.read path = .ok text.toUTF8)
    (parsed : Report.parse text = .ok r) : Stored d path r := by
  have told : (d.read path).bind textOf = .ok text := by rw [read]; exact textOfBytes text
  unfold Stored readReport
  rw [onThen, onAttempt, Action.onReadText, told]
  show ((attempt ReportFailure.malformed (pure (Report.parse text))).run.on d).1 = some (.ok r)
  rw [onAttempt, Action.onPure, parsed]
  rfl

theorem storedSerialized {path : String} {r : Report} (storable : r.Storable)
    (read : d.read path = .ok r.serialize.toUTF8) : Stored d path r :=
  storedText read (Report.parseSerialized storable)

/-- An exit status, and the report that it stands for. -/
inductive Agrees (before : Disk) (report : String) (after : Disk) : Nat → Prop where
  | clean {r : Report} (stored : Stored after report r) (whole : r.summary.errors = [])
      (verdict : r.verdict = .pass ∨ r.verdict = .warn) : Agrees before report after 0
  | failing {r : Report} (stored : Stored after report r) (whole : r.summary.errors = [])
      (verdict : r.verdict = .fail) : Agrees before report after 2
  | escaped {r : Report} (stored : Stored after report r) (errors : r.summary.errors ≠ []) :
      Agrees before report after 1
  | stopped {n : Nat} {message : String}
      (stored : Stored after report (.runtimeError (.ofUnix (before.clock n)) message)) : Agrees before report after 1
  | unwritten (refused : ∀ content, ∃ cause, (before.save report content).2 = .error cause)
      (kept : before.top.SameFiles after.top) : Agrees before report after 1

theorem checkedAgrees {before : Disk} (stored : Stored after report found) :
    Agrees before report after (checkedExit report root found).code := by
  unfold checkedExit Report.hasToolErrors
  cases errors : found.summary.errors with
  | nil =>
      show Agrees before report after found.verdict.exitCode
      cases verdict : found.verdict with
      | pass => exact .clean stored errors (.inl verdict)
      | warn => exact .clean stored errors (.inr verdict)
      | fail => exact .failing stored errors verdict
  | cons cause rest => exact .escaped stored (by rw [errors]; exact List.cons_ne_nil cause rest)

theorem checkedExitCode (report root : String) (found : Report) : (checkedExit report root found).code =
    if found.summary.errors = [] then found.verdict.exitCode else toolErrorCode := by
  unfold checkedExit Report.hasToolErrors
  cases found.summary.errors <;> rfl

structure Comes (o : Options) (d : Disk) (root : String) (found : Report) : Prop where
  report : ∃ policy m r, Reads o d root policy m ∧ Check.evaluated policy m = some r ∧
    found = .ofDomain d.now d.ticked.now r

/-- A check whose stages all went well: it came to a report and saved it, with the Markdown if that was asked for. -/
structure Completed (o : Options) (report : String) (comment : Option String) (d : Disk) (root : String) (found : Report) :
    Prop where
  comes : Comes o d root found
  saved : (d.save report found.serialize.toUTF8).2 = .ok ()
  commented : ∀ path ∈ comment,
    ((d.save report found.serialize.toUTF8).1.save path (markdownText found).toUTF8).2 = .ok ()

theorem runCheckOn (o : Options) (report : String) (comment : Option String) (d : Disk) :
    (runCheck o report comment).on d = match (checkModule o report comment).run.on d with
      | (none, after) => (none, after)
      | (some (.ok (root, found)), after) => (some (checkedExit report root found), after)
      | (some (.error cause), after) => (some ⟨toolErrorCode, "", "tfguard error: " ++ cause.message ++ "\n"⟩,
          ((saveReport report (.runtimeError after.now cause.message)).run.on after.ticked).2) := by
  unfold runCheck
  rcases ran : (checkModule o report comment).run.on d with ⟨_ | cause | ⟨root, found⟩, after⟩
  · rw [Action.onBindNone ran]
  · rw [Action.onBindSome ran]
    dsimp only
    rw [Action.onBindSome (Action.onNow after)]
    obtain ⟨answer, saved⟩ := saveReportAnswers report (.runtimeError after.now cause.message) after.ticked
    rw [Action.onBind, saved]
    rfl
  · rw [Action.onBindSome ran]
    rfl

/-! Reports on why a run stopped. -/

theorem stopOn (rooted : e.Rooted) {n : Nat} (clock : e.clock 0 = d.clock n) (message : String)
    (refused : ∀ content cause, (e.ticked.save report content).2 = .error cause →
      (∀ other, ∃ cause, (d.save report other).2 = .error cause) ∧ d.top.SameFiles (e.ticked.save report content).1.top) :
    Agrees d report ((saveReport report (.runtimeError e.now message)).run.on e.ticked).2 1 := by
  have storable := Report.runtimeStorable (Timestamp.ofUnixRepresentable (e.dated 0)) message
  rw [saveReportOn, Disk.now, storable.written]
  dsimp only
  cases answer : (e.ticked.save report (Report.runtimeError (.ofUnix (e.clock 0)) message).serialize.toUTF8).2 with
  | ok _ =>
      have stored := storedSerialized storable (Disk.readSaved ((Disk.Waited.refl e).ticked.rooted rooted) answer)
      rw [clock] at stored ⊢
      exact .stopped stored
  | error cause =>
      obtain ⟨refuses, kept⟩ := refused _ cause answer
      exact .unwritten refuses kept

section Outcomes
variable (rooted : d.Rooted) (waited : d.Waited e)
include rooted waited

theorem stopAgrees (report message : String) :
    Agrees d report ((saveReport report (.runtimeError e.now message)).run.on e.ticked).2 1 := by
  obtain ⟨n, clock⟩ := waited.clock
  have later := waited.ticked
  refine stopOn (waited.rooted rooted) (clock 0) message fun content cause answer => ?_
  obtain ⟨same, refuses, -⟩ := Disk.saveRefused (later.rooted rooted) answer
  rw [later.top] at same
  exact ⟨fun other => (later.save report other).1 ▸ refuses other, same⟩

theorem stopRefused {content : ByteArray} {cause : SaveError} (refused : (e.save report content).2 = .error cause)
    (message : String) : Agrees d report ((saveReport report (.runtimeError (e.save report content).1.now message)).run.on
      (e.save report content).1.ticked).2 1 := by
  obtain ⟨n, clock⟩ := waited.clock
  obtain ⟨same, refuses, again⟩ := Disk.saveRefused (waited.rooted rooted) refused
  rw [waited.top] at same
  generalize afterIs : (e.save report content).1 = after at same again
  have ticked := (Disk.Waited.refl after).ticked
  refine stopOn (e := after) ?_ (n := n) ?_ message fun other cause answer => ⟨fun other => ?_, ?_⟩
  · exact afterIs ▸ (Disk.saveLater (waited.rooted rooted) report content).rooted (waited.rooted rooted)
  · rw [← afterIs, Disk.saveKeepsClock]
    exact clock 0
  · exact (waited.save report other).1 ▸ refuses other
  · obtain ⟨cause, failed⟩ := again other
    rw [(ticked.save report other).2.top, failed]
    exact same

theorem stopSaved {content : ByteArray} (done : (e.save report content).2 = .ok ()) (path : String) (other : ByteArray)
    (message : String) : Agrees d report ((saveReport report
      (.runtimeError ((e.save report content).1.save path other).1.now message)).run.on
        ((e.save report content).1.save path other).1.ticked).2 1 := by
  obtain ⟨n, clock⟩ := waited.clock
  have rootedLater := waited.rooted rooted
  have first := Disk.saveLater rootedLater report content
  have second := Disk.saveLater (first.rooted rootedLater) path other
  have ticked := (Disk.Waited.refl ((e.save report content).1.save path other).1).ticked
  refine stopOn (second.rooted (first.rooted rootedLater)) (n := n) ?_ message fun again cause answer => ?_
  · rw [Disk.saveKeepsClock, Disk.saveKeepsClock]
    exact clock 0
  -- What was saved once can be replaced.
  · rw [(ticked.save report again).1, Disk.saveOver rootedLater done path other again] at answer
    cases answer

end Outcomes

/-! Panics. -/

/-- A check that comes to a file whose outputs cannot be laid out, and is not told to ignore it. -/
def Panics (o : Options) (d : Disk) : Prop :=
  ∃ root policy m, Reads o d root policy m ∧ (policy.forRule OutputOrder.ruleName false .notice).enabled = true ∧
    ∃ file ∈ m.fileList, (Evaluation.ignoreSet policy).1.ignores OutputOrder.ruleName file.path = false ∧ Overlong file

theorem evaluatedNone {policy : Policy} {m : Module} : Check.evaluated policy m = none ↔
    (policy.forRule OutputOrder.ruleName false .notice).enabled = true ∧
      ∃ file ∈ m.fileList, (Evaluation.ignoreSet policy).1.ignores OutputOrder.ruleName file.path = false ∧ Overlong file := by
  refine Evaluation.evaluateNone.trans (and_congr_right fun _ => exists_congr fun file => and_congr_right fun _ => ?_)
  constructor
  · intro silent
    obtain ⟨heeded, panics⟩ := Evaluation.judgePanics silent
    exact ⟨heeded, checkPanics.mp panics⟩
  · rintro ⟨heeded, overlong⟩
    rw [Evaluation.judge, if_neg (by rw [heeded]; exact Bool.false_ne_true)]
    exact checkPanics.mpr overlong

/-! Whole runs. -/

theorem Comes.storable (comes : Comes o d root found) : found.Storable := by
  obtain ⟨policy, m, r, reads, evaluated, rfl⟩ := comes.report
  have loaded : Source.moduleOn d root = some m := by
    have files := reads.files
    rw [Source.loadModuleOn] at files
    exact Option.some.inj files
  exact Report.checkStorable (Source.moduleFits loaded) evaluated (Timestamp.ofUnixRepresentable (d.dated 0))
    (Timestamp.ofUnixRepresentable (d.dated 1))

theorem Comes.once {root' : String} {found' : Report} (comes : Comes o d root found) (comesElse : Comes o d root' found') :
    root = root' ∧ found = found' := by
  obtain ⟨policy, m, r, reads, evaluated, rfl⟩ := comes.report
  obtain ⟨policy', m', r', reads', evaluated', rfl⟩ := comesElse.report
  obtain ⟨rfl, rfl, rfl⟩ := reads.once reads'
  rw [evaluated] at evaluated'
  cases evaluated'
  exact ⟨rfl, rfl⟩

/-- How a check ended, as its exit status tells. -/
structure Told (o : Options) (report : String) (comment : Option String) (d : Disk) (exit : Exit) (after : Disk) : Prop where
  agrees : Agrees d report after exit.code
  completed : exit.code ≠ 1 → ∃ root found, Completed o report comment d root found
  verdict : ∀ root found, Completed o report comment d root found →
    exit.code = if found.summary.errors = [] then found.verdict.exitCode else 1

theorem stoppedTold {errors : String} {left : Disk} (agrees : Agrees d report left 1)
    (never : ∀ root found, ¬ Completed o report comment d root found) :
    Told o report comment d ⟨toolErrorCode, "", errors⟩ left where
  agrees := agrees
  completed other := (other rfl).elim
  verdict root found completed := (never root found completed).elim

theorem refusedTold (comes : Comes o d root found) {errors : String} {left : Disk} (agrees : Agrees d report left 1)
    (refused : ¬ Completed o report comment d root found) : Told o report comment d ⟨toolErrorCode, "", errors⟩ left :=
  stoppedTold agrees fun root' found' completed => by
    obtain ⟨rfl, rfl⟩ := comes.once completed.comes
    exact refused completed

theorem completedTold (completed : Completed o report comment d root found) {left : Disk}
    (read : left.read report = .ok found.serialize.toUTF8) :
    Told o report comment d (checkedExit report root found) left where
  agrees := checkedAgrees (storedSerialized completed.comes.storable read)
  completed _ := ⟨root, found, completed⟩
  verdict root' found' other := by
    obtain ⟨rfl, rfl⟩ := completed.comes.once other.comes
    exact checkedExitCode report root found

theorem savingTold (rooted : d.Rooted) (apart : ∀ path ∈ comment, d.Apart report path) (comes : Comes o d root found)
    (ran : (checkModule o report comment).run.on d = (saving report comment root found).run.on d.ticked.ticked) :
    ∃ exit after, (runCheck o report comment).on d = (some exit, after) ∧ Told o report comment d exit after := by
  have waited : d.Waited d.ticked.ticked := (Disk.Waited.refl d).ticked.ticked
  have rootedLater := waited.rooted rooted
  rw [runCheckOn, ran, savingOn comes.storable.written]
  -- No save depends on the two readings of the clock in front of it.
  generalize d.ticked.ticked = e at waited rootedLater
  have saves := waited.save report found.serialize.toUTF8
  have comments (path : String) := (saves.2.save path (markdownText found).toUTF8).1
  rcases saved : e.save report found.serialize.toUTF8 with ⟨first, cause | _⟩ <;> rw [saved] at saves comments
  · have unsaved := congrArg Prod.snd saved
    have agrees (message : String) := stopRefused rooted waited unsaved message
    rw [saved] at agrees
    refine ⟨_, _, rfl, refusedTold comes (agrees _) fun completed => ?_⟩
    cases saves.1.trans completed.saved
  have done := congrArg Prod.snd saved
  cases comment with
  | none =>
      have read := Disk.readSaved rootedLater done
      rw [saved] at read
      have completed : Completed o report none d root found := ⟨comes, saves.1.symm, nofun⟩
      exact ⟨_, _, rfl, completedTold completed read⟩
  | some path =>
      have stopped (message : String) := stopSaved rooted waited done path (markdownText found).toUTF8 message
      have read := Disk.readApart rootedLater done (waited.apart (apart path rfl)) (markdownText found).toUTF8
      rw [saved] at stopped read
      dsimp only at comments stopped read ⊢
      rcases written : first.save path (markdownText found).toUTF8 with ⟨last, cause | _⟩ <;> rw [written] at stopped read
      · refine ⟨_, _, rfl, refusedTold comes (stopped _) fun completed => ?_⟩
        cases (congrArg Prod.snd written).symm.trans ((comments path).trans (completed.commented path rfl))
      · have commented := (comments path).symm.trans (congrArg Prod.snd written)
        exact ⟨_, _, rfl, completedTold ⟨comes, saves.1.symm, fun other same => Option.some.inj same ▸ commented⟩ read⟩

/-- A check either panics and leaves everything as it is, or ends and leaves what its exit status tells. -/
structure Ends (o : Options) (report : String) (comment : Option String) (d : Disk) (run : Option Exit × Disk) : Prop where
  panics : run.1 = none ↔ Panics o d
  untouched : run.1 = none → run.2.top = d.top
  told : ∀ exit ∈ run.1, Told o report comment d exit run.2

theorem runCheckEnds (rooted : d.Rooted) (apart : ∀ path ∈ comment, d.Apart report path) :
    Ends o report comment d ((runCheck o report comment).on d) := by
  have ended {exit : Exit} {after : Disk} (ran : (runCheck o report comment).on d = (some exit, after))
      (calm : ¬ Panics o d) (told : Told o report comment d exit after) :
      Ends o report comment d ((runCheck o report comment).on d) := by
    rw [ran]
    exact ⟨⟨nofun, fun panics => (calm panics).elim⟩, nofun, fun _ same => Option.mem_some.mp same ▸ told⟩
  rcases checkModuleOn o report comment d with ⟨cause, left, waited, failed, never⟩ | ⟨root, policy, m, reads, ran⟩
  · have stopped := runCheckOn o report comment d
    rw [failed] at stopped
    refine ended stopped (fun ⟨root, policy, m, reads, _⟩ => never root policy m reads)
      (stoppedTold (stopAgrees rooted waited report _) fun root found completed => ?_)
    obtain ⟨policy, m, r, reads, -⟩ := completed.comes.report
    exact never root policy m reads
  cases evaluated : Check.evaluated policy m with
  | none =>
      rw [evaluated] at ran
      have crashed := runCheckOn o report comment d
      rw [ran] at crashed
      rw [crashed]
      exact ⟨⟨fun _ => ⟨root, policy, m, reads, evaluatedNone.mp evaluated⟩, fun _ => rfl⟩, fun _ => rfl, nofun⟩
  | some r =>
      rw [evaluated] at ran
      obtain ⟨exit, after, finished, told⟩ := savingTold rooted apart ⟨policy, m, r, reads, evaluated, rfl⟩ ran
      refine ended finished (fun ⟨root', policy', m', reads', panics⟩ => ?_) told
      obtain ⟨rfl, rfl, rfl⟩ := reads.once reads'
      cases (evaluatedNone.mpr panics).symm.trans evaluated

theorem runArgumentsCheck {arguments : List String} (asked : parse arguments = .ok (o, .check report comment)) :
    runArguments arguments = runCheck o report comment := by
  have some : arguments.isEmpty = false := by
    cases arguments with
    | nil => cases asked
    | cons first rest => rfl
  rw [runArguments, some, asked]
  rfl

theorem Ends.exits {run : Option Exit × Disk} (ends : Ends o report comment d run) (calm : ¬ Panics o d) :
    ∃ exit, run.1 = some exit ∧ Told o report comment d exit run.2 := by
  cases ended : run.1 with
  | none => exact (calm (ends.panics.mp ended)).elim
  | some exit => exact ⟨exit, rfl, ends.told exit ended⟩

/-! Runs on a directory with one file, and a config that makes outputs out of order an error. -/

def severeConfig : String := "profile = \"all\"\n[rules.terraform_output_order]\nseverity = \"error\"\n"

def severeDisk (key : List Char) : Disk :=
  .atRest ["work"] (.directory [("work", .directory [("tfguard.toml", .file severeConfig.toUTF8),
    ("outputs.tf", .file (String.ofList (turnedText key)).toUTF8),
    ("out", .directory [("comment.md", .directory [])])])])

def severeArguments : List String := ["check", "--report-out", "../report.json"]

def severeOptions : Options := ⟨".", "tfguard.toml", ⟨none, none⟩⟩

theorem severeAsked : parse severeArguments = .ok (severeOptions, .check "../report.json" none) := by decide +kernel

theorem severeSettled : ∃ policy ignore, Check.settle severeConfig ⟨none, none⟩ = .ok policy ∧
    IgnoreSet.ofPolicy policy = .ok ignore ∧ policy.forRule OutputOrder.ruleName false .notice = ⟨true, .error, []⟩ ∧
    1 ≤ policy.maxFindings ∧ ignore.ignores OutputOrder.ruleName ⟨"outputs.tf"⟩ = false := by
  have facts : (Check.settle severeConfig ⟨none, none⟩).toOption.any (fun policy =>
      (IgnoreSet.ofPolicy policy).toOption.any (fun ignore =>
        policy.forRule OutputOrder.ruleName false .notice = ⟨true, .error, []⟩ ∧ 1 ≤ policy.maxFindings ∧
          ignore.ignores OutputOrder.ruleName ⟨"outputs.tf"⟩ = false)) = true := by decide +kernel
  cases settled : Check.settle severeConfig ⟨none, none⟩ with
  | error cause => rw [settled] at facts; cases facts
  | ok policy =>
      rw [settled] at facts
      cases valid : IgnoreSet.ofPolicy policy with
      | error cause => simp [valid, Except.toOption] at facts
      | ok ignore =>
          simp only [valid, Except.toOption, Option.any_some, decide_eq_true_eq] at facts
          exact ⟨policy, ignore, rfl, valid, facts⟩

theorem severeReads {policy : Policy} (settled : Check.settle severeConfig ⟨none, none⟩ = .ok policy) (key : List Char) :
    Reads severeOptions (severeDisk key) "/work" policy (.ofFiles [Source.ofText ⟨"outputs.tf"⟩ (turnedText key)]) where
  directory := ⟨_, rfl⟩
  config := ⟨severeConfig, .inl (textOfBytes severeConfig), settled⟩
  files := by
    have read : (severeDisk key).read (Source.placeOf "/work" ⟨"outputs.tf"⟩) = .ok (String.ofList (turnedText key)).toUTF8 := by rfl
    have file : Source.fileOn (severeDisk key) "/work" ⟨"outputs.tf"⟩ = Source.ofText ⟨"outputs.tf"⟩ (turnedText key) := by
      rw [Source.fileOn, read]
      show Source.fileOf _ _ (textOf _) = _
      rw [textOfBytes, Source.fileOf, String.toList_ofList]
    have loaded : Source.moduleOn (severeDisk key) "/work" =
        some (.ofFiles ([⟨"outputs.tf"⟩].map (Source.fileOn (severeDisk key) "/work"))) := by rfl
    rw [Source.loadModuleOn, loaded, List.map_singleton, file]

theorem severeSaved (key : List Char) (content : ByteArray) : ((severeDisk key).save "../report.json" content).2 = .ok () := by
  rfl

theorem severeFails : ∃ found, Comes severeOptions (severeDisk ['k']) "/work" found ∧ found.summary.errors = [] ∧
    found.verdict = .fail := by
  obtain ⟨policy, ignore, settled, valid, rule, room, heeded⟩ := severeSettled
  have reads := severeReads settled ['k']
  obtain ⟨s, suggested⟩ := @OutputOrder.turnedSuggested ['k'] _ ⟨'k', [], rfl, by decide, by decide⟩ ⟨"outputs.tf"⟩
    (canonicalFormatterOk.mpr ⟨by decide +kernel, by decide +kernel, rfl⟩)
  have path := Source.ofTextPath ⟨"outputs.tf"⟩ (turnedText ['k'])
  generalize Source.ofText ⟨"outputs.tf"⟩ (turnedText ['k']) = file at reads suggested path
  have said : Evaluation.answer canonicalFormatter (ignore.ignores OutputOrder.ruleName) file = .ok (some s) := by
    rw [Evaluation.answer, Evaluation.judge, path, heeded, suggested]
    rfl
  cases evaluated : Check.evaluated policy (.ofFiles [file]) with
  | none =>
      obtain ⟨-, other, member, -, overlong⟩ := evaluatedNone.mp evaluated
      obtain rfl := List.mem_singleton.mp member
      cases (checkPanics.mpr overlong).symm.trans suggested
  | some r =>
      have alone : (Module.ofFiles [file]).fileList = [file] := rfl
      have reported := @Evaluation.reportOutputs (.ofFiles [file]) policy canonicalFormatter ignore valid (by rw [rule])
        (by rw [alone]; exact room) r evaluated
      have errors := reported.errors
      have findings := reported.findings
      have verdict := reported.verdict
      rw [alone, List.flatMap_singleton, said] at errors
      rw [alone, List.flatMap_singleton, said, Evaluation.sortFew (Evaluation.findingsForFew _), rule] at findings
      rw [findings] at verdict
      exact ⟨_, ⟨policy, _, r, reads, evaluated, rfl⟩, errors, verdict⟩

theorem severeCalm : ¬ Panics severeOptions (severeDisk ['k']) := by
  rintro ⟨root, policy, m, reads, panics⟩
  obtain ⟨found, comes, -⟩ := severeFails
  obtain ⟨policy', m', r, reads', evaluated, -⟩ := comes.report
  obtain ⟨rfl, rfl, rfl⟩ := reads.once reads'
  cases (evaluatedNone.mpr panics).symm.trans evaluated

def crowdedArguments : List String :=
  ["check", "--report-out", "out/../out/report.json", "--write-markdown", "--markdown-out=out/comment.md"]

theorem crowdedAsked : parse crowdedArguments =
    .ok (severeOptions, .check "out/../out/report.json" (some "out/comment.md")) := by decide +kernel

theorem crowdedApart (key : List Char) : (severeDisk key).Apart "out/../out/report.json" "out/comment.md" := by
  have first : (severeDisk key).fileOf? "out/../out/report.json" = some ["work", "out", "report.json"] := by rfl
  have second : (severeDisk key).fileOf? "out/comment.md" = some ["work", "out", "comment.md"] := by rfl
  rintro place named same
  rw [first] at named
  rw [second] at same
  exact absurd (named.trans same.symm) (by decide)

theorem crowdedRefused (key : List Char) (content other : ByteArray) :
    (((severeDisk key).save "out/../out/report.json" content).1.save "out/comment.md" other).2 ≠ .ok () := by
  have refused : (((severeDisk key).save "out/../out/report.json" content).1.save "out/comment.md" other).2 =
      .error (.file "out/comment.md" .isDirectory) := by rfl
  rw [refused]
  exact nofun

/-- Unless a check panics, its exit status and the report that it leaves agree, whatever is on the disk and
whatever the arguments ask for, and no stage can fail without the exit status 1. -/
theorem exitAgrees {arguments : List String} (rooted : d.Rooted) (asked : parse arguments = .ok (o, .check report comment))
    (apart : ∀ path ∈ comment, d.Apart report path) : Ends o report comment d ((runArguments arguments).on d) := by
  rw [runArgumentsCheck asked]
  exact runCheckEnds rooted apart

/-- The check fails. Where its Markdown cannot be saved, that is what the exit status tells. -/
theorem exitAgreesSevere : (severeDisk ['k']).Rooted ∧ (severeDisk ['k']).Apart "out/../out/report.json" "out/comment.md" ∧
    parse crowdedArguments = .ok (severeOptions, .check "out/../out/report.json" (some "out/comment.md")) ∧
    (∃ exit, ((runArguments crowdedArguments).on (severeDisk ['k'])).1 = some exit ∧ exit.code = 1) ∧
    parse severeArguments = .ok (severeOptions, .check "../report.json" none) ∧
    ∃ exit, ((runArguments severeArguments).on (severeDisk ['k'])).1 = some exit ∧ exit.code = 2 := by
  have rooted : (severeDisk ['k']).Rooted := rfl
  have apart := crowdedApart ['k']
  refine ⟨rooted, apart, crowdedAsked, ?_, severeAsked, ?_⟩
  · obtain ⟨exit, ended, told⟩ := (exitAgrees rooted crowdedAsked (by rintro _ ⟨⟩; exact apart)).exits severeCalm
    refine ⟨exit, ended, ?_⟩
    by_contra other
    obtain ⟨root, found, completed⟩ := told.completed other
    exact crowdedRefused ['k'] _ _ (completed.commented _ rfl)
  · obtain ⟨exit, ended, told⟩ := (exitAgrees rooted severeAsked nofun).exits severeCalm
    obtain ⟨found, comes, errors, verdict⟩ := severeFails
    refine ⟨exit, ended, ?_⟩
    have code := told.verdict "/work" found ⟨comes, severeSaved ['k'] _, nofun⟩
    rw [if_pos errors, verdict] at code
    exact code

theorem severePanics {key : List Char} (overlong : Overlong (Source.ofText ⟨"outputs.tf"⟩ (turnedText key))) :
    Panics severeOptions (severeDisk key) := by
  obtain ⟨policy, ignore, settled, valid, rule, -, heeded⟩ := severeSettled
  refine ⟨"/work", policy, _, severeReads settled key, by rw [rule], _, List.mem_singleton_self _, ?_, overlong⟩
  rw [Evaluation.ignoreSetValid valid, Source.ofTextPath]
  exact heeded

/-- With a key that is too long to be padded the run panics. -/
theorem exitOverlong : (severeDisk (List.replicate 65536 'a')).Rooted ∧
    parse severeArguments = .ok (severeOptions, .check "../report.json" none) ∧
    status ((runArguments severeArguments).on (severeDisk (List.replicate 65536 'a'))).1 = 101 := by
  refine ⟨rfl, severeAsked, ?_⟩
  have overlong := OutputOrder.lettersOverlong (Nat.le_refl 65535) ⟨"outputs.tf"⟩
  generalize List.replicate 65536 'a' = key at overlong ⊢
  have ends : Ends severeOptions "../report.json" none (severeDisk key) _ := runCheckEnds rfl nofun
  rw [runArgumentsCheck severeAsked, ends.panics.mpr (severePanics overlong)]
  rfl

end DeclOrder.Command
