import DeclOrder.Proofs.OutputOrder
import DeclOrder.Proofs.Registration
import DeclOrder.Proofs.Union
import Mathlib.Tactic.ByContra

/-! Files are judged one by one. What a run reports of a file depends on that file, the policy and the
formatter only, so the report on two modules together is made up of the reports on each of them. -/
namespace DeclOrder

def Verdict.worse : Verdict → Verdict → Verdict
  | .fail, _ => .fail
  | _, .fail => .fail
  | .warn, _ => .warn
  | _, .warn => .warn
  | .pass, .pass => .pass

namespace Evaluation
open OutputOrder (Suggestion checkFile checkAll emit)

def judge (format : Formatter) (ignored : RepoPath → Bool) (file : SourceFile) :
    Option (Except CheckError (Option Suggestion)) :=
  if ignored file.path then some (.ok none) else checkFile format file

def answer (format : Formatter) (ignored : RepoPath → Bool) (file : SourceFile) : Except CheckError (Option Suggestion) :=
  (judge format ignored file).getD (.ok none)

def emissionsFor : Except CheckError (Option Suggestion) → List Emitted
  | .ok (some s) => [emit s]
  | _ => []

def failuresFor : Except CheckError (Option Suggestion) → List CheckError
  | .error e => [e]
  | _ => []

def findingsFor (severity : Severity) (answer : Except CheckError (Option Suggestion)) : List Finding :=
  (emissionsFor answer).map (findingOf (.ofList [(OutputOrder.ruleName, severity)]))

def errorsFor (answer : Except CheckError (Option Suggestion)) : List ToolError :=
  (failuresFor answer).map (fun e => ⟨OutputOrder.ruleName, some e.path, e.detail⟩)

theorem addAnswer (others : Outcome) (found : Except CheckError (Option Suggestion)) : OutputOrder.add others found =
    ⟨emissionsFor found ++ others.issues, failuresFor found ++ others.errors⟩ := by
  rcases found with cause | _ | s <;> rfl

theorem checkAllJudged {format : Formatter} {ignored : RepoPath → Bool} {files : List SourceFile} {outcome : Outcome} :
    checkAll format (files.filter (fun f => !ignored f.path)) = some outcome ↔
      (∀ file ∈ files, judge format ignored file ≠ none) ∧
      outcome = ⟨files.flatMap (fun f => emissionsFor (answer format ignored f)),
        files.flatMap (fun f => failuresFor (answer format ignored f))⟩ := by
  induction files generalizing outcome with
  | nil => exact ⟨fun same => by cases same; exact ⟨nofun, rfl⟩, fun ⟨_, same⟩ => same ▸ rfl⟩
  | cons file rest ih =>
      rw [List.filter_cons, List.forall_mem_cons, List.flatMap_cons, List.flatMap_cons, answer, judge]
      by_cases skipped : ignored file.path = true
      · simpa [skipped, emissionsFor, failuresFor] using ih
      · rw [if_pos (by simpa using skipped), if_neg skipped, OutputOrder.checkAllCons]
        constructor
        · rintro ⟨found, others, first, later, rfl⟩
          obtain ⟨answered, rfl⟩ := ih.mp later
          rw [addAnswer, first]
          exact ⟨⟨nofun, answered⟩, rfl⟩
        · rintro ⟨⟨answered, later⟩, rfl⟩
          obtain ⟨found, first⟩ := Option.ne_none_iff_exists'.mp answered
          refine ⟨found, _, first, ih.mpr ⟨later, rfl⟩, ?_⟩
          rw [addAnswer, first, Option.getD_some]

/-- The ranges of every block carry the path of the block's file. -/
def Placed (m : Module) : Prop :=
  ∀ file ∈ m.fileList, ∀ b ∈ file.blocks, b.range.path = file.path ∧ b.header.path = file.path

def liesAt (path : RepoPath) (f : Finding) : Bool := f.location.any (·.path == path)

def failsAt (path : RepoPath) (e : ToolError) : Bool := e.path.any (· == path)

def liesWithin (m : Module) (f : Finding) : Bool := f.location.any (m.has ·.path)

def failsWithin (m : Module) (e : ToolError) : Bool := e.path.any m.has

section
variable {format : Formatter} {severity : Severity} {ignored : RepoPath → Bool}

theorem answerChecked {file : SourceFile} {said : Except CheckError (Option Suggestion)}
    (answered : answer format ignored file = said) (something : said ≠ .ok none) : checkFile format file = some said := by
  unfold answer judge at answered
  split at answered
  · exact absurd answered.symm something
  · cases checked : checkFile format file with
    | none =>
        rw [checked] at answered
        exact absurd answered.symm something
    | some found =>
        rw [checked] at answered
        exact congrArg some answered

theorem findingPath {m : Module} (placed : Placed m) {file : SourceFile} (member : file ∈ m.fileList) {f : Finding}
    (found : f ∈ findingsFor severity (answer format ignored file)) :
    ∃ location, f.location = some location ∧ location.path = file.path := by
  cases answered : answer format ignored file with
  | error e => simp [answered, findingsFor, emissionsFor] at found
  | ok suggestion =>
      cases suggestion with
      | none => simp [answered, findingsFor, emissionsFor] at found
      | some s =>
          simp only [answered, findingsFor, emissionsFor, List.map_cons, List.map_nil, List.mem_singleton] at found
          subst found
          obtain ⟨b, inside, header⟩ := OutputOrder.anchorHeader (answerChecked answered nofun)
          refine ⟨s.anchor.location, rfl, ?_⟩
          show s.anchor.path = file.path
          rw [header]
          exact (placed file member b inside).2

theorem judgePanics {file : SourceFile} (silent : judge format ignored file = none) :
    ignored file.path = false ∧ checkFile format file = none := by
  unfold judge at silent
  split at silent
  · contradiction
  · exact ⟨Bool.eq_false_iff.mpr ‹_›, silent⟩

theorem errorPath {file : SourceFile} {e : ToolError} (failed : e ∈ errorsFor (answer format ignored file)) :
    e.path = some file.path := by
  cases answered : answer format ignored file with
  | ok suggestion => simp [answered, errorsFor, failuresFor] at failed
  | error cause =>
      simp only [answered, errorsFor, failuresFor, List.map_cons, List.map_nil, List.mem_singleton] at failed
      subst failed
      exact congrArg some (OutputOrder.failurePath (answerChecked answered nofun))

theorem flatMapKept {α β : Type} {yields : α → List β} {keep : β → Bool} {own : α → Bool} {l : List α}
    (owned : ∀ a ∈ l, ∀ b ∈ yields a, keep b = own a) :
    (l.flatMap yields).filter keep = (l.filter own).flatMap yields := by
  rw [flatMapOwned (fun a member b yielded kept => (owned a member b yielded).symm.trans kept)]
  refine List.filter_eq_self.mpr (fun b yielded => ?_)
  obtain ⟨a, member, inside⟩ := List.mem_flatMap.mp yielded
  obtain ⟨before, mine⟩ := List.mem_filter.mp member
  exact (owned a before b inside).trans mine

theorem filesAt {m : Module} {file : SourceFile} (member : file ∈ m.fileList) :
    m.fileList.filter (·.path == file.path) = [file] := by
  refine Table.ascendingUnique (m.filesAscending.sublist List.filter_sublist) (List.pairwise_singleton _ _) (fun other => ?_)
  rw [List.mem_filter, List.mem_singleton]
  constructor
  · rintro ⟨inside, same⟩
    have there := Module.memFiles.mp inside
    rw [beq_iff_eq.mp same, Module.memFiles.mp member] at there
    exact (Option.some.inj there).symm
  · rintro rfl
    exact ⟨member, by simp⟩

theorem findingsForFew (said : Except CheckError (Option Suggestion)) : (findingsFor severity said).length ≤ 1 := by
  rcases said with cause | _ | s <;> simp [findingsFor, emissionsFor]

theorem sortFew {findings : List Finding} (few : findings.length ≤ 1) : sortFindings findings = findings := by
  cases findings with
  | nil => exact List.mergeSort_nil
  | cons f rest =>
      obtain rfl : rest = [] := List.length_eq_zero_iff.mp (Nat.le_zero.mp (Nat.le_of_succ_le_succ few))
      exact List.mergeSort_singleton f

end

structure Reported (format : Formatter) (severity : Severity) (ignored : RepoPath → Bool) (failOn : FailOn)
    (m : Module) (r : DomainReport) : Prop where
  answered : ∀ file ∈ m.fileList, judge format ignored file ≠ none
  findings : r.findings = sortFindings (m.fileList.flatMap (fun f => findingsFor severity (answer format ignored f)))
  errors : r.summary.errors = m.fileList.flatMap (fun f => errorsFor (answer format ignored f))
  verdict : r.verdict = verdictOf failOn r.findings
  counts : r.counts = .ofFindings r.findings
  files : r.summary.filesScanned = m.fileList.length
  blocks : r.summary.blocksScanned = m.blocksScanned

section
variable {m : Module} {policy : Policy} {format : Formatter} {ignore : IgnoreSet}

theorem ignoreSetValid (valid : IgnoreSet.ofPolicy policy = .ok ignore) : ignoreSet policy = (ignore, []) := by
  rw [ignoreSet, valid]

theorem ranOutputs (enabled : (policy.forRule OutputOrder.ruleName false .notice).enabled = true) {ran : List Ran} :
    ranIn m policy (allRules format) = some ran ↔
      (∀ file ∈ m.fileList, judge format ((ignoreSet policy).1.ignores OutputOrder.ruleName) file ≠ none) ∧
      ran = [⟨OutputOrder.rule format, (policy.forRule OutputOrder.ruleName false .notice).severity,
        m.fileList.flatMap (fun f => emissionsFor (answer format ((ignoreSet policy).1.ignores OutputOrder.ruleName) f)),
        m.fileList.flatMap (fun f => failuresFor (answer format ((ignoreSet policy).1.ignores OutputOrder.ruleName) f))⟩] := by
  have alone : turnedOn policy (allRules format) = [OutputOrder.rule format] := List.filter_cons_of_pos enabled
  rw [ranIff, alone]
  constructor
  · intro each
    cases each with
    | @cons _ r _ _ runs rest =>
        cases rest
        obtain ⟨rule, severity, outcome⟩ := r
        obtain ⟨rfl, rfl, checked⟩ := runs
        obtain ⟨answered, rfl⟩ := checkAllJudged.mp checked
        exact ⟨answered, rfl⟩
  · rintro ⟨answered, rfl⟩
    exact .cons ⟨rfl, rfl, checkAllJudged.mpr ⟨answered, rfl⟩⟩ .nil

theorem ranOff (off : (policy.forRule OutputOrder.ruleName false .notice).enabled = false) :
    ranIn m policy (allRules format) = some [] := by
  have nothing : turnedOn policy (allRules format) = [] := List.filter_cons_of_neg (Bool.eq_false_iff.mp off)
  rw [ranIff, nothing]
  exact .nil

theorem evaluateNone : evaluate m policy (allRules format) = none ↔
    (policy.forRule OutputOrder.ruleName false .notice).enabled = true ∧
      ∃ file ∈ m.fileList, judge format ((ignoreSet policy).1.ignores OutputOrder.ruleName) file = none := by
  rw [evaluateRan, Option.map_eq_none_iff, Option.eq_none_iff_forall_ne_some]
  constructor
  · intro never
    cases enabled : (policy.forRule OutputOrder.ruleName false .notice).enabled with
    | false => exact (never [] (ranOff enabled)).elim
    | true =>
        refine ⟨rfl, ?_⟩
        by_contra none
        exact never _ ((ranOutputs enabled).mpr ⟨fun file member silent => none ⟨file, member, silent⟩, rfl⟩)
  · rintro ⟨enabled, file, member, silent⟩ ran ranSo
    exact ((ranOutputs enabled).mp ranSo).1 file member silent

theorem panicsOnFile (valid : IgnoreSet.ofPolicy policy = .ok ignore)
    (enabled : (policy.forRule OutputOrder.ruleName false .notice).enabled = true) :
    evaluate m policy (allRules format) = none ↔
      ∃ file ∈ m.fileList, judge format (ignore.ignores OutputOrder.ruleName) file = none := by
  rw [evaluateNone, ignoreSetValid valid, and_iff_right enabled]

theorem reportOutputs (valid : IgnoreSet.ofPolicy policy = .ok ignore)
    (enabled : (policy.forRule OutputOrder.ruleName false .notice).enabled = true)
    (room : m.fileList.length ≤ policy.maxFindings) {r : DomainReport}
    (done : evaluate m policy (allRules format) = some r) :
    Reported format (policy.forRule OutputOrder.ruleName false .notice).severity
      (ignore.ignores OutputOrder.ruleName) policy.failOn m r := by
  obtain ⟨ran, ranSo, rfl⟩ := evaluateSome.mp done
  obtain ⟨answered, same⟩ := (ranOutputs enabled).mp ranSo
  rw [ignoreSetValid valid] at answered same
  have found : foundOf ran = m.fileList.flatMap (fun f =>
      findingsFor (policy.forRule OutputOrder.ruleName false .notice).severity
        (answer format (ignore.ignores OutputOrder.ruleName) f)) := by
    rw [same, foundOf, emissions, List.flatMap_singleton, List.map_flatMap]
    rfl
  have few : (foundOf ran).length ≤ m.fileList.length := by
    rw [found, List.length_flatMap]
    induction m.fileList with
    | nil => exact Nat.le_refl 0
    | cons file rest ih =>
        simp only [List.map_cons, List.sum_cons, List.length_cons]
        have one : (findingsFor (policy.forRule OutputOrder.ruleName false .notice).severity
            (answer format (ignore.ignores OutputOrder.ruleName) file)).length ≤ 1 := findingsForFew _
        omega
  have whole : (reportOf m policy (ignoreSet policy).2 ran).findings = sortFindings (foundOf ran) := by
    refine List.take_of_length_le ?_
    change (sortFindings (foundOf ran)).length ≤ _
    rw [sortFindingsLength]
    exact Nat.le_trans few room
  refine ⟨answered, whole.trans (congrArg sortFindings found), ?_, rfl, rfl, rfl, rfl⟩
  change (ignoreSet policy).2 ++ ran.flatMap toolErrorsOf = _
  rw [ignoreSetValid valid, List.nil_append, same, List.flatMap_singleton, toolErrorsOf, List.map_flatMap]
  rfl

end

/-- What a report says of each file of a module is what the check of this file says, and it says nothing
else. -/
structure TellsEach (format : Formatter) (severity : Severity) (ignored : RepoPath → Bool) (m : Module)
    (r : DomainReport) : Prop where
  files : ∀ file ∈ m.fileList, ∃ said, judge format ignored file = some said ∧
    r.findings.filter (liesAt file.path) = findingsFor severity said ∧
    r.summary.errors.filter (failsAt file.path) = errorsFor said
  findingsWithin : ∀ f ∈ r.findings, liesWithin m f = true
  errorsWithin : ∀ e ∈ r.summary.errors, failsWithin m e = true

/-- What a report on a larger module says within one of its parts is the report on this part. -/
structure TellsPart (part : Module) (whole alone : DomainReport) : Prop where
  findings : whole.findings.filter (liesWithin part) = alone.findings
  errors : whole.summary.errors.filter (failsWithin part) = alone.summary.errors

structure SumsUp (whole one other : DomainReport) : Prop where
  notices : whole.counts.notice = one.counts.notice + other.counts.notice
  warnings : whole.counts.warning = one.counts.warning + other.counts.warning
  errors : whole.counts.error = one.counts.error + other.counts.error
  files : whole.summary.filesScanned = one.summary.filesScanned + other.summary.filesScanned
  blocks : whole.summary.blocksScanned = one.summary.blocksScanned + other.summary.blocksScanned
  verdict : whole.verdict = one.verdict.worse other.verdict

theorem filterSortFindings (keep : Finding → Bool) (findings : List Finding) :
    (sortFindings findings).filter keep = sortFindings (findings.filter keep) :=
  StableSort.filterSorted upToTrans upToTotal keep findings

theorem verdictOfAppend (failOn : FailOn) (findings others : List Finding) :
    verdictOf failOn (findings ++ others) = (verdictOf failOn findings).worse (verdictOf failOn others) := by
  simp only [verdictOf, List.any_append]
  cases findings.any (·.severity == .error) <;> cases others.any (·.severity == .error) <;>
    cases findings.any (·.severity == .warning) <;> cases others.any (·.severity == .warning) <;>
    cases failOn <;> rfl

theorem verdictOfPerm (failOn : FailOn) {findings others : List Finding} (perm : findings.Perm others) :
    verdictOf failOn findings = verdictOf failOn others := by
  simp only [verdictOf, perm.any_eq]

theorem blocksCounted (m : Module) : m.blocksScanned = (m.fileList.flatMap (·.blocks)).length := by
  unfold Module.blocksScanned
  induction m.fileList with
  | nil => rfl
  | cons file rest ih => rw [List.foldr_cons, ih, List.flatMap_cons, List.length_append]

section
variable {format : Formatter} {severity : Severity} {ignored : RepoPath → Bool} {failOn : FailOn}
  {m n : Module} {whole one other : DomainReport}

theorem tellsEach (placed : Placed m) (report : Reported format severity ignored failOn m whole) :
    TellsEach format severity ignored m whole := by
  refine ⟨fun file member => ?_, fun f found => ?_, fun e failed => ?_⟩
  · obtain ⟨said, judged⟩ := Option.ne_none_iff_exists'.mp (report.answered file member)
    have same : answer format ignored file = said := by rw [answer, judged, Option.getD_some]
    refine ⟨said, judged, ?_, ?_⟩
    · have owned (a : SourceFile) (inside : a ∈ m.fileList) (f : Finding)
          (found : f ∈ findingsFor severity (answer format ignored a)) :
          liesAt file.path f = (a.path == file.path) := by
        obtain ⟨location, placedAt, path⟩ := findingPath placed inside found
        simp [liesAt, placedAt, path]
      rw [report.findings, filterSortFindings, flatMapKept owned, filesAt member, List.flatMap_singleton, same]
      exact sortFew (findingsForFew _)
    · have owned (a : SourceFile) (_ : a ∈ m.fileList) (e : ToolError)
          (failed : e ∈ errorsFor (answer format ignored a)) : failsAt file.path e = (a.path == file.path) := by
        simp [failsAt, errorPath failed]
      rw [report.errors, flatMapKept owned, filesAt member, List.flatMap_singleton, same]
  · rw [report.findings, memSortFindings] at found
    obtain ⟨file, member, inside⟩ := List.mem_flatMap.mp found
    obtain ⟨location, placedAt, path⟩ := findingPath placed member inside
    simp [liesWithin, placedAt, path, Module.hasFile member]
  · rw [report.errors] at failed
    obtain ⟨file, member, inside⟩ := List.mem_flatMap.mp failed
    simp [failsWithin, errorPath inside, Module.hasFile member]

theorem tellsPart (apart : Module.Apart m n) (placed : Placed (m.union n))
    (both : Reported format severity ignored failOn (m.union n) whole)
    (alone : Reported format severity ignored failOn m one) : TellsPart m whole one := by
  constructor
  · have owned (a : SourceFile) (inside : a ∈ (m.union n).fileList) (f : Finding)
        (found : f ∈ findingsFor severity (answer format ignored a)) : liesWithin m f = m.has a.path := by
      obtain ⟨location, placedAt, path⟩ := findingPath placed inside found
      simp [liesWithin, placedAt, path]
    rw [both.findings, filterSortFindings, flatMapKept owned, Module.unionLeft apart, alone.findings]
  · have owned (a : SourceFile) (_ : a ∈ (m.union n).fileList) (e : ToolError)
        (failed : e ∈ errorsFor (answer format ignored a)) : failsWithin m e = m.has a.path := by
      simp [failsWithin, errorPath failed]
    rw [both.errors, flatMapKept owned, Module.unionLeft apart, alone.errors]

theorem sumsUp (apart : Module.Apart m n) (both : Reported format severity ignored failOn (m.union n) whole)
    (left : Reported format severity ignored failOn m one)
    (right : Reported format severity ignored failOn n other) : SumsUp whole one other := by
  have files := Module.unionPerm apart
  have findings : whole.findings.Perm (one.findings ++ other.findings) := by
    rw [both.findings, left.findings, right.findings]
    have yielded := files.flatMap_right (fun f => findingsFor severity (answer format ignored f))
    rw [List.flatMap_append] at yielded
    exact (List.mergeSort_perm _ _).trans (yielded.trans
      ((List.mergeSort_perm _ _).symm.append (List.mergeSort_perm _ _).symm))
  have count (s : Severity) : whole.findings.countP (·.severity == s) =
      one.findings.countP (·.severity == s) + other.findings.countP (·.severity == s) := by
    rw [findings.countP_eq, List.countP_append]
  refine ⟨?_, ?_, ?_, ?_, ?_, ?_⟩
  · rw [both.counts, left.counts, right.counts]
    exact count .notice
  · rw [both.counts, left.counts, right.counts]
    exact count .warning
  · rw [both.counts, left.counts, right.counts]
    exact count .error
  · rw [both.files, left.files, right.files, files.length_eq, List.length_append]
  · rw [both.blocks, left.blocks, right.blocks, blocksCounted, blocksCounted, blocksCounted,
      (files.flatMap_right _).length_eq, List.flatMap_append, List.length_append]
  · rw [both.verdict, left.verdict, right.verdict, verdictOfPerm failOn findings, verdictOfAppend]

theorem placedUnion (apart : Module.Apart m n) (left : Placed m) (right : Placed n) : Placed (m.union n) := by
  intro file member
  rcases (Module.memUnion apart).mp member with inside | inside
  · exact left file inside
  · exact right file inside

end

/-- Of two modules without a common path each file is judged as if it were alone: the report on both of
them tells of every file what its check says, falls apart into the reports on each module, and sums
them up. There is no such report only where the check of a file panics. -/
theorem filesJudgedAlone (m n : Module) (policy : Policy) (format : Formatter) (ignore : IgnoreSet)
    (valid : IgnoreSet.ofPolicy policy = .ok ignore)
    (enabled : (policy.forRule OutputOrder.ruleName false .notice).enabled = true)
    (apart : Module.Apart m n) (left : Placed m) (right : Placed n)
    (room : (m.union n).fileList.length ≤ policy.maxFindings) :
    (evaluate (m.union n) policy (allRules format) = none ↔
      ∃ file ∈ (m.union n).fileList, judge format (ignore.ignores OutputOrder.ruleName) file = none) ∧
    ∀ whole, evaluate (m.union n) policy (allRules format) = some whole →
      TellsEach format (policy.forRule OutputOrder.ruleName false .notice).severity
        (ignore.ignores OutputOrder.ruleName) (m.union n) whole ∧
      ∃ one other, evaluate m policy (allRules format) = some one ∧ evaluate n policy (allRules format) = some other ∧
        TellsPart m whole one ∧ TellsPart n whole other ∧ SumsUp whole one other := by
  refine ⟨panicsOnFile valid enabled, fun whole done => ?_⟩
  have placed := placedUnion apart left right
  have size := (Module.unionPerm apart).length_eq
  rw [List.length_append] at size
  have both : Reported format _ _ _ (m.union n) whole := reportOutputs valid enabled room done
  have part {part : Module} (inside : ∀ file ∈ part.fileList, file ∈ (m.union n).fileList) :
      ∃ alone, evaluate part policy (allRules format) = some alone := by
    refine Option.ne_none_iff_exists'.mp fun none => ?_
    obtain ⟨file, member, silent⟩ := (panicsOnFile valid enabled).mp none
    exact both.answered file (inside file member) silent
  obtain ⟨one, doneLeft⟩ := part fun file member => (Module.memUnion apart).mpr (.inl member)
  obtain ⟨other, doneRight⟩ := part fun file member => (Module.memUnion apart).mpr (.inr member)
  have reportLeft : Reported format _ _ _ m one := reportOutputs valid enabled (by omega) doneLeft
  have reportRight : Reported format _ _ _ n other := reportOutputs valid enabled (by omega) doneRight
  refine ⟨tellsEach placed both, one, other, doneLeft, doneRight, tellsPart apart placed both reportLeft, ?_,
    sumsUp apart both reportLeft reportRight⟩
  rw [Module.unionComm apart] at placed both
  exact tellsPart apart.symm placed both reportRight

def pastIgnored : Policy := { Policy.default with enableAll := true, ignore := ["old/*"] }

def pastPattern : Glob.Pattern := ⟨[.literal 'o', .literal 'l', .literal 'd', .literal '/', .run]⟩

def turnedModule : Module := .ofFiles [OutputOrder.turnedFile "main.tf"]

def lostModule : Module := .ofFiles [unreadable "a.tf" "lost", unreadable "old/b.tf" "old"]

theorem filesJudgedAloneTurned :
    IgnoreSet.ofPolicy pastIgnored = .ok ⟨[pastPattern], .empty⟩ ∧
    (pastIgnored.forRule OutputOrder.ruleName false .notice).enabled = true ∧
    Module.Apart turnedModule lostModule ∧ Placed turnedModule ∧ Placed lostModule ∧
    (turnedModule.union lostModule).fileList.length ≤ pastIgnored.maxFindings ∧
    ∃ whole one other, evaluate (turnedModule.union lostModule) pastIgnored (allRules OutputOrder.keeping) = some whole ∧
      evaluate turnedModule pastIgnored (allRules OutputOrder.keeping) = some one ∧
      evaluate lostModule pastIgnored (allRules OutputOrder.keeping) = some other ∧
      TellsEach OutputOrder.keeping .notice (IgnoreSet.ignores ⟨[pastPattern], .empty⟩ OutputOrder.ruleName)
        (turnedModule.union lostModule) whole ∧
      SumsUp whole one other := by
  have valid : IgnoreSet.ofPolicy pastIgnored = .ok ⟨[pastPattern], .empty⟩ := rfl
  have apart : Module.Apart turnedModule lostModule := Module.apartFiles (by decide)
  have left : Placed turnedModule := by unfold Placed; decide
  have right : Placed lostModule := by unfold Placed; decide
  have room : (turnedModule.union lostModule).fileList.length ≤ pastIgnored.maxFindings := by decide
  obtain ⟨panics, judged⟩ :=
    filesJudgedAlone turnedModule lostModule pastIgnored OutputOrder.keeping _ valid rfl apart left right room
  obtain ⟨whole, done⟩ := Option.ne_none_iff_exists'.mp fun none => by
    obtain ⟨file, -, silent⟩ := panics.mp none
    obtain ⟨text, refused⟩ := OutputOrder.formatterPanics (judgePanics silent).2
    contradiction
  obtain ⟨each, one, other, doneLeft, doneRight, -, -, sums⟩ := judged whole done
  exact ⟨valid, rfl, apart, left, right, room, whole, one, other, done, doneLeft, doneRight, each, sums⟩

end Evaluation
end DeclOrder
