import DeclOrder.Proofs.Config.Resolution

/-! Ignoring files. A file is ignored if one of the patterns for every rule or of the rule's own covers it, so a
further pattern takes the findings and the errors of the files that it covers out of a report, and nothing else. -/
namespace DeclOrder

def Glob.covers (text : String) (path : RepoPath) : Bool :=
  (Pattern.ofString text).toOption.any (·.matches path.text)

namespace Policy

def unset : RuleOverride := ⟨none, none, []⟩

def settingsOf (p : Policy) (rule : String) : RuleOverride := (p.rules.find? rule).getD unset

def patternsFor (p : Policy) (rule : String) : List String := p.ignore ++ (p.settingsOf rule).ignore

def withPatterns (p : Policy) (rule : String) (patterns : List String) : Policy :=
  { p with rules := p.rules.insert rule { p.settingsOf rule with ignore := patterns } }

/-- A policy and the same one with a further pattern in the list for every rule or in the rule's own. -/
inductive Adds (rule text : String) (p : Policy) : Policy → Prop where
  | everywhere {front back : List String} (list : p.ignore = front ++ back) :
      Adds rule text p { p with ignore := front ++ text :: back }
  | own {front back : List String} (list : (p.settingsOf rule).ignore = front ++ back) :
      Adds rule text p (p.withPatterns rule (front ++ text :: back))

end Policy

namespace IgnoreSet

theorem patternsAny {texts : List String} {found : List Glob.Pattern} (read : patterns texts = .ok found)
    (path : RepoPath) : found.any (·.matches path.text) = texts.any (Glob.covers · path) := by
  induction texts generalizing found with
  | nil => cases read; rfl
  | cons text rest ih =>
      simp only [patterns, bindOk] at read
      obtain ⟨first, here, others, behind, last⟩ := read
      cases last
      rw [List.any_cons, List.any_cons, ih behind, Glob.covers, here]
      rfl

theorem rulePatternsAny {entries : List (String × RuleOverride)} {found : Table (List Glob.Pattern)}
    (read : rulePatterns entries = .ok found) (rule : String) (path : RepoPath) :
    ((found.find? rule).getD []).any (·.matches path.text) =
      ((entries.lookup rule).getD Policy.unset).ignore.any (Glob.covers · path) := by
  induction entries generalizing found with
  | nil => cases read; rfl
  | cons e rest ih =>
      obtain ⟨name, changes⟩ := e
      simp only [rulePatterns, bindOk] at read
      obtain ⟨list, here, table, behind, last⟩ := read
      cases last
      rw [Table.findInsert, Table.lookupCons]
      by_cases same : rule = name
      · rw [if_pos same, if_pos same]
        exact patternsAny here path
      · rw [if_neg same, if_neg same]
        exact ih behind

theorem ignoresAny {p : Policy} {set : IgnoreSet} (read : ofPolicy p = .ok set) (rule : String) (path : RepoPath) :
    set.ignores rule path = (p.patternsFor rule).any (Glob.covers · path) := by
  simp only [ofPolicy, bindOk] at read
  obtain ⟨perRule, rules, everywhere, all, last⟩ := read
  cases last
  rw [ignores, patternsAny all, rulePatternsAny rules, Policy.patternsFor, List.any_append]
  rfl

end IgnoreSet

theorem Policy.settingsWellFormed {p : Policy} (all : ∀ e ∈ p.rules.entries, ∀ g ∈ e.2.ignore, Glob.WellFormed g)
    (rule : String) : ∀ g ∈ (p.settingsOf rule).ignore, Glob.WellFormed g := by
  unfold settingsOf
  cases found : p.rules.find? rule with
  | none => exact fun g member => absurd member List.not_mem_nil
  | some settings => exact all _ (Table.memFind.mpr found)

namespace Policy.Adds
variable {rule text : String} {p q : Policy}

theorem anyInserted (front back : List String) (text : String) (f : String → Bool) :
    (front ++ text :: back).any f = ((front ++ back).any f || f text) := by
  rw [List.any_append, List.any_append, List.any_cons, Bool.or_comm (f text), Bool.or_assoc]

theorem settingsWithPatterns (patterns : List String) :
    (p.withPatterns rule patterns).settingsOf rule = { p.settingsOf rule with ignore := patterns } := by
  rw [settingsOf, withPatterns, Table.findInsert, if_pos rfl, Option.getD_some]

theorem patternsOf (adds : Adds rule text p q) (path : RepoPath) : (q.patternsFor rule).any (Glob.covers · path) =
    ((p.patternsFor rule).any (Glob.covers · path) || Glob.covers text path) := by
  cases adds with
  | @everywhere front back list =>
      show ((front ++ text :: back) ++ (p.settingsOf rule).ignore).any _ = _
      rw [List.any_append, anyInserted, ← list, Bool.or_right_comm, ← List.any_append]
      rfl
  | own list =>
      show (p.ignore ++ ((p.withPatterns rule _).settingsOf rule).ignore).any _ = _
      rw [settingsWithPatterns, List.any_append, anyInserted, ← list, ← Bool.or_assoc, ← List.any_append]
      rfl

theorem valid (adds : Adds rule text p q) (further : Glob.WellFormed text) {set : IgnoreSet}
    (read : IgnoreSet.ofPolicy p = .ok set) : ∃ more, IgnoreSet.ofPolicy q = .ok more := by
  obtain ⟨everywhere, rules⟩ := Config.ofPolicyOk.mp ⟨set, read⟩
  have inserted {front back : List String} (all : ∀ g ∈ front ++ back, Glob.WellFormed g) :
      ∀ g ∈ front ++ text :: back, Glob.WellFormed g := by
    intro g member
    rcases List.mem_append.mp member with before | here
    · exact all g (List.mem_append_left back before)
    · rcases List.mem_cons.mp here with rfl | behind
      · exact further
      · exact all g (List.mem_append_right front behind)
  refine Config.ofPolicyOk.mpr ?_
  cases adds with
  | everywhere list => exact ⟨inserted (list ▸ everywhere), rules⟩
  | own list =>
      refine ⟨everywhere, fun e member => ?_⟩
      rcases Table.memPut member with rfl | old
      · exact inserted (list ▸ settingsWellFormed rules rule)
      · exact rules e old

theorem settled (adds : Adds rule text p q) (enabled : Bool) (severity : Severity) :
    (q.forRule rule enabled severity).enabled = (p.forRule rule enabled severity).enabled ∧
    (q.forRule rule enabled severity).severity = (p.forRule rule enabled severity).severity := by
  cases adds with
  | everywhere => exact ⟨rfl, rfl⟩
  | own list =>
      rw [forRule, withPatterns, Table.findInsert, if_pos rfl, forRule, settingsOf]
      cases p.rules.find? rule <;> exact ⟨rfl, rfl⟩

theorem maxFindings (adds : Adds rule text p q) : q.maxFindings = p.maxFindings := by
  cases adds <;> rfl

end Policy.Adds

namespace Evaluation
open OutputOrder (Suggestion checkFile checkAll)

def hits (g : Glob.Pattern) (f : Finding) : Bool := f.location.any (g.matches ·.path.text)

def blames (g : Glob.Pattern) (e : ToolError) : Bool := e.path.any (g.matches ·.text)

/-- The report without the files that a pattern matches: they are still scanned, and nothing is said of them. -/
structure Without (g : Glob.Pattern) (whole rest : DomainReport) : Prop where
  findings : rest.findings = whole.findings.filter (!hits g ·)
  errors : rest.summary.errors = whole.summary.errors.filter (!blames g ·)
  rules : rest.summary.rulesRun = whole.summary.rulesRun
  files : rest.summary.filesScanned = whole.summary.filesScanned
  blocks : rest.summary.blocksScanned = whole.summary.blocksScanned

theorem flatMapSpared {α β : Type} {skip : α → Bool} {yields spared : α → List β} {l : List α}
    (rest : ∀ a, spared a = if skip a then [] else yields a) :
    l.flatMap spared = (l.filter (!skip ·)).flatMap yields := by
  induction l with
  | nil => rfl
  | cons a l ih =>
      rw [List.flatMap_cons, ih, rest, List.filter_cons]
      cases skip a <;> rfl

variable {m : Module} {p q : Policy} {format : Formatter} {g : Glob.Pattern}

section
variable {severity : Severity} {ignored more : RepoPath → Bool}
  (added : ∀ path, more path = (ignored path || g.matches path.text))
include added

theorem judgeFurther (file : SourceFile) :
    judge format more file = if g.matches file.path.text then some (.ok none) else judge format ignored file := by
  unfold judge
  rw [added]
  cases ignored file.path <;> cases g.matches file.path.text <;> rfl

theorem answerFurther (file : SourceFile) :
    answer format more file = if g.matches file.path.text then .ok none else answer format ignored file := by
  rw [answer, judgeFurther added]
  split <;> rfl

theorem judgedSpared {β : Type} {yields : Except CheckError (Option Suggestion) → List β} {keep : β → Bool}
    (silent : yields (.ok none) = [])
    (owned : ∀ a ∈ m.fileList, ∀ b ∈ yields (answer format ignored a), keep b = !g.matches a.path.text) :
    m.fileList.flatMap (fun f => yields (answer format more f)) =
      (m.fileList.flatMap (fun f => yields (answer format ignored f))).filter keep := by
  rw [flatMapKept owned]
  refine flatMapSpared (fun file => ?_)
  rw [answerFurther added]
  split
  · exact silent
  · rfl

theorem findingsSpared (placed : Placed m) :
    m.fileList.flatMap (fun f => findingsFor severity (answer format more f)) =
      (m.fileList.flatMap (fun f => findingsFor severity (answer format ignored f))).filter (!hits g ·) := by
  refine judgedSpared added rfl (fun a member f found => ?_)
  obtain ⟨location, placedAt, path⟩ := findingPath placed member found
  rw [hits, placedAt, Option.any_some, path]

theorem errorsSpared : m.fileList.flatMap (fun f => errorsFor (answer format more f)) =
    (m.fileList.flatMap (fun f => errorsFor (answer format ignored f))).filter (!blames g ·) := by
  refine judgedSpared added rfl (fun a _ e failed => ?_)
  rw [blames, errorPath failed, Option.any_some]

theorem reportedWithout {failOn failElse : FailOn} {whole rest : DomainReport} (placed : Placed m)
    (before : Reported format severity ignored failOn m whole) (after : Reported format severity more failElse m rest)
    (rules : rest.summary.rulesRun = whole.summary.rulesRun) : Without g whole rest where
  findings := by rw [after.findings, before.findings, filterSortFindings, findingsSpared added placed]
  errors := by rw [after.errors, before.errors, errorsSpared added]
  rules := rules
  files := after.files.trans before.files.symm
  blocks := after.blocks.trans before.blocks.symm

end

section
variable (off : (p.forRule OutputOrder.ruleName false .notice).enabled = false)
include off

theorem reportOff {set : IgnoreSet} (valid : IgnoreSet.ofPolicy p = .ok set) :
    ∃ r, evaluate m p (allRules format) = some r ∧ r.findings = [] ∧ r.summary.errors = [] ∧ r.summary.rulesRun = [] ∧
      r.summary.filesScanned = m.fileList.length ∧ r.summary.blocksScanned = m.blocksScanned := by
  refine ⟨_, evaluateSome.mpr ⟨[], ranOff off, rfl⟩, ?_, ?_, rfl, rfl, rfl⟩
  · change (sortFindings []).take p.maxFindings = []
    rw [sortFindings, List.mergeSort_nil, List.take_nil]
  · rw [ignoreSetValid valid]
    rfl

end

theorem rulesRunOn (enabled : (p.forRule OutputOrder.ruleName false .notice).enabled = true) {r : DomainReport}
    (done : evaluate m p (allRules format) = some r) : r.summary.rulesRun = [OutputOrder.ruleName] := by
  obtain ⟨ran, ranSo, rfl⟩ := evaluateSome.mp done
  have alone : turnedOn p (allRules format) = [OutputOrder.rule format] := List.filter_cons_of_pos enabled
  exact (ranNames ranSo).trans (by rw [alone]; rfl)

/-- One more pattern, in the list for every rule or in the rule's own, takes what is said of the files that it
matches out of the report, and leaves all the rest as it stands. Only the check of another file can still panic. -/
theorem furtherPatternSpares (m : Module) (p q : Policy) (format : Formatter) (text : String) (g : Glob.Pattern)
    (set : IgnoreSet) (valid : IgnoreSet.ofPolicy p = .ok set) (further : Glob.Pattern.ofString text = .ok g)
    (adds : p.Adds OutputOrder.ruleName text q) (placed : Placed m) (room : m.fileList.length ≤ p.maxFindings) :
    (evaluate m q (allRules format) = none ↔ (p.forRule OutputOrder.ruleName false .notice).enabled = true ∧
      ∃ file ∈ m.fileList, g.matches file.path.text = false ∧
        judge format (set.ignores OutputOrder.ruleName) file = none) ∧
    ∀ whole, evaluate m p (allRules format) = some whole →
      ∃ rest, evaluate m q (allRules format) = some rest ∧ Without g whole rest := by
  obtain ⟨more, read⟩ := adds.valid ⟨g, further⟩ valid
  obtain ⟨sameEnabled, sameSeverity⟩ := adds.settled false .notice
  have added (path : RepoPath) : more.ignores OutputOrder.ruleName path =
      (set.ignores OutputOrder.ruleName path || g.matches path.text) := by
    have covered : Glob.covers text path = g.matches path.text := by rw [Glob.covers, further]; rfl
    rw [IgnoreSet.ignoresAny read, IgnoreSet.ignoresAny valid, adds.patternsOf, covered]
  have panics : evaluate m q (allRules format) = none ↔ (p.forRule OutputOrder.ruleName false .notice).enabled = true ∧
      ∃ file ∈ m.fileList, g.matches file.path.text = false ∧
        judge format (set.ignores OutputOrder.ruleName) file = none := by
    rw [evaluateNone, sameEnabled, ignoreSetValid read]
    refine and_congr_right fun _ => exists_congr fun file => and_congr_right fun _ => ?_
    rw [judgeFurther added]
    cases g.matches file.path.text <;> simp
  refine ⟨panics, fun whole done => ?_⟩
  cases enabled : (p.forRule OutputOrder.ruleName false .notice).enabled with
  | true =>
      have on := sameEnabled.trans enabled
      have before : Reported format _ _ _ m whole := reportOutputs valid enabled room done
      -- No check panics that did not before.
      obtain ⟨rest, still⟩ : ∃ rest, evaluate m q (allRules format) = some rest := by
        refine Option.ne_none_iff_exists'.mp fun none => ?_
        obtain ⟨-, file, member, -, silent⟩ := panics.mp none
        exact before.answered file member silent
      have after : Reported format _ _ _ m rest := reportOutputs read on (adds.maxFindings ▸ room) still
      rw [sameSeverity] at after
      exact ⟨rest, still, reportedWithout added placed before after
        ((rulesRunOn on still).trans (rulesRunOn enabled done).symm)⟩
  | false =>
      obtain ⟨rest, still, findings, errors, rules, files, blocks⟩ := reportOff (m := m) (sameEnabled.trans enabled) read
      obtain ⟨same, done', findings', errors', rules', files', blocks'⟩ := reportOff (m := m) enabled valid
      obtain rfl : whole = same := Option.some.inj (done.symm.trans done')
      exact ⟨rest, still,
        { findings := by rw [findings, findings', List.filter_nil]
          errors := by rw [errors, errors', List.filter_nil]
          rules := rules.trans rules'.symm
          files := files.trans files'.symm
          blocks := blocks.trans blocks'.symm }⟩

def mainPattern : Glob.Pattern := ⟨[.literal 'm', .run]⟩

def mainIgnored : Policy := pastIgnored.withPatterns OutputOrder.ruleName ["m*"]

def mixedModule : Module :=
  .ofFiles [OutputOrder.turnedFile "main.tf", unreadable "mod.tf" "lost", OutputOrder.turnedFile "next.tf",
    unreadable "other.tf" "lost"]

def turnedFinding (path : String) : Finding :=
  findingOf (.ofList [(OutputOrder.ruleName, .notice)]) (OutputOrder.emit (OutputOrder.turnedAround path))

def lostError (path : String) : ToolError :=
  ⟨OutputOrder.ruleName, some ⟨path⟩, (CheckError.read ⟨path⟩ "lost").detail⟩

theorem mixedReported {ignored : RepoPath → Bool} {r : DomainReport}
    (report : Reported OutputOrder.keeping .notice ignored .error mixedModule r)
    (none : ∀ file ∈ mixedModule.fileList, ignored file.path = false) :
    r.findings = [turnedFinding "main.tf", turnedFinding "next.tf"] ∧
      r.summary.errors = [lostError "mod.tf", lostError "other.tf"] := by
  have files : mixedModule.fileList = [OutputOrder.turnedFile "main.tf", unreadable "mod.tf" "lost",
      OutputOrder.turnedFile "next.tf", unreadable "other.tf" "lost"] := rfl
  rw [files] at none
  simp only [List.forall_mem_cons] at none
  obtain ⟨main, mod, next, other, -⟩ := none
  have turned (path : String) (here : ignored ⟨path⟩ = false) :
      answer OutputOrder.keeping ignored (OutputOrder.turnedFile path) = .ok (some (OutputOrder.turnedAround path)) := by
    rw [answer, judge, if_neg (by simpa [OutputOrder.turnedFile] using here),
      OutputOrder.checkedSound (OutputOrder.turnedChecked path), Option.getD_some]
  have lost (path : String) (here : ignored ⟨path⟩ = false) :
      answer OutputOrder.keeping ignored (unreadable path "lost") = .error (.read ⟨path⟩ "lost") := by
    rw [answer, judge, if_neg (by simpa [unreadable] using here)]
    rfl
  constructor
  · have order : [turnedFinding "main.tf", turnedFinding "next.tf"].Pairwise (fun a b => (compareFindings a b).isLE) := by
      decide
    rw [report.findings, files, ← List.mergeSort_of_pairwise order]
    simp only [List.flatMap_cons, List.flatMap_nil, turned _ main, lost _ mod, turned _ next, lost _ other]
    rfl
  · rw [report.errors, files]
    simp only [List.flatMap_cons, List.flatMap_nil, turned _ main, lost _ mod, turned _ next, lost _ other]
    rfl

theorem furtherPatternSparesMain :
    IgnoreSet.ofPolicy pastIgnored = .ok ⟨[pastPattern], .empty⟩ ∧ Glob.Pattern.ofString "m*" = .ok mainPattern ∧
    pastIgnored.Adds OutputOrder.ruleName "m*" mainIgnored ∧ Placed mixedModule ∧
    mixedModule.fileList.length ≤ pastIgnored.maxFindings ∧
    ∃ whole rest, evaluate mixedModule pastIgnored (allRules OutputOrder.keeping) = some whole ∧
      whole.findings = [turnedFinding "main.tf", turnedFinding "next.tf"] ∧
      whole.summary.errors = [lostError "mod.tf", lostError "other.tf"] ∧
      evaluate mixedModule mainIgnored (allRules OutputOrder.keeping) = some rest ∧
      rest.findings = [turnedFinding "next.tf"] ∧ rest.summary.errors = [lostError "other.tf"] := by
  have valid : IgnoreSet.ofPolicy pastIgnored = .ok ⟨[pastPattern], .empty⟩ := rfl
  have further : Glob.Pattern.ofString "m*" = .ok mainPattern := rfl
  have adds : pastIgnored.Adds OutputOrder.ruleName "m*" mainIgnored := @Policy.Adds.own _ _ _ [] [] rfl
  have placed : Placed mixedModule := by unfold Placed; decide
  have room : mixedModule.fileList.length ≤ pastIgnored.maxFindings := by decide
  obtain ⟨whole, done⟩ := Option.ne_none_iff_exists'.mp fun none => by
    obtain ⟨file, -, silent⟩ := (@panicsOnFile mixedModule pastIgnored OutputOrder.keeping _ valid rfl).mp none
    obtain ⟨text, refused⟩ := OutputOrder.formatterPanics (judgePanics silent).2
    contradiction
  obtain ⟨findings, errors⟩ := mixedReported (reportOutputs valid rfl room done) (by decide)
  obtain ⟨rest, still, without⟩ :=
    (furtherPatternSpares _ _ _ OutputOrder.keeping _ _ _ valid further adds placed room).2 whole done
  refine ⟨valid, further, adds, placed, room, whole, rest, done, findings, errors, still, ?_, ?_⟩
  · rw [without.findings, findings]
    rfl
  · rw [without.errors, errors]
    rfl

end Evaluation
end DeclOrder
