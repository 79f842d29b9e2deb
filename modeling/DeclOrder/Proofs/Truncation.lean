import DeclOrder.Proofs.FindingOrder
import Mathlib.Data.List.Forall2

/-! Truncation and the verdict. Because findings are sorted by severity first, the first of them
decides the verdict, so every limit but zero leaves it as it is. A limit of zero hides everything. -/
namespace DeclOrder.Evaluation

def ranIn (m : Module) (policy : Policy) (rules : List Rule) : Option (List Ran) :=
  runRules m policy (ignoreSet policy).1 rules

def foundOf (ran : List Ran) : List Finding := (emissions ran).map (findingOf (severities ran))

def withLimit (policy : Policy) (limit : Nat) : Policy := { policy with maxFindings := limit }

def Fails (failOn : FailOn) (severity : Severity) : Prop :=
  severity = .error ∨ severity = .warning ∧ failOn = .warning

def turnedOn (policy : Policy) (rules : List Rule) : List Rule := rules.filter (fun rule => (settled policy rule).enabled)

structure Runs (m : Module) (policy : Policy) (rule : Rule) (r : Ran) : Prop where
  itself : r.rule = rule
  severity : r.severity = (settled policy rule).severity
  outcome : rule.check m (ignoreSet policy).1.ignores = some r.outcome

section
variable {m : Module} {policy : Policy} {rules : List Rule} {ran : List Ran}

theorem turnedOnCons (rule : Rule) : turnedOn policy (rule :: rules) =
    if (settled policy rule).enabled then rule :: turnedOn policy rules else turnedOn policy rules :=
  List.filter_cons

theorem ranIff : ranIn m policy rules = some ran ↔ List.Forall₂ (Runs m policy) (turnedOn policy rules) ran := by
  unfold ranIn
  induction rules generalizing ran with
  | nil => exact ⟨fun same => by cases same; exact .nil, fun each => by cases each; rfl⟩
  | cons rule rest ih =>
      rw [runRules, turnedOnCons]
      split
      · simp only [bind, Option.bind_eq_some_iff, pure, Option.some_inj]
        constructor
        · rintro ⟨outcome, checked, others, later, rfl⟩
          exact .cons ⟨rfl, rfl, checked⟩ (ih.mp later)
        · intro each
          cases each with
          | @cons _ r _ others first later =>
              refine ⟨r.outcome, first.outcome, others, ih.mpr later, ?_⟩
              rw [← first.severity, ← first.itself]
      · exact ih

theorem evaluateRan : evaluate m policy rules = (ranIn m policy rules).map (reportOf m policy (ignoreSet policy).2) := by
  change (ranIn m policy rules).bind _ = _
  cases ranIn m policy rules <;> rfl

theorem evaluateSome {r : DomainReport} : evaluate m policy rules = some r ↔
    ∃ ran, ranIn m policy rules = some ran ∧ reportOf m policy (ignoreSet policy).2 ran = r := by
  rw [evaluateRan, Option.map_eq_some_iff]

theorem ranRule (ranSo : ranIn m policy rules = some ran) {r : Ran} (member : r ∈ ran) :
    r.rule ∈ rules ∧ r.rule.check m (ignoreSet policy).1.ignores = some r.outcome := by
  have each := ranIff.mp ranSo
  have registered : ∀ rule ∈ turnedOn policy rules, rule ∈ rules := fun _ among => (List.mem_filter.mp among).1
  clear ranSo
  generalize turnedOn policy rules = chosen at each registered
  induction each with
  | nil => cases member
  | cons first _ ih =>
      rcases List.mem_cons.mp member with rfl | later
      · exact ⟨first.itself ▸ registered _ List.mem_cons_self, first.itself ▸ first.outcome⟩
      · exact ih later fun rule among => registered rule (List.mem_cons_of_mem _ among)

theorem ranNames (ranSo : ranIn m policy rules = some ran) :
    ran.map (·.rule.name) = (turnedOn policy rules).map (·.name) := by
  have each := ranIff.mp ranSo
  generalize turnedOn policy rules = chosen at each ⊢
  clear ranSo
  induction each with
  | nil => rfl
  | cons first _ ih => rw [List.map_cons, List.map_cons, first.itself, ih]

theorem ranWithLimit (limit : Nat) : ranIn m (withLimit policy limit) rules = ranIn m policy rules := by
  unfold ranIn
  change runRules m (withLimit policy limit) (ignoreSet policy).1 rules = _
  induction rules with
  | nil => rfl
  | cons rule rest ih =>
      rw [runRules, runRules, ih]
      rfl

theorem foundLength (ran : List Ran) : (foundOf ran).length = (emissions ran).length := List.length_map _

end

theorem rankedAnyError {f : Finding} {rest : List Finding} (ranked : Ranked (f :: rest)) :
    (f :: rest).any (·.severity == .error) = (f.severity == .error) := by
  rw [Bool.eq_iff_iff, List.any_eq_true]
  constructor
  · rintro ⟨g, member, error⟩
    rcases List.mem_cons.mp member with rfl | below
    · exact error
    · have le := (List.pairwise_cons.mp ranked).1 g below
      rw [beq_iff_eq.mp error] at le
      cases h : f.severity <;> simp_all [Severity.rank]
  · intro error
    exact ⟨f, List.mem_cons_self, error⟩

theorem rankedAnyWarning {f : Finding} {rest : List Finding} (ranked : Ranked (f :: rest))
    (mild : f.severity ≠ .error) :
    (f :: rest).any (·.severity == .warning) = (f.severity == .warning) := by
  rw [Bool.eq_iff_iff, List.any_eq_true]
  constructor
  · rintro ⟨g, member, warning⟩
    rcases List.mem_cons.mp member with rfl | below
    · exact warning
    · have le := (List.pairwise_cons.mp ranked).1 g below
      rw [beq_iff_eq.mp warning] at le
      cases h : f.severity <;> simp_all [Severity.rank]
  · intro warning
    exact ⟨f, List.mem_cons_self, warning⟩

theorem verdictOfRanked (failOn : FailOn) {f : Finding} {rest : List Finding} (ranked : Ranked (f :: rest)) :
    verdictOf failOn (f :: rest) = verdictOf failOn [f] := by
  have single : Ranked [f] := List.pairwise_singleton _ f
  unfold verdictOf
  rw [rankedAnyError ranked, rankedAnyError single]
  by_cases error : f.severity = .error
  · simp [error]
  · rw [rankedAnyWarning ranked error, rankedAnyWarning single error]

theorem verdictOfTake (failOn : FailOn) {findings : List Finding} (ranked : Ranked findings) {limit : Nat}
    (positive : limit ≠ 0) : verdictOf failOn (findings.take limit) = verdictOf failOn findings := by
  cases findings with
  | nil => rw [List.take_nil]
  | cons f rest =>
      obtain ⟨n, rfl⟩ := Nat.exists_eq_succ_of_ne_zero positive
      have kept : Ranked (f :: rest.take n) := List.Pairwise.sublist (List.take_sublist (n + 1) (f :: rest)) ranked
      rw [List.take_succ_cons, verdictOfRanked failOn kept, verdictOfRanked failOn ranked]

theorem verdictOfFails {failOn : FailOn} {f : Finding} {findings : List Finding} (member : f ∈ findings)
    (fails : Fails failOn f.severity) : verdictOf failOn findings = .fail := by
  have any {s : Severity} (h : f.severity = s) : findings.any (·.severity == s) = true :=
    List.any_eq_true.mpr ⟨f, member, beq_iff_eq.mpr h⟩
  unfold verdictOf
  rcases fails with error | ⟨warning, onWarning⟩
  · rw [any error, if_pos rfl]
  · rw [any warning, onWarning, if_pos rfl, ite_self]

theorem findingMade {m : Module} {policy : Policy} {rules : List Rule} {r : DomainReport} (done : evaluate m policy rules = some r)
    {finding : Finding} (member : finding ∈ r.findings) :
    ∃ rule ∈ rules, ∃ outcome, rule.check m (ignoreSet policy).1.ignores = some outcome ∧
      ∃ e ∈ outcome.issues, ∃ levels, findingOf levels e = finding := by
  obtain ⟨ran, ranSo, rfl⟩ := evaluateSome.mp done
  obtain ⟨e, emitted, made⟩ := List.mem_map.mp (memSortFindings.mp (List.mem_of_mem_take member))
  obtain ⟨one, among, reported⟩ := List.mem_flatMap.mp emitted
  obtain ⟨registered, checked⟩ := ranRule ranSo among
  exact ⟨one.rule, registered, one.outcome, checked, e, reported, _, made⟩

section
variable (m : Module) (policy : Policy) (ignoreErrors : List ToolError) {ran : List Ran}

theorem verdictKept (ran : List Ran) : (reportOf m policy ignoreErrors ran).verdict =
    verdictOf policy.failOn ((sortFindings (foundOf ran)).take policy.maxFindings) := rfl

theorem verdictWhole (positive : policy.maxFindings ≠ 0) :
    (reportOf m policy ignoreErrors ran).verdict = verdictOf policy.failOn (sortFindings (foundOf ran)) := by
  rw [verdictKept, verdictOfTake policy.failOn (sortFindingsRanked (foundOf ran)) positive]

theorem verdictUnlimited {limit : Nat} (whole : (emissions ran).length ≤ limit) :
    (reportOf m (withLimit policy limit) ignoreErrors ran).verdict = verdictOf policy.failOn (sortFindings (foundOf ran)) := by
  have length : (sortFindings (foundOf ran)).length ≤ limit := by
    rw [sortFindingsLength, foundLength]
    exact whole
  rw [verdictKept]
  exact congrArg (verdictOf policy.failOn) (List.take_of_length_le length)

end

/-- A limit of one finding or more leaves the verdict as it is without a limit, so what has to fail a
run does, under whatever name it is reported. A limit of zero keeps nothing, and nothing passes. -/
theorem verdictUnderLimit (m : Module) (policy : Policy) (rules : List Rule) (limit : Nat)
    (whole : ∀ ran, ranIn m policy rules = some ran → (emissions ran).length ≤ limit) :
    (policy.maxFindings ≠ 0 →
      (evaluate m policy rules).map (·.verdict) = (evaluate m (withLimit policy limit) rules).map (·.verdict) ∧
      ∀ ran, ranIn m policy rules = some ran → ∀ r ∈ ran, ∀ e ∈ r.outcome.issues,
        Fails policy.failOn (level (severities ran) e.rule) →
          ∃ report, evaluate m policy rules = some report ∧ report.verdict = .fail ∧ report.verdict.exitCode = 2) ∧
    (policy.maxFindings = 0 → ∀ report, evaluate m policy rules = some report → report.verdict = .pass) := by
  refine ⟨fun positive => ⟨?_, fun ran ranSo r among e emitted fails => ?_⟩, fun zero report done => ?_⟩
  · rw [evaluateRan, evaluateRan, ranWithLimit]
    cases ranSo : ranIn m policy rules with
    | none => rfl
    | some ran =>
        exact congrArg some ((verdictWhole m policy (ignoreSet policy).2 positive).trans
          (verdictUnlimited m policy (ignoreSet policy).2 (whole ran ranSo)).symm)
  · have found : findingOf (severities ran) e ∈ sortFindings (foundOf ran) :=
      memSortFindings.mpr (List.mem_map_of_mem (List.mem_flatMap.mpr ⟨r, among, emitted⟩))
    have failed := (verdictWhole m policy (ignoreSet policy).2 positive).trans (verdictOfFails found fails)
    exact ⟨_, evaluateSome.mpr ⟨ran, ranSo, rfl⟩, failed, congrArg Verdict.exitCode failed⟩
  · obtain ⟨ran, -, rfl⟩ := evaluateSome.mp done
    rw [verdictKept, zero, List.take_zero]
    rfl

def constantRule (name : String) (severity : Severity) (emitted : List Emitted) : Rule :=
  ⟨name, true, severity, referenceLink name, fun _ _ => some ⟨emitted, []⟩⟩

def sample (rule : String) : Emitted :=
  ⟨rule, referenceLink rule, "code", "b", "message", ⟨⟨"main.tf"⟩, ⟨1, 1, 0⟩, ⟨1, 11, 10⟩⟩, none, .null⟩

/-- The first rule reports under names that are not its own: one of no rule, and one of a rule that is an error. -/
def lentNames : List Rule :=
  [constantRule "a" .notice [sample "a", sample "c", sample "b"], constantRule "b" .error []]

def ranLent : List Ran :=
  [⟨constantRule "a" .notice [sample "a", sample "c", sample "b"], .notice, ⟨[sample "a", sample "c", sample "b"], []⟩⟩,
    ⟨constantRule "b" .error [], .error, ⟨[], []⟩⟩]

theorem limitOfOneShowsError :
    (∀ ran, ranIn .empty (withLimit .default 1) lentNames = some ran → (emissions ran).length ≤ 3) ∧
    (evaluate .empty (withLimit .default 1) lentNames).map (·.verdict) =
      (evaluate .empty (withLimit .default 3) lentNames).map (·.verdict) ∧
    ∃ report, evaluate .empty (withLimit .default 1) lentNames = some report ∧ report.verdict.exitCode = 2 := by
  have whole : ∀ ran, ranIn .empty (withLimit .default 1) lentNames = some ran → (emissions ran).length ≤ 3 := by
    intro ran same
    cases same
    decide
  have kept := (verdictUnderLimit .empty (withLimit .default 1) lentNames 3 whole).1 (by decide)
  obtain ⟨report, done, -, code⟩ := kept.2 ranLent rfl _ List.mem_cons_self (sample "b") (by simp) (.inl (by decide))
  exact ⟨whole, kept.1, report, done, code⟩

theorem limitOfZeroHidesError :
    (∀ ran, ranIn .empty (withLimit .default 0) [constantRule "b" .error [sample "b"]] = some ran →
      (emissions ran).length ≤ 1) ∧
    (evaluate .empty (withLimit .default 0) [constantRule "b" .error [sample "b"]]).map (·.verdict) = some .pass ∧
    (evaluate .empty (withLimit .default 1) [constantRule "b" .error [sample "b"]]).map (·.verdict) = some .fail := by
  refine ⟨?_, rfl, ?_⟩
  · intro ran same
    cases same
    decide
  · let ran : List Ran := [⟨constantRule "b" .error [sample "b"], .error, ⟨[sample "b"], []⟩⟩]
    have alone : sortFindings (foundOf ran) = [findingOf (severities ran) (sample "b")] := List.mergeSort_singleton _
    have ranSo : ranIn .empty (withLimit .default 1) [constantRule "b" .error [sample "b"]] = some ran := rfl
    rw [evaluateRan, ranSo, Option.map_some, Option.map_some, verdictWhole _ _ _ (by decide), alone]
    rfl

end DeclOrder.Evaluation
