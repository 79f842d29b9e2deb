import DeclOrder.Config.Resolution
import DeclOrder.Proofs.Reading
import DeclOrder.Proofs.Independence

/-! Which config files are accepted: exactly those in which every name is known and every pattern is
well-formed. An accepted file says every part of its policy, and the patterns of that policy can be
matched, so a run by it never does without them. -/
namespace DeclOrder

def Glob.WellFormed (pattern : String) : Prop := ∃ p, Pattern.ofString pattern = .ok p

namespace Config

def profiles : List (String × Bool) := [("default", false), ("all", true)]

def failOnNames : List (String × FailOn) := [("error", .error), ("warning", .warning), ("warn", .warning)]

def severityNames : List (String × Severity) :=
  [("notice", .notice), ("warning", .warning), ("warn", .warning), ("error", .error)]

def Known {α : Type} (names : List (String × α)) (name : String) : Prop := name ∈ names.map Prod.fst

instance {α : Type} (names : List (String × α)) (name : String) : Decidable (Known names name) :=
  inferInstanceAs (Decidable (name ∈ names.map Prod.fst))

def profileFor (c : Config) (o : Overrides) : String := (o.profile <|> c.profile).getD "default"

structure ValidRule (name : String) (r : RuleConfig) : Prop where
  known : name ∈ allRuleNames
  severity : ∀ s ∈ r.severity, Known severityNames s
  patterns : ∀ g ∈ r.ignore, Glob.WellFormed g

structure Valid (c : Config) (o : Overrides) : Prop where
  profile : Known profiles (profileFor c o)
  failOn : ∀ name ∈ c.failOn, Known failOnNames name
  patterns : ∀ g ∈ c.ignore, Glob.WellFormed g
  rules : ∀ e ∈ c.rules.entries, ValidRule e.1 e.2

def overrideOf (r : RuleConfig) : RuleOverride := ⟨r.enabled, r.severity.bind (severityNames.lookup ·), r.ignore⟩

/-- The policy of a config file, part by part. -/
structure Settles (c : Config) (o : Overrides) (p : Policy) : Prop where
  profile : p.profile = profileFor c o
  enableAll : profiles.lookup (profileFor c o) = some p.enableAll
  failOn : p.failOn = (c.failOn.bind (failOnNames.lookup ·)).getD .error
  maxFindings : p.maxFindings = (o.maxFindings <|> c.maxFindings).getD 200
  ignore : p.ignore = c.ignore
  rules : p.rules.entries = c.rules.entries.map (fun e => (e.1, overrideOf e.2))

theorem knownIff {α : Type} {names : List (String × α)} {name : String} :
    Known names name ↔ ∃ value, names.lookup name = some value := by
  rw [← Option.isSome_iff_exists, List.lookup_isSome_iff]
  simp [Known]

/-! Patterns. -/

theorem patternsOk {patterns : List String} :
    (∃ found, IgnoreSet.patterns patterns = .ok found) ↔ ∀ g ∈ patterns, Glob.WellFormed g := by
  induction patterns with
  | nil => simp [IgnoreSet.patterns]
  | cons text rest ih =>
      rw [List.forall_mem_cons, ← ih]
      simp only [IgnoreSet.patterns, bind, Except.bind, Glob.WellFormed]
      cases Glob.Pattern.ofString text with
      | error e => simp
      | ok first => cases IgnoreSet.patterns rest <;> simp [pure, Except.pure]

theorem checkPatternsOk {list : String} {patterns : List String} {u : Unit} :
    checkPatterns list patterns = .ok u ↔ ∀ g ∈ patterns, Glob.WellFormed g := by
  rw [← patternsOk]
  simp only [checkPatterns, bindOk, mapErrorOk]
  exact ⟨fun ⟨found, read, _⟩ => ⟨found, read⟩, fun ⟨found, read⟩ => ⟨found, read, rfl⟩⟩

theorem rulePatternsOk {entries : List (String × RuleOverride)} :
    (∃ found, IgnoreSet.rulePatterns entries = .ok found) ↔ ∀ e ∈ entries, ∀ g ∈ e.2.ignore, Glob.WellFormed g := by
  induction entries with
  | nil => simp [IgnoreSet.rulePatterns]
  | cons e rest ih =>
      rw [List.forall_mem_cons, ← ih, ← patternsOk]
      simp only [IgnoreSet.rulePatterns, bind, Except.bind]
      cases IgnoreSet.patterns e.2.ignore with
      | error e => simp
      | ok first => cases IgnoreSet.rulePatterns rest <;> simp [pure, Except.pure]

theorem ofPolicyOk {p : Policy} : (∃ found, IgnoreSet.ofPolicy p = .ok found) ↔
    (∀ g ∈ p.ignore, Glob.WellFormed g) ∧ ∀ e ∈ p.rules.entries, ∀ g ∈ e.2.ignore, Glob.WellFormed g := by
  rw [← patternsOk, ← rulePatternsOk]
  simp only [IgnoreSet.ofPolicy, bind, Except.bind]
  cases IgnoreSet.rulePatterns p.rules.entries with
  | error e => simp
  | ok perRule => cases IgnoreSet.patterns p.ignore <;> simp [pure, Except.pure]

/-! Names. -/

theorem severityLookup (name : String) : severity? name = severityNames.lookup name := by
  unfold severity?
  split
  · rfl
  · unfold Severity.ofText?
    split
    case h_4 warn _ notice warning error =>
        simp only [severityNames, Table.lookupCons]
        rw [if_neg notice, if_neg warning, if_neg warn, if_neg error]
        rfl
    all_goals rfl

theorem failOnLookup (name : String) : failOn? name = failOnNames.lookup name := by
  unfold failOn?
  split
  case h_4 error warning warn =>
      simp only [failOnNames, Table.lookupCons]
      rw [if_neg error, if_neg warning, if_neg warn]
      rfl
  all_goals rfl

theorem profileLookup (name : String) : Policy.ofProfile? name =
    (profiles.lookup name).map (fun enableAll => { Policy.default with profile := name, enableAll := enableAll }) := by
  unfold Policy.ofProfile?
  split
  case h_3 default all =>
      simp only [profiles, Table.lookupCons]
      rw [if_neg default, if_neg all]
      rfl
  all_goals rfl

theorem resolveProfileOk {name : String} {p : Policy} : resolveProfile name = .ok p ↔
    ∃ enableAll, profiles.lookup name = some enableAll ∧
      p = { Policy.default with profile := name, enableAll := enableAll } := by
  rw [resolveProfile, profileLookup]
  cases profiles.lookup name <;> simp [eq_comm]

theorem resolveFailOnOk {fallback found : FailOn} {name : Option String} :
    resolveFailOn fallback name = .ok found ↔ (∀ n ∈ name, Known failOnNames n) ∧
      found = (name.bind (failOnNames.lookup ·)).getD fallback := by
  cases name with
  | none => simp [resolveFailOn, eq_comm]
  | some n =>
      simp only [resolveFailOn, failOnLookup, Option.mem_some_iff, forall_eq', knownIff, Option.bind_some]
      cases failOnNames.lookup n <;> simp [eq_comm]

theorem resolveSeverityOk {rule : String} {name : Option String} {found : Option Severity} :
    resolveSeverity rule name = .ok found ↔ (∀ n ∈ name, Known severityNames n) ∧
      found = name.bind (severityNames.lookup ·) := by
  cases name with
  | none => simp [resolveSeverity, eq_comm]
  | some n =>
      simp only [resolveSeverity, severityLookup, Option.mem_some_iff, forall_eq', knownIff, Option.bind_some]
      cases severityNames.lookup n <;> simp [eq_comm]

/-! Rules. -/

theorem resolveRuleOk {name : String} {r : RuleConfig} {out : RuleOverride} :
    resolveRule name r = .ok out ↔ ValidRule name r ∧ out = overrideOf r := by
  unfold resolveRule
  by_cases known : name ∈ allRuleNames
  · simp only [known, not_true_eq_false, if_false, bindOk, resolveSeverityOk, checkPatternsOk]
    constructor
    · rintro ⟨severity, ⟨named, rfl⟩, _, patterns, same⟩
      exact ⟨⟨known, named, patterns⟩, (Except.ok.inj same).symm⟩
    · rintro ⟨valid, rfl⟩
      exact ⟨_, ⟨valid.severity, rfl⟩, (), valid.patterns, rfl⟩
  · simp only [known, not_false_eq_true, if_true]
    constructor
    · nofun
    · exact fun both => absurd both.1.known known

theorem resolveRulesOk {entries : List (String × RuleConfig)} {out : List (String × RuleOverride)} :
    resolveRules entries = .ok out ↔
      (∀ e ∈ entries, ValidRule e.1 e.2) ∧ out = entries.map (fun e => (e.1, overrideOf e.2)) := by
  induction entries generalizing out with
  | nil => simp [resolveRules, eq_comm]
  | cons e rest ih =>
      simp only [resolveRules, bindOk, resolveRuleOk, ih, List.forall_mem_cons, List.map_cons]
      constructor
      · rintro ⟨_, ⟨first, rfl⟩, _, ⟨others, rfl⟩, same⟩
        exact ⟨⟨first, others⟩, (Except.ok.inj same).symm⟩
      · rintro ⟨⟨first, others⟩, rfl⟩
        exact ⟨_, ⟨first, rfl⟩, _, ⟨others, rfl⟩, rfl⟩

/-! Whole files. -/

theorem resolveOk {c : Config} {o : Overrides} {p : Policy} : c.resolve o = .ok p ↔ Valid c o ∧ Settles c o p := by
  simp only [resolve, bindOk, resolveProfileOk, resolveFailOnOk, checkPatternsOk, resolveRulesOk]
  constructor
  · rintro ⟨_, ⟨enableAll, known, rfl⟩, _, ⟨failOn, rfl⟩, _, patterns, _, ⟨rules, rfl⟩, same⟩
    obtain rfl := Except.ok.inj same
    refine ⟨⟨knownIff.mpr ⟨enableAll, known⟩, failOn, patterns, rules⟩, ⟨rfl, known, rfl, rfl, rfl, ?_⟩⟩
    exact Table.ofListAscending (List.pairwise_map.mpr c.rules.ascending)
  · rintro ⟨valid, settles⟩
    refine ⟨_, ⟨p.enableAll, settles.enableAll, rfl⟩, _, ⟨valid.failOn, rfl⟩, (), valid.patterns, _, ⟨valid.rules, rfl⟩, ?_⟩
    have rules : Table.ofList (c.rules.entries.map (fun e => (e.1, overrideOf e.2))) = p.rules := by
      rw [← settles.rules]
      exact Table.findUnique (fun key => congrArg (List.lookup key) (Table.ofListAscending p.rules.ascending))
    rw [rules]
    cases p
    cases settles
    subst_vars
    rfl

theorem Settles.wellFormed {c : Config} {o : Overrides} {p : Policy} (valid : Valid c o) (settles : Settles c o p) :
    ∃ found, IgnoreSet.ofPolicy p = .ok found := by
  rw [ofPolicyOk, settles.ignore, settles.rules, List.forall_mem_map]
  exact ⟨valid.patterns, fun e member => (valid.rules e member).patterns⟩

theorem errorsOfRules {p : Policy} {found : IgnoreSet} (read : IgnoreSet.ofPolicy p = .ok found) (m : Module)
    (rules : List Rule) : (Evaluation.evaluate m p rules).map (·.summary.errors) =
      (Evaluation.ranIn m p rules).map (·.flatMap Evaluation.toolErrorsOf) := by
  rw [Evaluation.evaluateRan, Option.map_map, Evaluation.ignoreSetValid read]
  rfl

theorem errorOfRule {p : Policy} {found : IgnoreSet} (read : IgnoreSet.ofPolicy p = .ok found) {m : Module}
    {rules : List Rule} {r : DomainReport} (done : Evaluation.evaluate m p rules = some r) {e : ToolError}
    (member : e ∈ r.summary.errors) : ∃ rule ∈ rules, e.rule = rule.name := by
  have errors := errorsOfRules read m rules
  rw [done] at errors
  obtain ⟨ran, ranSo, same⟩ := Option.map_eq_some_iff.mp errors.symm
  change ran.flatMap Evaluation.toolErrorsOf = r.summary.errors at same
  rw [← same] at member
  obtain ⟨one, among, failed⟩ := List.mem_flatMap.mp member
  obtain ⟨cause, -, rfl⟩ := List.mem_map.mp failed
  exact ⟨one.rule, (Evaluation.ranRule ranSo among).1, rfl⟩

/-- A config file is accepted exactly if every name in it is known and every pattern is well-formed. Its policy
then is what it says, and no run by that policy does without its patterns. -/
theorem configSettled (c : Config) (o : Overrides) : ((∃ p, c.resolve o = .ok p) ↔ Valid c o) ∧
    ∀ p, c.resolve o = .ok p → Settles c o p ∧ (∃ found, IgnoreSet.ofPolicy p = .ok found) ∧
      ∀ m, (∀ rules, (Evaluation.evaluate m p rules).map (·.summary.errors) =
          (Evaluation.ranIn m p rules).map (·.flatMap Evaluation.toolErrorsOf)) ∧
        ∀ format r, Evaluation.evaluate m p (allRules format) = some r → ∀ e ∈ r.summary.errors, e.rule ≠ "ignore" := by
  refine ⟨⟨fun ⟨p, accepted⟩ => (resolveOk.mp accepted).1, fun valid => ?_⟩, fun p accepted => ?_⟩
  · obtain ⟨enableAll, known⟩ := knownIff.mp valid.profile
    have rules : Ascending (c.rules.entries.map (fun e => (e.1, overrideOf e.2))) :=
      List.pairwise_map.mpr c.rules.ascending
    exact ⟨⟨profileFor c o, _, _, enableAll, c.ignore, ⟨_, rules⟩⟩, resolveOk.mpr ⟨valid, ⟨rfl, known, rfl, rfl, rfl, rfl⟩⟩⟩
  · obtain ⟨valid, settles⟩ := resolveOk.mp accepted
    obtain ⟨found, read⟩ := settles.wellFormed valid
    refine ⟨settles, ⟨found, read⟩, fun m => ⟨errorsOfRules read m, fun format r done e member named => ?_⟩⟩
    obtain ⟨rule, registered, same⟩ := errorOfRule read done member
    obtain rfl := List.mem_singleton.mp registered
    have differ : "ignore" ≠ OutputOrder.ruleName := by decide
    exact differ (named.symm.trans same)

def strictConfig : Config where
  schema := none
  profile := some "all"
  failOn := some "warn"
  maxFindings := some 5
  ignore := ["generated/**", ""]
  rules := .ofList [("terraform_output_order", ⟨some false, some "warn", ["[a-c]?/\x7bx,y\x7d.tf"]⟩)]

theorem configSettledStrict : Valid strictConfig ⟨none, some 1⟩ ∧ ∃ p, strictConfig.resolve ⟨none, some 1⟩ = .ok p ∧
    p.maxFindings = 1 ∧ p.ignore = ["generated/**", ""] ∧
    p.rules.entries = [("terraform_output_order", ⟨some false, some .warning, ["[a-c]?/\x7bx,y\x7d.tf"]⟩)] ∧
    ∃ found, IgnoreSet.ofPolicy p = .ok found := by
  have valid : Valid strictConfig ⟨none, some 1⟩ := by
    refine ⟨by decide, by decide, ?_, fun e member => ?_⟩
    · simpa [strictConfig] using ⟨⟨_, rfl⟩, ⟨_, rfl⟩⟩
    · obtain rfl := List.mem_singleton.mp member
      exact ⟨by decide, by decide, by simpa using ⟨_, rfl⟩⟩
  have told := configSettled strictConfig ⟨none, some 1⟩
  obtain ⟨p, accepted⟩ := told.1.mpr valid
  obtain ⟨settles, found, -⟩ := told.2 p accepted
  exact ⟨valid, p, accepted, settles.maxFindings, settles.ignore, settles.rules, found⟩

end Config
end DeclOrder
