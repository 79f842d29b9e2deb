import DeclOrder.Proofs.History
import DeclOrder.Proofs.StableSort
import DeclOrder.Proofs.Truncation
import Mathlib.Data.List.Perm.Basic

/-! The order in which rules are registered and the history of a module leave no trace. Findings that
compare equal come from one rule, so the sorted list holds them in the order in which that rule found
them, wherever the rule stands among the others. -/
namespace DeclOrder.Evaluation

theorem filterKey {α : Type} {key : α → String} {l m : List α} (perm : l.Perm m)
    (distinct : (l.map key).Nodup) (k : String) : l.filter (key · == k) = m.filter (key · == k) := by
  have few : (l.filter (key · == k)).length ≤ 1 := by
    have kept : ((l.filter (key · == k)).map key).Nodup := distinct.sublist (List.filter_sublist.map key)
    have all : (l.filter (key · == k)).map key = List.replicate (l.filter (key · == k)).length k := by
      rw [List.eq_replicate_iff]
      refine ⟨List.length_map _, fun b member => ?_⟩
      obtain ⟨a, found, rfl⟩ := List.mem_map.mp member
      exact beq_iff_eq.mp (List.mem_filter.mp found).2
    rw [all, List.nodup_replicate] at kept
    exact kept
  have same := perm.filter (key · == k)
  match found : l.filter (key · == k), few with
  | [], _ =>
      rw [found] at same
      exact (List.nil_perm.mp same).symm
  | [a], _ =>
      rw [found] at same
      exact List.singleton_perm.mp same

theorem flatMapOwned {α β : Type} {yields : α → List β} {keep : β → Bool} {own : α → Bool} {l : List α}
    (owned : ∀ a ∈ l, ∀ b ∈ yields a, keep b = true → own a = true) :
    (l.flatMap yields).filter keep = ((l.filter own).flatMap yields).filter keep := by
  induction l with
  | nil => rfl
  | cons a l ih =>
      have rest := ih (fun a' member => owned a' (List.mem_cons_of_mem _ member))
      rw [List.flatMap_cons, List.filter_append, rest, List.filter_cons]
      by_cases mine : own a = true
      · simp [mine]
      · have nothing : (yields a).filter keep = [] :=
          List.filter_eq_nil_iff.mpr (fun b member kept => mine (owned a List.mem_cons_self b member kept))
        simp [mine, nothing]

theorem flatMapPerm {α β : Type} {key : α → String} {yields : α → List β} {keep : β → Bool} (k : String) {l m : List α}
    (owned : ∀ a ∈ l, ∀ b ∈ yields a, keep b = true → key a = k) (perm : l.Perm m) (distinct : (l.map key).Nodup) :
    (l.flatMap yields).filter keep = (m.flatMap yields).filter keep := by
  have ofKey {n : List α} (owned : ∀ a ∈ n, ∀ b ∈ yields a, keep b = true → key a = k) :
      (n.flatMap yields).filter keep = ((n.filter (key · == k)).flatMap yields).filter keep :=
    flatMapOwned (fun a member b yielded kept => beq_iff_eq.mpr (owned a member b yielded kept))
  rw [ofKey owned, ofKey fun a member => owned a (perm.mem_iff.mpr member), filterKey perm distinct]

def Ran.name (r : Ran) : String := r.rule.name

def EmitsOwn (m : Module) (policy : Policy) (rule : Rule) : Prop :=
  ∀ outcome, rule.check m (ignoreSet policy).1.ignores = some outcome → ∀ e ∈ outcome.issues, e.rule = rule.name

section
variable {m : Module} {policy : Policy} {rules others : List Rule} {ran turned : List Ran}

theorem ranPerm (perm : rules.Perm others) (ranSo : ranIn m policy rules = some ran) :
    ∃ turned, ranIn m policy others = some turned ∧ ran.Perm turned := by
  have chosen : (turnedOn policy others).Perm (turnedOn policy rules) := perm.symm.filter _
  obtain ⟨turned, each, same⟩ := List.perm_comp_forall₂ chosen (ranIff.mp ranSo)
  exact ⟨turned, ranIff.mpr each, same.symm⟩

theorem ranDistinct (distinct : (rules.map (·.name)).Nodup) (ranSo : ranIn m policy rules = some ran) :
    (ran.map Ran.name).Nodup := by
  have names : ran.map Ran.name = (turnedOn policy rules).map (·.name) := ranNames ranSo
  rw [names]
  exact distinct.sublist (List.filter_sublist.map _)

theorem severityFound (distinct : (ran.map Ran.name).Nodup) {name : String} {severity : Severity} :
    (severities ran).find? name = some severity ↔ (name, severity) ∈ ran.map (fun r => (r.name, r.severity)) := by
  have keys : ((ran.map (fun r => (r.name, r.severity))).map Prod.fst).Nodup := by rwa [List.map_map]
  change (Table.ofList (ran.map (fun r => (r.name, r.severity)))).find? name = _ ↔ _
  rw [Table.findOfList, Table.lookupReverse keys, Table.lookupMem keys]

theorem severitiesPerm (perm : ran.Perm turned) (distinct : (ran.map Ran.name).Nodup) :
    severities ran = severities turned := by
  refine Table.findUnique (fun name => Option.ext fun severity => ?_)
  rw [severityFound distinct, severityFound ((perm.map _).nodup_iff.mp distinct), (perm.map _).mem_iff]

theorem tiedRule {a b : Finding} (tied : StableSort.tied upTo a b = true) : b.checkId = a.checkId := by
  obtain ⟨ab, ba⟩ := Bool.and_eq_true_iff.mp tied
  have level : compareFindings a b = .eq := by
    have turned : compareFindings b a = (compareFindings a b).swap := Std.OrientedCmp.eq_swap
    rw [upTo, turned] at ba
    rw [upTo] at ab
    cases h : compareFindings a b <;> simp_all
  simp only [compareFindings, Ordering.then_eq_eq] at level
  exact (Std.LawfulEqOrd.eq_of_compare level.2.2.2.1).symm

theorem foundFlat (ran : List Ran) :
    foundOf ran = ran.flatMap (fun r => r.outcome.issues.map (findingOf (severities ran))) := List.map_flatMap

theorem sortedPerm (perm : ran.Perm turned) (distinct : (ran.map Ran.name).Nodup)
    (own : ∀ r ∈ ran, ∀ e ∈ r.outcome.issues, e.rule = r.name) :
    sortFindings (foundOf ran) = sortFindings (foundOf turned) := by
  refine StableSort.sortAlike upToTrans upToTotal (fun x => ?_)
  rw [foundFlat, foundFlat, ← severitiesPerm perm distinct]
  refine flatMapPerm x.checkId (fun r among f member tied => ?_) perm distinct
  obtain ⟨e, emitted, rfl⟩ := List.mem_map.mp member
  exact (own r among e emitted).symm.trans (tiedRule tied)

theorem errorsPerm (perm : ran.Perm turned) (distinct : (ran.map Ran.name).Nodup) (rule : String) :
    (ran.flatMap toolErrorsOf).filter (·.rule == rule) = (turned.flatMap toolErrorsOf).filter (·.rule == rule) := by
  refine flatMapPerm rule (fun r _ e member same => ?_) perm distinct
  obtain ⟨cause, _, rfl⟩ := List.mem_map.mp member
  exact beq_iff_eq.mp same

end

/-- Reports that tell the same, up to how the errors of different rules are mixed. -/
structure SameResults (a b : DomainReport) : Prop where
  findings : a.findings = b.findings
  verdict : a.verdict = b.verdict
  counts : a.counts = b.counts
  total : a.summary.findingsTotal = b.summary.findingsTotal
  emitted : a.summary.findingsEmitted = b.summary.findingsEmitted
  truncated : a.summary.truncatedReason = b.summary.truncatedReason
  errors : ∀ rule, a.summary.errors.filter (·.rule == rule) = b.summary.errors.filter (·.rule == rule)

theorem reportPerm (m : Module) (policy : Policy) (ignoreErrors : List ToolError) {ran turned : List Ran}
    (perm : ran.Perm turned) (distinct : (ran.map Ran.name).Nodup)
    (own : ∀ r ∈ ran, ∀ e ∈ r.outcome.issues, e.rule = r.name) :
    SameResults (reportOf m policy ignoreErrors ran) (reportOf m policy ignoreErrors turned) := by
  have all : sortFindings (foundOf ran) = _ := sortedPerm perm distinct own
  refine ⟨?_, ?_, ?_, ?_, ?_, ?_, fun rule => ?_⟩
  · exact congrArg (List.take policy.maxFindings) all
  · rw [verdictKept, verdictKept, all]
  · exact congrArg (fun found => SeverityCounts.ofFindings (found.take policy.maxFindings)) all
  · exact congrArg List.length all
  · exact congrArg (fun found => (found.take policy.maxFindings).length) all
  · exact congrArg (fun found => if policy.maxFindings < found.length then some (truncationReason policy.maxFindings) else none) all
  · show List.filter _ (ignoreErrors ++ ran.flatMap toolErrorsOf) = List.filter _ (ignoreErrors ++ turned.flatMap toolErrorsOf)
    rw [List.filter_append, List.filter_append, errorsPerm perm distinct]

/-- Rules with distinct names that report under these report the same in whatever order they are registered, or
panic in every order, and a module is judged by the last file for every path, whatever was inserted and removed
before. -/
theorem sameRulesSameFiles :
    (∀ (m : Module) (policy : Policy) (rules others : List Rule), rules.Perm others → (rules.map (·.name)).Nodup →
      (∀ rule ∈ rules, EmitsOwn m policy rule) →
        Option.Rel SameResults (evaluate m policy rules) (evaluate m policy others)) ∧
    (∀ changes others : List Module.Change,
      (∀ path, Module.lastFile? changes path = Module.lastFile? others path) →
      ∀ (policy : Policy) (rules : List Rule),
        evaluate (Module.empty.after changes) policy rules = evaluate (Module.empty.after others) policy rules) := by
  constructor
  · intro m policy rules others perm distinct own
    rw [evaluateRan, evaluateRan]
    cases ranSo : ranIn m policy rules with
    | some ran =>
        obtain ⟨turned, ranElse, same⟩ := ranPerm perm ranSo
        rw [ranElse]
        refine .some (reportPerm m policy _ same (ranDistinct distinct ranSo) fun r among => ?_)
        obtain ⟨registered, checked⟩ := ranRule ranSo among
        exact own r.rule registered r.outcome checked
    | none =>
        cases ranElse : ranIn m policy others with
        | none => exact .none
        | some turned =>
            -- A run in the other order would be one in this order.
            obtain ⟨ran, ranSo', -⟩ := ranPerm perm.symm ranElse
            rw [ranSo] at ranSo'
            contradiction
  · intro changes others same policy rules
    rw [Module.afterSame same]

def unreadable (path reason : String) : SourceFile := ⟨⟨path⟩, .unavailable reason⟩

def detour : List Module.Change :=
  [.insert (unreadable "a.tf" "first"), .insert (unreadable "b.tf" "gone"), .insert (unreadable "a.tf" "last"),
    .remove ⟨"b.tf"⟩]

def noticeAndError : List Rule :=
  [constantRule "a" .notice [sample "a", sample "a"], constantRule "b" .error [sample "b"]]

theorem sameRulesSameFilesSwapped :
    noticeAndError.Perm noticeAndError.reverse ∧ (noticeAndError.map (·.name)).Nodup ∧
    (∀ rule ∈ noticeAndError, EmitsOwn .empty .default rule) ∧
    Option.Rel SameResults (evaluate .empty .default noticeAndError) (evaluate .empty .default noticeAndError.reverse) ∧
    (∀ path, Module.lastFile? detour path = Module.lastFile? [.insert (unreadable "a.tf" "last")] path) ∧
    evaluate (Module.empty.after detour) .default noticeAndError =
      evaluate (Module.empty.after [.insert (unreadable "a.tf" "last")]) .default noticeAndError := by
  have perm := noticeAndError.reverse_perm.symm
  have distinct : (noticeAndError.map (·.name)).Nodup := by decide
  have own : ∀ rule ∈ noticeAndError, EmitsOwn .empty .default rule := by
    simp [noticeAndError, EmitsOwn, constantRule, sample]
  have last (path : RepoPath) :
      Module.lastFile? detour path = Module.lastFile? [.insert (unreadable "a.tf" "last")] path := by
    by_cases a : (⟨"a.tf"⟩ : RepoPath) = path
    · subst a; rfl
    · by_cases b : (⟨"b.tf"⟩ : RepoPath) = path
      · subst b; rfl
      · simp [Module.lastFile?, detour, unreadable, Module.Change.path, a, b]
  exact ⟨perm, distinct, own, sameRulesSameFiles.1 _ _ _ _ perm distinct own, last, sameRulesSameFiles.2 _ _ last _ _⟩

end DeclOrder.Evaluation
