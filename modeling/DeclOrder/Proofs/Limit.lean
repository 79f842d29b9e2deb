import DeclOrder.Proofs.StableSort
import DeclOrder.Proofs.Truncation
import DeclOrder.Report.Basic

/-! What a limit keeps of the findings: the first of them in their order, and counts that tell how many
there were. The order is a total preorder, so a stable sort has one result only. -/
namespace DeclOrder.Evaluation
open StableSort

structure TotalPreorder (order : Finding → Finding → Ordering) : Prop where
  reflexive : ∀ a, order a a = .eq
  swapped : ∀ a b, order b a = (order a b).swap
  transitive : ∀ a b c, (order a b).isLE = true → (order b c).isLE = true → (order a c).isLE = true
  total : ∀ a b, (order a b).isLE = true ∨ (order b a).isLE = true

theorem compareFindingsPreorder : TotalPreorder compareFindings := by
  constructor
  · exact fun a => Std.ReflCmp.compare_self
  · exact fun a b => Std.OrientedCmp.eq_swap
  · exact upToTrans
  · exact fun a b => by simpa [upTo] using upToTotal a b

/-- A report that has the first findings of `all`, as many as the limit lets through, and says so. -/
structure Truncated (all : List Finding) (limit : Nat) (r : DomainReport) : Prop where
  findings : r.findings = all.take (min limit all.length)
  total : (Report.narrowed r.summary).findingsTotal = all.length
  emitted : (Report.narrowed r.summary).findingsEmitted = r.findings.length
  counted : r.findings.length = r.counts.notice + r.counts.warning + r.counts.error
  reason : (Report.narrowed r.summary).truncatedReason.isSome = true ↔
    (Report.narrowed r.summary).findingsEmitted < (Report.narrowed r.summary).findingsTotal
  milder : ∃ dropped, all = r.findings ++ dropped ∧
    ∀ kept ∈ r.findings, ∀ f ∈ dropped, kept.severity.rank ≤ f.severity.rank

/-- Two reports, the first of which shows the first findings of the second. -/
structure Shortened (fewer more : DomainReport) : Prop where
  findings : fewer.findings <+: more.findings
  errors : fewer.summary.errors = more.summary.errors
  rulesRun : fewer.summary.rulesRun = more.summary.rulesRun
  filesScanned : fewer.summary.filesScanned = more.summary.filesScanned
  blocksScanned : fewer.summary.blocksScanned = more.summary.blocksScanned

theorem countsSum (findings : List Finding) : findings.length = (SeverityCounts.ofFindings findings).notice +
    (SeverityCounts.ofFindings findings).warning + (SeverityCounts.ofFindings findings).error := by
  simp only [SeverityCounts.ofFindings]
  induction findings with
  | nil => rfl
  | cons f rest ih =>
      simp only [List.length_cons, List.countP_cons, ih]
      cases f.severity <;> simp <;> omega

theorem rankedSplit {kept dropped : List Finding} (ranked : Ranked (kept ++ dropped)) :
    ∀ f ∈ kept, ∀ g ∈ dropped, f.severity.rank ≤ g.severity.rank :=
  (List.pairwise_append.mp ranked).2.2

section
variable (m : Module) (policy : Policy) (ignoreErrors : List ToolError) (ran : List Ran)

theorem reportFindings : (reportOf m policy ignoreErrors ran).findings =
    (sortFindings (foundOf ran)).take policy.maxFindings := rfl

theorem reportTotal : (reportOf m policy ignoreErrors ran).summary.findingsTotal = (foundOf ran).length :=
  sortFindingsLength (foundOf ran)

theorem reportReason : (reportOf m policy ignoreErrors ran).summary.truncatedReason.isSome = true ↔
    policy.maxFindings < (foundOf ran).length := by
  have reason : (reportOf m policy ignoreErrors ran).summary.truncatedReason =
    if policy.maxFindings < (sortFindings (foundOf ran)).length then
      some (truncationReason policy.maxFindings) else none := rfl
  rw [reason, sortFindingsLength]
  split <;> simp_all

variable {ran} in
theorem reportTruncated (few : (emissions ran).length < twoTo 32) :
    Truncated (sortFindings (foundOf ran)) policy.maxFindings (reportOf m policy ignoreErrors ran) := by
  -- No count is cut, as there are no more findings than issues.
  rw [← foundLength] at few
  have length := sortFindingsLength (foundOf ran)
  have split := List.take_append_drop policy.maxFindings (sortFindings (foundOf ran))
  have keptLength : (reportOf m policy ignoreErrors ran).findings.length = min policy.maxFindings (foundOf ran).length := by
    rw [reportFindings, List.length_take, length]
  have total : (Report.narrowed (reportOf m policy ignoreErrors ran).summary).findingsTotal = (foundOf ran).length := by
    rw [Report.narrowed, reportTotal]
    exact Nat.mod_eq_of_lt few
  have emitted : (Report.narrowed (reportOf m policy ignoreErrors ran).summary).findingsEmitted =
      (reportOf m policy ignoreErrors ran).findings.length :=
    Nat.mod_eq_of_lt (show (reportOf m policy ignoreErrors ran).findings.length < twoTo 32 by omega)
  constructor
  · rw [reportFindings, List.take_eq_take_min]
  · rw [total, length]
  · exact emitted
  · exact countsSum _
  · rw [total, emitted, keptLength]
    exact (reportReason m policy ignoreErrors ran).trans (by omega)
  · refine ⟨_, split.symm, rankedSplit ?_⟩
    rw [reportFindings, split]
    exact sortFindingsRanked _

end

/-- A limit keeps the first findings in their order, and the report counts all of them. -/
theorem limitKeepsFirst : TotalPreorder compareFindings ∧ ∀ m policy rules ran,
    ranIn m policy rules = some ran → (emissions ran).length < twoTo 32 →
    ∃ all, (∀ l, StablySorted (fun a b => (compareFindings a b).isLE) (foundOf ran) l ↔ l = all) ∧
      (∃ r, evaluate m policy rules = some r ∧ Truncated all policy.maxFindings r) ∧
      ∀ limit wider, limit ≤ wider →
        ∃ fewer more, evaluate m (withLimit policy limit) rules = some fewer ∧
          evaluate m (withLimit policy wider) rules = some more ∧ Shortened fewer more := by
  refine ⟨compareFindingsPreorder, fun m policy rules ran ranSo few => ⟨sortFindings (foundOf ran), fun l => ?_,
    ⟨_, evaluateSome.mpr ⟨ran, ranSo, rfl⟩, reportTruncated m policy _ few⟩, fun limit wider below => ?_⟩⟩
  · exact stablySortedIff upToTrans upToTotal
  · have ranWith (limit : Nat) : ranIn m (withLimit policy limit) rules = some ran := (ranWithLimit limit).trans ranSo
    exact ⟨_, _, evaluateSome.mpr ⟨ran, ranWith limit, rfl⟩, evaluateSome.mpr ⟨ran, ranWith wider, rfl⟩,
      List.take_prefix_take_left below, rfl, rfl, rfl, rfl⟩

theorem limitOfOneKeepsOne : ranIn .empty (withLimit .default 1) lentNames = some ranLent ∧
    (emissions ranLent).length < twoTo 32 ∧
    ∃ all, all.length = 3 ∧
      StablySorted (fun a b => (compareFindings a b).isLE) (foundOf ranLent) all ∧
      (∃ r, evaluate .empty (withLimit .default 1) lentNames = some r ∧ Truncated all 1 r) ∧
      ∃ fewer more, evaluate .empty (withLimit .default 1) lentNames = some fewer ∧
        evaluate .empty (withLimit .default 2) lentNames = some more ∧ Shortened fewer more := by
  have few : (emissions ranLent).length < twoTo 32 := by decide
  obtain ⟨all, sorts, truncated, shortened⟩ := limitKeepsFirst.2 .empty (withLimit .default 1) lentNames ranLent rfl few
  have sorted := (sorts all).mpr rfl
  exact ⟨rfl, few, all, sorted.perm.length_eq, sorted, truncated, shortened 1 2 (by decide)⟩

end DeclOrder.Evaluation
