import DeclOrder.Evaluation

/-! The order of findings is a total preorder, and severity comes first in it: in a sorted list no
finding is more severe than one before it. -/
namespace DeclOrder.Evaluation

theorem compareFindingsLex : compareFindings =
    compareLex (compareOn (fun f : Finding => f.severity.rank)) (compareLex (compareOn sortPath)
      (compareLex (compareOn sortLine) (compareLex (compareOn Finding.checkId)
        (compareLex (compareOn Finding.code) (compareOn Finding.message))))) := rfl

instance : Std.TransCmp compareFindings := by
  rw [compareFindingsLex]
  infer_instance

def upTo (a b : Finding) : Bool := (compareFindings a b).isLE

theorem upToTrans (a b c : Finding) (ab : upTo a b) (bc : upTo b c) : upTo a c :=
  Std.TransCmp.isLE_trans ab bc

theorem upToTotal (a b : Finding) : upTo a b || upTo b a := by
  have turned : compareFindings b a = (compareFindings a b).swap := Std.OrientedCmp.eq_swap
  simp only [upTo, turned]
  cases compareFindings a b <;> rfl

theorem upToRank {a b : Finding} (h : upTo a b) : a.severity.rank ≤ b.severity.rank := by
  have first : (compare a.severity.rank b.severity.rank).isLE := by
    cases hc : compare a.severity.rank b.severity.rank <;> simp_all [upTo, compareFindings]
  exact Nat.isLE_compare.mp first

def Ranked (findings : List Finding) : Prop :=
  findings.Pairwise (fun a b => a.severity.rank ≤ b.severity.rank)

theorem sortFindingsRanked (findings : List Finding) : Ranked (sortFindings findings) :=
  (List.pairwise_mergeSort upToTrans upToTotal findings).imp upToRank

theorem memSortFindings {f : Finding} {findings : List Finding} :
    f ∈ sortFindings findings ↔ f ∈ findings := List.mem_mergeSort

theorem sortFindingsLength (findings : List Finding) : (sortFindings findings).length = findings.length :=
  List.length_mergeSort findings

end DeclOrder.Evaluation
