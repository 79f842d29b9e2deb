import DeclOrder.Proofs.Hcl.Cut.Operand

/-! Expressions in front of a brace are read again there, to any depth. -/
namespace DeclOrder.Hcl
open Text Reader Read

variable {s s' : List Char} {n : Nat} {scope : Scope} {c : Char} {x t u w : List Char} {inner inner' : Inner} {first v : Expr}
  {op : BinaryOp}

theorem repeatsConditional (ahead : Ahead s s' n inner inner') (scope : Scope) (condition : Expr) :
    Repeats s s' (n + 1) (fun e => e.filled = true) (Caught s scope.extent) (conditional inner scope condition)
      (conditional inner' scope condition) := by
  have branch : Repeats s s' n (fun e => e.filled = true) (Caught s scope.extent) (inner.expression scope.branch)
      (inner'.expression scope.branch) := ahead.expression scope.branch
  have stalls : Leads (Stalled scope.extent) (inner.expression scope.branch) never := expressionStalls ahead.regular _ _
  have tail : Tail (inner.expression scope.branch) := (ahead.regular.expression _).tail
  refine .tokenShort (localChar (by decide)) (shortChar _) fun _ => .skip scope.extent ?_ (refusesBind stalls)
  refine branch.bind (fun yes => .skip scope.extent ?_ ?_) (fun yes => ?_) fun yes => ?_
  · refine .token (localChar (by decide)) (tailChar _) fun _ => .skip scope.extent ?_ (refusesBind stalls)
    exact branch.map fun no filled => (Bool.and_eq_true_iff.mp filled).2
  · exact refusesBind (stalledOnly (haltedChar (by decide)))
  · exact keepsBind fun _ => keepsBind fun _ => keepsBind fun _ => keepsBind fun no => keepsPure fun filled =>
      (Bool.and_eq_true_iff.mp (Bool.and_eq_true_iff.mp filled).1).2
  · refine caughtSkip ?_ (refusesBind (haltedChar (by decide)))
    exact tailBind (tailChar _) fun _ => tailBind (tailTrivia _) fun _ => tailBind tail fun _ => tailPure _

theorem repeatsBinary (ahead : Ahead s s' n inner inner') (scope : Scope) (left : Expr) (op : BinaryOp) :
    Repeats s s' n (fun e => e.filled = true) (Caught s scope.extent) (binary inner scope left op) (binary inner' scope left op) := by
  have right : Repeats s s' n (fun e => e.filled = true) (Caught s scope.extent) (inner.expression scope.behindOperator)
      (inner'.expression scope.behindOperator) := ahead.expression scope.behindOperator
  refine .skip scope.extent (right.map fun _ filled => (Bool.and_eq_true_iff.mp filled).2) (refusesBind ?_)
  exact expressionStalls ahead.regular _ _

theorem binaryOpShort (found : binaryOp? t = some (op, u)) : u.length < t.length := by
  unfold binaryOp? at found
  split at found
  all_goals first
    | contradiction
    | (cases found; simp only [List.length_cons]; omega)

theorem Behind.reads (h : Behind inner scope first t v u) : behindOperand inner scope first t = some (v, u) := by
  refine bindSome.mpr ⟨t, t, leftSome.mpr ⟨rfl, rfl⟩, bindSome.mpr ⟨(), _, skipSome.mpr rfl, ?_⟩⟩
  refine bindSome.mpr ⟨_, _, leftSome.mpr ⟨rfl, rfl⟩, ?_⟩
  cases h with
  | conditional asks read =>
      rw [if_pos asks]
      exact read
  | binary asks found read =>
      rw [if_neg asks, found]
      exact read
  | none asks found =>
      rw [if_neg asks, found]
      rfl

theorem Behind.tail (tails : InnerTail inner) (h : Behind inner scope first t v u) : u <:+ t := by
  cases h with
  | conditional _ read => exact (tailConditional tails scope first read).trans (skipStopped _ _).2
  | binary _ found read => exact ((tailBinary tails scope first _ read).trans (binaryOpTail found)).trans (skipStopped _ _).2
  | none => exact List.suffix_rfl

theorem Behind.fills (h : Behind inner scope first t v u) (filled : v.filled = true) : first.filled = true := by
  cases h with
  | conditional _ read =>
      have keeps : Keeps (fun e => e.filled = true) (first.filled = true) (Read.conditional inner scope first) :=
        keepsBind fun _ => keepsBind fun _ => keepsBind fun _ => keepsBind fun _ => keepsBind fun _ => keepsBind fun _ =>
          keepsBind fun _ => keepsPure fun filled => (Bool.and_eq_true_iff.mp (Bool.and_eq_true_iff.mp filled).1).1
      exact keeps read filled
  | @binary op _ _ _ _ _ read =>
      have keeps : Keeps (fun e => e.filled = true) (first.filled = true) (Read.binary inner scope first op) :=
        keepsBind fun _ => keepsBind fun _ => keepsPure fun filled => (Bool.and_eq_true_iff.mp filled).1
      exact keeps read filled
  | none => exact filled

theorem haltedMark {e : Extent} (halted : Halted e t) : t.head? ≠ some '?' := by
  intro asks
  obtain ⟨w, rfl⟩ := List.head?_eq_some_iff.mp asks
  exact haltedHead (by decide) halted

theorem haltedOperator {e : Extent} (halted : Halted e t) (found : binaryOp? t = some (op, w)) : ∃ z, w = '*' :: z := by
  cases halted with
  | stalled stalled =>
      cases stalled with
      | block =>
          cases found
          exact ⟨_, rfl⟩
      | hash => contradiction
      | slashes => contradiction
  | bracket => contradiction
  | dot => contradiction

theorem behindCaught (tails : InnerTail inner) (noStar : ∀ {scope t}, inner.expression scope ('*' :: t) = none)
    (h : Behind inner scope first t v u) (caught : Caught s scope.extent t) : Past s u ∨ Caught s scope.extent u := by
  cases h with
  | conditional asks read =>
      rcases caught with past | halted
      · exact .inl (pastTail past (tailConditional tails scope first read))
      · exact absurd asks.2 (haltedMark halted)
  | binary _ found read =>
      rcases caught with past | halted
      · exact .inl (pastTail past ((tailBinary tails scope first _ read).trans (binaryOpTail found)))
      · obtain ⟨z, rfl⟩ := haltedOperator halted found
        obtain ⟨_, y, skips, read⟩ := bindSome.mp read
        rw [← skipSome.mp skips, skipStop (triviumOther (by decide))] at read
        obtain ⟨_, _, reads, _⟩ := bindSome.mp read
        rw [noStar] at reads
        contradiction
  | none => exact .inr caught

theorem repeatsBehind (ahead : Ahead s s' n inner inner') (scope : Scope) (first : Expr) :
    Repeats s s' (n + 1) (fun e => e.filled = true) (Caught s scope.extent) (behindOperand inner scope first)
      (behindOperand inner' scope first) := by
  have tails := ahead.regular.toInnerTail
  refine ⟨fun t v u read => (behindReads read).tail tails, fun {x} within {v u} read filled => ?_⟩
  have h := behindReads read
  rcases skipCut s s' scope.extent x with ⟨y, here, there⟩ | snagged
  · have less : y.length ≤ x.length := leftBefore (here ▸ (skipStopped scope.extent (x ++ '}' :: s)).2)
    have heads : (y ++ '}' :: s).head? = (y ++ '}' :: s').head? := by cases y <;> rfl
    cases h with
    | conditional asks reads =>
        rw [here] at asks reads
        refine ((repeatsConditional ahead scope first).again (Nat.le_trans less within) reads filled).imp_left fun ⟨z, left, again⟩ =>
          ⟨z, left, Behind.reads (.conditional ?_ ?_)⟩
        · rw [there, ← heads]
          exact asks
        · rw [there]
          exact again
    | @binary op w _ _ asks found reads =>
        rw [here] at asks found
        obtain ⟨z, rfl, found'⟩ := localBinaryOp.again found s'
        have shorter := binaryOpShort found
        rw [List.length_append, List.length_append] at shorter
        refine ((repeatsBinary ahead scope first op).again (by omega) reads filled).imp_left fun ⟨q, left, again⟩ =>
          ⟨q, left, Behind.reads (.binary ?_ (there.symm ▸ found') again)⟩
        rw [there, ← heads]
        exact asks
    | none asks found =>
        rw [here] at asks found
        refine .inl ⟨x, rfl, Behind.reads (.none ?_ ?_)⟩
        · rw [there, ← heads]
          exact asks
        · rw [there]
          rw [localBinaryOp] at found ⊢
          rw [Option.map_eq_none_iff.mp found]
          rfl
  · exact .inr (behindCaught tails ahead.noStar h (snaggedCaught snagged))

theorem repeatsExpressionOf (ahead : Ahead s s' n inner inner') (scope : Scope) :
    Repeats s s' (n + 1) (fun e => e.filled = true) (Caught s scope.extent) (expression inner scope) (expression inner' scope) := by
  refine (repeatsOperand ahead scope).bind (repeatsBehind ahead scope) (fun first t v u read filled => ?_) fun first t v u caught read => ?_
  · exact (behindReads read).fills filled
  · exact behindCaught ahead.regular.toInnerTail ahead.noStar (behindReads read) caught

theorem expressionStar : expression inner scope ('*' :: t) = none := by
  refine Option.eq_none_iff_forall_ne_some.mpr fun p read => ?_
  obtain ⟨_, _, operand, _⟩ := bindSome.mp read
  obtain ⟨ops, w, prefixes, rest⟩ := bindSome.mp operand
  have noPrefix : prefixOp scope.extent ('*' :: t) = none := rfl
  obtain ⟨_, rfl⟩ := runAtEnd noPrefix (manyRun (shortPrefix _) prefixes)
  obtain ⟨_, _, core, _⟩ := bindSome.mp rest
  obtain ⟨_, _, name, _⟩ := bindSome.mp (show named inner scope ('*' :: t) = _ from core)
  obtain ⟨_, _, same, start, _⟩ := identifierSome.mp name
  rw [← (List.cons.inj same).1] at start
  exact absurd start (by decide)

theorem innerStar {bound : List Char} : (Hcl.inner bound).expression scope ('*' :: t) = none := by
  cases bound with
  | nil => rfl
  | cons => exact expressionStar

theorem innerAtBrace (s s' bound bound' : List Char) : Ahead s s' 0 (Hcl.inner bound) (Hcl.inner bound') := by
  refine ⟨innerRegular _, innerRegular _, innerStar, fun scope => ?_, ?_⟩
  · refine ⟨((innerRegular bound).expression scope).tail, fun {x} within {v u} read _ => ?_⟩
    obtain rfl := List.length_eq_zero_iff.mp (Nat.le_zero.mp within)
    obtain ⟨c, w, whole, begins⟩ := (innerRegular bound).begins read
    rw [← (List.cons.inj whole).1] at begins
    exact absurd begins (by decide)
  · refine ⟨(innerRegular bound).template, fun {x} within {ps u} read _ => ?_⟩
    obtain rfl := List.length_eq_zero_iff.mp (Nat.le_zero.mp within)
    cases bound with
    | nil => exact absurd read failureSome
    | cons b bound => exact .inr (.inl (partsPast (innerTail bound) read))

/-- To whatever depth the first of two readers goes, the second one reads again what the first has read in front of
the brace. -/
theorem innerAhead (s s' bound : List Char) {bound' : List Char} (enough : n ≤ bound'.length) :
    Ahead s s' n (Hcl.inner bound) (Hcl.inner bound') := by
  induction bound generalizing bound' n with
  | nil =>
      refine ⟨innerRegular _, innerRegular _, innerStar, fun scope => ?_, ?_⟩
      · exact ⟨((innerRegular []).expression scope).tail, fun _ _ _ read => absurd read failureSome⟩
      · exact ⟨(innerRegular []).template, fun _ _ _ read => absurd read failureSome⟩
  | cons b bound ih =>
      cases n with
      | zero => exact innerAtBrace s s' _ _
      | succ n =>
          cases bound' with
          | nil => exact absurd enough (Nat.not_succ_le_zero n)
          | cons b' bound' =>
              have ahead := ih (Nat.le_of_succ_le_succ enough)
              refine ⟨innerRegular _, innerRegular _, innerStar, fun scope => ?_, ?_⟩
              · exact repeatsExpressionOf ahead scope
              · exact repeatsParts ahead (show Setting.clear .directive from trivial)

end DeclOrder.Hcl
