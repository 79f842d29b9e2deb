import DeclOrder.Proofs.Hcl.Operand

/-! Expressions of respaced texts read alike, to any depth. -/
namespace DeclOrder.Hcl
open Text Reader Read

variable {inner inner' : Inner} {c : Char} {t t' u u' w w' : List Char}

theorem alikeConditional (scope : Scope) (condition : Expr) : Alike Akin Respaced Respaced Expr.literals
    (Blocked scope.extent) (fun inner => conditional inner scope condition) := by
  have branch : Alike Akin Respaced Respaced Expr.literals (Blocked scope.extent)
      (fun inner => inner.expression scope.branch) := alikeExpression scope.branch
  have refuses (i : Inner) (member : Member Akin i) : Leads (Stuck scope.extent) (i.expression scope.branch) never :=
    expressionRefuses (memberRegular member) _ _
  refine .token (firmChar (by decide)) fun _ => (Alike.skip scope.extent ?_ ?_).given fun _ _ => Respaced.loose
  · refine branch.bind condition.literals (fun yes => ?_) ?_ ?_
    · refine (Alike.skip scope.extent ?_ ?_).given fun _ _ => Respaced.loose
      · refine .token (firmChar (by decide)) fun _ => (Alike.skip scope.extent ?_ ?_).given fun _ _ => Respaced.loose
        · exact branch.map (condition.literals ++ yes.literals) fun no => rfl
        · exact fun i member => refusesBind (refuses i member)
      · exact fun _ _ => refusesBind (stuckOnly (heldChar (by decide) (by decide)))
    · exact fun _ _ yes => startsBind fun _ => startsBind fun _ => startsBind fun _ => startsBind fun no =>
        startsPure (List.prefix_append _ _)
    · exact fun _ _ yes => leadsSkip (refusesBind (heldChar (by decide) (by decide)))
  · exact fun i member => refusesBind (refuses i member)

theorem alikeBinary (scope : Scope) (left : Expr) (op : BinaryOp) : Alike Akin Loose Respaced Expr.literals
    (Blocked scope.extent) (fun inner => binary inner scope left op) := by
  have right : Alike Akin Respaced Respaced Expr.literals (Blocked scope.extent)
      (fun inner => inner.expression scope.behindOperator) := alikeExpression scope.behindOperator
  refine .skip scope.extent (right.map left.literals fun _ => rfl) fun i member => refusesBind ?_
  exact expressionRefuses (memberRegular member) _ _

theorem equalsJoint (h : Respaced ('=' :: '=' :: t) t') : ∃ w, t' = '=' :: '=' :: w ∧ Loose t w := by
  generalize whole : '=' :: '=' :: t = s at h
  cases h with
  | blank all => rw [← whole] at all; contradiction
  | same _ joint rest =>
      obtain ⟨rfl, rfl⟩ := List.cons.inj whole
      obtain ⟨w, rfl⟩ := List.head?_eq_some_iff.mp ((joint (by decide)).1.mp rfl)
      exact ⟨w, rfl, rest.tailLoose (by decide)⟩
  | @lineBreak a _ _ _ _ _ before =>
      cases a with
      | nil => exact absurd (List.cons.inj whole).1 (by decide)
      | cons d a =>
          rw [← (List.cons.inj whole).1] at before
          exact absurd (withinCons.mp before).1 (notInLine (by decide))
  | @equals a _ b _ t _ before _ _ _ alone =>
      cases a with
      | nil =>
          rw [← (List.cons.inj whole).2] at alone
          exact absurd rfl alone.1
      | cons d a =>
          rw [← (List.cons.inj whole).1] at before
          exact absurd (withinCons.mp before).1 (notInLine (by decide))

theorem joiningHead (inside : Inside c) (joins : c ∈ joining) (h : Respaced (c :: t) t') :
    ∃ w, t' = c :: w ∧ Respaced t w ∧ (t.head? = some '=' ↔ w.head? = some '=') := by
  generalize whole : c :: t = s at h
  cases h with
  | blank all =>
      rw [← whole] at all
      exact absurd (allBlankCons.mp all).1 (by simp [inside.1])
  | same _ joint rest =>
      obtain ⟨rfl, rfl⟩ := List.cons.inj whole
      exact ⟨_, rfl, rest, (joint joins).1⟩
  | @lineBreak a _ _ _ _ _ before =>
      cases a with
      | nil => exact absurd (List.cons.inj whole).1 (solidNe inside.1 (by decide))
      | cons d a =>
          rw [← (List.cons.inj whole).1] at before
          exact absurd (withinCons.mp before).1 (notInLine inside.1)
  | @equals a _ _ _ _ _ before =>
      cases a with
      | nil => exact absurd (List.cons.inj whole).1 inside.2
      | cons d a =>
          rw [← (List.cons.inj whole).1] at before
          exact absurd (withinCons.mp before).1 (notInLine inside.1)

theorem joiningEquals (inside : Inside c) (joins : c ∈ joining) (h : Respaced (c :: '=' :: t) t') :
    ∃ w, t' = c :: '=' :: w ∧ Loose t w := by
  obtain ⟨w, rfl, rest, equals⟩ := joiningHead inside joins h
  obtain ⟨w', rfl⟩ := List.head?_eq_some_iff.mp (equals.mp rfl)
  exact ⟨w', rfl, rest.tailLoose (by decide)⟩

theorem lessAlone (other : t.head? ≠ some '=') : binaryOp? ('<' :: t) = some (.less, t) := by
  cases t with
  | nil => rfl
  | cons c rest =>
      unfold binaryOp?
      split <;> simp_all

theorem greaterAlone (other : t.head? ≠ some '=') : binaryOp? ('>' :: t) = some (.greater, t) := by
  cases t with
  | nil => rfl
  | cons c rest =>
      unfold binaryOp?
      split <;> simp_all

theorem slashAlone (other : t.head? ≠ some '/') : binaryOp? ('/' :: t) = some (.divided, t) := by
  cases t with
  | nil => rfl
  | cons c rest =>
      unfold binaryOp?
      split <;> simp_all

theorem binaryOpCarry {op : BinaryOp} (h : Respaced t t') (found : binaryOp? t = some (op, u)) :
    ∃ u', binaryOp? t' = some (op, u') ∧ Loose u u' := by
  unfold binaryOp? at found
  split at found
  · cases found
    obtain ⟨w, rfl, rest⟩ := equalsJoint h
    exact ⟨w, rfl, rest⟩
  · cases found
    obtain ⟨w, rfl, rest⟩ := joiningEquals (by decide) (by decide) h
    exact ⟨w, rfl, rest⟩
  · cases found
    obtain ⟨w, rfl, rest⟩ := joiningEquals (by decide) (by decide) h
    exact ⟨w, rfl, rest⟩
  · cases found
    obtain ⟨w, rfl, rest⟩ := joiningEquals (by decide) (by decide) h
    exact ⟨w, rfl, rest⟩
  · cases found
    obtain ⟨w, rfl, rest⟩ := h.front ['&', '&'] (by decide)
    exact ⟨w, rfl, rest.loose⟩
  · cases found
    obtain ⟨w, rfl, rest⟩ := h.front ['|', '|'] (by decide)
    exact ⟨w, rfl, rest.loose⟩
  · contradiction
  · rename_i notEquals
    cases found
    obtain ⟨w, rfl, rest, equals⟩ := joiningHead (by decide) (by decide) h
    refine ⟨w, lessAlone fun head => ?_, rest.loose⟩
    obtain ⟨x, rfl⟩ := List.head?_eq_some_iff.mp (equals.mpr head)
    exact notEquals x rfl
  · rename_i notEquals
    cases found
    obtain ⟨w, rfl, rest, equals⟩ := joiningHead (by decide) (by decide) h
    refine ⟨w, greaterAlone fun head => ?_, rest.loose⟩
    obtain ⟨x, rfl⟩ := List.head?_eq_some_iff.mp (equals.mpr head)
    exact notEquals x rfl
  · cases found
    obtain ⟨w, rfl, rest⟩ := h.inside (by decide)
    exact ⟨w, rfl, rest.loose⟩
  · cases found
    obtain ⟨w, rfl, rest⟩ := h.inside (by decide)
    exact ⟨w, rfl, rest.loose⟩
  · cases found
    obtain ⟨w, rfl, rest⟩ := h.inside (by decide)
    exact ⟨w, rfl, rest.loose⟩
  · rename_i notSlash
    cases found
    obtain ⟨w, rfl, rest⟩ := h.inside (by decide)
    refine ⟨w, slashAlone fun head => ?_, rest.loose⟩
    obtain ⟨x, rfl⟩ := List.head?_eq_some_iff.mp ((rest.headIff (by decide)).mpr head)
    exact notSlash x rfl
  · cases found
    obtain ⟨w, rfl, rest⟩ := h.inside (by decide)
    exact ⟨w, rfl, rest.loose⟩
  · contradiction

theorem binaryOpOther (other : c ∉ ['=', '!', '<', '>', '&', '|', '+', '-', '*', '/', '%']) : binaryOp? (c :: t) = none := by
  unfold binaryOp?
  split <;> simp_all

theorem heldOperator {e : Extent} (held : Held e t) : t.head? ≠ some '?' ∧ binaryOp? t = none := by
  cases held with
  | stuck stuck =>
      cases stuck with
      | foreign blank =>
          refine ⟨fun same => ?_, binaryOpOther fun member => ?_⟩
          · cases Option.some.inj same
            contradiction
          · simp only [List.mem_cons, List.not_mem_nil, or_false] at member
            rcases member with rfl | rfl | rfl | rfl | rfl | rfl | rfl | rfl | rfl | rfl | rfl <;> contradiction
      | loneReturn => exact ⟨by simp, rfl⟩
      | hash => exact ⟨by simp, rfl⟩
      | slashes => exact ⟨by simp, rfl⟩
  | bracket => exact ⟨by simp, rfl⟩
  | dot => exact ⟨by simp, rfl⟩

def behindOperand (inner : Inner) (scope : Scope) (first : Expr) : Reader Expr := do
  let behind ← left
  trivia scope.extent
  let ahead ← left
  if scope.conditional ∧ ahead.head? = some '?' then conditional inner scope first
  else match binaryOp? ahead with
    | some (op, rest) =>
        set rest
        binary inner scope first op
    | none =>
        set behind
        return first

inductive Behind (inner : Inner) (scope : Scope) (first : Expr) (t : List Char) : Expr → List Char → Prop where
  | conditional {v : Expr} {u : List Char} (asks : scope.conditional = true ∧ (skipTrivia scope.extent t).head? = some '?')
      (read : Read.conditional inner scope first (skipTrivia scope.extent t) = some (v, u)) : Behind inner scope first t v u
  | binary {op : BinaryOp} {w : List Char} {v : Expr} {u : List Char}
      (asks : ¬ (scope.conditional = true ∧ (skipTrivia scope.extent t).head? = some '?'))
      (found : binaryOp? (skipTrivia scope.extent t) = some (op, w))
      (read : Read.binary inner scope first op w = some (v, u)) : Behind inner scope first t v u
  | none (asks : ¬ (scope.conditional = true ∧ (skipTrivia scope.extent t).head? = some '?'))
      (found : binaryOp? (skipTrivia scope.extent t) = none) : Behind inner scope first t first t

theorem behindReads {scope : Scope} {first v : Expr} (read : behindOperand inner scope first t = some (v, u)) :
    Behind inner scope first t v u := by
  obtain ⟨_, _, here, read⟩ := bindSome.mp read
  obtain ⟨rfl, rfl⟩ := leftSome.mp here
  obtain ⟨_, w, skips, read⟩ := bindSome.mp read
  obtain rfl := skipSome.mp skips
  obtain ⟨_, _, there, read⟩ := bindSome.mp read
  obtain ⟨rfl, rfl⟩ := leftSome.mp there
  split at read
  · rename_i asks
    exact .conditional asks read
  · rename_i asks
    cases found : binaryOp? (skipTrivia scope.extent t) with
    | some p =>
        rw [found] at read
        obtain ⟨_, _, moved, read⟩ := bindSome.mp read
        rw [← setSome.mp moved] at read
        exact .binary asks found read
    | none =>
        rw [found] at read
        obtain ⟨_, _, moved, read⟩ := bindSome.mp read
        obtain ⟨rfl, rfl⟩ := pureSome.mp read
        rw [← setSome.mp moved]
        exact .none asks found

theorem Behind.held {scope : Scope} {first v : Expr} (h : Behind inner scope first t v u)
    (held : Held scope.extent (skipTrivia scope.extent t)) : v = first ∧ u = t := by
  obtain ⟨noMark, noOperator⟩ := heldOperator held
  cases h with
  | conditional asks => exact absurd asks.2 noMark
  | binary _ found => rw [noOperator] at found; contradiction
  | none => exact ⟨rfl, rfl⟩

theorem conditionalSays {scope : Scope} {first : Expr} :
    Starts first.literals Expr.literals (Read.conditional inner scope first) :=
  startsBind fun _ => startsBind fun _ => startsBind fun _ => startsBind fun _ => startsBind fun _ => startsBind fun _ =>
    startsBind fun _ => startsPure ((List.prefix_append _ _).trans (List.prefix_append _ _))

theorem binarySays {scope : Scope} {first : Expr} {op : BinaryOp} :
    Starts first.literals Expr.literals (Read.binary inner scope first op) :=
  startsBind fun _ => startsBind fun _ => startsPure (List.prefix_append _ _)

theorem Behind.told {scope : Scope} {first v : Expr} (h : Behind inner scope first t v u) : first.literals <+: v.literals := by
  cases h with
  | conditional _ read => exact conditionalSays read
  | binary _ _ read => exact binarySays read
  | none => exact List.prefix_rfl

theorem behindAlike {i i' : Inner} (akin : Akin i i') {scope : Scope} {first v v' : Expr} (start : Respaced t t')
    (h : Behind i scope first t v u) (h' : Behind i' scope first t' v' u') :
    Outcome Respaced Expr.literals (Blocked scope.extent) v v' u u' := by
  rcases skipReady (e := scope.extent) start.loose with tight | stuck | stuck
  · have asks := tight.headIff (c := '?') (by decide)
    cases h with
    | conditional both read =>
        cases h' with
        | conditional _ read' => exact alikeConditional scope first akin tight read read'
        | binary not => exact absurd ⟨both.1, asks.mp both.2⟩ not
        | none not => exact absurd ⟨both.1, asks.mp both.2⟩ not
    | binary not found read =>
        cases h' with
        | conditional both => exact absurd ⟨both.1, asks.mpr both.2⟩ not
        | binary _ found' read' =>
            obtain ⟨w', again, loose⟩ := binaryOpCarry tight found
            rw [again] at found'
            cases found'
            exact alikeBinary scope first _ akin loose read read'
        | none _ found' =>
            obtain ⟨w', again, _⟩ := binaryOpCarry tight found
            rw [again] at found'
            contradiction
    | none not found =>
        cases h' with
        | conditional both => exact absurd ⟨both.1, asks.mpr both.2⟩ not
        | binary _ found' =>
            obtain ⟨w, again, _⟩ := binaryOpCarry tight.symm found'
            rw [again] at found
            contradiction
        | none => exact .same start
  · obtain ⟨rfl, rfl⟩ := h.held (.stuck stuck)
    exact .left (.stuck stuck)
  · obtain ⟨rfl, rfl⟩ := h'.held (.stuck stuck)
    exact .right (.stuck stuck)

theorem alikeExpressionOf (scope : Scope) : Alike Akin Respaced Respaced Expr.literals (Blocked scope.extent)
    (fun inner => expression inner scope) := by
  refine (alikeOperand scope).bind [] (fun first => ?_) (fun _ _ first => ?_) (fun _ _ first => ?_)
  · exact fun i i' akin t t' start v v' u u' read read' => behindAlike akin start (behindReads read) (behindReads read')
  · exact fun t v u read => (behindReads read).told
  · intro t v u held read
    rw [((behindReads read).held held).2]
    exact held

theorem operandBegins {scope : Scope} {v : Expr} (read : operand inner scope t = some (v, u)) :
    ∃ c w, t = c :: w ∧ Begins c := by
  obtain ⟨ops, w, prefixes, read⟩ := bindSome.mp read
  obtain ⟨_, _, core, _⟩ := bindSome.mp read
  cases manyRun (shortPrefix _) prefixes with
  | stop => exact primaryBegins core
  | step reads =>
      obtain ⟨_, _, op, _⟩ := bindSome.mp reads
      obtain ⟨c, rfl, begins⟩ := unaryOpBegins op
      exact ⟨c, _, rfl, begins⟩

theorem namedLone {scope : Scope} {v : Expr} (foreign : Foreign c)
    (read : named inner scope ('f' :: 'o' :: 'r' :: c :: w) = some (v, u)) : u = c :: w := by
  have ends : continuesIdentifier c = false := by
    cases part : continuesIdentifier c with
    | false => rfl
    | true =>
        have blank := foreign.1
        rw [(continuesInside part).1] at blank
        contradiction
  obtain ⟨name, x, reads, read⟩ := bindSome.mp read
  obtain ⟨d, y, whole, _, _, rest⟩ := identifierSome.mp reads
  cases whole
  have stays : List.dropWhile continuesIdentifier ('o' :: 'r' :: c :: w) = c :: w := by
    rw [List.dropWhile_cons_of_pos (by decide), List.dropWhile_cons_of_pos (by decide),
      List.dropWhile_cons_of_neg (by simp [ends])]
  rw [stays] at rest
  subst rest
  obtain ⟨_, _, here, read⟩ := bindSome.mp read
  obtain ⟨rfl, rfl⟩ := leftSome.mp here
  split at read
  · rename_i starts
    rcases startsCallIff.mp starts with ⟨z, same⟩ | ⟨z, same⟩
    · rw [heldStays (.stuck (foreignStuck foreign))] at same
      rw [(List.cons.inj same).1] at foreign
      exact absurd foreign.1 (by decide)
    · rw [heldStays (.stuck (foreignStuck foreign))] at same
      rw [(List.cons.inj same).1] at foreign
      exact absurd foreign.1 (by decide)
  · exact constantSome read

theorem operandLone {scope : Scope} {v : Expr} (foreign : Foreign c)
    (read : operand inner scope ('f' :: 'o' :: 'r' :: c :: w) = some (v, u)) : u = c :: w := by
  obtain ⟨ops, x, prefixes, read⟩ := bindSome.mp read
  obtain ⟨core, y, reads, read⟩ := bindSome.mp read
  obtain ⟨fs, z, accesses, read⟩ := bindSome.mp read
  obtain ⟨_, rfl⟩ := pureSome.mp read
  have noPrefix : prefixOp scope.extent ('f' :: 'o' :: 'r' :: c :: w) = none := rfl
  obtain ⟨_, rfl⟩ := runAtEnd noPrefix (manyRun (shortPrefix _) prefixes)
  rw [primaryCons] at reads
  have core := namedLone foreign (reads : named inner scope _ = some _)
  subst core
  have stuck : Stuck scope.extent (c :: w) := foreignStuck foreign
  refine leadsMany (B := fun t => t = c :: w) (fun t f x here read => ?_) rfl accesses
  obtain ⟨_, y, skips, read⟩ := bindSome.mp read
  rw [here] at skips
  rw [← skipSome.mp skips, heldStays (.stuck stuck)] at read
  exact (accessorReads read).notStuck stuck

theorem expressionLone {scope : Scope} {v : Expr} (foreign : Foreign c)
    (read : expression inner scope ('f' :: 'o' :: 'r' :: c :: w) = some (v, u)) : u = c :: w := by
  obtain ⟨first, x, reads, read⟩ := bindSome.mp read
  have rest := operandLone foreign reads
  subst rest
  refine ((behindReads read).held ?_).2
  exact stuckBlocked (foreignStuck foreign)

theorem innerRegular (bound : List Char) : Regular (Hcl.inner bound) := by
  refine ⟨innerTail bound, ?_, ?_⟩
  · intro scope t v u read
    cases bound with
    | nil => exact absurd read failureSome
    | cons b bound =>
        obtain ⟨_, _, reads, _⟩ := bindSome.mp read
        exact operandBegins reads
  · intro scope c w v u foreign read
    cases bound with
    | nil => exact absurd read failureSome
    | cons b bound => exact expressionLone foreign read

/-- To whatever depth two readers go, what both of them read of respaced texts is alike. -/
theorem innerAkin (bound bound' : List Char) : Akin (Hcl.inner bound) (Hcl.inner bound') := by
  induction bound generalizing bound' with
  | nil =>
      refine ⟨innerRegular _, innerRegular _, ?_, ?_⟩
      · exact fun _ _ _ _ _ _ _ _ read => absurd read failureSome
      · exact fun _ _ _ _ _ read => absurd read failureSome
  | cons b bound ih =>
      refine ⟨innerRegular _, innerRegular _, ?_, ?_⟩
      · intro scope t t' start v v' u u' read read'
        cases bound' with
        | nil => exact absurd read' failureSome
        | cons b' bound' => exact alikeExpressionOf scope (ih bound') start read read'
      · intro t t' start v v' u u' read read'
        cases bound' with
        | nil => exact absurd read' failureSome
        | cons b' bound' => exact alikeParts rfl (ih bound') start read read'

end DeclOrder.Hcl
