import DeclOrder.Proofs.Hcl.Cut.Object

/-! Operands in front of a brace: primary expressions with prefix operators before them and accessors
behind. -/
namespace DeclOrder.Hcl
open Text Reader Read

def Snagged (s : List Char) (e : Extent) (t : List Char) : Prop := Past s (skipTrivia e t) ∨ Stalled e (skipTrivia e t)

variable {s s' : List Char} {n : Nat} {e : Extent} {c : Char} {x t u : List Char} {inner inner' : Inner}

theorem snaggedCaught (snagged : Snagged s e t) : Caught s e t := snagged.imp_right .stalled

theorem snaggedSkip {α : Type} {k : Unit → Reader α} (tail : Tail (k ())) (refuses : Leads (Stalled e) (k ()) never) :
    Leads (Snagged s e) (trivia e >>= k) (Past s) := by
  intro t v u snagged read
  obtain ⟨_, w, skips, read⟩ := bindSome.mp read
  rw [← skipSome.mp skips] at read
  rcases snagged with past | stalled
  · exact pastTail past (tail read)
  · exact absurd (refuses stalled read) id

theorem repeatsGroup (ahead : Ahead s s' n inner inner') :
    Repeats s s' (n + 1) (fun e => e.filled = true) never (group inner) (group inner') := by
  refine .tokenShort (localChar (by decide)) (shortChar _) fun _ => ?_
  refine (repeatsSpaced ahead .lines rfl).bind (fun value => ?_) (fun value => ?_) fun value => ?_
  · exact .token (localChar (by decide)) (tailChar _) fun _ => repeatsPure _
  · exact keepsBind fun _ => keepsPure id
  · exact refusesBind (haltedChar (by decide))

theorem listedDots : Leads (Listed s) (given (keyword "...")) (Listed s) := by
  have dots : Leads (Listed s) (keyword "...") (Past s) := by
    intro t v u listed read
    have whole : t = '.' :: '.' :: '.' :: u := wordSome.mp read
    rw [whole] at listed
    rcases listed with between | ⟨rest, same, _⟩
    · rcases betweenSolid between (by decide) with past | ⟨_, alone⟩
      · exact pastTail past (List.suffix_append ['.', '.'] u)
      · exact absurd rfl alone
    · exact absurd (List.cons.inj same).1 (by decide)
  exact fun _ _ _ listed read => (leadsGivenPast dots listed read).elim (.inl ∘ .inr ∘ pastOpening) id

theorem repeatsArgumentsEnd (values : List Expr) (spread : Bool) : Repeats s s' n (fun p => expressionsFilled p.1 = true) never
    (do space; char ')'; return (values, spread) : Reader (List Expr × Bool)) (do space; char ')'; return (values, spread)) := by
  refine .skip .acrossLines ?_ (refusesBind (stalledOnly (haltedChar (by decide))))
  exact .token (localChar (by decide)) (tailChar _) fun _ => repeatsPure _

theorem repeatsArguments (ahead : Ahead s s' n inner inner') (scope : Scope) :
    Repeats s s' n (fun p => expressionsFilled p.1 = true) never (arguments inner scope) (arguments inner' scope) := by
  have close (values : List Expr) (spread : Bool) : Keeps (fun p => expressionsFilled p.1 = true) (expressionsFilled values = true)
      (do space; char ')'; return (values, spread) : Reader (List Expr × Bool)) :=
    keepsBind fun _ => keepsBind fun _ => keepsPure id
  have ajar (values : List Expr) (spread : Bool) : Leads (Listed s)
      (do space; char ')'; return (values, spread) : Reader (List Expr × Bool)) fun u => Past s u ∨ never u :=
    fun _ _ _ listed read => ajarCloses (by decide) (listedAjar listed) read
  refine .token (localChar (by decide)) (tailChar _) fun _ => (repeatsSeparated ahead scope).bind (fun values => ?_) ?_ ?_
  · refine .if (repeatsArgumentsEnd values false) ?_
    refine .token (localGiven (localKeyword (by decide))) (tailGiven (tailKeyword _)) fun dots => ?_
    refine .if (repeatsArgumentsEnd values true) (.token (localGiven (localChar (by decide))) (tailGiven (tailChar _)) fun _ => ?_)
    exact repeatsArgumentsEnd values false
  · intro values
    dsimp only
    split
    · exact close values false
    · refine keepsBind fun dots => ?_
      split
      · exact close values true
      · exact keepsBind fun _ => close values false
  · intro values
    dsimp only
    split
    · exact ajar values false
    · refine leadsBind listedDots fun dots => ?_
      split
      · exact ajar values true
      · exact leadsBind listedComma fun _ => ajarCloses (by decide)

theorem repeatsFurtherName (e : Extent) :
    Repeats s s' n (fun _ => True) never (furtherName e) (furtherName e) := by
  refine .skip e ?_ (refusesBind (keywordStalls (by decide)))
  refine .token (localKeyword (by decide)) (tailKeyword _) fun _ => .skip e ?_ (refusesAny identifierStalls)
  exact repeatsLocal localIdentifier shortIdentifier.tail

def Argless (s : List Char) (e : Extent) (t : List Char) : Prop := Past s (skipTrivia e t) ∨ ∀ w, skipTrivia e t ≠ '(' :: w

theorem repeatsFurther (e : Extent) :
    Repeats s s' n (fun _ => True) (Argless s e) (many (furtherName e)) (many (furtherName e)) := by
  refine ((repeatsFurtherName e).many (shortFurther e) (shortFurther e) (fun _ => False.elim) fun {x v u} read _ => ?_).keeping
    fun _ _ _ _ _ _ _ => trivial
  obtain ⟨_, w, skips, read⟩ := bindSome.mp read
  obtain ⟨_, y, colons, _⟩ := bindSome.mp read
  rcases skipCut s s' e x with ⟨z, here, there⟩ | past | stalled
  · have same : z ++ '}' :: s' = "::".toList ++ y := (there.symm.trans (skipSome.mp skips)).trans (wordSome.mp colons)
    obtain ⟨z', rfl⟩ := (frontLocal "::".toList z s' (by decide)).mp ⟨y, same⟩
    refine .inr fun w paren => ?_
    rw [here] at paren
    exact absurd (List.cons.inj paren).1 (by decide)
  · exact .inl past
  · refine .inr fun w paren => ?_
    rw [paren] at stalled
    exact stalledHead (by decide) stalled

theorem repeatsCallOf (ahead : Ahead s s' n inner inner') (scope : Scope) (name : String) :
    Repeats s s' n (fun e => e.filled = true) never (callOf inner scope name) (callOf inner' scope name) := by
  refine (repeatsFurther scope.extent).bind (fun further => .skip scope.extent ?_ ?_) (fun _ _ _ _ _ _ => trivial) fun further => ?_
  · refine (repeatsArguments ahead scope).bind ?_ ?_ fun _ => leadsNever
    · exact fun _ => repeatsPure _
    · exact fun _ => keepsPure id
  · exact refusesBind (refusesBind (stalledOnly (haltedChar (by decide))))
  · intro t v u argless read
    obtain ⟨_, w, skips, read⟩ := bindSome.mp read
    rw [← skipSome.mp skips] at read
    obtain ⟨_, y, called, last⟩ := bindSome.mp read
    rcases argless with past | uncalled
    · refine .inl (pastTail (pastTail past (tailArguments ahead.regular.toInnerTail scope called)) ?_)
      exact (pureSome.mp last).2 ▸ List.suffix_rfl
    · obtain ⟨_, z, opens, _⟩ := bindSome.mp called
      exact absurd (charSome.mp opens) (uncalled z)

theorem callSnagged (tails : InnerTail inner) (scope : Scope) (name : String) :
    Leads (Snagged s scope.extent) (callOf inner scope name) (Past s) := by
  have behind : Tail (do keyword "::"; trivia scope.extent; identifier) :=
    tailBind (tailKeyword _) fun _ => tailBind (tailTrivia _) fun _ => shortIdentifier.tail
  have further : Leads (Snagged s scope.extent) (many (furtherName scope.extent)) fun u => Past s u ∨ Snagged s scope.extent u :=
    leadsManyPast (shortFurther _).tail (snaggedSkip behind (refusesBind (keywordStalls (by decide))))
  have values := tailArguments tails scope
  refine leadsBind further fun names t v u barred read => ?_
  rcases barred with past | snagged
  · exact pastTail past (tailBind (tailTrivia _) (fun _ => tailBind values fun _ => tailPure _) read)
  · refine snaggedSkip (tailBind values fun _ => tailPure _) ?_ snagged read
    exact refusesBind (refusesBind (stalledOnly (haltedChar (by decide))))

theorem startsCallCut (s s' : List Char) (e : Extent) (x : List Char) :
    startsCall e (x ++ '}' :: s) = startsCall e (x ++ '}' :: s') ∨ Snagged s e (x ++ '}' :: s) := by
  rcases skipCut s s' e x with ⟨y, here, there⟩ | snagged
  · refine .inl (Bool.eq_iff_iff.mpr ?_)
    rw [startsCallIff, startsCallIff, here, there]
    refine or_congr ?_ ?_
    · exact (frontLocal ['('] y s (by decide)).trans (frontLocal ['('] y s' (by decide)).symm
    · exact (frontLocal [':', ':'] y s (by decide)).trans (frontLocal [':', ':'] y s' (by decide)).symm
  · exact .inr snagged

theorem repeatsNamed (ahead : Ahead s s' n inner inner') (scope : Scope) :
    Repeats s s' (n + 1) (fun e => e.filled = true) (Snagged s scope.extent) (named inner scope) (named inner' scope) := by
  refine .tokenShort localIdentifier shortIdentifier fun name => ?_
  have call : Repeats s s' n (fun e => e.filled = true) (Snagged s scope.extent) (callOf inner scope name)
      (callOf inner' scope name) := (repeatsCallOf ahead scope name).barred fun _ => False.elim
  have plain : Tail (constant name) := fun _ _ _ read => constantSome read ▸ List.suffix_rfl
  refine .fork (startsCallCut s s' scope.extent) call (repeatsLocal (localConstant name) plain) ?_ ?_
  · exact fun _ _ _ snagged read => .inl (callSnagged ahead.regular.toInnerTail scope name snagged read)
  · exact fun _ _ _ snagged read => .inr (constantSome read ▸ snagged)

theorem repeatsPrimary (ahead : Ahead s s' n inner inner') (scope : Scope) :
    Repeats s s' (n + 1) (fun e => e.filled = true) (Snagged s scope.extent) (primary inner scope) (primary inner' scope) := by
  have free {r r' : Reader Expr} (h : Repeats s s' (n + 1) (fun e => e.filled = true) never r r') :
      Repeats s s' (n + 1) (fun e => e.filled = true) (Snagged s scope.extent) r r' := h.barred fun _ => False.elim
  have quoted : Repeats s s' (n + 1) (fun e => e.filled = true) never (do return .quoted (← quotedTemplate inner) : Reader Expr)
      (do return .quoted (← quotedTemplate inner')) := (repeatsQuotedTemplate ahead).map fun _ => id
  have digits : Repeats s s' (n + 1) (fun e => e.filled = true) never (do return .number (← number) : Reader Expr)
      (do return .number (← number)) := .token localNumber shortNumber.tail fun _ => repeatsPure _
  have start (c : Char) : Repeats s s' (n + 1) (fun e => e.filled = true) (Snagged s scope.extent) (primaryAt inner scope c)
      (primaryAt inner' scope c) :=
    .if (free quoted) (.if (free (repeatsListLike ahead scope)) (.if (free (repeatsObjectLike ahead)) (.if
      (free (repeatsGroup ahead)) (.if (free (repeatsHeredoc ahead)) (.if (free digits) (repeatsNamed ahead scope))))))
  refine ⟨(shortPrimary ahead.regular.toInnerTail scope).tail, fun {x} within {v u} read filled => ?_⟩
  cases x with
  | nil =>
      obtain ⟨c, w, whole, begins⟩ := primaryBegins read
      rw [← (List.cons.inj whole).1] at begins
      exact absurd begins (by decide)
  | cons c x =>
      rw [List.cons_append, primaryCons] at read
      rw [List.cons_append, primaryCons]
      exact (start c).again within read filled

def accessFilled (f : Expr → Expr) : Prop := (f .null).filled = true

theorem repeatsBracketed (ahead : Ahead s s' n inner inner') :
    Repeats s s' (n + 1) accessFilled never (bracketed inner) (bracketed inner') := by
  have close (f : Expr → Expr) : Repeats s s' n accessFilled never (do space; char ']'; return f) (do space; char ']'; return f) :=
    .skip .acrossLines (.token (localChar (by decide)) (tailChar _) fun _ => repeatsPure _)
      (refusesBind (stalledOnly (haltedChar (by decide))))
  have refuses (f : Expr → Expr) : Leads (Halted .acrossLines) (do space; char ']'; return f : Reader (Expr → Expr)) never :=
    haltedSkip (refusesBind (haltedChar (by decide)))
  refine .tokenShort (localChar (by decide)) (shortChar _) fun _ => .skip .acrossLines ?_ ?_
  · refine .token (localGiven (localChar (by decide))) (tailGiven (tailChar _)) fun star => .if (close _) ?_
    refine (ahead.expression .lines).bind (fun key => close _) (fun key => ?_) fun key => ?_
    · exact keepsBind fun _ => keepsBind fun _ => keepsPure fun filled => (Bool.and_eq_true_iff.mp filled).2
    · exact caughtSkip (tailBind (tailChar _) fun _ => tailPure _) (refusesBind (haltedChar (by decide)))
  · refine leadsBind (leadsGiven (stalledOnly (haltedChar (by decide)))) fun star => ?_
    split
    · exact stalledOnly (refusesAny (refuses _))
    · exact refusesBind (expressionStalls ahead.regular _ _)

theorem accessorMember (noDot : c ≠ '.') (noStar : c ≠ '*') : accessor inner ('.' :: c :: t) = memberAt c (c :: t) := by
  generalize whole : '.' :: c :: t = w
  rw [accessor, bindReads (leftSome.mpr ⟨rfl, rfl⟩)]
  split
  · exact absurd (List.cons.inj (List.cons.inj whole).2).1 noDot
  · exact absurd (List.cons.inj (List.cons.inj whole).2).1 noStar
  · obtain ⟨rfl, rfl⟩ := List.cons.inj (List.cons.inj whole).2
    rfl
  · rename_i other
    exact absurd whole.symm (other c t)

theorem tailAccessor (tails : InnerTail inner) : Tail (accessor inner) := by
  have key : Tail (bracketed inner) := by
    refine tailBind (tailChar _) fun _ => tailBind (tailTrivia _) fun _ => tailBind (tailGiven (tailChar _)) fun star => ?_
    split
    · exact tailClosed ']' _
    · exact tailBind (tails.expression _).tail fun _ => tailClosed ']' _
  intro t f u read
  cases accessorReads read with
  | splat => exact List.suffix_append ['.', '*'] u
  | @member c _ _ _ _ _ reads =>
      refine List.IsSuffix.trans ?_ (List.suffix_cons _ _)
      unfold memberAt at reads
      split at reads
      · exact tailBind shortWholeNumber.tail (fun _ => tailPure _) reads
      · exact tailBind shortIdentifier.tail (fun _ => tailPure _) reads
  | bracketed reads => exact key reads

theorem repeatsAccessor (ahead : Ahead s s' n inner inner') :
    Repeats s s' (n + 1) accessFilled never (accessor inner) (accessor inner') := by
  refine ⟨tailAccessor ahead.regular.toInnerTail, fun {x} within {f u} read filled => ?_⟩
  generalize whole : x ++ '}' :: s = t at read
  cases accessorReads read with
  | splat =>
      obtain ⟨y, rfl⟩ := (frontLocal ['.', '*'] x s (by decide)).mp ⟨_, whole⟩
      exact .inl ⟨y, (List.cons.inj (List.cons.inj whole).2).2.symm, rfl⟩
  | @member c _ _ _ noDot noStar reads =>
      have noBrace : c ≠ '}' := by
        rintro rfl
        exact absurd (memberBegins reads) (by decide)
      obtain ⟨y, rfl⟩ := (frontLocal ['.', c] x s (by simp [noBrace.symm])).mp ⟨_, whole⟩
      obtain rfl := (List.cons.inj (List.cons.inj whole).2).2
      obtain ⟨z, left, again⟩ := (localMember c).again (show memberAt c ((c :: y) ++ '}' :: s) = _ from reads) s'
      exact .inl ⟨z, left, (accessorMember noDot noStar).trans again⟩
  | bracketed reads =>
      subst whole
      obtain ⟨w, same⟩ := bracketedHead reads
      obtain ⟨y, rfl⟩ := (frontLocal ['['] x s (by decide)).mp ⟨w, same⟩
      exact (repeatsBracketed ahead).again within reads filled

theorem accessedHalted {f : Expr → Expr} (h : Accessed inner' (x ++ '}' :: s') f u) : Halted e (x ++ '}' :: s) := by
  generalize whole : x ++ '}' :: s' = t at h
  cases h with
  | splat =>
      obtain ⟨y, rfl⟩ := (frontLocal ['.', '*'] x s' (by decide)).mp ⟨_, whole⟩
      exact .dot (by simp)
  | @member c _ _ _ noDot noStar reads =>
      have noBrace : c ≠ '}' := by
        rintro rfl
        exact absurd (memberBegins reads) (by decide)
      obtain ⟨y, rfl⟩ := (frontLocal ['.', c] x s' (by simp [noBrace.symm])).mp ⟨_, whole⟩
      exact .dot fun same => noDot (Option.some.inj same)
  | bracketed reads =>
      subst whole
      obtain ⟨w, same⟩ := bracketedHead reads
      obtain ⟨y, rfl⟩ := (frontLocal ['['] x s' (by decide)).mp ⟨w, same⟩
      exact .bracket

theorem accessorStalls : Leads (Stalled e) (accessor inner) never := by
  intro t f u stalled read
  cases accessorReads read with
  | splat => exact stalledHead (by decide) stalled
  | member => exact stalledHead (by decide) stalled
  | bracketed reads =>
      obtain ⟨w, rfl⟩ := bracketedHead reads
      exact stalledHead (by decide) stalled

theorem repeatsAccess (ahead : Ahead s s' n inner inner') (e : Extent) :
    Repeats s s' (n + 1) accessFilled never (access inner e) (access inner' e) :=
  have access : Repeats s s' (n + 1) accessFilled never (do trivia e; accessor inner) (do trivia e; accessor inner') :=
    .skip e (repeatsAccessor ahead) (refusesAny accessorStalls)
  access

theorem repeatsAccesses (ahead : Ahead s s' n inner inner') (e : Extent) : Repeats s s' (n + 1)
    (fun fs => ∀ f ∈ fs, accessFilled f) (Caught s e) (many (access inner e)) (many (access inner' e)) := by
  refine (repeatsAccess ahead e).many (shortAccess ahead.regular.toInnerTail e) (shortAccess ahead.regular'.toInnerTail e)
    (fun _ => False.elim) fun {x f u} read _ => ?_
  obtain ⟨_, w, skips, read⟩ := bindSome.mp read
  rcases skipCut s s' e x with ⟨y, here, there⟩ | snagged
  · obtain rfl := there.symm.trans (skipSome.mp skips)
    rw [Caught, here]
    exact .inr (accessedHalted (accessorReads read))
  · exact snaggedCaught snagged

theorem accessFills {f : Expr → Expr} (read : access inner e t = some (f, u)) (of : Expr) :
    (f of).filled = true ↔ of.filled = true ∧ accessFilled f := by
  rcases accessShape read with rfl | rfl | ⟨_, rfl⟩ | ⟨_, rfl⟩ | ⟨_, rfl⟩ <;> simp [accessFilled, Expr.filled]

theorem accessesFill {fs : List (Expr → Expr)} (run : Run (access inner e) t fs u) (of : Expr) :
    (fs.foldl (fun e f => f e) of).filled = true ↔ of.filled = true ∧ ∀ f ∈ fs, accessFilled f := by
  induction run generalizing of with
  | stop => simp
  | step reads _ ih => rw [List.foldl_cons, ih, accessFills reads, List.forall_mem_cons, and_assoc]

theorem unaryFills (ops : List UnaryOp) (of : Expr) : (ops.foldr .unary of).filled = of.filled := by
  induction ops with
  | nil => rfl
  | cons op rest ih => exact ih

theorem repeatsPrefixes (e : Extent) :
    Repeats s s' n (fun _ => True) (Stalled e) (many (prefixOp e)) (many (prefixOp e)) := by
  have op : Repeats s s' n (fun _ => True) (Stalled e) (prefixOp e) (prefixOp e) :=
    .token localUnaryOp shortUnaryOp.tail fun _ => .skip e (repeatsPure _) (leadsPure _ fun _ => .inr)
  refine (op.many (shortPrefix e) (shortPrefix e) (fun t stalled => ⟨?_, stalled⟩) fun {x op u} read fails => ?_).keeping
    fun _ _ _ _ _ _ _ => trivial
  · refine Option.eq_none_iff_forall_ne_some.mpr fun p read => ?_
    obtain ⟨_, _, op, _⟩ := bindSome.mp read
    obtain ⟨c, rfl, begins⟩ := unaryOpBegins op
    exact beginsStalls begins stalled
  · obtain ⟨_, w, reads, _⟩ := bindSome.mp read
    obtain ⟨y, _, again⟩ := localUnaryOp.again reads s
    have found : prefixOp e (x ++ '}' :: s) = some (_, skipTrivia e (y ++ '}' :: s)) :=
      bindSome.mpr ⟨_, _, again, bindSome.mpr ⟨(), _, skipSome.mpr rfl, rfl⟩⟩
    exact absurd (fails.symm.trans found) (by simp)

theorem primaryStalls {scope : Scope} : Leads (Stalled e) (primary inner scope) never := by
  intro t v u stalled read
  obtain ⟨c, w, rfl, begins⟩ := primaryBegins read
  exact beginsStalls begins stalled

theorem repeatsOperand (ahead : Ahead s s' n inner inner') (scope : Scope) :
    Repeats s s' (n + 1) (fun e => e.filled = true) (Caught s scope.extent) (operand inner scope) (operand inner' scope) := by
  have short := shortAccess ahead.regular.toInnerTail scope.extent
  refine (repeatsPrefixes scope.extent).bind (fun ops => ?_) (fun _ _ _ _ _ _ => trivial) fun ops => refusesBind primaryStalls
  refine (repeatsPrimary ahead scope).bind (fun core => ?_) (fun core t v u read filled => ?_) fun core => ?_
  · have accesses : Repeats s s' (n + 1) (fun fs => (fs.foldl (fun e f => f e) core).filled = true) (Caught s scope.extent)
        (many (access inner scope.extent)) (many (access inner' scope.extent)) :=
      (repeatsAccesses ahead scope.extent).keeping fun _ _ _ read filled => ((accessesFill (manyRun short read) core).mp filled).2
    exact accesses.map fun fs filled => (unaryFills ops _).symm.trans filled
  · obtain ⟨fs, w, read, last⟩ := bindSome.mp read
    rw [← (pureSome.mp last).1, unaryFills] at filled
    exact ((accessesFill (manyRun short read) core).mp filled).1
  · have access : Leads (Snagged s scope.extent) (access inner scope.extent) (Past s) :=
      snaggedSkip (tailAccessor ahead.regular.toInnerTail) accessorStalls
    refine leadsBind (leadsManyPast short.tail access) fun fs => leadsPure _ fun t => .imp_right snaggedCaught

end DeclOrder.Hcl
