import DeclOrder.Proofs.Hcl.Cut.Expression
import DeclOrder.Proofs.Scanned.Heredoc

/-! Expressions, to any depth. Brackets are open in a scan as long as the reading is between them. -/
namespace DeclOrder.Hcl
open Text Reader Read
open Layout (Scan firstLine)
open Layout.Scan (finish special)

variable {s : Scan} {inner : Inner} {α : Type} {whole : α → Prop} {r : Reader α} {t u : List Char} {c : Char}

theorem scansGuard (scans : ScansInner inner) (ready : s.Ready) : Scans s s (fun g => guardScannable g = true) (guard? inner) := by
  have condition : Scans s s (fun e => e.scannable = true) (do keyword "if"; spaced (inner.expression .lines)) :=
    .token (scansKeyword ready (by decide)) fun _ => (scans.expression ready .lines).spaced ready
  exact condition.tried.keeping fun {_ v _} _ good => by cases v with | none => trivial | some => exact good

theorem scansListFor (scans : ScansInner inner) (ready : s.Ready) : Scans s s (fun e => e.scannable = true) (listFor inner) := by
  refine (scansBinding scans ready).bind ?_ ?_
  · rintro ⟨names, collection⟩
    refine .token (scansChar ready (by decide)) fun _ => ((scans.expression ready .lines).spaced ready).bind (fun value => ?_) fun value => ?_
    · exact (scansGuard scans ready).map fun guard good => (Bool.and_eq_true_iff.mp good).2
    · exact keepsBind fun _ => keepsPure fun good => (Bool.and_eq_true_iff.mp (Bool.and_eq_true_iff.mp good).1).2
  · rintro ⟨names, collection⟩
    exact keepsBind fun _ => keepsBind fun _ => keepsBind fun _ => keepsPure fun good =>
      (Bool.and_eq_true_iff.mp (Bool.and_eq_true_iff.mp good).1).1

theorem scansObjectFor (scans : ScansInner inner) (ready : s.Ready) : Scans s s (fun e => e.scannable = true) (objectFor inner) := by
  have value : Scans s s (fun e => e.scannable = true) (spaced (inner.expression .lines)) := (scans.expression ready .lines).spaced ready
  refine (scansBinding scans ready).bind ?_ ?_
  · rintro ⟨names, collection⟩
    refine .token (scansChar ready (by decide)) fun _ => value.bind (fun key => ?_) fun key => ?_
    · refine .token (scansKeyword ready (by decide)) fun _ => value.bind (fun value => ?_) fun value => ?_
      · refine .token (scansKeyword ready (by decide)).given fun grouping => .token (scansTrivia ready _) fun _ => ?_
        exact (scansGuard scans ready).map fun guard good => (Bool.and_eq_true_iff.mp good).2
      · exact keepsBind fun _ => keepsBind fun _ => keepsBind fun _ => keepsPure fun good =>
          (Bool.and_eq_true_iff.mp (Bool.and_eq_true_iff.mp good).1).2
    · exact keepsBind fun _ => keepsBind fun _ => keepsBind fun _ => keepsBind fun _ => keepsBind fun _ => keepsPure fun good =>
        (Bool.and_eq_true_iff.mp (Bool.and_eq_true_iff.mp (Bool.and_eq_true_iff.mp good).1).1).2
  · rintro ⟨names, collection⟩
    exact keepsBind fun _ => keepsBind fun _ => keepsBind fun _ => keepsBind fun _ => keepsBind fun _ => keepsBind fun _ =>
      keepsBind fun _ => keepsPure fun good =>
        (Bool.and_eq_true_iff.mp (Bool.and_eq_true_iff.mp (Bool.and_eq_true_iff.mp good).1).1).1

theorem expressionsScannableAll (es : List Expr) : expressionsScannable es = true ↔ ∀ e ∈ es, e.scannable = true := by
  induction es with
  | nil => simp [expressionsScannable]
  | cons e rest ih => rw [expressionsScannable, Bool.and_eq_true_iff, ih, List.forall_mem_cons]

theorem scansSeparated (scans : ScansInner inner) (ready : s.Ready) (scope : Scope) :
    Scans s s (fun es => expressionsScannable es = true) (separated (spaced (inner.expression scope.items))) :=
  (((scans.expression ready scope.items).spaced ready).separated (scansChar ready (by decide))).keeping fun {_ es _} _ =>
    (expressionsScannableAll es).mp

theorem scansListItems (scans : ScansInner inner) (ready : s.Ready) (scope : Scope) :
    Scans s s (fun e => e.scannable = true) (listItems inner scope) := by
  refine (scansSeparated scans ready scope).bind (fun items => .if ?_ (scansPure _)) fun items => ?_
  · exact .token (scansChar ready (by decide)).given fun _ => .token (scansTrivia ready _) fun _ => scansPure _
  · dsimp only
    split
    · exact keepsBind fun _ => keepsBind fun _ => keepsPure id
    · exact keepsPure id

theorem Scans.closed (ready : s.Ready) (h : Scans (s.push .group) (s.push .group) whole r) (closes : c ∈ ['}', ']', ')']) :
    Scans (s.push .group) s whole (do let value ← r; space; char c; return value) := by
  have inside : (s.push .group).Ready := ready.opened (by decide)
  refine h.bind (fun value => .token (scansTrivia inside _) fun _ => .token (scansClose inside closes) fun _ => scansPure _) fun value => ?_
  exact keepsBind fun _ => keepsBind fun _ => keepsPure id

theorem scansListLike (scans : ScansInner inner) (ready : s.Ready) (scope : Scope) :
    Scans s s (fun e => e.scannable = true) (listLike inner scope) := by
  have inside : (s.push .group).Ready := ready.opened (by decide)
  refine .token (scansOpen ready (by decide)) fun _ => .token (scansTrivia inside _) fun _ => .look fun text => .if ?_ ?_
  · exact (scansListFor scans inside).closed ready (by decide)
  · exact (scansListItems scans inside scope).closed ready (by decide)

def itemScannable (p : Expr × Expr) : Prop := p.1.scannable = true ∧ p.2.scannable = true

theorem scansItemEnd (ready : s.Ready) (v : α) : Scans s s whole (itemEnd v) := by
  refine .look fun text => ?_
  split
  · exact scansPure v
  · exact .token (scansChar ready (by decide)) fun _ => .token (scansTrivia ready _) fun _ => scansPure v
  · exact .token (scansLineEnd ready) fun _ => .token (scansTrivia ready _) fun _ => scansPure v

theorem scansItemValue (scans : ScansInner inner) (ready : s.Ready) (key : Expr) : Scans s s itemScannable (itemValue inner key) := by
  refine .token (scansTrivia ready _) fun _ => (scans.expression ready .line).bind (fun value => ?_) fun value => ?_
  · exact .token (scansTrivia ready _) fun _ => scansItemEnd ready (key, value)
  · refine keepsBind fun _ t p u ends good => ?_
    rw [← itemEndGives ends] at good
    exact good.2

theorem itemValueScannable (key : Expr) : Keeps itemScannable (key.scannable = true) (itemValue inner key) := by
  refine keepsBind fun _ => keepsBind fun value => keepsBind fun _ t p u ends good => ?_
  rw [← itemEndGives ends] at good
  exact good.1

theorem scansObjectItem (scans : ScansInner inner) (ready : s.Ready) : Scans s s itemScannable (objectItem inner) := by
  refine (scans.expression ready .line).bind (fun key => ?_) fun key => ?_
  · refine .token (scansTrivia ready _) fun _ => .token (scansChar ready (by decide)).given fun equals => ?_
    exact .if (scansItemValue scans ready key) (.token (scansChar ready (by decide)) fun _ => scansItemValue scans ready key)
  · refine keepsBind fun _ => keepsBind fun equals => ?_
    dsimp only
    split
    · exact itemValueScannable key
    · exact keepsBind fun _ => itemValueScannable key

theorem itemsScannableAll (items : List (Expr × Expr)) : itemsScannable items = true ↔ ∀ p ∈ items, itemScannable p := by
  induction items with
  | nil => simp [itemsScannable]
  | cons p rest ih =>
      obtain ⟨key, value⟩ := p
      rw [itemsScannable, Bool.and_eq_true_iff, Bool.and_eq_true_iff, ih, List.forall_mem_cons]
      rfl

theorem scansObjectLike (scans : ScansInner inner) (ready : s.Ready) :
    Scans s s (fun e => e.scannable = true) (objectLike inner) := by
  have inside : (s.push .group).Ready := ready.opened (by decide)
  have items : Scans (s.push .group) (s.push .group) (fun e => e.scannable = true) (objectItems inner) :=
    ((scansObjectItem scans inside).many (shortObjectItem scans.tails)).map fun ps => (itemsScannableAll ps).mp
  refine .token (scansOpen ready (by decide)) fun _ => .token (scansTrivia inside _) fun _ => .look fun text => .if ?_ ?_
  · exact (scansObjectFor scans inside).closed ready (by decide)
  · exact items.closed ready (by decide)

theorem scansGroup (scans : ScansInner inner) (ready : s.Ready) : Scans s s (fun e => e.scannable = true) (group inner) := by
  have inside : (s.push .group).Ready := ready.opened (by decide)
  refine .token (scansOpen ready (by decide)) fun _ => ((scans.expression inside .lines).spaced inside).bind (fun value => ?_) fun value => ?_
  · exact .token (scansClose inside (by decide)) fun _ => scansPure _
  · exact keepsBind fun _ => keepsPure id

theorem scansArguments (scans : ScansInner inner) (ready : s.Ready) (scope : Scope) :
    Scans s s (fun p => expressionsScannable p.1 = true) (arguments inner scope) := by
  have inside : (s.push .group).Ready := ready.opened (by decide)
  have close (p : List Expr × Bool) : Scans (s.push .group) s (fun p => expressionsScannable p.1 = true) (do space; char ')'; return p) :=
    .token (scansTrivia inside _) fun _ => .token (scansClose inside (by decide)) fun _ => scansPure _
  have keeps (values : List Expr) (spread : Bool) : Keeps (fun p : List Expr × Bool => expressionsScannable p.1 = true)
      (expressionsScannable values = true) (do space; char ')'; return (values, spread)) := keepsBind fun _ => keepsBind fun _ => keepsPure id
  refine .token (scansOpen ready (by decide)) fun _ => (scansSeparated scans inside scope).bind (fun values => ?_) fun values => ?_
  · refine .if (.token (scansPure _) fun spread => close _) (.token (scansKeyword inside (by decide)).given fun spread => .if ?_ ?_)
    · exact .token (scansPure _) fun spread => close _
    · exact .token (scansChar inside (by decide)).given fun _ => .token (scansPure _) fun spread => close _
  · dsimp only
    split
    · exact keepsBind fun spread => keeps values spread
    · refine keepsBind fun spread => ?_
      split
      · exact keepsBind fun spread => keeps values spread
      · exact keepsBind fun _ => keepsBind fun spread => keeps values spread

theorem scansNamed (scans : ScansInner inner) (ready : s.Ready) (scope : Scope) :
    Scans s s (fun e => e.scannable = true) (named inner scope) := by
  have further : Scans s s (fun _ => True) (furtherName scope.extent) :=
    .token (scansTrivia ready _) fun _ => .token (scansKeyword ready (by decide)) fun _ => .token (scansTrivia ready _) fun _ =>
      scansIdentifier ready
  have names : Scans s s (fun _ => True) (many (furtherName scope.extent)) :=
    (further.many (shortFurther _)).keeping fun _ _ _ _ => trivial
  have call (name : String) : Scans s s (fun e => e.scannable = true) (callOf inner scope name) :=
    .token names fun _ => .token (scansTrivia ready _) fun _ => (scansArguments scans ready scope).map fun _ => id
  refine .token (scansIdentifier ready) fun name => .look fun text => .if (call name) ?_
  exact .if (scansPure _) (.if (scansPure _) (.if (scansPure _) (scansPure _)))

theorem scansPrimary (scans : ScansInner inner) (ready : s.Ready) (scope : Scope) :
    Scans s s (fun e => e.scannable = true) (primary inner scope) := by
  refine .look fun text => ?_
  split
  · exact (scansQuotedTemplate scans ready).map fun _ => id
  · exact scansListLike scans ready scope
  · exact scansObjectLike scans ready
  · exact scansGroup scans ready
  · exact scans.heredoc ready
  · exact .if (.token (scansNumber ready) fun _ => scansPure _) (scansNamed scans ready scope)
  · exact scansFailure

def accessScannable (f : Expr → Expr) : Prop := (f .null).scannable = true

theorem scansBracketed (scans : ScansInner inner) (ready : s.Ready) : Scans s s accessScannable (bracketed inner) := by
  have inside : (s.push .group).Ready := ready.opened (by decide)
  have close (f : Expr → Expr) : Scans (s.push .group) s accessScannable (do space; char ']'; return f) :=
    .token (scansTrivia inside _) fun _ => .token (scansClose inside (by decide)) fun _ => scansPure _
  refine .token (scansOpen ready (by decide)) fun _ => .token (scansTrivia inside _) fun _ =>
    .token (scansChar inside (by decide)).given fun star => .if (close _) ?_
  refine (scans.expression inside .lines).bind (fun key => close _) fun key => ?_
  exact keepsBind fun _ => keepsBind fun _ => keepsPure fun good => (Bool.and_eq_true_iff.mp good).2

theorem scansMember (ready : s.Ready) (c : Char) {whole : (Expr → Expr) → Prop} : Scans s s whole (memberAt c) :=
  .if (.token (scansWholeNumber ready) fun _ => scansPure _) (.token (scansIdentifier ready) fun _ => scansPure _)

theorem scansAccessor (scans : ScansInner inner) (ready : s.Ready) : Scans s s accessScannable (accessor inner) := by
  refine ⟨tailAccessor scans.tails, fun alone f u read good => ?_⟩
  cases accessorReads read with
  | splat => rw [ready.finishPlain (by decide), ready.finishPlain (by decide)]
  | member _ _ reads =>
      rw [ready.finishPlain (by decide)]
      exact (scansMember ready _).passes (alone.behind (List.suffix_cons _ _)) reads good
  | bracketed reads => exact (scansBracketed scans ready).passes alone reads good

theorem scansAccess (scans : ScansInner inner) (ready : s.Ready) (e : Extent) : Scans s s accessScannable (access inner e) :=
  have access : Scans s s accessScannable (do trivia e; accessor inner) := .token (scansTrivia ready e) fun _ => scansAccessor scans ready
  access

theorem accessScans {e : Extent} {f : Expr → Expr} (read : access inner e t = some (f, u)) (of : Expr) :
    (f of).scannable = true ↔ of.scannable = true ∧ accessScannable f := by
  rcases accessShape read with rfl | rfl | ⟨_, rfl⟩ | ⟨_, rfl⟩ | ⟨_, rfl⟩ <;> simp [accessScannable, Expr.scannable]

theorem accessesScan {e : Extent} {fs : List (Expr → Expr)} (run : Run (access inner e) t fs u) (of : Expr) :
    (fs.foldl (fun e f => f e) of).scannable = true ↔ of.scannable = true ∧ ∀ f ∈ fs, accessScannable f := by
  induction run generalizing of with
  | stop => simp
  | step reads _ ih => rw [List.foldl_cons, ih, accessScans reads, List.forall_mem_cons, and_assoc]

theorem unaryScans (ops : List UnaryOp) (of : Expr) : (ops.foldr .unary of).scannable = of.scannable := by
  induction ops with
  | nil => rfl
  | cons op rest ih => exact ih

theorem scansPrefix (ready : s.Ready) (e : Extent) {whole : UnaryOp → Prop} : Scans s s whole (prefixOp e) := by
  have op : Scans s s (fun _ => True) unaryOp := scansFront ready shortUnaryOp.tail fun read => by
    rcases unaryOpSome.mp read with ⟨rfl, _⟩ | ⟨rfl, _⟩
    · exact ⟨['-'], rfl, by decide⟩
    · exact ⟨['!'], rfl, by decide⟩
  exact .token op fun _ => .token (scansTrivia ready e) fun _ => scansPure _

theorem scansOperand (scans : ScansInner inner) (ready : s.Ready) (scope : Scope) :
    Scans s s (fun e => e.scannable = true) (operand inner scope) := by
  have short := shortAccess scans.tails scope.extent
  have op : Scans s s (fun _ => True) (prefixOp scope.extent) := scansPrefix ready _
  have ops : Scans s s (fun _ => True) (many (prefixOp scope.extent)) := (op.many (shortPrefix _)).keeping fun _ _ _ _ => trivial
  refine .token ops fun ops => (scansPrimary scans ready scope).bind (fun core => ?_) fun core t v u read good => ?_
  · have accesses : Scans s s (fun fs => (fs.foldl (fun e f => f e) core).scannable = true) (many (access inner scope.extent)) :=
      ((scansAccess scans ready _).many short).keeping fun {_ fs _} read good => ((accessesScan (manyRun short read) core).mp good).2
    exact accesses.map fun fs good => (unaryScans ops _).symm.trans good
  · obtain ⟨fs, w, read, last⟩ := bindSome.mp read
    rw [← (pureSome.mp last).1, unaryScans] at good
    exact ((accessesScan (manyRun short read) core).mp good).1

theorem scansConditional (scans : ScansInner inner) (ready : s.Ready) (scope : Scope) (condition : Expr) :
    Scans s s (fun e => e.scannable = true) (conditional inner scope condition) := by
  have branch := scans.expression ready scope.branch
  refine .token (scansChar ready (by decide)) fun _ => .token (scansTrivia ready _) fun _ => branch.bind (fun yes => ?_) fun yes => ?_
  · refine .token (scansTrivia ready _) fun _ => .token (scansChar ready (by decide)) fun _ => .token (scansTrivia ready _) fun _ => ?_
    exact branch.map fun no good => (Bool.and_eq_true_iff.mp good).2
  · exact keepsBind fun _ => keepsBind fun _ => keepsBind fun _ => keepsBind fun no => keepsPure fun good =>
      (Bool.and_eq_true_iff.mp (Bool.and_eq_true_iff.mp good).1).2

theorem scansBinary (scans : ScansInner inner) (ready : s.Ready) (scope : Scope) (left : Expr) (op : BinaryOp) :
    Scans s s (fun e => e.scannable = true) (binary inner scope left op) :=
  .token (scansTrivia ready _) fun _ => (scans.expression ready _).map fun _ good => (Bool.and_eq_true_iff.mp good).2

theorem angleMarker (t : List Char) : Scan.marker? ('<' :: t) = none := rfl

theorem finishOperator (ready : s.Ready) {op : BinaryOp} (found : binaryOp? t = some (op, u)) (noStar : u.head? ≠ some '*')
    (angles : ∀ w, u = '<' :: w → ∃ x, w = '<' :: x) : s.finish t = s.finish u := by
  have one {c : Char} (plain : c ∉ special) : s.finish (c :: u) = s.finish u := ready.finishPlain plain u
  have two {c d : Char} (plain : c ∉ special) (plain' : d ∉ special) : s.finish (c :: d :: u) = s.finish u := by
    rw [ready.finishPlain plain, ready.finishPlain plain']
  unfold binaryOp? at found
  split at found
  · cases found
    exact two (by decide) (by decide)
  · cases found
    exact two (by decide) (by decide)
  · cases found
    rw [ready.finishAngle fun w line => ?_, ready.finishPlain (by decide)]
    have head : ('=' :: u).head? = some '<' := Layout.firstLineHead (by rw [line]; rfl)
    simp at head
  · cases found
    exact two (by decide) (by decide)
  · cases found
    exact two (by decide) (by decide)
  · cases found
    exact two (by decide) (by decide)
  · contradiction
  · cases found
    refine ready.finishAngle fun w line => ?_
    obtain ⟨x, rfl⟩ := List.head?_eq_some_iff.mp (Layout.firstLineHead (c := '<') (t := u) (by rw [line]; rfl))
    obtain ⟨y, rfl⟩ := angles x rfl
    have angled : firstLine (['<', '<'] ++ y) = ['<', '<'] ++ firstLine y := (linePiece (by simp) y).1
    rw [← (List.cons.inj (angled.symm.trans line)).2]
    exact angleMarker _
  · cases found; exact one (by decide)
  · cases found; exact one (by decide)
  · cases found; exact one (by decide)
  · cases found; exact one (by decide)
  · rename_i noSlash
    cases found
    refine ready.finishSlash (fun slash => ?_) noStar
    obtain ⟨w, rfl⟩ := List.head?_eq_some_iff.mp slash
    exact noSlash w rfl
  · cases found; exact one (by decide)
  · contradiction

theorem behindOperator (scans : ScansInner inner) {scope : Scope} {left v : Expr} {op : BinaryOp}
    (read : binary inner scope left op t = some (v, u)) :
    t.head? ≠ some '*' ∧ ∀ w, t = '<' :: w → ∃ x, w = '<' :: x := by
  obtain ⟨_, w, skips, read⟩ := bindSome.mp read
  obtain ⟨_, _, reads, _⟩ := bindSome.mp read
  rw [← skipSome.mp skips] at reads
  refine ⟨fun star => ?_, fun w angle => ?_⟩
  · obtain ⟨w, rfl⟩ := List.head?_eq_some_iff.mp star
    rw [skipStop (triviumOther (by decide)), scans.noStar] at reads
    contradiction
  · rw [angle, skipStop (triviumOther (by decide))] at reads
    exact scans.angles reads

theorem scansBehind (scans : ScansInner inner) (ready : s.Ready) (scope : Scope) (first : Expr) :
    Scans s s (fun e => e.scannable = true) (behindOperand inner scope first) := by
  refine ⟨fun t v u read => (behindReads read).tail scans.tails, fun {t} alone v u read good => ?_⟩
  have skipped : skipTrivia scope.extent t <:+ t := (skipStopped _ _).2
  cases behindReads read with
  | conditional _ reads =>
      rw [← finishSkip ready scope.extent]
      exact (scansConditional scans ready scope first).passes (alone.behind skipped) reads good
  | binary _ found reads =>
      obtain ⟨noStar, angles⟩ := behindOperator scans reads
      rw [← finishSkip ready scope.extent, finishOperator ready found noStar angles]
      exact (scansBinary scans ready scope first _).passes (alone.behind ((binaryOpTail found).trans skipped)) reads good
  | none => rfl

theorem Behind.scans {scope : Scope} {first v : Expr} (h : Behind inner scope first t v u) (good : v.scannable = true) :
    first.scannable = true := by
  cases h with
  | conditional _ read =>
      have keeps : Keeps (fun e => e.scannable = true) (first.scannable = true) (Read.conditional inner scope first) :=
        keepsBind fun _ => keepsBind fun _ => keepsBind fun _ => keepsBind fun _ => keepsBind fun _ => keepsBind fun _ =>
          keepsBind fun _ => keepsPure fun good => (Bool.and_eq_true_iff.mp (Bool.and_eq_true_iff.mp good).1).1
      exact keeps read good
  | @binary op _ _ _ _ _ read =>
      have keeps : Keeps (fun e => e.scannable = true) (first.scannable = true) (Read.binary inner scope first op) :=
        keepsBind fun _ => keepsBind fun _ => keepsPure fun good => (Bool.and_eq_true_iff.mp good).1
      exact keeps read good
  | none => exact good

theorem scansExpression (scans : ScansInner inner) (ready : s.Ready) (scope : Scope) :
    Scans s s (fun e => e.scannable = true) (expression inner scope) :=
  (scansOperand scans ready scope).bind (scansBehind scans ready scope) fun _ _ _ _ read good => (behindReads read).scans good

theorem expressionAngle {scope : Scope} {v : Expr} (read : expression inner scope ('<' :: t) = some (v, u)) : ∃ w, t = '<' :: w := by
  obtain ⟨_, _, operand, _⟩ := bindSome.mp read
  obtain ⟨ops, w, prefixes, rest⟩ := bindSome.mp operand
  have noPrefix : prefixOp scope.extent ('<' :: t) = none := rfl
  obtain ⟨_, rfl⟩ := runAtEnd noPrefix (manyRun (shortPrefix _) prefixes)
  obtain ⟨_, _, core, _⟩ := bindSome.mp rest
  obtain ⟨_, x, opens, _⟩ := bindSome.mp (show heredoc inner ('<' :: t) = _ from core)
  exact ⟨x, (List.cons.inj (wordSome.mp opens)).2⟩

theorem innerScans (bound : List Char) : ScansInner (Hcl.inner bound) := by
  -- Only expressions and templates need the induction on depth: the text of a heredoc is passed line by line.
  induction bound with
  | nil =>
      refine ⟨innerTail _, innerStar, fun read => absurd read failureSome, fun ready _ => scansHeredoc ready _, ?_, ?_⟩
      · exact fun _ _ => ⟨fun _ _ _ read => absurd read failureSome, fun _ _ _ read => absurd read failureSome⟩
      · exact fun _ => scansFailure
  | cons b bound ih =>
      refine ⟨innerTail _, innerStar, expressionAngle, fun ready _ => scansHeredoc ready _, ?_, ?_⟩
      · exact fun ready scope => scansExpression ih ready scope
      · exact fun quoting => scansParts ih quoting

end DeclOrder.Hcl
