import DeclOrder.Hcl.Literals
import DeclOrder.Proofs.Hcl.Literal
import DeclOrder.Proofs.Hcl.Spacing

/-! Templates of respaced texts. Where the literal text between the marks is the same, so are the
templates. -/
namespace DeclOrder.Hcl
open Text Reader Read

def Begins (c : Char) : Prop := Inside c ∧ c ∉ [')', ']', '}', ',', '.', '/', '#']

instance (c : Char) : Decidable (Begins c) := inferInstanceAs (Decidable (_ ∧ _))

def Foreign (c : Char) : Prop := isBlank c = true ∧ c ∉ [' ', '\t', '\r', '\n']

structure Regular (inner : Inner) : Prop extends InnerTail inner where
  begins : ∀ {scope t v u}, inner.expression scope t = some (v, u) → ∃ c w, t = c :: w ∧ Begins c
  /-- The variable `for` ends where white space follows that is no trivium. -/
  lone : ∀ {scope c w v u}, Foreign c → inner.expression scope ('f' :: 'o' :: 'r' :: c :: w) = some (v, u) → u = c :: w

def Unclosed (t : List Char) : Prop :=
  t = [] ∨ ∃ w strip x, t = '%' :: '{' :: w ∧ stripMark w = some (strip, x) ∧ Stuck .acrossLines (skipTrivia .acrossLines x)

/-- Readers for what is inside that read alike. -/
structure Akin (inner inner' : Inner) : Prop where
  regular : Regular inner
  regular' : Regular inner'
  expression : ∀ scope {t t'}, Respaced t t' → ∀ {v v' u u'}, inner.expression scope t = some (v, u) →
    inner'.expression scope t' = some (v', u') → Outcome Respaced Expr.literals (Blocked scope.extent) v v' u u'
  template : ∀ {t t'}, Respaced t t' → ∀ {v v' u u'}, inner.template t = some (v, u) →
    inner'.template t' = some (v', u') → Outcome Respaced templateLiterals Unclosed v v' u u'

variable {inner inner' : Inner} {setting : Setting} {t t' u u' w w' : List Char}

theorem memberRegular (member : Member Akin inner) : Regular inner := by
  obtain ⟨j, akin | akin⟩ := member
  · exact akin.regular
  · exact akin.regular'

theorem alikeExpression (scope : Scope) :
    Alike Akin Respaced Respaced Expr.literals (Blocked scope.extent) (fun inner => inner.expression scope) :=
  fun _ _ akin _ _ start _ _ _ _ read read' => akin.expression scope start read read'

theorem expressionRefuses (regular : Regular inner) (scope : Scope) (e : Extent) :
    Leads (Stuck e) (inner.expression scope) never := by
  intro t v u stuck read
  obtain ⟨c, w, rfl, inside, other⟩ := regular.begins read
  refine stuckHead inside.1 (fun member => other ?_) stuck
  simp only [List.mem_cons, List.not_mem_nil, or_false] at member ⊢
  rcases member with rfl | rfl
  · exact .inr (.inr (.inr (.inr (.inr (.inr rfl)))))
  · exact .inr (.inr (.inr (.inr (.inr (.inl rfl)))))

theorem alikeSpaced (scope : Scope) (across : scope.extent = .acrossLines) :
    Alike Akin Loose Respaced Expr.literals (Held .acrossLines) (fun inner => spaced (inner.expression scope)) := by
  have h := alikeExpression scope
  rw [across] at h
  exact h.spaced fun i member => expressionRefuses (memberRegular member) scope .acrossLines

theorem firmKeyword {w : String} (inside : AllInside w.toList) : Firm (keyword w) := firmWord inside

theorem alikeInterpolation : Alike Akin Respaced Respaced Part.literals never interpolation := by
  refine .token (firmKeyword (by decide)) fun _ => ?_
  refine (Alike.marked (alikeExpression .lines) ?_).bind [] (fun p => alikePure _ fun _ _ => id) ?_ ?_
  · exact fun i member => expressionRefuses (memberRegular member) _ _
  · exact fun _ _ p => startsPure List.prefix_rfl
  · exact fun _ _ _ => leadsNever

theorem alikeClosing {ι : Type} {A : ι → ι → Prop} {w : String} (token : startsToken w.toList = true)
    (inside : AllInside w.toList) : Alike A Respaced Respaced silent never (fun _ => closing w) := by
  have word : Alike A Respaced Respaced silent (Blocked .acrossLines) (fun _ => keyword w) :=
    alikeFirm (firmKeyword inside)
  have closed : Alike A Respaced Respaced silent never (fun _ => marked (keyword w)) :=
    word.marked fun _ _ => stuckOnly (heldKeyword token)
  exact .token (firmKeyword (by decide)) fun _ => closed.behind (fun p => alikePure _ fun _ _ => id) fun _ _ _ => leadsNever

theorem alikeIdentifier {ι : Type} {A : ι → ι → Prop} :
    Alike A Respaced Respaced silent (Held .acrossLines) (fun _ => spaced identifier) := by
  refine (Alike.spaced (alikeFirm firmIdentifier) fun i _ t v u stuck read => ?_).given fun _ _ => Respaced.loose
  obtain ⟨c, w, rfl, start, _⟩ := identifierSome.mp read
  have inside := continuesInside (startsContinues start)
  refine stuckHead inside.1 (fun member => ?_) stuck
  simp only [List.mem_cons, List.not_mem_nil, or_false] at member
  rcases member with rfl | rfl
  · revert start; decide
  · revert start; decide

theorem alikeSecond {ι : Type} {A : ι → ι → Prop} : Alike A Respaced Respaced silent
    (fun t => Held .acrossLines t ∨ ∃ rest, t = ',' :: rest) (fun _ => tried (do char ','; spaced identifier)) := by
  have name : Alike A Respaced Respaced silent (fun t => Held .acrossLines t ∨ ∃ rest, t = ',' :: rest)
      (fun _ => (do char ','; spaced identifier : Reader String)) :=
    .token (firmChar (by decide)) fun _ => alikeIdentifier.barred fun _ => Or.inl
  refine (name.tried (fun _ _ => Respaced.symm) (fun _ _ => id) ?_).retell fun v => by cases v <;> rfl
  intro i i' _ _ t t' start v u read _
  obtain ⟨_, w, comma, _⟩ := bindSome.mp read
  rw [charSome.mp comma] at start
  obtain ⟨w', rfl, _⟩ := start.inside (by decide)
  exact .inr ⟨w', rfl⟩

theorem alikeBinding : Alike Akin Respaced Respaced (fun p => p.2.literals) (Held .acrossLines) binding := by
  have keywordIn : ∀ t, (Held .acrossLines t ∨ ∃ rest, t = ',' :: rest) → keyword "in" t = none := by
    rintro t (held | ⟨rest, rfl⟩)
    · refine Option.eq_none_iff_forall_ne_some.mpr fun p read => ?_
      exact heldKeyword (by decide) held read
    · rfl
  refine .token (firmKeyword (by decide)) fun _ => alikeIdentifier.behind (fun first => ?_) ?_
  · refine alikeSecond.behind (fun second => .token (firmKeyword (by decide)) fun _ => ?_) ?_
    · refine ((alikeSpaced .lines rfl).given fun _ _ => Respaced.loose).bind [] (fun v => alikePure _ fun _ _ => id) ?_ ?_
      · exact fun _ _ v => startsPure List.prefix_rfl
      · exact fun _ _ v => leadsPure _ fun _ => id
    · intro i _ second t v u barred read
      obtain ⟨_, w, reads, _⟩ := bindSome.mp read
      rw [keywordIn t barred] at reads
      contradiction
  · intro i _ first
    refine leadsBind (leadsTried (refusesBind (heldChar (by decide) (by decide)))) fun _ => ?_
    exact refusesBind (heldKeyword (by decide))

theorem alikeTemplate : Alike Akin Respaced Respaced templateLiterals Unclosed Inner.template :=
  fun _ _ akin _ _ start _ _ _ _ read read' => akin.template start read read'

theorem markedReads {α : Type} {r : Reader α} {v : Strip × α} (read : marked r t = some (v, u)) :
    ∃ b x a y, stripMark t = some (b, x) ∧ r (skipTrivia .acrossLines x) = some (a, y) := by
  obtain ⟨b, x, strip, read⟩ := bindSome.mp read
  obtain ⟨a, z, spaced, _⟩ := bindSome.mp read
  obtain ⟨_, y, skips, read⟩ := bindSome.mp spaced
  obtain ⟨_, y', reads, _⟩ := bindSome.mp read
  rw [← skipSome.mp skips] at reads
  exact ⟨b, x, _, y', strip, reads⟩

theorem closingName {w : String} {v : Strip} (read : closing w t = some (v, u)) : ∃ s b x y, t = '%' :: '{' :: s ∧
    stripMark s = some (b, x) ∧ skipTrivia .acrossLines x = w.toList ++ y := by
  obtain ⟨_, s, start, read⟩ := bindSome.mp read
  obtain ⟨_, _, marks, _⟩ := bindSome.mp read
  obtain ⟨b, x, _, y, strip, name⟩ := markedReads marks
  exact ⟨s, b, x, y, wordSome.mp start, strip, wordSome.mp name⟩

theorem closingRefuses {w : String} (token : startsToken w.toList = true) : Leads Unclosed (closing w) never := by
  intro t v u barred read
  obtain ⟨s, b, x, y, rfl, strip, name⟩ := closingName read
  rcases barred with none | ⟨s', b', x', same, strip', stuck⟩
  · contradiction
  · cases same
    rw [strip] at strip'
    cases strip'
    rw [name] at stuck
    exact heldToken token (.stuck stuck)

theorem firmStrip : Firm stripMark := firmGiven (firmChar (by decide))

theorem markReady {b b' : Bool} (h : Respaced ('%' :: '{' :: t) ('%' :: '{' :: t')) (strip : stripMark t = some (b, u))
    (strip' : stripMark t' = some (b', u')) :
    Ready .acrossLines (skipTrivia .acrossLines u) (skipTrivia .acrossLines u') := by
  obtain ⟨w, same, rest⟩ := h.front ['%', '{'] (by decide)
  obtain ⟨_, rest'⟩ := firmStrip.both (by cases same; exact rest) strip strip'
  exact skipReady rest'.loose

theorem elseAlone {v : Strip} (start : Respaced t t') (read : closing "else" t = some (v, u)) :
    closing "endif" t' = none := by
  refine Option.eq_none_iff_forall_ne_some.mpr fun p read' => ?_
  obtain ⟨s, b, x, y, rfl, strip, name⟩ := closingName read
  obtain ⟨s', b', x', y', rfl, strip', name'⟩ := closingName read'
  have ready := markReady start strip strip'
  rw [name, name'] at ready
  rcases ready with tight | stuck | stuck
  · obtain ⟨z, same, _⟩ := tight.front "else".toList (by decide)
    cases same
  · exact stuckHead (by decide) (by decide) stuck
  · exact stuckHead (by decide) (by decide) stuck

theorem alikeChoice : Alike Akin Respaced Respaced Part.literals never choice := by
  have condition : Alike Akin Respaced Respaced Expr.literals (Blocked .acrossLines)
      (fun inner => (do keyword "if"; spaced (inner.expression .lines) : Reader Expr)) :=
    .token (firmKeyword (by decide)) fun _ =>
      ((alikeSpaced .lines rfl).given fun _ _ => Respaced.loose).barred fun _ => heldBlocked
  have other : Alike Akin Respaced Respaced (fun p => templateLiterals p.2) (fun t => closing "endif" t = none)
      (fun inner => (do return (← closing "else", ← inner.template) : Reader (Strip × List Part))) := by
    refine (alikeClosing (by decide) (by decide)).behind (fun strip => ?_)
      fun _ _ _ => leadsNever
    refine (alikeTemplate.map [] (f := fun each => (strip, each)) fun _ => rfl).barred fun t barred => ?_
    exact Option.eq_none_iff_forall_ne_some.mpr fun p read => closingRefuses (by decide) barred read
  have otherwise := other.tried (fun _ _ => Respaced.symm) (fun _ _ => id) fun i i' _ _ t t' start v u read _ => by
    obtain ⟨_, _, opens, _⟩ := bindSome.mp read
    exact elseAlone start opens
  refine .token (firmKeyword (by decide)) fun _ => (condition.marked ?_).bind [] ?_ ?_ fun _ _ _ => leadsNever
  · exact fun i _ => refusesBind (stuckOnly (heldKeyword (by decide)))
  · rintro ⟨strip, condition⟩
    refine alikeTemplate.bind condition.literals (fun yes => ?_) ?_ ?_
    · refine otherwise.bind (condition.literals ++ templateLiterals yes) (fun otherwise => ?_) ?_ ?_
      · refine (alikeClosing (by decide) (by decide)).behind
          (fun close => alikePure _ fun _ _ => id) fun _ _ _ => leadsNever
      · intro i _ otherwise
        refine startsBind fun close => startsPure ?_
        cases otherwise <;> exact List.prefix_rfl
      · intro i _ otherwise t v u barred read
        obtain ⟨_, _, reads, _⟩ := bindSome.mp read
        rw [barred] at reads
        contradiction
    · intro i _ yes
      exact startsBind fun otherwise => startsBind fun close => startsPure (List.prefix_append _ _)
    · intro i _ yes
      refine leadsBind (leadsTried (refusesBind (closingRefuses (by decide)))) fun _ => ?_
      exact refusesBind (closingRefuses (by decide))
  · rintro i _ ⟨strip, condition⟩
    refine startsBind fun yes => startsBind fun otherwise => startsBind fun close => startsPure ?_
    exact (List.prefix_append _ _).trans (List.prefix_append _ _)

theorem alikeLoop : Alike Akin Respaced Respaced Part.literals never loop := by
  refine .token (firmKeyword (by decide)) fun _ =>
    ((alikeBinding.barred fun _ => heldBlocked).marked ?_).bind [] ?_ ?_ fun _ _ _ => leadsNever
  · exact fun i _ => refusesBind (stuckOnly (heldKeyword (by decide)))
  · rintro ⟨strip, names, collection⟩
    refine alikeTemplate.bind collection.literals (fun each => ?_) ?_ ?_
    · exact (alikeClosing (by decide) (by decide)).behind
        (fun close => alikePure _ fun _ _ => id) fun _ _ _ => leadsNever
    · exact fun i _ each => startsBind fun close => startsPure List.prefix_rfl
    · exact fun i _ each => refusesBind
        (closingRefuses (by decide))
  · rintro i _ ⟨strip, names, collection⟩
    exact startsBind fun each => startsBind fun close => startsPure (List.prefix_append _ _)

end DeclOrder.Hcl
