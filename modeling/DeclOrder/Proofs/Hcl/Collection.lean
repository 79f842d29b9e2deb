import DeclOrder.Proofs.Hcl.Quoted

/-! Lists, objects, calls and `for` expressions of respaced texts. -/
namespace DeclOrder.Hcl
open Text Reader Read

def Shut (t : List Char) : Prop := ∀ c ∈ [')', ']', '}'], ∀ rest, skipTrivia .acrossLines t ≠ c :: rest

def Begun (t : List Char) : Prop :=
  Stuck .acrossLines (skipTrivia .acrossLines t) ∨ ∃ c w, skipTrivia .acrossLines t = c :: w ∧ Begins c

variable {inner inner' : Inner} {c : Char} {t t' u u' w w' : List Char}

theorem closerSolid (closer : c ∈ [')', ']', '}']) : isBlank c = false ∧ c ∉ ['#', '/', '[', '.'] := by
  simp only [List.mem_cons, List.not_mem_nil, or_false] at closer
  rcases closer with rfl | rfl | rfl <;> decide

theorem heldShut (held : Held .acrossLines t) : Shut t := by
  intro c closer rest same
  rw [heldStays held] at same
  rw [same] at held
  exact heldHead (closerSolid closer).1 (closerSolid closer).2 held

theorem begunShut (begun : Begun t) : Shut t := by
  intro c closer rest same
  rcases begun with stuck | ⟨d, w, whole, begins⟩
  · rw [same] at stuck
    exact heldHead (closerSolid closer).1 (closerSolid closer).2 (.stuck stuck)
  · rw [same] at whole
    rw [← (List.cons.inj whole).1] at begins
    refine begins.2 ?_
    simp only [List.mem_cons, List.not_mem_nil, or_false] at closer ⊢
    rcases closer with rfl | rfl | rfl
    · exact .inl rfl
    · exact .inr (.inl rfl)
    · exact .inr (.inr (.inl rfl))

theorem tokenShut (stays : trivium? .acrossLines t = none) (other : ∀ c ∈ [')', ']', '}'], ∀ rest, t ≠ c :: rest) : Shut t := by
  intro c closer rest same
  rw [skipStop stays] at same
  exact other c closer rest same

theorem shutSkip (shut : Shut t) : Shut (skipTrivia .acrossLines t) := by
  intro c closer rest same
  rw [skipTwice] at same
  exact shut c closer rest same

section
variable {α β : Type} {k : Unit → Reader β} {B : List Char → Prop}

theorem shutRefuses {v : α} (closer : c ∈ [')', ']', '}']) : Leads Shut (do space; char c; return v) B := by
  intro t x u shut read
  obtain ⟨_, w, skips, read⟩ := bindSome.mp read
  obtain ⟨_, y, closes, _⟩ := bindSome.mp read
  rw [← skipSome.mp skips] at closes
  exact absurd (charSome.mp closes) (shut c closer y)

end

theorem expressionBegun (regular : Regular inner) (start : Respaced t t') {scope : Scope} {v : Expr}
    (read : spaced (inner.expression scope) t = some (v, u)) : Begun t' := by
  obtain ⟨_, w, skips, read⟩ := bindSome.mp read
  obtain ⟨a, x, reads, _⟩ := bindSome.mp read
  rw [← skipSome.mp skips] at reads
  obtain ⟨c, y, whole, begins⟩ := regular.begins reads
  have ready := skipReady (e := .acrossLines) start.loose
  rw [whole] at ready
  rcases ready with tight | stuck | stuck
  · obtain ⟨y', same, _⟩ := tight.inside begins.1
    exact .inr ⟨c, y', same, begins⟩
  · rw [← whole] at stuck
    exact absurd reads fun some => expressionRefuses regular scope .acrossLines stuck some
  · exact .inl stuck

theorem begunNot (begun : Begun (c :: t)) (other : c ∈ [',', '.', ')', ']', '}']) : False := by
  have solid : isBlank c = false ∧ c ∉ ['#', '/'] ∧ trivium? .acrossLines (c :: t) = none := by
    simp only [List.mem_cons, List.not_mem_nil, or_false] at other
    rcases other with rfl | rfl | rfl | rfl | rfl <;> exact ⟨by decide, by decide, rfl⟩
  rw [Begun, skipStop solid.2.2] at begun
  rcases begun with stuck | ⟨d, w, whole, begins⟩
  · exact stuckHead solid.1 solid.2.1 stuck
  · obtain ⟨rfl, rfl⟩ := List.cons.inj whole
    refine begins.2 ?_
    simp only [List.mem_cons, List.not_mem_nil, or_false] at other ⊢
    rcases other with rfl | rfl | rfl | rfl | rfl
    · exact .inr (.inr (.inr (.inl rfl)))
    · exact .inr (.inr (.inr (.inr (.inl rfl))))
    · exact .inl rfl
    · exact .inr (.inl rfl)
    · exact .inr (.inr (.inl rfl))

def Lingering (t : List Char) : Prop := Held .acrossLines t ∨ ∃ rest, t = 'i' :: rest

theorem lingeringShut (lingering : Lingering t) : Shut t := by
  rcases lingering with held | ⟨rest, rfl⟩
  · exact heldShut held
  · refine tokenShut rfl fun c closer more same => ?_
    simp only [List.mem_cons, List.not_mem_nil, or_false] at closer
    rw [← (List.cons.inj same).1] at closer
    rcases closer with closer | closer | closer <;> exact absurd closer (by decide)

theorem ifRefuses {e : Extent} {α : Type} {k : Unit → Reader α} : Leads (Held e) (keyword "if" >>= k) never :=
  refusesBind (heldKeyword (by decide))

theorem alikeGuard : Alike Akin Respaced Respaced guardLiterals Lingering guard? := by
  have condition : Alike Akin Respaced Respaced Expr.literals Lingering
      (fun inner => (do keyword "if"; spaced (inner.expression .lines) : Reader Expr)) :=
    .token (firmKeyword (by decide)) fun _ =>
      ((alikeSpaced .lines rfl).given fun _ _ => Respaced.loose).barred fun _ => .inl
  refine (condition.tried (fun _ _ => Respaced.symm) (fun _ _ => id) ?_).retell fun v => by cases v <;> rfl
  intro i i' _ _ t t' start v u read _
  obtain ⟨_, w, name, _⟩ := bindSome.mp read
  rw [wordSome.mp name] at start
  obtain ⟨w', rfl, _⟩ := start.inside (by decide)
  exact .inr ⟨w', rfl⟩

theorem alikeGuardShut : Alike Akin Respaced Respaced guardLiterals Shut guard? := alikeGuard.barred fun _ => lingeringShut

theorem guardHeld : Leads (Held .acrossLines) (guard? inner) Lingering :=
  fun _ _ _ held read => .inl (leadsTried ifRefuses held read)

theorem alikeListFor : Alike Akin Respaced Respaced Expr.literals Shut listFor := by
  refine alikeBinding.bind [] ?_ ?_ ?_
  · rintro ⟨names, collection⟩
    refine .token (firmChar (by decide)) fun _ => ?_
    refine ((alikeSpaced .lines rfl).given fun _ _ => Respaced.loose).bind collection.literals (fun value => ?_) ?_ ?_
    · exact alikeGuardShut.map (collection.literals ++ value.literals) fun guard => rfl
    · exact fun _ _ value => startsBind fun guard => startsPure (List.prefix_append _ _)
    · exact fun _ _ value => leadsBind guardHeld fun _ => leadsPure _ fun _ => lingeringShut
  · rintro _ _ ⟨names, collection⟩
    refine startsBind fun _ => startsBind fun value => startsBind fun guard => startsPure ?_
    exact (List.prefix_append _ _).trans (List.prefix_append _ _)
  · rintro _ _ ⟨names, collection⟩
    exact refusesBind (heldChar (by decide) (by decide))

theorem arrowFront (h : Respaced ('=' :: '>' :: t) t') : ∃ w, t' = '=' :: '>' :: w ∧ Respaced t w := by
  generalize whole : '=' :: '>' :: t = s at h
  cases h with
  | blank all => rw [← whole] at all; contradiction
  | same _ _ rest =>
      obtain ⟨rfl, rfl⟩ := List.cons.inj whole
      obtain ⟨w, rfl, last⟩ := rest.inside (by decide)
      exact ⟨w, rfl, last⟩
  | @lineBreak a _ _ _ _ _ before =>
      cases a with
      | nil => exact absurd (List.cons.inj whole).1 (by decide)
      | cons d a =>
          rw [← (List.cons.inj whole).1] at before
          exact absurd (withinCons.mp before).1 (notInLine (by decide))
  | @equals a _ b _ t _ before _ _ _ alone =>
      cases a with
      | nil =>
          rw [← (List.cons.inj whole).2] at alone
          exact absurd rfl alone.2
      | cons d a =>
          rw [← (List.cons.inj whole).1] at before
          exact absurd (withinCons.mp before).1 (notInLine (by decide))

theorem firmArrow : Firm (keyword "=>") := by
  intro t t' h
  cases read : keyword "=>" t with
  | some p =>
      obtain ⟨x, u⟩ := p
      have whole : t = '=' :: '>' :: u := wordSome.mp read
      rw [whole] at h
      obtain ⟨w, rfl, rest⟩ := arrowFront h
      exact .inr ⟨x, u, w, rfl, wordSome.mpr rfl, rest⟩
  | none =>
      cases read' : keyword "=>" t' with
      | none => exact .inl ⟨rfl, rfl⟩
      | some p =>
          obtain ⟨x, u⟩ := p
          have whole : t' = '=' :: '>' :: u := wordSome.mp read'
          rw [whole] at h
          obtain ⟨w, rfl, _⟩ := arrowFront h.symm
          contradiction

theorem dotsRefuse {e : Extent} : Leads (Held e) (keyword "...") never := refusesWord fun _ => heldDots

theorem alikeObjectFor : Alike Akin Respaced Respaced Expr.literals Shut objectFor := by
  have value := (alikeSpaced .lines rfl).given fun _ _ => Respaced.loose
  refine alikeBinding.bind [] ?_ ?_ ?_
  · rintro ⟨names, collection⟩
    refine .token (firmChar (by decide)) fun _ => value.bind collection.literals (fun key => ?_) ?_ ?_
    · refine .token firmArrow fun _ => value.bind (collection.literals ++ key.literals) (fun value => ?_) ?_ ?_
      · refine .token (firmGiven (firmKeyword (by decide))) fun grouping => ?_
        refine (Alike.skip .acrossLines ?_ ?_).given fun _ _ => Respaced.loose
        · exact alikeGuardShut.map (collection.literals ++ key.literals ++ value.literals) fun guard => rfl
        · exact fun _ _ => stuckOnly (leadsBind guardHeld fun _ => leadsPure _ fun _ => lingeringShut)
      · exact fun _ _ value => startsBind fun grouping => startsBind fun _ => startsBind fun guard =>
          startsPure (List.prefix_append _ _)
      · exact fun _ _ value => leadsBind (leadsGiven dotsRefuse) fun _ =>
          heldSkip (leadsBind guardHeld fun _ => leadsPure _ fun _ => lingeringShut)
    · intro _ _ key
      refine startsBind fun _ => startsBind fun value => startsBind fun grouping => startsBind fun _ =>
        startsBind fun guard => startsPure ?_
      exact (List.prefix_append _ _).trans (List.prefix_append _ _)
    · exact fun _ _ key => refusesBind (heldKeyword (by decide))
  · rintro _ _ ⟨names, collection⟩
    refine startsBind fun _ => startsBind fun key => startsBind fun _ => startsBind fun value => startsBind fun grouping =>
      startsBind fun _ => startsBind fun guard => startsPure ?_
    exact ((List.prefix_append _ _).trans (List.prefix_append _ _)).trans (List.prefix_append _ _)
  · rintro _ _ ⟨names, collection⟩
    exact refusesBind (heldChar (by decide) (by decide))

def Pending (t : List Char) : Prop := Held .acrossLines t ∨ Begun t ∨ ∃ rest, t = ',' :: rest ∧ Begun rest

theorem pendingShut (pending : Pending t) : Shut t := by
  rcases pending with held | begun | ⟨rest, rfl, _⟩
  · exact heldShut held
  · exact begunShut begun
  · refine tokenShut rfl fun c closer more same => ?_
    simp only [List.mem_cons, List.not_mem_nil, or_false] at closer
    rw [← (List.cons.inj same).1] at closer
    rcases closer with closer | closer | closer <;> exact absurd closer (by decide)

theorem pendingComma : Leads Pending (given (char ',')) Shut := by
  intro t b u pending read
  rcases givenSome.mp read with ⟨_, comma⟩ | ⟨_, rfl, _⟩
  · rw [charSome.mp comma] at pending
    rcases pending with held | begun | ⟨rest, same, begun⟩
    · exact absurd held (heldHead (by decide) (by decide))
    · exact absurd (begunNot begun (by decide)) id
    · rw [(List.cons.inj same).2]
      exact begunShut begun
  · exact pendingShut pending

theorem noComma : Leads (fun t => Held .acrossLines t ∨ Begun t) (char ',') never := by
  refine refusesChar fun rest => ?_
  rintro (held | begun)
  · exact heldHead (by decide) (by decide) held
  · exact begunNot begun (by decide)

theorem startPending (t : List Char) (barred : Held .acrossLines t ∨ Begun t) : Pending t :=
  barred.elim .inl fun begun => .inr (.inl begun)

theorem expressionLiteralsFlatMap (es : List Expr) : expressionLiterals es = es.flatMap Expr.literals := by
  induction es with
  | nil => rfl
  | cons e rest ih => rw [expressionLiterals, ih, List.flatMap_cons]

theorem alikeSeparated (scope : Scope) : Alike Akin Respaced Respaced expressionLiterals Pending
    (fun inner => separated (spaced (inner.expression scope.items))) := by
  have item := (alikeSpaced scope.items rfl).given fun _ _ => Respaced.loose
  have some : ∀ i, Member Akin i → Short (do char ','; spaced (i.expression scope.items) : Reader Expr) :=
    fun i member => shortBind (shortChar _) fun _ => tailSpaced ((memberRegular member).expression _).tail
  have further : Alike Akin Respaced Respaced (List.flatMap Expr.literals) Pending
      (fun inner => many (do char ','; spaced (inner.expression scope.items))) := by
    refine (Alike.token (firmChar (by decide)) fun _ => item).many (fun _ _ => Respaced.symm) some ?_ ?_
    · intro i _ t held
      refine ⟨Option.eq_none_iff_forall_ne_some.mpr fun p read => ?_, .inl held⟩
      obtain ⟨_, w, comma, _⟩ := bindSome.mp read
      exact heldChar (by decide) (by decide) held comma
    · intro i i' member _ t t' start v u read _
      obtain ⟨_, w, comma, reads⟩ := bindSome.mp read
      rw [charSome.mp comma] at start
      obtain ⟨w', rfl, rest⟩ := start.inside (by decide)
      exact .inr (.inr ⟨w', rfl, expressionBegun (memberRegular member) rest reads⟩)
  have first : Alike Akin Respaced Respaced (optionally Expr.literals) (fun t => Held .acrossLines t ∨ Begun t)
      (fun inner => tried (spaced (inner.expression scope.items))) := by
    refine (item.barred fun _ => Or.inl).tried (fun _ _ => Respaced.symm) (fun _ _ => id) ?_
    exact fun i i' member _ t t' start v u read _ => .inr (expressionBegun (memberRegular member) start read)
  refine first.bind [] (fun found => ?_) (fun i _ found => ?_) (fun i _ found => ?_)
  · cases found with
    | none => exact alikePure _ fun _ _ => id
    | some e =>
        refine further.map e.literals fun rest => ?_
        rw [expressionLiteralsFlatMap, List.flatMap_cons]
  · cases found with
    | none => exact startsPure List.prefix_rfl
    | some e => exact startsBind fun rest => startsPure (List.prefix_append _ _)
  · cases found with
    | none => exact leadsPure _ startPending
    | some e => exact leadsBind (leadsMany (refusesBind noComma)) fun _ => leadsPure _ startPending

theorem itemsShut {items : List Expr} : Leads Pending (do
    if !items.isEmpty then
      let _ ← given (char ',')
      space
    return .list items : Reader Expr) Shut := by
  dsimp only
  split
  · refine leadsBind pendingComma fun _ => leadsBind (leadsTrivia fun _ => shutSkip) fun _ => leadsPure _ fun _ => id
  · exact leadsPure _ fun _ => pendingShut

theorem alikeListItems (scope : Scope) :
    Alike Akin Respaced Respaced Expr.literals Shut (fun inner => listItems inner scope) := by
  refine (alikeSeparated scope).bind [] (fun items => ?_) (fun i _ items => ?_) (fun i _ items => itemsShut)
  · refine .if ?_ (alikePure _ fun _ _ => id)
    refine .token (firmGiven (firmChar (by decide))) fun _ => (Alike.skip .acrossLines ?_ ?_).given fun _ _ => Respaced.loose
    · exact alikePure _ fun _ _ => id
    · exact fun _ _ => stuckOnly (leadsPure _ fun _ => heldShut)
  · dsimp only
    split
    · exact startsBind fun _ => startsBind fun _ => startsPure List.prefix_rfl
    · exact startsPure List.prefix_rfl

def LoneFor (t : List Char) : Prop := ∃ c w, Foreign c ∧ t = 'f' :: 'o' :: 'r' :: c :: w

theorem foreignStuck {e : Extent} (foreign : Foreign c) : Stuck e (c :: t) := .foreign foreign.1 foreign.2

def ForEnd (t : List Char) : Prop := (∃ w, t = '/' :: '/' :: w) ∨ (∃ w, t = '/' :: '*' :: w) ∨
  ∃ c w, t = c :: w ∧ c ∈ [' ', '\t', '\r', '\n', '#']

theorem startsForIff : startsFor t = true ↔ ∃ w, t = 'f' :: 'o' :: 'r' :: w ∧ ForEnd w := by
  constructor
  · intro starts
    unfold startsFor at starts
    split at starts
    · exact ⟨_, rfl, .inl ⟨_, rfl⟩⟩
    · exact ⟨_, rfl, .inr (.inl ⟨_, rfl⟩)⟩
    · rename_i c w _ _
      refine ⟨_, rfl, .inr (.inr ⟨c, w, rfl, ?_⟩)⟩
      simpa [or_assoc] using starts
    · contradiction
  · rintro ⟨w, rfl, ⟨y, rfl⟩ | ⟨y, rfl⟩ | ⟨c, y, rfl, member⟩⟩
    · rfl
    · rfl
    · simp only [List.mem_cons, List.not_mem_nil, or_false] at member
      rcases member with rfl | rfl | rfl | rfl | rfl <;> rfl

theorem bindingName {v : List String × Expr} (read : binding inner ('f' :: 'o' :: 'r' :: t) = some (v, u)) :
    ∃ c w, skipTrivia .acrossLines t = c :: w ∧ startsIdentifier c = true := by
  obtain ⟨_, w, name, read⟩ := bindSome.mp read
  have same : 'f' :: 'o' :: 'r' :: t = 'f' :: 'o' :: 'r' :: w := wordSome.mp name
  cases same
  obtain ⟨_, _, first, _⟩ := bindSome.mp read
  obtain ⟨_, x, skips, read⟩ := bindSome.mp first
  obtain ⟨_, _, reads, _⟩ := bindSome.mp read
  obtain ⟨c, w, whole, start, _⟩ := identifierSome.mp reads
  exact ⟨c, w, (skipSome.mp skips).trans whole, start⟩

theorem identifierHead (start : startsIdentifier c = true) : isBlank c = false ∧ c ∉ ['#', '/'] ∧ c ≠ '=' := by
  refine ⟨(continuesInside (startsContinues start)).1, fun member => ?_, ?_⟩
  · simp only [List.mem_cons, List.not_mem_nil, or_false] at member
    rcases member with rfl | rfl
    · revert start; decide
    · revert start; decide
  · rintro rfl
    revert start
    decide

/-- Where only one of two respaced texts starts a `for` expression, the other one is stuck behind its `for`. -/
theorem startsForAlone (h : Respaced t t') (starts : startsFor t = true) (fails : startsFor t' = false)
    {v : List String × Expr} (read : binding inner t = some (v, u)) : LoneFor t' := by
  obtain ⟨w, rfl, ends⟩ := startsForIff.mp starts
  obtain ⟨w', rfl, rest⟩ := h.front ['f', 'o', 'r'] (by decide)
  have none : ¬ ForEnd w' := fun ends => absurd (startsForIff.mpr ⟨w', rfl, ends⟩) (Bool.eq_false_iff.mp fails)
  obtain ⟨d, y, whole, start⟩ := bindingName read
  have ready := skipReady (e := .acrossLines) rest.loose
  rw [whole] at ready
  obtain ⟨solid, notHash, notEquals⟩ := identifierHead start
  have next : Stuck .acrossLines (skipTrivia .acrossLines w') ∨ ∃ y', skipTrivia .acrossLines w' = d :: y' := by
    rcases ready with tight | stuck | stuck
    · obtain ⟨y', same, _⟩ := tight.inside (continuesInside (startsContinues start))
      exact .inr ⟨y', same⟩
    · exact absurd stuck (stuckHead solid notHash)
    · exact .inl stuck
  rcases ends with ⟨z, rfl⟩ | ⟨z, rfl⟩ | ⟨c, z, rfl, member⟩
  · obtain ⟨z', rfl, _⟩ := rest.front ['/', '/'] (by decide)
    exact absurd (.inl ⟨z', rfl⟩) none
  · obtain ⟨z', rfl, _⟩ := rest.front ['/', '*'] (by decide)
    exact absurd (.inr (.inl ⟨z', rfl⟩)) none
  · cases w' with
    | nil =>
        rcases next with stuck | ⟨y', same⟩
        · cases stuck
        · contradiction
    | cons d' z' =>
        cases blank : isBlank d' with
        | true =>
            refine ⟨d', z', ⟨blank, fun trivium => none (.inr (.inr ⟨d', z', rfl, ?_⟩))⟩, rfl⟩
            simp only [List.mem_cons, List.not_mem_nil, or_false] at trivium ⊢
            rcases trivium with rfl | rfl | rfl | rfl <;> simp
        | false =>
            by_cases equals : d' = '='
            · subst equals
              rw [skipStop (triviumOther (by decide))] at next
              rcases next with stuck | ⟨y', same⟩
              · exact absurd stuck (stuckHead (by decide) (by decide))
              · exact absurd (List.cons.inj same).1.symm notEquals
            · obtain ⟨x, same, _⟩ := rest.symm.inside ⟨blank, equals⟩
              rw [(List.cons.inj same).1] at member
              exact absurd (.inr (.inr ⟨d', z', rfl, member⟩)) none

theorem loneHeld (regular : Regular inner) (scope : Scope) (e : Extent) : Leads LoneFor (inner.expression scope) (Held e) := by
  rintro t v u ⟨c, w, foreign, rfl⟩ read
  rw [regular.lone foreign read]
  exact .stuck (foreignStuck foreign)

theorem loneStays (lone : LoneFor t) : skipTrivia .acrossLines t = t := by
  obtain ⟨c, w, _, rfl⟩ := lone
  exact skipStop (triviumOther (by decide))

theorem loneBegun (lone : LoneFor t) : Begun t := by
  refine .inr ?_
  rw [loneStays lone]
  obtain ⟨c, w, _, rfl⟩ := lone
  exact ⟨'f', _, rfl, by decide⟩

theorem loneSpaced (regular : Regular inner) (scope : Scope) :
    Leads LoneFor (spaced (inner.expression scope)) (Held .acrossLines) := by
  have skips : Leads LoneFor (trivia .acrossLines) LoneFor := leadsTrivia fun t lone => by rwa [loneStays lone]
  exact leadsBind skips fun _ => leadsBind (loneHeld regular scope .acrossLines) fun v =>
    heldSkip (leadsPure v fun _ => id)

theorem itemsFrom {B : List Char → Prop} {scope : Scope}
    (item : Leads B (spaced (inner.expression scope.items)) (Held .acrossLines))
    (begins : ∀ t, B t → Held .acrossLines t ∨ Begun t) : Leads B (listItems inner scope) Shut := by
  have first : Leads B (tried (spaced (inner.expression scope.items))) (fun t => Held .acrossLines t ∨ Begun t) := by
    intro t v u barred read
    rcases triedSome.mp read with ⟨a, _, reads⟩ | ⟨_, rfl, _⟩
    · exact .inl (item barred reads)
    · exact begins t barred
  refine leadsBind (leadsBind first fun found => ?_) fun items => itemsShut
  cases found with
  | none => exact leadsPure _ startPending
  | some e => exact leadsBind (leadsMany (refusesBind noComma)) fun _ => leadsPure _ startPending

theorem loneItems (regular : Regular inner) (scope : Scope) : Leads LoneFor (listItems inner scope) Shut :=
  itemsFrom (loneSpaced regular _) fun _ lone => .inr (loneBegun lone)

theorem stuckSpaced (regular : Regular inner) (scope : Scope) {B : List Char → Prop} :
    Leads (Stuck .acrossLines) (spaced (inner.expression scope)) B := by
  have skips : Leads (Stuck .acrossLines) (trivia .acrossLines) (Stuck .acrossLines) := leadsTrivia fun t stuck => by
    rwa [heldStays (.stuck stuck)]
  exact leadsBind skips fun _ => refusesBind (expressionRefuses regular scope .acrossLines)

theorem stuckItems (regular : Regular inner) (scope : Scope) : Leads (Stuck .acrossLines) (listItems inner scope) Shut :=
  itemsFrom (stuckSpaced regular _) fun _ stuck => .inl (.stuck stuck)

theorem alikeClosed {f : Inner → Reader Expr} (h : Alike Akin Respaced Respaced Expr.literals Shut f)
    (closer : c ∈ [')', ']', '}']) : Alike Akin Respaced Respaced Expr.literals never
      (fun inner => (do let value ← f inner; space; char c; return value)) := by
  obtain ⟨solid, other⟩ := closerSolid closer
  have inside : Inside c := by
    refine ⟨solid, ?_⟩
    rintro rfl
    revert closer
    decide
  refine h.bind [] (fun value => ?_) (fun _ _ value => ?_) (fun _ _ value => shutRefuses closer)
  · refine (Alike.skip .acrossLines ?_ ?_).given fun _ _ => Respaced.loose
    · exact .token (firmChar inside) fun _ => alikePure _ fun _ _ => id
    · exact fun _ _ => refusesBind (stuckOnly (heldChar solid other))
  · exact startsBind fun _ => startsBind fun _ => startsPure List.prefix_rfl

theorem alikeFork {f g : Inner → Reader Expr} (hf : Alike Akin Respaced Respaced Expr.literals Shut f)
    (hg : Alike Akin Respaced Respaced Expr.literals Shut g) (closer : c ∈ [')', ']', '}'])
    (name : ∀ {i t v u}, f i t = some (v, u) → ∃ b w, binding i t = some (b, w))
    (alone : ∀ {i}, Regular i → Leads LoneFor (g i) Shut) : Alike Akin Respaced Respaced Expr.literals never (fun inner => (do
      if startsFor (← left) then
        let value ← f inner
        space
        char c
        return value
      else
        let value ← g inner
        space
        char c
        return value)) := by
  intro i i' akin t t' start v v' u u' read read'
  obtain ⟨x, _, here, read⟩ := bindSome.mp read
  obtain ⟨rfl, rfl⟩ := leftSome.mp here
  obtain ⟨x, _, here', read'⟩ := bindSome.mp read'
  obtain ⟨rfl, rfl⟩ := leftSome.mp here'
  have lone {j j' : Inner} {s s' y y' : List Char} {e e' : Expr} (regular : Regular j') (start : Respaced s s')
      (starts : startsFor s = true) (fails : ¬ startsFor s' = true)
      (read : (do let value ← f j; space; char c; return value : Reader Expr) s = some (e, y))
      (read' : (do let value ← g j'; space; char c; return value : Reader Expr) s' = some (e', y')) : False := by
    obtain ⟨_, _, reads, _⟩ := bindSome.mp read
    obtain ⟨b, w, names⟩ := name reads
    have stuck := startsForAlone start starts (Bool.eq_false_iff.mpr fails) names
    obtain ⟨_, _, reads', closes⟩ := bindSome.mp read'
    exact shutRefuses (B := never) closer (alone regular stuck reads') closes
  split at read
  · rename_i starts
    split at read'
    · exact alikeClosed hf closer akin start read read'
    · rename_i fails
      exact absurd (lone akin.regular' start starts fails read read') id
  · rename_i fails
    split at read'
    · rename_i starts
      exact absurd (lone akin.regular start.symm starts fails read' read) id
    · exact alikeClosed hg closer akin start read read'

theorem forkRefuses {f g : Inner → Reader Expr} (closer : c ∈ [')', ']', '}'])
    (name : ∀ {i t v u}, f i t = some (v, u) → ∃ b w, binding i t = some (b, w))
    (stuck : Leads (Stuck .acrossLines) (g inner) Shut) : Leads (Stuck .acrossLines) (do
      if startsFor (← left) then
        let value ← f inner
        space
        char c
        return value
      else
        let value ← g inner
        space
        char c
        return value) never := by
  intro t v u barred read
  obtain ⟨x, _, here, read⟩ := bindSome.mp read
  obtain ⟨rfl, rfl⟩ := leftSome.mp here
  split at read
  · obtain ⟨_, _, reads, _⟩ := bindSome.mp read
    obtain ⟨b, w, names⟩ := name reads
    obtain ⟨_, _, word, _⟩ := bindSome.mp names
    have refuses : Leads (Stuck .acrossLines) (keyword "for") never := stuckOnly (heldKeyword (by decide))
    exact absurd (refuses barred word) id
  · exact leadsBind stuck (fun _ => shutRefuses closer) barred read

theorem listForBinding {v : Expr} (read : listFor inner t = some (v, u)) : ∃ b w, binding inner t = some (b, w) := by
  obtain ⟨b, w, names, _⟩ := bindSome.mp read
  exact ⟨b, w, names⟩

theorem objectForBinding {v : Expr} (read : objectFor inner t = some (v, u)) : ∃ b w, binding inner t = some (b, w) := by
  obtain ⟨b, w, names, _⟩ := bindSome.mp read
  exact ⟨b, w, names⟩

theorem alikeListLike (scope : Scope) :
    Alike Akin Respaced Respaced Expr.literals never (fun inner => listLike inner scope) := by
  refine .token (firmChar (by decide)) fun _ => (Alike.skip .acrossLines ?_ ?_).given fun _ _ => Respaced.loose
  · exact alikeFork alikeListFor (alikeListItems scope) (by decide) listForBinding fun regular => loneItems regular scope
  · exact fun i member => forkRefuses (c := ']') (f := listFor) (g := fun inner => listItems inner scope) (by decide)
      listForBinding (stuckItems (memberRegular member) scope)

end DeclOrder.Hcl
