import DeclOrder.Proofs.Hcl.Cut.Collection

/-! Objects in front of a brace. The brace may also end the last item of one. -/
namespace DeclOrder.Hcl
open Text Reader Read

variable {s s' : List Char} {n : Nat} {c : Char} {x t u : List Char} {inner inner' : Inner}

theorem commentCut (front : List Char) {w : List Char} (clear : '}' ∉ front) (reads : ∀ t, lineComment? (front ++ t) = lineCommentEnd? t)
    (whole : x ++ '}' :: s = front ++ w) (ends : lineCommentEnd? w = some u) :
    (∃ y, u = y ++ '}' :: s ∧ comment (x ++ '}' :: s') = some ((), y ++ '}' :: s')) ∨ Past s u := by
  obtain ⟨y, rfl⟩ := (frontLocal front x s clear).mp ⟨w, whole⟩
  rw [List.append_assoc] at whole ⊢
  obtain rfl := List.append_cancel_left whole
  rcases lineCut s s' y with ⟨z, _, here, there⟩ | ⟨_, here, past⟩ | none
  · exact .inl ⟨z, Option.some.inj (ends.symm.trans here), commentSome.mpr ((reads _).trans there)⟩
  · exact .inr (Option.some.inj (ends.symm.trans here) ▸ past)
  · rw [none] at ends
    contradiction

theorem repeatsComment : Repeats s s' n (fun _ => True) AtComment (tried comment) (tried comment) := by
  have line : Repeats s s' n (fun _ => True) AtComment comment comment := by
    refine ⟨tailComment, fun {x} _ {v u} read _ => ?_⟩
    rcases lineCommentHead (commentSome.mp read) with ⟨w, whole, ends⟩ | ⟨w, whole, ends⟩
    · exact (commentCut ['#'] (by decide) (fun _ => rfl) whole ends).imp_right .inl
    · exact (commentCut ['/', '/'] (by decide) (fun _ => rfl) whole ends).imp_right .inl
  refine (line.tried fun read _ => ?_).keeping fun _ v _ _ _ => by cases v with | none => trivial | some => trivial
  rcases lineCommentHead (commentSome.mp read) with ⟨w, whole, _⟩ | ⟨w, whole, _⟩
  · obtain ⟨w', same⟩ := sameHead (s := s) (by decide) whole
    exact ⟨w', .inl same⟩
  · obtain ⟨w', same⟩ := sameHead (s := s) (by decide) whole
    exact ⟨w', .inr same⟩

theorem haltedBreaks : Leads (Halted .withinLine) lineBreak never := by
  intro t v u halted read
  rcases lineBreakSome.mp read with rfl | rfl
  · exact haltedHead (by decide) halted
  · exact haltedHead (by decide) halted

theorem haltedComment : Leads (Halted .withinLine) comment never := by
  intro t v u halted read
  rcases lineCommentHead (commentSome.mp read) with ⟨w, rfl, _⟩ | ⟨w, rfl, _⟩
  · cases halted with
    | stalled stalled => cases stalled
  · cases halted with
    | stalled stalled => cases stalled

theorem haltedEnds : Leads (Halted .withinLine) lineEnd never :=
  haltedSkip (leadsBind (leadsTried haltedComment) fun _ => haltedBreaks)

theorem repeatsLineEnd : Repeats s s' n (fun _ => True) never lineEnd lineEnd := by
  refine .skip .withinLine ?_ (stalledOnly (leadsBind (leadsTried haltedComment) fun _ => refusesAny haltedBreaks))
  exact repeatsComment.bind (fun _ => repeatsLocal localLineBreak tailLineBreak) (fun _ _ _ _ _ _ => trivial) fun _ =>
    refusesAny commentBreaks

section
variable {α : Type} {v : α}

theorem itemEndLine (noBrace : ∀ w, t ≠ '}' :: w) (noComma : ∀ w, t ≠ ',' :: w) :
    itemEnd v t = (do lineEnd; space; return v : Reader α) t := by
  rw [itemEnd, bindReads (leftSome.mpr ⟨rfl, rfl⟩)]
  split
  · exact absurd rfl (noBrace _)
  · exact absurd rfl (noComma _)
  · rfl

theorem itemEndGives {w : α} (read : itemEnd v t = some (w, u)) : v = w := by
  obtain ⟨_, _, _, read⟩ := bindSome.mp read
  split at read
  · exact (pureSome.mp read).1
  · obtain ⟨_, _, _, read⟩ := bindSome.mp read
    obtain ⟨_, _, _, last⟩ := bindSome.mp read
    exact (pureSome.mp last).1
  · obtain ⟨_, _, _, read⟩ := bindSome.mp read
    obtain ⟨_, _, _, last⟩ := bindSome.mp read
    exact (pureSome.mp last).1

theorem haltedItemEnd : Leads (Halted .withinLine) (itemEnd v) never := by
  intro t w u halted read
  have noBrace (w : List Char) (same : t = '}' :: w) : False := haltedHead (by decide) (same ▸ halted)
  have noComma (w : List Char) (same : t = ',' :: w) : False := haltedHead (by decide) (same ▸ halted)
  rw [itemEndLine noBrace noComma] at read
  obtain ⟨_, _, ends, _⟩ := bindSome.mp read
  exact absurd (haltedEnds halted ends) id

theorem repeatsItemEnd {whole : α → Prop} : Repeats s s' n whole (Stalled .acrossLines) (itemEnd v) (itemEnd v) := by
  have behind : Repeats s s' n whole (Stalled .acrossLines) (do space; return v) (do space; return v) :=
    .skip .acrossLines (repeatsPure v) (leadsPure _ fun _ => .inr)
  have comma : Repeats s s' n whole (Stalled .acrossLines) (do char ','; space; return v) (do char ','; space; return v) :=
    .token (localChar (by decide)) (tailChar _) fun _ => behind
  have line : Repeats s s' n whole (Stalled .acrossLines) (do lineEnd; space; return v) (do lineEnd; space; return v) :=
    repeatsLineEnd.bind (fun _ => behind) (fun _ _ _ _ _ _ => trivial) fun _ => leadsNever
  refine ⟨tailItemEnd, fun {x} within {w u} read good => ?_⟩
  cases x with
  | nil =>
      obtain ⟨rfl, rfl⟩ := pureSome.mp read
      exact .inl ⟨[], rfl, rfl⟩
  | cons c x =>
      by_cases brace : c = '}'
      · subst brace
        obtain ⟨rfl, rfl⟩ := pureSome.mp read
        exact .inl ⟨'}' :: x, rfl, rfl⟩
      by_cases separator : c = ','
      · subst separator
        exact comma.again within read good
      have noBrace (w t : List Char) (same : c :: x ++ '}' :: t = '}' :: w) : False := brace (List.cons.inj same).1
      have noComma (w t : List Char) (same : c :: x ++ '}' :: t = ',' :: w) : False := separator (List.cons.inj same).1
      rw [itemEndLine (noBrace · s) (noComma · s)] at read
      rw [itemEndLine (noBrace · s') (noComma · s')]
      exact line.again within read good

end

def itemFilled (p : Expr × Expr) : Prop := p.1.filled = true ∧ p.2.filled = true

theorem repeatsItemValue (ahead : Ahead s s' n inner inner') (key : Expr) :
    Repeats s s' n itemFilled (Stalled .acrossLines) (itemValue inner key) (itemValue inner' key) := by
  refine .skip .withinLine ?_ (refusesBind (expressionStalls ahead.regular _ _))
  refine (ahead.expression .line).bind (fun value => .skip .withinLine repeatsItemEnd ?_) (fun value => ?_) fun value => ?_
  · exact stalledOnly (refusesAny haltedItemEnd)
  · refine keepsBind fun _ t p u ends filled => ?_
    rw [← itemEndGives ends] at filled
    exact filled.2
  · exact caughtSkip tailItemEnd (refusesAny haltedItemEnd)

theorem haltedAssign {β : Type} {e : Extent} {r r' : Reader β} :
    Leads (Halted e) (do if ← given (char '=') then r else do char ':'; r') never := by
  intro t v u halted read
  obtain ⟨equals, _, look, read⟩ := bindSome.mp read
  rcases givenSome.mp look with ⟨_, found⟩ | ⟨rfl, rfl, _⟩
  · exact absurd (haltedChar (by decide) halted found) id
  · obtain ⟨_, _, found, _⟩ := bindSome.mp read
    exact absurd (haltedChar (by decide) halted found) id

theorem itemValueKeeps (key : Expr) : Keeps itemFilled (key.filled = true) (itemValue inner key) := by
  refine keepsBind fun _ => keepsBind fun value => keepsBind fun _ t p u ends filled => ?_
  rw [← itemEndGives ends] at filled
  exact filled.1

theorem repeatsObjectItem (ahead : Ahead s s' n inner inner') :
    Repeats s s' n itemFilled (Stalled .acrossLines) (objectItem inner) (objectItem inner') := by
  have value (key : Expr) := repeatsItemValue ahead key
  refine (ahead.expression .line).bind (fun key => .skip .withinLine ?_ ?_) (fun key => ?_) fun key => ?_
  · refine .token (localGiven (localChar (by decide))) (tailGiven (tailChar _)) fun equals => .if (value key) ?_
    exact .token (localChar (by decide)) (tailChar _) fun _ => value key
  · exact stalledOnly (refusesAny haltedAssign)
  · refine keepsBind fun _ => keepsBind fun equals => ?_
    dsimp only
    split
    · exact itemValueKeeps key
    · exact keepsBind fun _ => itemValueKeeps key
  · refine caughtSkip ?_ (refusesAny haltedAssign)
    refine tailBind (tailGiven (tailChar _)) fun equals => ?_
    split
    · exact (value key).tail
    · exact tailBind (tailChar _) fun _ => (value key).tail

theorem itemsFilledAll (items : List (Expr × Expr)) : itemsFilled items = true ↔ ∀ p ∈ items, itemFilled p := by
  induction items with
  | nil => simp [itemsFilled]
  | cons p rest ih =>
      obtain ⟨key, value⟩ := p
      rw [itemsFilled, Bool.and_eq_true_iff, Bool.and_eq_true_iff, ih, List.forall_mem_cons]
      rfl

theorem stalledItem (regular : Regular inner) {e : Extent} : Leads (Stalled e) (objectItem inner) never :=
  refusesBind (expressionStalls regular _ _)

theorem repeatsObjectItems (ahead : Ahead s s' n inner inner') :
    Repeats s s' n (fun e => e.filled = true) (Ajar s) (objectItems inner) (objectItems inner') := by
  have items : Repeats s s' n (fun ps => ∀ p ∈ ps, itemFilled p) (Ajar s) (many (objectItem inner)) (many (objectItem inner')) := by
    refine (repeatsObjectItem ahead).many (shortObjectItem ahead.regular.toInnerTail) (shortObjectItem ahead.regular'.toInnerTail)
      (fun t stalled => ⟨?_, stalledAjar stalled⟩) fun read _ => ?_
    · exact Option.eq_none_iff_forall_ne_some.mpr fun p read => stalledItem ahead.regular stalled read
    · obtain ⟨_, _, reads, _⟩ := bindSome.mp read
      obtain ⟨c, w, whole, begins⟩ := ahead.regular'.begins reads
      have noBrace : c ≠ '}' := fun same => beginsNoCloser begins (by simp [same])
      obtain ⟨w', same⟩ := sameHead (s := s) noBrace whole
      rw [same]
      exact openingAjar (.inr (.inr ⟨c, w', begunStays begins, begins⟩))
  exact items.map fun ps => (itemsFilledAll ps).mp

theorem stalledObjectItems (regular : Regular inner) : Leads (Stalled .acrossLines) (objectItems inner) (Ajar s) :=
  leadsBind (leadsMany (stalledItem regular)) fun _ => leadsPure _ fun _ => stalledAjar

theorem repeatsObjectLike (ahead : Ahead s s' n inner inner') :
    Repeats s s' (n + 1) (fun e => e.filled = true) never (objectLike inner) (objectLike inner') := by
  refine .tokenShort (localChar (by decide)) (shortChar _) fun _ => .skip .acrossLines ?_ ?_
  · exact repeatsFork (repeatsObjectFor ahead) (repeatsObjectItems ahead) (by decide) repeatsBrace
  · exact forkStalls (by decide) bindingStalls (stalledObjectItems ahead.regular)

end DeclOrder.Hcl
