import DeclOrder.Proofs.Hcl.Collection

/-! Objects of respaced texts. An item ends at a comma, at the end of its line or in front of the brace. -/
namespace DeclOrder.Hcl
open Text Reader Read

variable {inner inner' : Inner} {c : Char} {t t' u u' w w' : List Char}

theorem lineCommentHead (found : lineComment? t = some u) : (∃ w, t = '#' :: w ∧ lineCommentEnd? w = some u) ∨
    ∃ w, t = '/' :: '/' :: w ∧ lineCommentEnd? w = some u := by
  unfold lineComment? at found
  split at found
  · exact .inl ⟨_, rfl, found⟩
  · exact .inr ⟨_, rfl, found⟩
  · contradiction

def AtComment (t : List Char) : Prop := ∃ w, t = '#' :: w ∨ t = '/' :: w

section
variable {ι : Type} {A : ι → ι → Prop}

theorem alikeComment : Alike A Respaced Loose silent AtComment (fun _ => tried comment) := by
  have alike : Alike A Respaced Loose silent AtComment (fun _ => comment) := by
    intro _ _ _ t t' start _ _ u u' read read'
    have found' := commentSome.mp read'
    rcases lineCommentHead (commentSome.mp read) with ⟨w, rfl, ends⟩ | ⟨w, rfl, ends⟩
    · obtain ⟨w', rfl, rest⟩ := start.inside (by decide)
      exact .same (lineCommentEndLoose rest.loose _ _ ends found')
    · obtain ⟨w', rfl, rest⟩ := start.front ['/', '/'] (by decide)
      exact .same (lineCommentEndLoose rest.loose _ _ ends found')
  refine (alike.tried (fun _ _ => Respaced.symm) (fun _ _ => Respaced.loose) ?_).retell fun v => by cases v <;> rfl
  intro _ _ _ _ t t' start _ u read _
  rcases lineCommentHead (commentSome.mp read) with ⟨w, rfl, _⟩ | ⟨w, rfl, _⟩
  · obtain ⟨w', rfl, _⟩ := start.inside (by decide)
    exact ⟨w', .inl rfl⟩
  · obtain ⟨w', rfl, _⟩ := start.inside (by decide)
    exact ⟨w', .inr rfl⟩

theorem alikeLineBreak : Alike A Loose Loose silent never (fun _ => lineBreak) :=
  fun _ _ _ _ _ start _ _ _ _ read read' => .same (lineBreakLoose start read read')

theorem commentBreaks : Leads AtComment lineBreak never := by
  rintro t v u ⟨w, rfl | rfl⟩ read <;> contradiction

theorem heldBreaks : Leads (Held .withinLine) lineBreak never := by
  intro t v u held read
  rcases lineBreakSome.mp read with rfl | rfl
  · exact heldLineBreak held
  · cases held with
    | stuck stuck =>
        cases stuck with
        | foreign _ foreign => simp at foreign
        | loneReturn alone => exact alone rfl

theorem heldComment : Leads (Held .withinLine) comment never := by
  intro t v u held read
  rcases lineCommentHead (commentSome.mp read) with ⟨w, rfl, _⟩ | ⟨w, rfl, _⟩
  · cases held with
    | stuck stuck =>
        cases stuck with
        | foreign blank => contradiction
  · cases held with
    | stuck stuck =>
        cases stuck with
        | foreign blank => contradiction

theorem lineEndRefuses : Leads (Held .withinLine) lineEnd never :=
  heldSkip (leadsBind (leadsTried heldComment) fun _ => heldBreaks)

theorem alikeLineEnd : Alike A Loose Loose silent never (fun _ => lineEnd) := by
  refine .skip .withinLine ?_ fun _ _ => stuckOnly (leadsBind (leadsTried heldComment) fun _ => heldBreaks)
  exact alikeComment.behind (fun _ => alikeLineBreak) fun _ _ _ => commentBreaks

end

theorem itemEndRefuses {α : Type} {v : α} : Leads (Held .withinLine) (itemEnd v) never := by
  intro t w u held read
  obtain ⟨x, _, here, read⟩ := bindSome.mp read
  obtain ⟨rfl, rfl⟩ := leftSome.mp here
  split at read
  · exact absurd held (heldHead (by decide) (by decide))
  · exact absurd held (heldHead (by decide) (by decide))
  · obtain ⟨_, _, ends, _⟩ := bindSome.mp read
    exact absurd (lineEndRefuses held ends) id

theorem alikeItemEnd {ι α : Type} {A : ι → ι → Prop} {told : α → List String} (v : α) :
    Alike A Respaced Respaced told (Stuck .acrossLines) (fun _ => itemEnd v) := by
  have behind : Alike A Loose Respaced told (Stuck .acrossLines) (fun _ => (do space; return v : Reader α)) :=
    .skip .acrossLines (alikePure v fun _ _ => id) fun _ _ => leadsPure _ fun _ => id
  have comma : Alike A Respaced Respaced told (Stuck .acrossLines) (fun _ => (do char ','; space; return v : Reader α)) :=
    .token (firmChar (by decide)) fun _ => behind.given fun _ _ => Respaced.loose
  have line : Alike A Respaced Respaced told (Stuck .acrossLines) (fun _ => (do lineEnd; space; return v : Reader α)) :=
    (alikeLineEnd.given fun _ _ => Respaced.loose).behind (fun _ => behind) fun _ _ _ => leadsNever
  intro i i' akin t t' start w w' u u' read read'
  obtain ⟨x, _, here, read⟩ := bindSome.mp read
  obtain ⟨rfl, rfl⟩ := leftSome.mp here
  obtain ⟨x, _, here', read'⟩ := bindSome.mp read'
  obtain ⟨rfl, rfl⟩ := leftSome.mp here'
  split at read
  · obtain ⟨y, rfl, _⟩ := start.inside (by decide)
    exact alikePure v (fun _ _ => id) akin start read read'
  · obtain ⟨y, rfl, _⟩ := start.inside (by decide)
    exact comma akin start read read'
  · rename_i notBrace notComma
    split at read'
    · obtain ⟨y, rfl, _⟩ := start.symm.inside (by decide)
      exact absurd rfl (notBrace y)
    · obtain ⟨y, rfl, _⟩ := start.symm.inside (by decide)
      exact absurd rfl (notComma y)
    · exact line akin start read read'

theorem alikeAssigned {ι β : Type} {A : ι → ι → Prop} {Q : List Char → List Char → Prop} {tells : β → List String}
    {B : List Char → Prop} {κ : ι → Reader β} (more : Alike A Loose Q tells B κ) :
    Alike A Respaced Q tells B (fun i => (do if ← given (char '=') then κ i else do char ':'; κ i)) := by
  have colon {s s' : List Char} (h : Respaced ('=' :: s) (':' :: s')) : False := by
    obtain ⟨_, same, _⟩ := h.symm.inside (by decide)
    exact absurd (List.cons.inj same).1 (by decide)
  intro i i' akin t t' start v v' u u' read read'
  obtain ⟨b, w, equals, read⟩ := bindSome.mp read
  obtain ⟨b', w', equals', read'⟩ := bindSome.mp read'
  rcases givenSome.mp equals with ⟨rfl, found⟩ | ⟨rfl, rfl, _⟩
  · rw [charSome.mp found] at start
    rcases givenSome.mp equals' with ⟨rfl, found'⟩ | ⟨rfl, rfl, _⟩
    · rw [charSome.mp found'] at start
      exact more akin (start.tailLoose (by decide)) read read'
    · obtain ⟨_, x', found', _⟩ := bindSome.mp read'
      rw [charSome.mp found'] at start
      exact absurd (colon start) id
  · obtain ⟨_, x, found, read⟩ := bindSome.mp read
    rw [charSome.mp found] at start
    rcases givenSome.mp equals' with ⟨rfl, found'⟩ | ⟨rfl, rfl, _⟩
    · rw [charSome.mp found'] at start
      exact absurd (colon start.symm) id
    · obtain ⟨_, x', found', read'⟩ := bindSome.mp read'
      rw [charSome.mp found'] at start
      exact more akin (start.tailLoose (by decide)) read read'

theorem itemEndStarts {α : Type} {v : α} {front : List String} {told : α → List String} (start : front <+: told v) :
    Starts front told (itemEnd v) := by
  have last : Starts front told (do space; return v) := startsBind fun _ => startsPure start
  refine startsBind fun x => ?_
  dsimp only
  split
  · exact startsPure start
  · exact startsBind fun _ => last
  · exact startsBind fun _ => last

theorem alikeItemValue (key : Expr) : Alike Akin Loose Respaced (fun p => p.1.literals ++ p.2.literals) (Stuck .acrossLines)
    (fun inner => itemValue inner key) := by
  refine .skip .withinLine ?_ fun i member => refusesBind (expressionRefuses (memberRegular member) _ _)
  refine (alikeExpression .line).bind key.literals (fun value => ?_) ?_ ?_
  · refine (Alike.skip .withinLine ?_ ?_).given fun _ _ => Respaced.loose
    · exact alikeItemEnd _
    · exact fun _ _ => stuckOnly fun _ _ _ held read => absurd (itemEndRefuses held read) id
  · exact fun _ _ value => startsBind fun _ => itemEndStarts List.prefix_rfl
  · exact fun _ _ value => leadsSkip fun _ _ _ held read => absurd (itemEndRefuses held read) id

theorem assignRefuses {e : Extent} {β : Type} {r r' : Reader β} :
    Leads (Held e) (do if ← given (char '=') then r else do char ':'; r') never := by
  intro t v u held read
  obtain ⟨b, w, equals, read⟩ := bindSome.mp read
  rcases givenSome.mp equals with ⟨_, found⟩ | ⟨rfl, rfl, _⟩
  · exact absurd (heldChar (by decide) (by decide) held found) id
  · obtain ⟨_, x, found, _⟩ := bindSome.mp read
    exact absurd (heldChar (by decide) (by decide) held found) id

theorem itemValueStarts (key : Expr) :
    Starts key.literals (fun p : Expr × Expr => p.1.literals ++ p.2.literals) (itemValue inner key) :=
  startsBind fun _ => startsBind fun _ => startsBind fun _ => itemEndStarts (List.prefix_append _ _)

theorem alikeObjectItem : Alike Akin Respaced Respaced (fun p => p.1.literals ++ p.2.literals) (Stuck .acrossLines) objectItem := by
  refine (alikeExpression .line).bind [] (fun key => ?_) ?_ ?_
  · refine (Alike.skip .withinLine ?_ ?_).given fun _ _ => Respaced.loose
    · exact alikeAssigned (alikeItemValue key)
    · exact fun _ _ => stuckOnly fun _ _ _ held read => absurd (assignRefuses held read) id
  · intro i _ key
    refine startsBind fun _ => startsBind fun equals => ?_
    dsimp only
    split
    · exact itemValueStarts key
    · exact startsBind fun _ => itemValueStarts key
  · exact fun _ _ key => leadsSkip fun _ _ _ held read => absurd (assignRefuses held read) id

theorem itemLiteralsFlatMap (items : List (Expr × Expr)) :
    itemLiterals items = items.flatMap fun p => p.1.literals ++ p.2.literals := by
  induction items with
  | nil => rfl
  | cons p rest ih =>
      obtain ⟨key, value⟩ := p
      rw [itemLiterals, ih, List.flatMap_cons]

theorem stuckItem (regular : Regular inner) {e : Extent} : Leads (Stuck e) (objectItem inner) never :=
  refusesBind (expressionRefuses regular _ _)

theorem begunStays (begun : Begins c) : skipTrivia .acrossLines (c :: t) = c :: t := by
  refine skipStop (triviumOther fun member => ?_)
  simp only [List.mem_cons, List.not_mem_nil, or_false] at member
  obtain ⟨⟨solid, _⟩, other⟩ := begun
  rcases member with rfl | rfl | rfl | rfl | rfl | rfl
  · contradiction
  · contradiction
  · contradiction
  · contradiction
  · exact other (by decide)
  · exact other (by decide)

theorem alikeObjectItems : Alike Akin Respaced Respaced Expr.literals Shut objectItems := by
  have items : Alike Akin Respaced Respaced (List.flatMap fun p : Expr × Expr => p.1.literals ++ p.2.literals) Shut
      (fun inner => many (objectItem inner)) := by
    refine alikeObjectItem.many (fun _ _ => Respaced.symm) (fun i member => ?_) (fun i member t stuck => ?_) ?_
    · exact shortObjectItem (memberRegular member).toInnerTail
    · refine ⟨Option.eq_none_iff_forall_ne_some.mpr fun p read => ?_, heldShut (.stuck stuck)⟩
      exact stuckItem (memberRegular member) stuck read
    · intro i i' member _ t t' start v u read _
      obtain ⟨_, _, reads, _⟩ := bindSome.mp read
      obtain ⟨c, w, rfl, begins⟩ := (memberRegular member).begins reads
      obtain ⟨w', rfl, _⟩ := start.inside begins.1
      exact begunShut (.inr ⟨c, w', begunStays begins, begins⟩)
  exact items.map [] itemLiteralsFlatMap

theorem loneObjectItems (regular : Regular inner) : Leads LoneFor (objectItems inner) Shut := by
  have item : Leads LoneFor (objectItem inner) never :=
    leadsBind (loneHeld regular _ .withinLine) fun _ => heldSkip assignRefuses
  exact leadsBind (leadsMany item) fun _ => leadsPure _ fun t lone => begunShut (loneBegun lone)

theorem stuckObjectItems (regular : Regular inner) : Leads (Stuck .acrossLines) (objectItems inner) Shut :=
  leadsBind (leadsMany (stuckItem regular)) fun _ => leadsPure _ fun _ stuck => heldShut (.stuck stuck)

theorem alikeObjectLike : Alike Akin Respaced Respaced Expr.literals never objectLike := by
  refine .token (firmChar (by decide)) fun _ => (Alike.skip .acrossLines ?_ ?_).given fun _ _ => Respaced.loose
  · exact alikeFork alikeObjectFor alikeObjectItems (by decide) objectForBinding loneObjectItems
  · exact fun i member => forkRefuses (c := '}') (f := objectFor) (g := objectItems) (by decide) objectForBinding
      (stuckObjectItems (memberRegular member))

end DeclOrder.Hcl
