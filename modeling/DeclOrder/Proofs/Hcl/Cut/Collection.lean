import DeclOrder.Proofs.Hcl.Cut.Template

/-! Lists, objects and `for` expressions in front of a brace. Where one of them cannot be read to its end,
its closing bracket does not come there. -/
namespace DeclOrder.Hcl
open Text Reader Read

def Ajar (s t : List Char) : Prop := Past s (skipTrivia .acrossLines t) ∨ Shut t

def Opening (s t : List Char) : Prop := Past s (skipTrivia .acrossLines t) ∨ Stalled .acrossLines (skipTrivia .acrossLines t) ∨
  ∃ c w, skipTrivia .acrossLines t = c :: w ∧ Begins c

variable {s s' : List Char} {n : Nat} {c : Char} {x t u : List Char} {inner inner' : Inner}

theorem pastAjar (past : Past s t) : Ajar s t := .inl (pastTail past (skipStopped _ _).2)

theorem pastOpening (past : Past s t) : Opening s t := .inl (pastTail past (skipStopped _ _).2)

theorem closerProceeds (closer : c ∈ [')', ']', '}']) : c ∉ ['#', '/', '[', '.'] := by
  simp only [List.mem_cons, List.not_mem_nil, or_false] at closer
  rcases closer with rfl | rfl | rfl <;> decide

theorem haltedAjar (halted : Halted .acrossLines t) : Ajar s t := by
  refine .inr fun c closer rest same => ?_
  rw [haltedStays halted] at same
  rw [same] at halted
  exact haltedHead (closerProceeds closer) halted

theorem stalledAjar (stalled : Stalled .acrossLines t) : Ajar s t := haltedAjar (.stalled stalled)

theorem beginsNoCloser (begins : Begins c) : c ∉ [')', ']', '}'] := by
  intro closer
  refine begins.2 ?_
  simp only [List.mem_cons, List.not_mem_nil, or_false] at closer ⊢
  rcases closer with rfl | rfl | rfl <;> simp

theorem openingAjar (opening : Opening s t) : Ajar s t := by
  rcases opening with past | stalled | ⟨c, w, whole, begins⟩
  · exact .inl past
  · refine .inr fun d closer rest same => ?_
    rw [same] at stalled
    exact haltedHead (closerProceeds closer) (.stalled stalled)
  · refine .inr fun d closer rest same => ?_
    rw [whole] at same
    rw [← (List.cons.inj same).1] at closer
    exact beginsNoCloser begins closer

theorem ajarSkip (ajar : Ajar s t) : Ajar s (skipTrivia .acrossLines t) := by
  rcases ajar with past | shut
  · exact pastAjar past
  · exact .inr (shutSkip shut)

theorem ajarCloses {α : Type} {v : α} {B : List Char → Prop} (closer : c ∈ [')', ']', '}']) :
    Leads (Ajar s) (do space; char c; return v) fun u => Past s u ∨ B u := by
  intro t w u ajar read
  obtain ⟨_, x, skips, read⟩ := bindSome.mp read
  obtain ⟨_, y, closes, last⟩ := bindSome.mp read
  obtain ⟨_, rfl⟩ := pureSome.mp last
  rw [← skipSome.mp skips] at closes
  rcases ajar with past | shut
  · exact .inl (pastTail past (tailChar _ closes))
  · exact absurd (charSome.mp closes) (shut c closer y)

theorem spacedOpening (regular : Regular inner') {scope : Scope} {v : Expr}
    (read : spaced (inner'.expression scope) (x ++ '}' :: s') = some (v, u)) : Opening s (x ++ '}' :: s) := by
  obtain ⟨_, w, skips, read⟩ := bindSome.mp read
  obtain ⟨_, _, reads, _⟩ := bindSome.mp read
  obtain ⟨c, z, rfl, begins⟩ := regular.begins reads
  have noBrace : c ≠ '}' := by
    rintro rfl
    exact beginsNoCloser begins (by decide)
  rcases skipCut s s' .acrossLines x with ⟨y, here, there⟩ | past | stalled
  · obtain ⟨z', same⟩ := sameHead (s := s) noBrace (there.symm.trans (skipSome.mp skips))
    exact .inr (.inr ⟨c, z', here.trans same, begins⟩)
  · exact .inl past
  · exact .inr (.inl stalled)

def Guardless (t : List Char) : Prop := Halted .acrossLines t ∨ ∃ rest, t = 'i' :: rest

theorem guardlessAjar (guardless : Guardless t) : Ajar s t := by
  rcases guardless with halted | ⟨rest, rfl⟩
  · exact haltedAjar halted
  · exact .inr (lingeringShut (.inr ⟨rest, rfl⟩))

theorem repeatsGuard (ahead : Ahead s s' n inner inner') :
    Repeats s s' n (fun g => guardFilled g = true) (Ajar s) (guard? inner) (guard? inner') := by
  have condition : Repeats s s' n (fun e => e.filled = true) (Ajar s) (do keyword "if"; spaced (inner.expression .lines))
      (do keyword "if"; spaced (inner'.expression .lines)) :=
    .token (localKeyword (by decide)) (tailKeyword _) fun _ =>
      (repeatsSpaced ahead .lines rfl).barred fun _ halted => .inr (haltedAjar halted)
  refine (condition.tried fun read _ => ?_).keeping fun _ v _ _ filled => by cases v with | none => trivial | some => exact filled
  obtain ⟨_, w, name, _⟩ := bindSome.mp read
  exact guardlessAjar (.inr (sameHead (by decide) (wordSome.mp name)))

theorem guardHalted : Leads (Halted .acrossLines) (guard? inner) (Ajar s) := fun _ _ _ halted read =>
  haltedAjar (leadsTried (refusesBind (haltedKeyword (by decide))) halted read)

theorem repeatsListFor (ahead : Ahead s s' n inner inner') :
    Repeats s s' n (fun e => e.filled = true) (Ajar s) (listFor inner) (listFor inner') := by
  refine (repeatsBinding ahead).bind ?_ ?_ ?_
  · rintro ⟨names, collection⟩
    refine .token (localChar (by decide)) (tailChar _) fun _ => ?_
    refine (repeatsSpaced ahead .lines rfl).bind (fun value => ?_) (fun value => ?_) fun value => ?_
    · exact (repeatsGuard ahead).map fun guard filled => (Bool.and_eq_true_iff.mp filled).2
    · exact keepsBind fun _ => keepsPure fun filled => (Bool.and_eq_true_iff.mp (Bool.and_eq_true_iff.mp filled).1).2
    · exact leadsBind guardHalted fun _ => leadsPure _ fun _ => .inr
  · rintro ⟨names, collection⟩
    exact keepsBind fun _ => keepsBind fun _ => keepsBind fun _ => keepsPure fun filled =>
      (Bool.and_eq_true_iff.mp (Bool.and_eq_true_iff.mp filled).1).1
  · rintro ⟨names, collection⟩
    exact refusesBind (haltedChar (by decide))

theorem repeatsObjectFor (ahead : Ahead s s' n inner inner') :
    Repeats s s' n (fun e => e.filled = true) (Ajar s) (objectFor inner) (objectFor inner') := by
  have value := repeatsSpaced ahead .lines rfl
  refine (repeatsBinding ahead).bind ?_ ?_ ?_
  · rintro ⟨names, collection⟩
    refine .token (localChar (by decide)) (tailChar _) fun _ => value.bind (fun key => ?_) ?_ ?_
    · refine .token (localKeyword (by decide)) (tailKeyword _) fun _ => value.bind (fun value => ?_) ?_ ?_
      · refine .token (localGiven (localKeyword (by decide))) (tailGiven (tailKeyword _)) fun grouping => .skip .acrossLines ?_ ?_
        · exact (repeatsGuard ahead).map fun guard filled => (Bool.and_eq_true_iff.mp filled).2
        · exact stalledOnly (leadsBind guardHalted fun _ => leadsPure _ fun _ => .inr)
      · exact fun value => keepsBind fun _ => keepsBind fun _ => keepsBind fun _ => keepsPure fun filled =>
          (Bool.and_eq_true_iff.mp (Bool.and_eq_true_iff.mp filled).1).2
      · exact fun value => leadsBind (leadsGiven haltedDots) fun _ =>
          haltedSkip (leadsBind guardHalted fun _ => leadsPure _ fun _ => .inr)
    · exact fun key => keepsBind fun _ => keepsBind fun _ => keepsBind fun _ => keepsBind fun _ => keepsBind fun _ =>
        keepsPure fun filled =>
          (Bool.and_eq_true_iff.mp (Bool.and_eq_true_iff.mp (Bool.and_eq_true_iff.mp filled).1).1).2
    · exact fun key => refusesBind (haltedKeyword (by decide))
  · rintro ⟨names, collection⟩
    exact keepsBind fun _ => keepsBind fun _ => keepsBind fun _ => keepsBind fun _ => keepsBind fun _ => keepsBind fun _ =>
      keepsBind fun _ => keepsPure fun filled =>
        (Bool.and_eq_true_iff.mp (Bool.and_eq_true_iff.mp (Bool.and_eq_true_iff.mp filled).1).1).1
  · rintro ⟨names, collection⟩
    exact refusesBind (haltedChar (by decide))

def Between (s t : List Char) : Prop := Halted .acrossLines t ∨ Opening s t

def Listed (s t : List Char) : Prop := Between s t ∨ ∃ rest, t = ',' :: rest ∧ Opening s rest

theorem betweenAjar (between : Between s t) : Ajar s t := between.elim haltedAjar openingAjar

theorem listedAjar (listed : Listed s t) : Ajar s t := by
  rcases listed with between | ⟨rest, rfl, _⟩
  · exact betweenAjar between
  · refine .inr (tokenShut rfl fun c closer more same => ?_)
    rw [← (List.cons.inj same).1] at closer
    exact absurd closer (by decide)

theorem betweenSolid (between : Between s (c :: t)) (separator : c ∈ [',', '.']) : Past s t ∨ (c = '.' ∧ t.head? ≠ some '.') := by
  have stays : trivium? .acrossLines (c :: t) = none := by
    simp only [List.mem_cons, List.not_mem_nil, or_false] at separator
    rcases separator with rfl | rfl <;> rfl
  have noStall : ¬ Stalled .acrossLines (c :: t) := by
    simp only [List.mem_cons, List.not_mem_nil, or_false] at separator
    rcases separator with rfl | rfl <;> exact stalledHead (by decide)
  rcases between with halted | opening
  · cases halted with
    | stalled stalled => exact absurd stalled noStall
    | bracket => exact absurd separator (by decide)
    | dot alone => exact .inr ⟨rfl, alone⟩
  · rw [Opening, skipStop stays] at opening
    rcases opening with past | stalled | ⟨d, w, whole, begins⟩
    · exact .inl (pastTail past (List.suffix_cons _ _))
    · exact absurd stalled noStall
    · rw [← (List.cons.inj whole).1] at begins
      refine absurd begins fun begins => begins.2 ?_
      simp only [List.mem_cons, List.not_mem_nil, or_false] at separator ⊢
      rcases separator with rfl | rfl <;> simp

theorem betweenComma : Leads (Between s) (char ',') (Past s) := by
  intro t v u between read
  rw [charSome.mp read] at between
  rcases betweenSolid between (by decide) with past | ⟨other, _⟩
  · exact past
  · contradiction

theorem listedComma : Leads (Listed s) (given (char ',')) (Ajar s) := by
  intro t b u listed read
  rcases givenSome.mp read with ⟨_, comma⟩ | ⟨_, rfl, _⟩
  · rcases listed with between | ⟨rest, rfl, opening⟩
    · exact pastAjar (betweenComma between comma)
    · rw [← (List.cons.inj (charSome.mp comma)).2]
      exact openingAjar opening
  · exact listedAjar listed

theorem expressionsFilledAll (es : List Expr) : expressionsFilled es = true ↔ ∀ e ∈ es, e.filled = true := by
  induction es with
  | nil => simp [expressionsFilled]
  | cons e rest ih => rw [expressionsFilled, Bool.and_eq_true_iff, ih, List.forall_mem_cons]

theorem repeatsFurtherItems (ahead : Ahead s s' n inner inner') (scope : Scope) :
    Repeats s s' n (fun es => ∀ e ∈ es, e.filled = true) (Listed s)
      (many (do char ','; spaced (inner.expression scope.items))) (many (do char ','; spaced (inner'.expression scope.items))) := by
  have short {i : Inner} (regular : Regular i) : Short (do char ','; spaced (i.expression scope.items) : Reader Expr) :=
    shortBind (shortChar _) fun _ => tailSpaced (regular.expression _).tail
  have item : Repeats s s' n (fun e => e.filled = true) (Halted .acrossLines)
      (do char ','; spaced (inner.expression scope.items)) (do char ','; spaced (inner'.expression scope.items)) :=
    .token (localChar (by decide)) (tailChar _) fun _ => repeatsSpaced ahead scope.items rfl
  refine item.many (short ahead.regular) (short ahead.regular') (fun t halted => ⟨?_, .inl (.inl halted)⟩) ?_
  · refine Option.eq_none_iff_forall_ne_some.mpr fun p read => ?_
    obtain ⟨_, w, comma, _⟩ := bindSome.mp read
    exact haltedChar (by decide) halted comma
  · intro x v u read _
    obtain ⟨_, w, comma, reads⟩ := bindSome.mp read
    obtain ⟨y, rfl⟩ := (frontLocal [','] x s' (by decide)).mp ⟨w, charSome.mp comma⟩
    rw [← (List.cons.inj (charSome.mp comma)).2] at reads
    exact .inr ⟨y ++ '}' :: s, rfl, spacedOpening ahead.regular' reads⟩

theorem betweenItems (regular : Regular inner) (scope : Scope) :
    Leads (Between s) (many (do char ','; spaced (inner.expression scope.items))) (Between s) := by
  have rest : Tail (spaced (inner.expression scope.items)) := tailSpaced (regular.expression _).tail
  have item : Leads (Between s) (do char ','; spaced (inner.expression scope.items)) (Past s) :=
    leadsBind betweenComma fun _ _ _ _ past read => pastTail past (rest read)
  exact fun _ _ _ between read => (leadsManyPast (tailBind (tailChar _) fun _ => rest) item between read).elim
    (.inr ∘ pastOpening) id

theorem repeatsSeparated (ahead : Ahead s s' n inner inner') (scope : Scope) :
    Repeats s s' n (fun es => expressionsFilled es = true) (Listed s) (separated (spaced (inner.expression scope.items)))
      (separated (spaced (inner'.expression scope.items))) := by
  have item : Repeats s s' n (fun e => e.filled = true) (Between s) (spaced (inner.expression scope.items))
      (spaced (inner'.expression scope.items)) := (repeatsSpaced ahead scope.items rfl).barred fun _ halted => .inr (.inl halted)
  refine (item.tried fun read _ => .inr (spacedOpening ahead.regular' read)).bind (fun found => ?_) (fun found => ?_) fun found => ?_
  · cases found with
    | none => exact repeatsPure _
    | some e =>
        refine (repeatsFurtherItems ahead scope).map fun rest filled => ?_
        exact (expressionsFilledAll _).mp (Bool.and_eq_true_iff.mp filled).2
  · cases found with
    | none => exact keepsPure fun _ => trivial
    | some e => exact keepsBind fun _ => keepsPure fun filled => (Bool.and_eq_true_iff.mp filled).1
  · cases found with
    | none => exact leadsPure _ fun _ between => .inr (.inl between)
    | some e => exact leadsBind (betweenItems ahead.regular scope) fun _ => leadsPure _ fun _ between => .inr (.inl between)

theorem itemsAjar {items : List Expr} : Leads (Listed s) (do
    if !items.isEmpty then
      let _ ← given (char ',')
      space
    return .list items : Reader Expr) (Ajar s) := by
  dsimp only
  split
  · exact leadsBind listedComma fun _ => leadsBind (leadsTrivia fun _ => ajarSkip) fun _ => leadsPure _ fun _ => id
  · exact leadsPure _ fun _ => listedAjar

theorem repeatsListItems (ahead : Ahead s s' n inner inner') (scope : Scope) :
    Repeats s s' n (fun e => e.filled = true) (Ajar s) (listItems inner scope) (listItems inner' scope) := by
  refine (repeatsSeparated ahead scope).bind (fun items => ?_) (fun items => ?_) fun items => ?_
  · refine .if ?_ (repeatsPure _)
    refine .token (localGiven (localChar (by decide))) (tailGiven (tailChar _)) fun _ => .skip .acrossLines (repeatsPure _) ?_
    exact leadsPure _ fun _ stalled => .inr (stalledAjar stalled)
  · dsimp only
    split
    · exact keepsBind fun _ => keepsBind fun _ => keepsPure id
    · exact keepsPure id
  · exact fun _ _ _ listed read => .inr (itemsAjar listed read)

theorem spacedStalls (regular : Regular inner) (scope : Scope) {B : List Char → Prop} :
    Leads (Stalled .acrossLines) (spaced (inner.expression scope)) B := by
  have skips : Leads (Stalled .acrossLines) (trivia .acrossLines) (Stalled .acrossLines) := leadsTrivia fun t stalled => by
    rwa [haltedStays (.stalled stalled)]
  exact leadsBind skips fun _ => refusesBind (expressionStalls regular scope .acrossLines)

theorem stalledItems (regular : Regular inner) (scope : Scope) : Leads (Stalled .acrossLines) (listItems inner scope) (Ajar s) := by
  refine leadsBind (leadsBind (leadsTried (spacedStalls regular _)) fun found => ?_) fun items => itemsAjar
  have listed : ∀ t, Stalled .acrossLines t → Listed s t := fun _ stalled => .inl (.inl (.stalled stalled))
  cases found with
  | none => exact leadsPure _ listed
  | some e =>
      refine leadsBind (leadsMany ?_) fun _ => leadsPure _ listed
      exact stalledOnly (refusesBind (haltedChar (by decide)))

section
variable {f f' g g' : Reader Expr}

theorem repeatsClosed (h : Repeats s s' n (fun e => e.filled = true) (Ajar s) f f') (closer : c ∈ [')', ']', '}'])
    (closes : Repeats s s' n (fun _ => True) never (char c) (char c)) : Repeats s s' n (fun e => e.filled = true) never
      (do let value ← f; space; char c; return value) (do let value ← f'; space; char c; return value) := by
  refine h.bind (fun value => .skip .acrossLines ?_ ?_) (fun value => ?_) fun value => ajarCloses closer
  · exact closes.bind (fun _ => repeatsPure _) (fun _ _ _ _ _ _ => trivial) fun _ => leadsNever
  · exact refusesBind (stalledOnly (haltedChar (closerProceeds closer)))
  · exact keepsBind fun _ => keepsBind fun _ => keepsPure id

theorem repeatsFork (hf : Repeats s s' n (fun e => e.filled = true) (Ajar s) f f')
    (hg : Repeats s s' n (fun e => e.filled = true) (Ajar s) g g') (closer : c ∈ [')', ']', '}'])
    (closes : Repeats s s' n (fun _ => True) never (char c) (char c)) : Repeats s s' n (fun e => e.filled = true) never
      (do
        if startsFor (← left) then
          let value ← f
          space
          char c
          return value
        else
          let value ← g
          space
          char c
          return value)
      (do
        if startsFor (← left) then
          let value ← f'
          space
          char c
          return value
        else
          let value ← g'
          space
          char c
          return value) := by
  have same (x : List Char) : startsFor (x ++ '}' :: s) = startsFor (x ++ '}' :: s') ∨ never (x ++ '}' :: s) :=
    .inl ((startsForLocal _ _).trans (startsForLocal _ _).symm)
  exact .fork same (repeatsClosed hf closer closes) (repeatsClosed hg closer closes) leadsNever leadsNever

theorem forkStalls (closer : c ∈ [')', ']', '}']) (loops : Leads (Stalled .acrossLines) f never)
    (items : Leads (Stalled .acrossLines) g (Ajar s)) {B : List Char → Prop} : Leads (Stalled .acrossLines) (do
      if startsFor (← left) then
        let value ← f
        space
        char c
        return value
      else
        let value ← g
        space
        char c
        return value) fun u => Past s u ∨ B u := by
  intro t v u stalled read
  obtain ⟨_, _, here, read⟩ := bindSome.mp read
  obtain ⟨rfl, rfl⟩ := leftSome.mp here
  split at read
  · exact (refusesBind loops : Leads _ _ fun u => Past s u ∨ B u) stalled read
  · exact leadsBind items (fun _ => ajarCloses closer) stalled read

end

theorem bindingStalls {α : Type} {k : List String × Expr → Reader α} {B : List Char → Prop} :
    Leads (Stalled .acrossLines) (binding inner >>= k) B := refusesBind (refusesBind (keywordStalls (by decide)))

theorem repeatsListLike (ahead : Ahead s s' n inner inner') (scope : Scope) :
    Repeats s s' (n + 1) (fun e => e.filled = true) never (listLike inner scope) (listLike inner' scope) := by
  refine .tokenShort (localChar (by decide)) (shortChar _) fun _ => .skip .acrossLines ?_ ?_
  · exact repeatsFork (repeatsListFor ahead) (repeatsListItems ahead scope) (by decide)
      (repeatsLocal (localChar (by decide)) (tailChar _))
  · exact forkStalls (by decide) bindingStalls (stalledItems ahead.regular scope)

end DeclOrder.Hcl
