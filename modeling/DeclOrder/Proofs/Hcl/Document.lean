import DeclOrder.Hcl.Document
import DeclOrder.Proofs.Hcl.Expression

/-! Documents of respaced texts. If both are documents, they say the same or they say different things. -/
namespace DeclOrder.Hcl
open Text Reader Read

variable {c : Char} {t t' u u' w w' : List Char} {body : Reader (List Placed)}

theorem shortFullExpression (scope : Scope) : Short (fullExpression scope) := fun _ _ _ read =>
  (innerTail _).expression scope read

theorem tailAttributeValue : Tail attributeValue :=
  tailBind (tailChar _) fun _ => tailBind (tailTrivia _) fun _ => (shortFullExpression _).tail

theorem shortDefinition : Short definition :=
  shortBind shortIdentifier fun _ => tailBind (tailTrivia _) fun _ => tailBind tailAttributeValue fun _ => tailPure _

theorem shortLabel : Short label := by
  refine shortBehind tailLeft fun text => ?_
  split
  · exact shortBind shortQuotedText fun _ => tailPure _
  · exact shortBind shortIdentifier fun _ => tailPure _

theorem shortPlacedLabel : Short placedLabel :=
  shortBehind (tailTrivia _) fun _ => shortBind shortLabel fun _ => tailBind tailLeft fun _ => tailPure _

theorem tailBlockBody (tail : Tail body) : Tail (blockBody body) := by
  refine tailBind (tailChar _) fun _ => tailBind (tailGiven tailLineEnd) fun ends => ?_
  split
  · exact tailBind tail fun _ => tailBind (tailChar _) fun _ => tailPure _
  · exact tailBind (tailTrivia _) fun _ => tailBind (tailTried shortDefinition.tail) fun _ =>
      tailBind (tailTrivia _) fun _ => tailBind (tailChar _) fun _ => tailPure _

inductive Parsed (body : Reader (List Placed)) (t : List Char) : Structure → List Char → Prop where
  | assigned {name : String} {w u : List Char} {value : Expr} (header : identifier t = some (name, w))
      (equals : ∃ x, skipTrivia .withinLine w = '=' :: x)
      (read : attributeValue (skipTrivia .withinLine w) = some (value, u)) : Parsed body t (.attribute name value) u
  | block {name : String} {w x u : List Char} {labels : List (Label × List Char)} {items : Body}
      (header : identifier t = some (name, w)) (noEquals : ∀ x, skipTrivia .withinLine w ≠ '=' :: x)
      (names : many placedLabel w = some (labels, x))
      (read : blockBody body (skipTrivia .withinLine x) = some (items, u)) :
      Parsed body t (.block name (labels.map Prod.fst) items) u

theorem placedReads {p : Placed} (read : placed body t = some (p, u)) : Parsed body t p.item u := by
  obtain ⟨_, _, here, read⟩ := bindSome.mp read
  obtain ⟨rfl, rfl⟩ := leftSome.mp here
  obtain ⟨name, w, header, read⟩ := bindSome.mp read
  obtain ⟨_, _, there, read⟩ := bindSome.mp read
  obtain ⟨rfl, rfl⟩ := leftSome.mp there
  obtain ⟨_, x, skips, read⟩ := bindSome.mp read
  obtain ⟨_, _, ahead, read⟩ := bindSome.mp read
  obtain ⟨rfl, rfl⟩ := leftSome.mp ahead
  have skipped := skipSome.mp skips
  split at read
  · obtain ⟨value, z, reads, read⟩ := bindSome.mp read
    obtain ⟨_, _, last, read⟩ := bindSome.mp read
    obtain ⟨rfl, rfl⟩ := leftSome.mp last
    obtain ⟨rfl, rfl⟩ := pureSome.mp read
    rw [← skipped] at reads
    exact .assigned header ⟨_, skipped⟩ reads
  · rename_i noEquals
    obtain ⟨_, _, back, read⟩ := bindSome.mp read
    obtain rfl := setSome.mp back
    obtain ⟨labels, y, names, read⟩ := bindSome.mp read
    obtain ⟨_, z, skips, read⟩ := bindSome.mp read
    obtain rfl := skipSome.mp skips
    obtain ⟨items, x, reads, read⟩ := bindSome.mp read
    obtain ⟨_, _, last, read⟩ := bindSome.mp read
    obtain ⟨rfl, rfl⟩ := leftSome.mp last
    obtain ⟨rfl, rfl⟩ := pureSome.mp read
    exact .block header (fun y same => noEquals y (skipped.symm.trans same)) names reads

theorem shortPlaced (tail : Tail body) : Short (placed body) := by
  intro t p u read
  have within {w x y : List Char} {name : String} (header : identifier t = some (name, w)) (skips : x <:+ w) (rest : y <:+ x) :
      y <:+ t ∧ y.length < t.length := by
    have taken := shortIdentifier header
    exact ⟨(rest.trans skips).trans taken.1, Nat.lt_of_le_of_lt (rest.trans skips).length_le taken.2⟩
  have parsed := placedReads read
  generalize p.item = item at parsed
  cases parsed with
  | assigned header _ reads => exact within header (skipStopped _ _).2 (tailAttributeValue reads)
  | block header _ names reads =>
      refine within header ?_ (tailBlockBody tail reads)
      exact (skipStopped _ _).2.trans (tailMany shortPlacedLabel.tail names)

theorem tailAtEnd : Tail atEnd := by
  intro t v u read
  unfold atEnd at read
  split at read
  · cases read
    exact List.suffix_rfl
  · contradiction

theorem tailStructureEnd : Tail structureEnd := by
  refine tailBind (tailTrivia _) fun _ => tailBind (tailTried tailComment) fun _ =>
    tailBind (tailGiven tailLineBreak) fun ends => ?_
  split
  · exact tailPure _
  · exact tailAtEnd

def entry (body : Reader (List Placed)) : Reader Placed := do
  let item ← placed body
  structureEnd
  space
  return item

theorem shortEntry (tail : Tail body) : Short (entry body) :=
  shortBind (shortPlaced tail) fun _ => tailBind tailStructureEnd fun _ => tailBind (tailTrivia _) fun _ => tailPure _

theorem tailBodyUpTo (bound : List Char) : Tail (bodyUpTo bound) := by
  induction bound with
  | nil => exact tailPure _
  | cons b rest ih =>
      refine tailBind (tailTrivia _) fun _ => tailBind (tailMany (shortEntry ih).tail) fun items => ?_
      split
      · exact tailPure _
      · exact tailFailure

section
variable {ι : Type} {A : ι → ι → Prop}

theorem alikeFullExpression : Alike A Respaced Respaced Expr.literals (Blocked .withinLine) (fun _ => fullExpression .line) :=
  fun _ _ _ t t' start _ _ _ _ read read' => (innerAkin t t').expression .line start read read'

theorem stuckFullExpression {e : Extent} : Leads (Stuck e) (fullExpression .line) never := fun t _ _ stuck read =>
  expressionRefuses (innerRegular t) .line e stuck read

theorem alikeAttributeValue : Alike A Respaced Respaced Expr.literals (Blocked .withinLine) (fun _ => attributeValue) := by
  have behind : Alike A Loose Respaced Expr.literals (Blocked .withinLine)
      (fun _ => (do gap; fullExpression .line : Reader Expr)) :=
    .skip .withinLine alikeFullExpression fun _ _ => fun _ _ _ stuck read => absurd (stuckFullExpression stuck read) id
  intro i i' akin t t' start v v' u u' read read'
  obtain ⟨_, w, equals, read⟩ := bindSome.mp read
  obtain ⟨_, w', equals', read'⟩ := bindSome.mp read'
  rw [charSome.mp equals, charSome.mp equals'] at start
  exact behind akin (start.tailLoose (by decide)) read read'

theorem alikeDefinition : Alike A Respaced Respaced Structure.literals (Blocked .withinLine) (fun _ => definition) := by
  refine .token firmIdentifier fun name => (Alike.skip .withinLine ?_ ?_).given fun _ _ => Respaced.loose
  · exact alikeAttributeValue.map [] fun value => rfl
  · exact fun _ _ => refusesBind (refusesBind (stuckOnly (heldChar (by decide) (by decide))))

theorem labelReads {l : Label} (read : label t = some (l, u)) :
    (∃ w text, t = '"' :: w ∧ quotedText t = some (text, u) ∧ l = .quoted text) ∨
      ∃ c w name, t = c :: w ∧ startsIdentifier c = true ∧ identifier t = some (name, u) ∧ l = .word name := by
  obtain ⟨_, _, here, read⟩ := bindSome.mp read
  obtain ⟨rfl, rfl⟩ := leftSome.mp here
  split at read
  · obtain ⟨text, _, reads, read⟩ := bindSome.mp read
    obtain ⟨rfl, rfl⟩ := pureSome.mp read
    exact .inl ⟨_, text, rfl, reads, rfl⟩
  · obtain ⟨name, _, reads, read⟩ := bindSome.mp read
    obtain ⟨rfl, rfl⟩ := pureSome.mp read
    obtain ⟨c, w, rfl, start, _⟩ := identifierSome.mp reads
    exact .inr ⟨c, w, name, rfl, start, reads, rfl⟩

theorem labelHead {l : Label} (read : label t = some (l, u)) :
    ∃ c w, t = c :: w ∧ Inside c ∧ c ∉ ['#', '/', '{', '}'] := by
  rcases labelReads read with ⟨w, _, rfl, _⟩ | ⟨c, w, _, rfl, start, _⟩
  · exact ⟨'"', w, rfl, by decide, by decide⟩
  · refine ⟨c, w, rfl, continuesInside (startsContinues start), fun member => ?_⟩
    simp only [List.mem_cons, List.not_mem_nil, or_false] at member
    rcases member with rfl | rfl | rfl | rfl <;> exact absurd start (by decide)

def namedLabel : Reader Label := do
  gap
  label

theorem alikeLabel : Alike A Respaced Respaced Label.literals never (fun _ => namedLabel) := by
  refine (Alike.skip .withinLine ?_ ?_).given fun _ _ => Respaced.loose
  · intro i i' akin t t' start l l' u u' read read'
    rcases labelReads read with ⟨w, text, rfl, reads, rfl⟩ | ⟨c, w, name, rfl, starts, reads, rfl⟩
    · obtain ⟨w', rfl, _⟩ := start.inside (by decide)
      rcases labelReads read' with ⟨_, text', _, reads', rfl⟩ | ⟨c', _, name', same, starts', _⟩
      · cases alikeQuotedText akin start reads reads' with
        | same rest => exact .same rest
        | differ texts => exact .differ texts
        | left barred => exact absurd barred id
        | right barred => exact absurd barred id
      · rw [← (List.cons.inj same).1] at starts'
        exact absurd starts' (by decide)
    · obtain ⟨w', rfl, _⟩ := start.inside (continuesInside (startsContinues starts))
      rcases labelReads read' with ⟨_, text', same, _⟩ | ⟨c', _, name', _, _, reads', rfl⟩
      · rw [(List.cons.inj same).1] at starts
        exact absurd starts (by decide)
      · obtain ⟨rfl, rest⟩ := firmIdentifier.both start reads reads'
        exact .same rest
  · intro _ _ t l u stuck read
    obtain ⟨c, w, rfl, inside, other⟩ := labelHead read
    refine stuckHead inside.1 (fun member => other ?_) stuck
    simp only [List.mem_cons, List.not_mem_nil, or_false] at member ⊢
    rcases member with same | same <;> simp [same]

end

theorem labelsRun {labels : List (Label × List Char)} (run : Run placedLabel t labels u) :
    Run namedLabel t (labels.map Prod.fst) u := by
  refine run.view (fun t p u read => ?_) fun t fails => ?_
  · obtain ⟨_, w, skips, read⟩ := bindSome.mp read
    obtain ⟨l, x, found, read⟩ := bindSome.mp read
    obtain ⟨_, _, here, read⟩ := bindSome.mp read
    obtain ⟨rfl, rfl⟩ := leftSome.mp here
    obtain ⟨rfl, rfl⟩ := pureSome.mp read
    exact bindSome.mpr ⟨(), w, skips, found⟩
  · refine Option.eq_none_iff_forall_ne_some.mpr fun p read => ?_
    obtain ⟨_, w, skips, read⟩ := bindSome.mp read
    have found : placedLabel t = some ((p.1, p.2), p.2) :=
      bindSome.mpr ⟨(), w, skips, bindSome.mpr ⟨p.1, p.2, read, bindSome.mpr ⟨p.2, p.2, leftSome.mpr ⟨rfl, rfl⟩, rfl⟩⟩⟩
    rw [fails] at found
    contradiction

def Braceless (t : List Char) : Prop := ∀ w, skipTrivia .withinLine t ≠ '{' :: w

theorem labelsAlike {labels labels' : List (Label × List Char)} (start : Respaced t t')
    (read : many placedLabel t = some (labels, u)) (read' : many placedLabel t' = some (labels', u')) :
    Outcome Respaced (List.flatMap Label.literals) Braceless (labels.map Prod.fst) (labels'.map Prod.fst) u u' := by
  have alone {s s' : List Char} (start : Respaced s s') {l : Label} {y : List Char} (read : namedLabel s = some (l, y)) :
      Braceless s' := by
    intro x brace
    obtain ⟨_, w, skips, read⟩ := bindSome.mp read
    obtain ⟨c, z, rfl, inside, other⟩ := labelHead read
    have ready := skipReady (e := .withinLine) start.loose
    rw [skipSome.mp skips, brace] at ready
    rcases ready with tight | stuck | stuck
    · obtain ⟨_, same, _⟩ := tight.inside inside
      refine other ?_
      rw [← (List.cons.inj same).1]
      decide
    · refine stuckHead inside.1 (fun member => other ?_) stuck
      simp only [List.mem_cons, List.not_mem_nil, or_false] at member ⊢
      rcases member with same | same <;> simp [same]
    · exact stuckHead (by decide) (by decide) stuck
  have alike : Alike (fun _ _ : Unit => True) Respaced Respaced Label.literals never (fun _ => namedLabel) := alikeLabel
  refine runAlike (fun start _ _ _ _ read read' => @alike () () trivial _ _ start _ _ _ _ read read') False.elim
    False.elim (fun start _ _ read _ => alone start read) (fun start _ _ read _ => alone start.symm read) start
    (labelsRun (manyRun shortPlacedLabel read)) (labelsRun (manyRun shortPlacedLabel read'))

def Unfinished (t : List Char) : Prop := t ≠ [] ∧ ∀ w, t ≠ '}' :: w

def BodyAlike (bound bound' : List Char) : Prop := ∀ {t t'}, t.length ≤ bound.length → t'.length ≤ bound'.length →
  Loose t t' → ∀ {v v' u u'}, bodyUpTo bound t = some (v, u) → bodyUpTo bound' t' = some (v', u') →
    Outcome Respaced bodyLiterals Unfinished (v.map Placed.item) (v'.map Placed.item) u u'

def Dead (t : List Char) : Prop := ∀ c w, skipTrivia .withinLine t = c :: w → startsIdentifier c = false ∧ c ≠ '}'

def oneLine : Reader Body := do
  gap
  let item ← tried definition
  gap
  char '}'
  return item.toList

theorem deadLine {v : Body} (dead : Dead t) : oneLine t ≠ some (v, u) := by
  intro read
  obtain ⟨_, w, skips, read⟩ := bindSome.mp read
  have skipped := skipSome.mp skips
  obtain ⟨item, x, tries, read⟩ := bindSome.mp read
  obtain ⟨_, y, skips', read⟩ := bindSome.mp read
  obtain ⟨_, z, closes, _⟩ := bindSome.mp read
  rcases triedSome.mp tries with ⟨a, _, reads⟩ | ⟨_, rfl, _⟩
  · obtain ⟨_, _, name, _⟩ := bindSome.mp reads
    obtain ⟨c, x, same, start, _⟩ := identifierSome.mp name
    rw [(dead c x (skipped.trans same)).1] at start
    contradiction
  · have again := skipSome.mp skips'
    rw [← skipped, skipTwice] at again
    exact (dead '}' z (again.trans (charSome.mp closes))).2 rfl

theorem lineEndAlone (h : Respaced t t') {x : Unit} (read : lineEnd t = some (x, u)) : Dead t' := by
  intro c w same
  obtain ⟨_, s, skips, read⟩ := bindSome.mp read
  obtain ⟨comments, y, tries, breaks⟩ := bindSome.mp read
  have ready := skipReady (e := .withinLine) h.loose
  rw [skipSome.mp skips, same] at ready
  have away (other : startsIdentifier c = true ∨ c = '}') : Inside c := by
    rcases other with start | rfl
    · exact continuesInside (startsContinues start)
    · decide
  have head : ∃ d z, s = d :: z ∧ (isBlank d = true ∨ d = '#' ∨ d = '/') := by
    rcases triedSome.mp tries with ⟨_, _, comment⟩ | ⟨_, rfl, _⟩
    · rcases lineCommentHead (commentSome.mp comment) with ⟨z, rfl, _⟩ | ⟨z, rfl, _⟩
      · exact ⟨_, _, rfl, .inr (.inl rfl)⟩
      · exact ⟨_, _, rfl, .inr (.inr rfl)⟩
    · rcases lineBreakSome.mp breaks with rfl | rfl
      · exact ⟨_, _, rfl, .inl (by decide)⟩
      · exact ⟨_, _, rfl, .inl (by decide)⟩
  have never (other : startsIdentifier c = true ∨ c = '}') : False := by
    have inside := away other
    rcases ready with tight | stuck | stuck
    · obtain ⟨z', rfl, _⟩ := tight.symm.inside inside
      obtain ⟨d, z, whole, kind⟩ := head
      rw [← (List.cons.inj whole).1] at kind
      rcases kind with blank | rfl | rfl
      · rw [inside.1] at blank
        contradiction
      · exact absurd other (by decide)
      · exact absurd other (by decide)
    · exact lineEndRefuses (.stuck stuck) (bindSome.mpr ⟨(), s, skipSome.mpr (heldStays (.stuck stuck)), read⟩)
    · refine stuckHead inside.1 (fun member => ?_) stuck
      simp only [List.mem_cons, List.not_mem_nil, or_false] at member
      rcases member with rfl | rfl
      · exact absurd other (by decide)
      · exact absurd other (by decide)
  refine ⟨Bool.eq_false_iff.mpr fun start => never (.inl start), fun brace => never (.inr brace)⟩

theorem onlySays (item : Option Structure) : bodyLiterals item.toList = optionally Structure.literals item := by
  cases item with
  | none => rfl
  | some s => exact List.append_nil _

theorem stuckDefinition {e : Extent} : Leads (Stuck e) definition never := refusesBind stuckIdentifier

section
variable {ι : Type} {A : ι → ι → Prop}

def Undefined (t : List Char) : Prop := Blocked .withinLine t ∨ ∃ c w, t = c :: w ∧ startsIdentifier c = true

theorem undefinedRefuses {v : Body} : Leads Undefined (do gap; char '}'; return v) never := by
  rintro t x u (blocked | ⟨c, w, rfl, start⟩) read
  · exact leadsSkip (refusesBind (heldChar (by decide) (by decide))) blocked read
  · obtain ⟨_, y, skips, read⟩ := bindSome.mp read
    obtain ⟨_, z, closes, _⟩ := bindSome.mp read
    have begins := identifierBegins start
    have stays : skipTrivia .withinLine (c :: w) = c :: w := by
      refine skipStop (triviumOther fun member => ?_)
      simp only [List.mem_cons, List.not_mem_nil, or_false] at member
      rcases member with rfl | rfl | rfl | rfl | rfl | rfl
      · exact absurd start (by decide)
      · exact absurd start (by decide)
      · exact absurd start (by decide)
      · exact absurd start (by decide)
      · exact absurd start (by decide)
      · exact absurd start (by decide)
    rw [← skipSome.mp skips, stays] at closes
    rw [(List.cons.inj (charSome.mp closes)).1] at start
    exact absurd start (by decide)

theorem alikeOneLine : Alike A Respaced Respaced bodyLiterals never (fun _ => oneLine) := by
  have item : Alike A Respaced Respaced (optionally Structure.literals) Undefined (fun _ => tried definition) := by
    refine (alikeDefinition.barred fun _ => Or.inl).tried (fun _ _ => Respaced.symm) (fun _ _ => id) ?_
    intro _ _ _ _ t t' start v u read _
    obtain ⟨_, _, name, _⟩ := bindSome.mp read
    obtain ⟨c, w, rfl, starts, _⟩ := identifierSome.mp name
    obtain ⟨w', rfl, _⟩ := start.inside (continuesInside (startsContinues starts))
    exact .inr ⟨c, w', rfl, starts⟩
  refine (Alike.skip .withinLine ?_ ?_).given fun _ _ => Respaced.loose
  · refine item.bind [] (fun found => ?_) (fun _ _ found => ?_) fun _ _ found => undefinedRefuses
    · refine (Alike.skip .withinLine ?_ ?_).given fun _ _ => Respaced.loose
      · exact .token (firmChar (by decide)) fun _ => alikePure _ fun _ _ => id
      · exact fun _ _ => refusesBind (stuckOnly (heldChar (by decide) (by decide)))
    · refine startsBind fun _ => startsBind fun _ => startsPure ?_
      rw [onlySays]
      exact List.prefix_rfl
  · exact fun _ _ => leadsBind (leadsTried stuckDefinition) fun _ =>
      stuckOnly (heldSkip (refusesBind (heldChar (by decide) (by decide))))

end

def opened (body : Reader (List Placed)) : Reader Body := do
  if ← given lineEnd then
    let items ← body
    char '}'
    return items.map Placed.item
  else oneLine

theorem openedAlike {bound bound' : List Char} (alike : BodyAlike bound bound') (within : t.length ≤ bound.length)
    (within' : t'.length ≤ bound'.length) (start : Respaced t t') {v v' : Body} (read : opened (bodyUpTo bound) t = some (v, u))
    (read' : opened (bodyUpTo bound') t' = some (v', u')) : Outcome Respaced bodyLiterals never v v' u u' := by
  obtain ⟨ends, w, look, read⟩ := bindSome.mp read
  obtain ⟨ends', w', look', read'⟩ := bindSome.mp read'
  rcases givenSome.mp look with ⟨rfl, line⟩ | ⟨rfl, rfl, _⟩
  · rcases givenSome.mp look' with ⟨rfl, line'⟩ | ⟨rfl, rfl, _⟩
    · obtain ⟨items, x, reads, read⟩ := bindSome.mp read
      obtain ⟨items', x', reads', read'⟩ := bindSome.mp read'
      have loose : Loose w w' := by
        have ended : Alike (fun _ _ : Unit => True) Loose Loose silent never (fun _ => lineEnd) := alikeLineEnd
        cases @ended () () trivial _ _ start.loose _ _ _ _ line line' with
        | same rest => exact rest
        | differ texts => exact absurd rfl texts.ne
        | left barred => exact absurd barred id
        | right barred => exact absurd barred id
      have less := (tailLineEnd line).length_le
      have less' := (tailLineEnd line').length_le
      obtain ⟨_, y, closes, read⟩ := bindSome.mp read
      obtain ⟨_, y', closes', read'⟩ := bindSome.mp read'
      obtain ⟨rfl, rfl⟩ := pureSome.mp read
      obtain ⟨rfl, rfl⟩ := pureSome.mp read'
      have body := alike (Nat.le_trans less within) (Nat.le_trans less' within') loose reads reads'
      rw [charSome.mp closes, charSome.mp closes'] at body
      rcases body.or with ⟨same, rest⟩ | texts | barred | barred
      · obtain ⟨z, whole, rest⟩ := rest.inside (by decide)
        rw [same, (List.cons.inj whole).2]
        exact .same rest
      · exact .differ texts
      · exact absurd rfl (barred.2 _)
      · exact absurd rfl (barred.2 _)
    · exact absurd read' (deadLine (lineEndAlone start line))
  · rcases givenSome.mp look' with ⟨rfl, line'⟩ | ⟨rfl, rfl, _⟩
    · exact absurd read (deadLine (lineEndAlone start.symm line'))
    · have ones : Alike (fun _ _ : Unit => True) Respaced Respaced bodyLiterals never (fun _ => oneLine) := alikeOneLine
      exact @ones () () trivial _ _ start _ _ _ _ read read'

def Outside (t : List Char) : Prop := ∀ c w, t = c :: w → ¬ Inside c

theorem Outside.noBlock {labels : List (Label × List Char)} {x : List Char} {v : Body}
    (outside : Outside (skipTrivia .withinLine t)) (names : many placedLabel t = some (labels, x)) :
    blockBody body (skipTrivia .withinLine x) ≠ some (v, u) := by
  intro read
  have noLabel : placedLabel t = none := by
    refine Option.eq_none_iff_forall_ne_some.mpr fun p reads => ?_
    obtain ⟨_, w, skips, reads⟩ := bindSome.mp reads
    obtain ⟨_, _, reads, _⟩ := bindSome.mp reads
    obtain ⟨c, z, rfl, inside, _⟩ := labelHead reads
    exact outside c z (skipSome.mp skips) inside
  obtain ⟨_, rfl⟩ := runAtEnd noLabel (manyRun shortPlacedLabel names)
  obtain ⟨_, y, brace, _⟩ := bindSome.mp read
  exact outside '{' y (charSome.mp brace) (by decide)

theorem attributeAlone {x : List Char} (h : Respaced w w') (equals : skipTrivia .withinLine w = '=' :: x) :
    Outside (skipTrivia .withinLine w') := by
  intro c y same inside
  have ready := skipReady (e := .withinLine) h.loose
  rw [equals, same] at ready
  rcases ready with tight | stuck | stuck
  · obtain ⟨_, whole, _⟩ := tight.symm.inside inside
    rw [← (List.cons.inj whole).1] at inside
    exact inside.2 rfl
  · exact stuckHead (by decide) (by decide) stuck
  · cases stuck with
    | foreign blank =>
        rw [inside.1] at blank
        contradiction
    | loneReturn => exact absurd inside (by decide)

theorem assignedAlike {z z' : List Char} {v v' : Expr} (start : Respaced w w')
    (equals : skipTrivia .withinLine w = '=' :: z) (equals' : skipTrivia .withinLine w' = '=' :: z')
    (read : attributeValue (skipTrivia .withinLine w) = some (v, u))
    (read' : attributeValue (skipTrivia .withinLine w') = some (v', u')) :
    Outcome Respaced Expr.literals (Blocked .withinLine) v v' u u' := by
  have tight := skipTight (by decide) (by decide) start.loose equals equals'
  rw [← equals, ← equals'] at tight
  have values : Alike (fun _ _ : Unit => True) Respaced Respaced Expr.literals (Blocked .withinLine)
      (fun _ => attributeValue) := alikeAttributeValue
  exact @values () () trivial _ _ tight _ _ _ _ read read'

theorem openingShort {bound y : List Char} {name : String} {labels : List (Label × List Char)}
    (within : t.length ≤ bound.length + 1) (header : identifier t = some (name, w))
    (names : many placedLabel w = some (labels, u)) (brace : skipTrivia .withinLine u = '{' :: y) :
    y.length ≤ bound.length := by
  have first := (shortIdentifier header).2
  have second := (tailMany shortPlacedLabel.tail names).length_le
  have third := (skipStopped .withinLine u).2.length_le
  rw [brace, List.length_cons] at third
  omega

theorem headedAlike {bound bound' x x' : List Char} (alike : BodyAlike bound bound') (within : t.length ≤ bound.length + 1)
    (within' : t'.length ≤ bound'.length + 1) {name : String} {labels labels' : List (Label × List Char)} {items items' : Body}
    (start : Respaced w w') (header : identifier t = some (name, w)) (header' : identifier t' = some (name, w'))
    (names : many placedLabel w = some (labels, x)) (names' : many placedLabel w' = some (labels', x'))
    (read : blockBody (bodyUpTo bound) (skipTrivia .withinLine x) = some (items, u))
    (read' : blockBody (bodyUpTo bound') (skipTrivia .withinLine x') = some (items', u')) :
    Outcome Respaced Structure.literals (Blocked .withinLine) (.block name (labels.map Prod.fst) items)
      (.block name (labels'.map Prod.fst) items') u u' := by
  obtain ⟨_, y, brace, opens⟩ := bindSome.mp read
  obtain ⟨_, y', brace', opens'⟩ := bindSome.mp read'
  have brace := charSome.mp brace
  have brace' := charSome.mp brace'
  rcases (labelsAlike start names names').or with ⟨same, rest⟩ | texts | barred | barred
  · obtain ⟨_, whole, tight⟩ := (skipTight (by decide) (by decide) rest.loose brace brace').inside (by decide)
    cases whole
    rw [same]
    cases openedAlike alike (openingShort within header names brace) (openingShort within' header' names' brace') tight
      opens opens' with
    | same rest => exact .same rest
    | differ texts => exact .differ (texts.behind _)
    | left barred => exact absurd barred id
    | right barred => exact absurd barred id
  · exact .differ (texts.extend (List.prefix_append _ _) (List.prefix_append _ _))
  · exact absurd brace (barred y)
  · exact absurd brace' (barred y')

theorem parsedAlike {bound bound' : List Char} (alike : BodyAlike bound bound') (within : t.length ≤ bound.length + 1)
    (within' : t'.length ≤ bound'.length + 1) (start : Respaced t t') {v v' : Structure}
    (h : Parsed (bodyUpTo bound) t v u) (h' : Parsed (bodyUpTo bound') t' v' u') :
    Outcome Respaced Structure.literals (Blocked .withinLine) v v' u u' := by
  cases h with
  | assigned header equals read =>
      obtain ⟨z, equals⟩ := equals
      cases h' with
      | assigned header' equals' read' =>
          obtain ⟨z', equals'⟩ := equals'
          obtain ⟨rfl, rest⟩ := firmIdentifier.both start header header'
          cases assignedAlike rest equals equals' read read' with
          | same rest => exact .same rest
          | differ texts => exact .differ texts
          | left barred => exact .left barred
          | right barred => exact .right barred
      | block header' _ names' read' =>
          obtain ⟨_, rest⟩ := firmIdentifier.both start header header'
          exact absurd read' ((attributeAlone rest equals).noBlock names')
  | block header _ names read =>
      cases h' with
      | assigned header' equals' _ =>
          obtain ⟨z', equals'⟩ := equals'
          obtain ⟨_, rest⟩ := firmIdentifier.both start header header'
          exact absurd read ((attributeAlone rest.symm equals').noBlock names)
      | block header' _ names' read' =>
          obtain ⟨rfl, rest⟩ := firmIdentifier.both start header header'
          exact headedAlike alike within within' rest header header' names names' read read'

theorem atEndSome {x : Unit} : atEnd t = some (x, u) ↔ t = [] ∧ u = [] := by
  unfold atEnd
  cases t with
  | nil => simp [eq_comm]
  | cons c w => simp

def finalBreak : Reader Unit := do
  if ← given lineBreak then pure () else atEnd

theorem finalBreakSome {x : Unit} (read : finalBreak t = some (x, u)) : lineBreak t = some ((), u) ∨ (t = [] ∧ u = []) := by
  obtain ⟨ends, w, look, read⟩ := bindSome.mp read
  rcases givenSome.mp look with ⟨rfl, line⟩ | ⟨rfl, rfl, _⟩
  · obtain ⟨_, rfl⟩ := pureSome.mp read
    exact .inl line
  · exact .inr (atEndSome.mp read)

theorem looseNil (h : Loose [] t) : allBlank t = true := by
  induction t with
  | nil => rfl
  | cons c rest ih =>
      cases h.place with
      | blank _ all => exact all
      | right inLine rest => exact allBlankCons.mpr ⟨inLine.1, ih rest⟩

theorem lineBreakBlank {x : Unit} (all : allBlank t = true) (read : lineBreak t = some (x, u)) : allBlank u = true :=
  allBlankTail all (tailLineBreak read)

section
variable {ι : Type} {A : ι → ι → Prop}

theorem alikeFinalBreak : Alike A Loose Loose silent never (fun _ => finalBreak) := by
  intro _ _ _ t t' start v v' u u' read read'
  rcases finalBreakSome read with line | ⟨rfl, rfl⟩
  · rcases finalBreakSome read' with line' | ⟨rfl, rfl⟩
    · exact .same (lineBreakLoose start line line')
    · exact .same (Respaced.blank (lineBreakBlank (looseNil start.symm) line) rfl).loose
  · rcases finalBreakSome read' with line' | ⟨rfl, rfl⟩
    · exact .same (Respaced.blank rfl (lineBreakBlank (looseNil start) line')).loose
    · exact .same start

theorem heldFinal : Leads (Held .withinLine) finalBreak never := by
  intro t v u held read
  rcases finalBreakSome read with line | ⟨rfl, _⟩
  · exact heldBreaks held line
  · exact heldNil held

theorem alikeStructureEnd : Alike A Loose Loose silent never (fun _ => structureEnd) := by
  have comment : Leads AtComment finalBreak never := by
    intro t v u comment read
    rcases finalBreakSome read with line | ⟨rfl, _⟩
    · exact commentBreaks comment line
    · obtain ⟨w, same | same⟩ := comment <;> contradiction
  refine .skip .withinLine ?_ fun _ _ => stuckOnly (leadsBind (leadsTried heldComment) fun _ => heldFinal)
  exact alikeComment.behind (fun _ => alikeFinalBreak) fun _ _ _ => comment

theorem blockedStructureEnd {B : List Char → Prop} : Leads (Blocked .withinLine) structureEnd B :=
  leadsSkip (leadsBind (leadsTried heldComment) fun _ => fun _ _ _ held read => absurd (heldFinal held read) id)

end

def entryItem (body : Reader (List Placed)) : Reader Structure := do return (← entry body).item

theorem entryItemSome {v : Structure} (read : entryItem body t = some (v, u)) : ∃ p w x, placed body t = some (p, w) ∧
    p.item = v ∧ structureEnd w = some ((), x) ∧ skipTrivia .acrossLines x = u := by
  obtain ⟨_, _, reads, last⟩ := bindSome.mp read
  obtain ⟨rfl, rfl⟩ := pureSome.mp last
  obtain ⟨p, w, places, reads⟩ := bindSome.mp reads
  obtain ⟨_, x, ends, reads⟩ := bindSome.mp reads
  obtain ⟨_, y, skips, reads⟩ := bindSome.mp reads
  obtain ⟨rfl, rfl⟩ := pureSome.mp reads
  exact ⟨p, w, x, places, rfl, ends, skipSome.mp skips⟩

theorem shortEntryItem (tail : Tail body) : Short (entryItem body) :=
  shortBind (shortEntry tail) fun _ => tailPure _

theorem entryHead {v : Structure} (read : entryItem body t = some (v, u)) : ∃ c w, t = c :: w ∧ startsIdentifier c = true := by
  obtain ⟨p, w, x, places, _⟩ := entryItemSome read
  have parsed := placedReads places
  generalize p.item = item at parsed
  cases parsed with
  | assigned header =>
      obtain ⟨c, w, rfl, start, _⟩ := identifierSome.mp header
      exact ⟨c, w, rfl, start⟩
  | block header =>
      obtain ⟨c, w, rfl, start, _⟩ := identifierSome.mp header
      exact ⟨c, w, rfl, start⟩

theorem entriesRun {items : List Placed} (run : Run (entry body) t items u) :
    Run (entryItem body) t (items.map Placed.item) u := by
  refine run.view (fun t p u read => bindSome.mpr ⟨p, u, read, rfl⟩) fun t fails => ?_
  refine Option.eq_none_iff_forall_ne_some.mpr fun p read => ?_
  obtain ⟨_, _, read, _⟩ := bindSome.mp read
  rw [fails] at read
  contradiction

theorem entryAlike {bound bound' : List Char} (alike : BodyAlike bound bound') (within : t.length ≤ bound.length + 1)
    (within' : t'.length ≤ bound'.length + 1) (start : Respaced t t') {v v' : Structure}
    (read : entryItem (bodyUpTo bound) t = some (v, u)) (read' : entryItem (bodyUpTo bound') t' = some (v', u')) :
    Outcome Respaced Structure.literals (Stuck .acrossLines) v v' u u' := by
  obtain ⟨p, w, x, places, rfl, ends, rfl⟩ := entryItemSome read
  obtain ⟨p', w', x', places', rfl, ends', rfl⟩ := entryItemSome read'
  rcases (parsedAlike alike within within' start (placedReads places) (placedReads places')).or with
    ⟨same, rest⟩ | texts | barred | barred
  · have finishes : Alike (fun _ _ : Unit => True) Loose Loose silent never (fun _ => structureEnd) := alikeStructureEnd
    rcases (@finishes () () trivial _ _ rest.loose _ _ _ _ ends ends').or with ⟨_, loose⟩ | texts | barred | barred
    · rw [same]
      rcases skipReady (e := .acrossLines) loose with tight | stuck | stuck
      · exact .same tight
      · exact .left stuck
      · exact .right stuck
    · exact absurd rfl texts.ne
    · exact absurd barred id
    · exact absurd barred id
  · exact .differ texts
  · exact absurd (blockedStructureEnd (B := never) barred ends) id
  · exact absurd (blockedStructureEnd (B := never) barred ends') id

theorem stuckUnfinished (stuck : Stuck .acrossLines t) : Unfinished t := by
  refine ⟨?_, ?_⟩
  · rintro rfl
    cases stuck
  · rintro w rfl
    exact stuckHead (by decide) (by decide) stuck

theorem stuckEntry (stuck : Stuck .acrossLines t) : entryItem body t = none := by
  refine Option.eq_none_iff_forall_ne_some.mpr fun p read => ?_
  obtain ⟨c, w, rfl, start⟩ := entryHead read
  exact stuckHead (identifierHead start).1 (identifierHead start).2.1 stuck

theorem bodyLiteralsFlatMap (items : Body) : bodyLiterals items = items.flatMap Structure.literals := by
  induction items with
  | nil => rfl
  | cons item rest ih => rw [bodyLiterals, ih, List.flatMap_cons]

theorem bodyReads {b : Char} {bound : List Char} {items : List Placed} (read : bodyUpTo (b :: bound) t = some (items, u)) :
    Run (entry (bodyUpTo bound)) (skipTrivia .acrossLines t) items u := by
  obtain ⟨_, w, skips, read⟩ := bindSome.mp read
  obtain ⟨found, x, entries, read⟩ := bindSome.mp read
  rw [skipSome.mp skips]
  split at read
  · obtain ⟨rfl, rfl⟩ := pureSome.mp read
    exact manyRun (shortEntry (tailBodyUpTo bound)) entries
  · exact absurd read failureSome

theorem bodyBlank {bound : List Char} {items : List Placed} (all : allBlank t = true)
    (read : bodyUpTo bound t = some (items, u)) : items = [] ∧ allBlank u = true := by
  cases bound with
  | nil =>
      obtain ⟨rfl, rfl⟩ := pureSome.mp read
      exact ⟨rfl, all⟩
  | cons b bound =>
      have all' := allBlankTail all (skipStopped .acrossLines t).2
      have run := entriesRun (bodyReads read)
      have fails : entryItem (bodyUpTo bound) (skipTrivia .acrossLines t) = none := by
        refine Option.eq_none_iff_forall_ne_some.mpr fun p read => ?_
        obtain ⟨c, w, same, start⟩ := entryHead read
        rw [same] at all'
        have blank := (allBlankCons.mp all').1
        rw [(identifierHead start).1] at blank
        contradiction
      obtain ⟨none, rfl⟩ := runAtEnd fails run
      exact ⟨List.map_eq_nil_iff.mp none, all'⟩

structure InBounds (bound bound' t t' : List Char) : Prop where
  tight : Respaced t t'
  within : t.length ≤ bound.length + 1
  within' : t'.length ≤ bound'.length + 1

theorem entriesAlike {bound bound' : List Char} (alike : BodyAlike bound bound') (within : t.length ≤ bound.length + 1)
    (within' : t'.length ≤ bound'.length + 1) (start : Respaced t t') {items items' : Body}
    (run : Run (entryItem (bodyUpTo bound)) t items u) (run' : Run (entryItem (bodyUpTo bound')) t' items' u') :
    Outcome Respaced bodyLiterals Unfinished items items' u u' := by
  have alone {s s' y : List Char} {v : Structure} {bound : List Char} (start : Respaced s s')
      (read : entryItem (bodyUpTo bound) s = some (v, y)) : Unfinished s' := by
    obtain ⟨c, w, rfl, starts⟩ := entryHead read
    obtain ⟨w', rfl, _⟩ := start.inside (continuesInside (startsContinues starts))
    refine ⟨by simp, fun x same => ?_⟩
    rw [(List.cons.inj same).1] at starts
    exact absurd starts (by decide)
  have shorter {s y : List Char} {v : Structure} {bound : List Char} {n : Nat} (within : s.length ≤ n)
      (read : entryItem (bodyUpTo bound) s = some (v, y)) : y.length ≤ n :=
    Nat.le_trans (shortEntryItem (tailBodyUpTo bound) read).1.length_le within
  have each {s s' y y' : List Char} {v v' : Structure} (start : InBounds bound bound' s s')
      (read : entryItem (bodyUpTo bound) s = some (v, y)) (read' : entryItem (bodyUpTo bound') s' = some (v', y')) :
      Outcome (InBounds bound bound') Structure.literals (Stuck .acrossLines) v v' y y' := by
    rcases (entryAlike alike start.within start.within' start.tight read read').or with ⟨rfl, rest⟩ | texts | barred | barred
    · exact .same ⟨rest, shorter start.within read, shorter start.within' read'⟩
    · exact .differ texts
    · exact .left barred
    · exact .right barred
  have ends {s : List Char} (bound : List Char) (stuck : Stuck .acrossLines s) :
      entryItem (bodyUpTo bound) s = none ∧ Unfinished s := ⟨stuckEntry stuck, stuckUnfinished stuck⟩
  have whole : Outcome (InBounds bound bound') (List.flatMap Structure.literals) Unfinished items items' u u' :=
    runAlike (fun start _ _ _ _ read read' => each start read read') (fun stuck => ends bound stuck)
      (fun stuck => ends bound' stuck) (fun start _ _ read _ => alone start.tight read)
      (fun start _ _ read _ => alone start.tight.symm read) ⟨start, within, within'⟩ run run'
  rcases whole.or with ⟨rfl, rest, _⟩ | texts | barred | barred
  · exact .same rest
  · refine .differ ?_
    rwa [bodyLiteralsFlatMap, bodyLiteralsFlatMap]
  · exact .left barred
  · exact .right barred

theorem bodyAlike (bound bound' : List Char) : BodyAlike bound bound' := by
  induction bound generalizing bound' with
  | nil =>
      intro t t' within _ start v v' u u' read read'
      cases List.length_eq_zero_iff.mp (Nat.le_zero.mp within)
      obtain ⟨rfl, all⟩ := bodyBlank rfl read
      obtain ⟨rfl, all'⟩ := bodyBlank (looseNil start) read'
      exact .same (.blank all all')
  | cons b bound ih =>
      intro t t' within within' start v v' u u' read read'
      cases bound' with
      | nil =>
          cases List.length_eq_zero_iff.mp (Nat.le_zero.mp within')
          obtain ⟨rfl, all⟩ := bodyBlank (looseNil start.symm) read
          obtain ⟨rfl, all'⟩ := bodyBlank rfl read'
          exact .same (.blank all all')
      | cons b' bound' =>
          have run := entriesRun (bodyReads read)
          have run' := entriesRun (bodyReads read')
          have less := Nat.le_trans (skipStopped .acrossLines t).2.length_le within
          have less' := Nat.le_trans (skipStopped .acrossLines t').2.length_le within'
          rcases skipReady (e := .acrossLines) start with tight | stuck | stuck
          · exact entriesAlike (ih bound') less less' tight run run'
          · obtain ⟨_, rfl⟩ := runAtEnd (stuckEntry stuck) run
            exact .left (stuckUnfinished stuck)
          · obtain ⟨_, rfl⟩ := runAtEnd (stuckEntry stuck) run'
            exact .right (stuckUnfinished stuck)

theorem parseReads {v : Body} (read : parse? t = some v) : ∃ items, bodyUpTo t t = some (items, []) ∧
    items.map Placed.item = v := by
  obtain ⟨items, places, rfl⟩ := Option.map_eq_some_iff.mp read
  unfold parsePlaced? at places
  split at places
  · rename_i found
    cases places
    exact ⟨items, found, rfl⟩
  · contradiction

/-- White space in front of a body either does not count, or nothing is read at all. -/
theorem bodyBehindBlank {front bound : List Char} {items : List Placed} (all : allBlank front = true)
    (enough : (front ++ t).length ≤ bound.length) (read : bodyUpTo bound (front ++ t) = some (items, [])) :
    bodyUpTo bound t = some (items, []) := by
  cases bound with
  | nil =>
      obtain ⟨rfl, rfl⟩ := List.append_eq_nil_iff.mp (List.length_eq_zero_iff.mp (Nat.le_zero.mp enough))
      exact read
  | cons b bound =>
      rcases skipBlank all t with same | stuck
      · obtain ⟨_, w, skips, read⟩ := bindSome.mp read
        obtain rfl := skipSome.mp skips
        rw [same] at read
        exact bindSome.mpr ⟨(), _, skipSome.mpr rfl, read⟩
      · obtain ⟨_, ends⟩ := runAtEnd (stuckEntry stuck) (entriesRun (bodyReads read))
        exact absurd ends.symm (stuckUnfinished stuck).1

/-- Two documents that are respaced behind white space say the same, or what they say literally parts
somewhere. -/
theorem parseAlike {front : List Char} {v v' : Body} (all : allBlank front = true) (h : Loose t t')
    (read : parse? (front ++ t) = some v) (read' : parse? t' = some v') :
    v = v' ∨ Differ (bodyLiterals v) (bodyLiterals v') := by
  obtain ⟨items, found, rfl⟩ := parseReads read
  obtain ⟨items', found', rfl⟩ := parseReads read'
  have within : t.length ≤ (front ++ t).length := by
    rw [List.length_append]
    exact Nat.le_add_left _ _
  have behind := bodyBehindBlank all (Nat.le_refl _) found
  rcases (bodyAlike (front ++ t) t' within (Nat.le_refl _) h behind found').or with ⟨same, _⟩ | texts | barred | barred
  · exact .inl same
  · exact .inr texts
  · exact absurd rfl barred.1
  · exact absurd rfl barred.1

end DeclOrder.Hcl
