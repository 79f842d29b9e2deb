import DeclOrder.Proofs.Hcl.Cut.Expression
import DeclOrder.Proofs.Hcl.Document

/-! Structures in front of a brace, and a block that the brace closes: it is the same block in front of any
other text, if every heredoc in it has a text. -/
namespace DeclOrder.Hcl
open Text Reader Read

variable {s s' : List Char} {n : Nat} {c : Char} {x t u w bound bound' : List Char}

theorem repeatsFullExpression :
    Repeats s s' n (fun e => e.filled = true) (Caught s .withinLine) (fullExpression .line) (fullExpression .line) := by
  refine ⟨(shortFullExpression _).tail, fun {x} _ {v u} read filled => ?_⟩
  have enough : x.length ≤ (x ++ '}' :: s').length := by
    rw [List.length_append]
    exact Nat.le_add_right _ _
  exact ((innerAhead s s' (x ++ '}' :: s) enough).expression .line).again (Nat.le_refl _) read filled

theorem fullExpressionStalls {e : Extent} : Leads (Stalled e) (fullExpression .line) never := fun t _ _ stalled read =>
  expressionStalls (innerRegular t) .line e stalled read

theorem repeatsAttributeValue :
    Repeats s s' n (fun e => e.filled = true) (Caught s .withinLine) attributeValue attributeValue :=
  .token (localChar (by decide)) (tailChar _) fun _ => .skip .withinLine repeatsFullExpression (refusesAny fullExpressionStalls)

theorem repeatsDefinition :
    Repeats s s' n (fun d => d.filled = true) (Caught s .withinLine) definition definition := by
  refine .token localIdentifier shortIdentifier.tail fun name => .skip .withinLine ?_ ?_
  · exact repeatsAttributeValue.map fun _ => id
  · exact refusesBind (refusesBind (stalledOnly (haltedChar (by decide))))

def Unclosing (t : List Char) : Prop := ∀ w, t ≠ '}' :: w

theorem haltedUnclosing {e : Extent} (halted : Halted e t) : Unclosing t := by
  rintro w rfl
  exact haltedHead (by decide) halted

theorem identifierUnclosing (start : startsIdentifier c = true) : Unclosing (c :: t) :=
  fun _ same => identifierNoBrace start (List.cons.inj same).1

def lineItems : Reader Body := do
  gap
  let item ← tried definition
  gap
  return item.toList

theorem tailLineItems : Tail lineItems :=
  tailBind (tailTrivia _) fun _ => tailBind (tailTried shortDefinition.tail) fun _ => tailBind (tailTrivia _) fun _ => tailPure _

def Missed (s t : List Char) : Prop := Caught s .withinLine t ∨ ∃ c w, t = c :: w ∧ startsIdentifier c = true

theorem identifierStays {e : Extent} (start : startsIdentifier c = true) : skipTrivia e (c :: t) = c :: t := by
  refine skipStop (triviumOther fun member => ?_)
  simp only [List.mem_cons, List.not_mem_nil, or_false] at member
  rcases member with rfl | rfl | rfl | rfl | rfl | rfl <;> exact absurd start (by decide)

theorem missedUnclosing {v : Body} : Leads (Missed s) (do gap; return v) fun u => Past s u ∨ Unclosing u := by
  rintro t x u (caught | ⟨c, w, rfl, start⟩) read
  · exact caughtSkip (tailPure v) (leadsPure v fun _ halted => .inr (haltedUnclosing halted)) caught read
  · obtain ⟨_, y, skips, last⟩ := bindSome.mp read
    rw [← (pureSome.mp last).2, ← skipSome.mp skips, identifierStays start]
    exact .inr (identifierUnclosing start)

theorem definitionStalls {e : Extent} : Leads (Stalled e) definition never := refusesBind identifierStalls

theorem repeatsLineItems : Repeats s s' n (fun b => bodyFilled b = true) Unclosing lineItems lineItems := by
  have item : Repeats s s' n (Optionally fun d => d.filled = true) (Missed s) (tried definition) (tried definition) := by
    refine (repeatsDefinition.barred fun _ => .inr ∘ .inl).tried fun {x v u} read _ => ?_
    obtain ⟨_, _, name, _⟩ := bindSome.mp read
    obtain ⟨c, w, whole, start, _⟩ := identifierSome.mp name
    obtain ⟨w', same⟩ := sameHead (identifierNoBrace start) whole
    exact .inr ⟨c, w', same, start⟩
  have unclosing (v : Body) : Leads (Stalled .withinLine) (pure v : Reader Body) fun u => Past s u ∨ Unclosing u :=
    leadsPure _ fun _ stalled => .inr (haltedUnclosing (.stalled stalled))
  refine .skip .withinLine (item.bind (fun found => .skip .withinLine (repeatsPure _) (unclosing _)) (fun found => ?_) fun found => ?_) ?_
  · refine keepsBind fun _ => keepsPure fun filled => ?_
    cases found with
    | none => trivial
    | some d => exact (Bool.and_eq_true_iff.mp filled).1
  · exact missedUnclosing
  · refine leadsBind (leadsTried definitionStalls) fun found t v u stalled read => ?_
    exact missedUnclosing (.inl (haltedCaught (.stalled stalled))) read

def heldItems (items : Reader Body) : Reader Body := do
  if ← given lineEnd then items else lineItems

theorem tailHeldItems {items : Reader Body} (tail : Tail items) : Tail (heldItems items) := by
  refine tailBind (tailGiven tailLineEnd) fun ends => ?_
  split
  · exact tail
  · exact tailLineItems

def Continued (s t : List Char) : Prop := Past s (skipTrivia .withinLine t) ∨
  ∀ c w, skipTrivia .withinLine t = c :: w → startsIdentifier c = false ∧ c ≠ '}'

theorem lineEndContinued {v : Unit} (read : lineEnd (x ++ '}' :: s') = some (v, u)) : Continued s (x ++ '}' :: s) := by
  obtain ⟨_, w, skips, read⟩ := bindSome.mp read
  obtain ⟨comments, y, tries, breaks⟩ := bindSome.mp read
  have head : ∃ d z, w = d :: z ∧ d ∈ ['#', '/', '\n', '\r'] := by
    rcases triedSome.mp tries with ⟨_, _, comment⟩ | ⟨_, rfl, _⟩
    · rcases lineCommentHead (commentSome.mp comment) with ⟨z, rfl, _⟩ | ⟨z, rfl, _⟩
      · exact ⟨_, _, rfl, by decide⟩
      · exact ⟨_, _, rfl, by decide⟩
    · rcases lineBreakSome.mp breaks with rfl | rfl
      · exact ⟨_, _, rfl, by decide⟩
      · exact ⟨_, _, rfl, by decide⟩
  have away (d : Char) (member : d ∈ ['#', '/', '\n', '\r']) : startsIdentifier d = false ∧ d ≠ '}' := by
    simp only [List.mem_cons, List.not_mem_nil, or_false] at member
    rcases member with rfl | rfl | rfl | rfl <;> decide
  rcases skipCut s s' .withinLine x with ⟨z, here, there⟩ | past | stalled
  · obtain ⟨d, q, rfl, member⟩ := head
    obtain ⟨q', same⟩ := sameHead (s := s) (away d member).2 (there.symm.trans (skipSome.mp skips))
    refine .inr fun c w whole => ?_
    rw [here, same] at whole
    rw [← (List.cons.inj whole).1]
    exact away d member
  · exact .inl past
  · refine .inr fun c w whole => ?_
    rw [whole] at stalled
    cases stalled with
    | block => exact away '/' (by decide)

theorem continuedUnclosing : Leads (Continued s) lineItems fun u => Past s u ∨ Unclosing u := by
  intro t v u continued read
  obtain ⟨_, w, skips, read⟩ := bindSome.mp read
  have skipped := skipSome.mp skips
  obtain ⟨item, y, tries, read⟩ := bindSome.mp read
  obtain ⟨_, z, skips', last⟩ := bindSome.mp read
  obtain ⟨_, rfl⟩ := pureSome.mp last
  rcases continued with past | away
  · rw [skipped] at past
    exact .inl (pastTail (pastTail past (tailTried shortDefinition.tail tries)) (tailTrivia _ skips'))
  · rcases triedSome.mp tries with ⟨_, _, reads⟩ | ⟨_, rfl, _⟩
    · obtain ⟨_, _, name, _⟩ := bindSome.mp reads
      obtain ⟨c, q, same, start, _⟩ := identifierSome.mp name
      rw [(away c q (skipped.trans same)).1] at start
      contradiction
    · refine .inr fun q same => ?_
      have again := skipSome.mp skips'
      rw [← skipped, skipTwice, same] at again
      exact (away '}' q again).2 rfl

theorem repeatsHeldItems {items items' : Reader Body}
    (h : Repeats s s' n (fun b => bodyFilled b = true) Unclosing items items') :
    Repeats s s' n (fun b => bodyFilled b = true) Unclosing (heldItems items) (heldItems items') := by
  refine ⟨tailHeldItems h.tail, fun {x} within {v u} read filled => ?_⟩
  obtain ⟨ends, w, look, read⟩ := bindSome.mp read
  rcases givenSome.mp look with ⟨rfl, found⟩ | ⟨rfl, rfl, fails⟩
  · rcases repeatsLineEnd.again within found trivial with ⟨y, rfl, found'⟩ | past | barred
    · have less := leftBefore (tailLineEnd found)
      exact (h.again (Nat.le_trans less within) read filled).imp_left fun ⟨z, left, again⟩ =>
        ⟨z, left, bindSome.mpr ⟨true, _, givenSome.mpr (.inl ⟨rfl, found'⟩), again⟩⟩
    · exact .inr (.inl (pastTail past (h.tail read)))
    · exact absurd barred id
  · cases found : lineEnd (x ++ '}' :: s') with
    | none => exact (repeatsLineItems.again within read filled).imp_left fun ⟨z, left, again⟩ =>
        ⟨z, left, bindSome.mpr ⟨false, _, givenSome.mpr (.inr ⟨rfl, rfl, found⟩), again⟩⟩
    | some p => exact .inr (continuedUnclosing (lineEndContinued (found : _ = some (p.1, p.2))) read)

def bodyItems (bound : List Char) : Reader Body := do return (← bodyUpTo bound).map Placed.item

theorem blockBodyIff {items : Body} : blockBody (bodyUpTo bound) t = some (items, u) ↔
    ∃ w, t = '{' :: w ∧ heldItems (bodyItems bound) w = some (items, '}' :: u) := by
  constructor
  · intro read
    obtain ⟨_, w, brace, read⟩ := bindSome.mp read
    refine ⟨w, charSome.mp brace, ?_⟩
    obtain ⟨ends, x, look, read⟩ := bindSome.mp read
    refine bindSome.mpr ⟨ends, x, look, ?_⟩
    cases ends with
    | true =>
        obtain ⟨placed, y, body, read⟩ := bindSome.mp read
        obtain ⟨_, z, closes, last⟩ := bindSome.mp read
        obtain ⟨rfl, rfl⟩ := pureSome.mp last
        exact bindSome.mpr ⟨placed, y, body, pureSome.mpr ⟨rfl, charSome.mp closes⟩⟩
    | false =>
        obtain ⟨_, y, skips, read⟩ := bindSome.mp read
        obtain ⟨item, z, tries, read⟩ := bindSome.mp read
        obtain ⟨_, q, skips', read⟩ := bindSome.mp read
        obtain ⟨_, r, closes, last⟩ := bindSome.mp read
        obtain ⟨rfl, rfl⟩ := pureSome.mp last
        refine bindSome.mpr ⟨(), y, skips, bindSome.mpr ⟨item, z, tries, bindSome.mpr ⟨(), q, skips', ?_⟩⟩⟩
        exact pureSome.mpr ⟨rfl, charSome.mp closes⟩
  · rintro ⟨w, rfl, read⟩
    refine bindSome.mpr ⟨(), w, charSome.mpr rfl, ?_⟩
    obtain ⟨ends, x, look, read⟩ := bindSome.mp read
    refine bindSome.mpr ⟨ends, x, look, ?_⟩
    cases ends with
    | true =>
        obtain ⟨placed, y, body, last⟩ := bindSome.mp read
        obtain ⟨rfl, rfl⟩ := pureSome.mp last
        exact bindSome.mpr ⟨placed, _, body, bindSome.mpr ⟨(), u, charSome.mpr rfl, rfl⟩⟩
    | false =>
        obtain ⟨_, y, skips, read⟩ := bindSome.mp read
        obtain ⟨item, z, tries, read⟩ := bindSome.mp read
        obtain ⟨_, q, skips', last⟩ := bindSome.mp read
        obtain ⟨rfl, rfl⟩ := pureSome.mp last
        refine bindSome.mpr ⟨(), y, skips, bindSome.mpr ⟨item, z, tries, bindSome.mpr ⟨(), _, skips', ?_⟩⟩⟩
        exact bindSome.mpr ⟨(), u, charSome.mpr rfl, rfl⟩

theorem labelWord (noQuote : ∀ w, t ≠ '"' :: w) : label t = (do return .word (← identifier) : Reader Label) t := by
  rw [label, bindReads (leftSome.mpr ⟨rfl, rfl⟩)]
  split
  · exact absurd rfl (noQuote _)
  · rfl

theorem repeatsLabel : Repeats s s' n (fun _ => True) never label label := by
  have text : Repeats s s' n (fun _ => True) never quotedText quotedText := repeatsQuotedText
  have quoted : Repeats s s' n (fun _ => True) never (do return .quoted (← quotedText) : Reader Label)
      (do return .quoted (← quotedText)) := text.map fun _ _ => trivial
  have named : Repeats s s' n (fun _ => True) never (do return .word (← identifier) : Reader Label)
      (do return .word (← identifier)) := .token localIdentifier shortIdentifier.tail fun _ => repeatsPure _
  refine ⟨shortLabel.tail, fun {x} within {l u} read _ => ?_⟩
  cases x with
  | nil =>
      obtain ⟨c, w, whole, _, other⟩ := labelHead read
      rw [← (List.cons.inj whole).1] at other
      exact absurd other (by decide)
  | cons c x =>
      by_cases quote : c = '"'
      · subst quote
        exact quoted.again within read trivial
      have noQuote (w t : List Char) (same : c :: x ++ '}' :: t = '"' :: w) : False := quote (List.cons.inj same).1
      rw [labelWord (noQuote · s)] at read
      rw [labelWord (noQuote · s')]
      exact named.again within read trivial

theorem labelStalls {e : Extent} : Leads (Stalled e) label never := by
  intro t l u stalled read
  obtain ⟨c, w, rfl, _, other⟩ := labelHead read
  refine stalledHead (fun member => other ?_) stalled
  simp only [List.mem_cons, List.not_mem_nil, or_false] at member ⊢
  rcases member with rfl | rfl <;> simp

def Unbraced (s t : List Char) : Prop := Past s (skipTrivia .withinLine t) ∨ Braceless t

theorem repeatsLabels : Repeats s s' n (fun _ => True) (Unbraced s) (many namedLabel) (many namedLabel) := by
  have short : Short namedLabel := shortBehind (tailTrivia _) fun _ => shortLabel
  have name : Repeats s s' n (fun _ => True) never namedLabel namedLabel :=
    .skip .withinLine repeatsLabel (refusesAny labelStalls)
  refine (name.many short short (fun _ => False.elim) fun {x l u} read _ => ?_).keeping fun _ _ _ _ _ _ _ => trivial
  obtain ⟨_, w, skips, read⟩ := bindSome.mp read
  obtain ⟨c, z, rfl, _, other⟩ := labelHead read
  rcases skipCut s s' .withinLine x with ⟨y, here, there⟩ | past | stalled
  · have noBrace : c ≠ '}' := by
      rintro rfl
      exact absurd other (by decide)
    obtain ⟨z', same⟩ := sameHead (s := s) noBrace (there.symm.trans (skipSome.mp skips))
    refine .inr fun q brace => ?_
    rw [here, same] at brace
    rw [(List.cons.inj brace).1] at other
    exact absurd other (by decide)
  · exact .inl past
  · refine .inr fun q brace => ?_
    rw [brace] at stalled
    exact stalledHead (by decide) stalled

theorem labelsView : many namedLabel = (do return (← many placedLabel).map Prod.fst) := by
  have view : namedLabel = (do return (← placedLabel).1) := by
    funext t
    refine Option.ext fun q => ?_
    constructor
    · intro read
      obtain ⟨_, w, skips, read⟩ := bindSome.mp (show namedLabel t = some (q.1, q.2) from read)
      exact bindSome.mpr ⟨(q.1, q.2), q.2, bindSome.mpr ⟨(), w, skips, bindSome.mpr ⟨q.1, q.2, read, rfl⟩⟩, rfl⟩
    · intro read
      obtain ⟨p, w, places, last⟩ := bindSome.mp (show (do return (← placedLabel).1 : Reader Label) t = some (q.1, q.2) from read)
      obtain ⟨_, w, skips, places⟩ := bindSome.mp places
      obtain ⟨l, y, reads, places⟩ := bindSome.mp places
      obtain ⟨_, _, here, places⟩ := bindSome.mp places
      obtain ⟨rfl, rfl⟩ := leftSome.mp here
      obtain ⟨rfl, rfl⟩ := pureSome.mp places
      obtain ⟨same, rfl⟩ := pureSome.mp last
      exact bindSome.mpr ⟨(), w, skips, same ▸ reads⟩
  rw [view, manyView]

def placedItem (body : Reader (List Placed)) : Reader Structure := do return (← placed body).item

def heldBlock (items : Reader Body) (name : String) : Reader Structure := do
  let labels ← many namedLabel
  gap
  char '{'
  return .block name labels (← heldItems items)

def assigns (t : List Char) : Bool := (skipTrivia .withinLine t).head? == some '='

def namedStructure (items : Reader Body) (name : String) : Reader Structure := do
  if assigns (← left) then
    gap
    return .attribute name (← attributeValue)
  else
    let block ← heldBlock items name
    char '}'
    return block

theorem assignsIff : assigns t = true ↔ ∃ w, skipTrivia .withinLine t = '=' :: w := by
  rw [assigns, beq_iff_eq, List.head?_eq_some_iff]

theorem placedBlock {body : Reader (List Placed)} {name : String} {labels : List (Label × List Char)} {items : Body}
    (header : identifier t = some (name, w)) (noEquals : ∀ x, skipTrivia .withinLine w ≠ '=' :: x)
    (names : many placedLabel w = some (labels, x)) (read : blockBody body (skipTrivia .withinLine x) = some (items, u)) :
    placed body t =
      some (⟨.block name (labels.map Prod.fst) items, t, (labels.getLast?.map Prod.snd).getD w, u⟩, u) := by
  refine bindSome.mpr ⟨t, t, leftSome.mpr ⟨rfl, rfl⟩, bindSome.mpr ⟨name, w, header, ?_⟩⟩
  refine bindSome.mpr ⟨w, w, leftSome.mpr ⟨rfl, rfl⟩, bindSome.mpr ⟨(), _, skipSome.mpr rfl, ?_⟩⟩
  refine bindSome.mpr ⟨_, _, leftSome.mpr ⟨rfl, rfl⟩, ?_⟩
  generalize skipTrivia .withinLine w = ahead at noEquals
  split
  · exact absurd rfl (noEquals _)
  · exact bindSome.mpr ⟨(), w, setSome.mpr rfl, bindSome.mpr ⟨labels, x, names, bindSome.mpr ⟨(), _, skipSome.mpr rfl,
      bindSome.mpr ⟨items, u, read, rfl⟩⟩⟩⟩

theorem Parsed.placed {body : Reader (List Placed)} {v : Structure} (h : Parsed body t v u) :
    ∃ header, placed body t = some (⟨v, t, header, u⟩, u) := by
  cases h with
  | @assigned name w _ value header equals read =>
      obtain ⟨x, equals⟩ := equals
      refine ⟨w, ?_⟩
      refine bindSome.mpr ⟨t, t, leftSome.mpr ⟨rfl, rfl⟩, bindSome.mpr ⟨name, w, header, ?_⟩⟩
      refine bindSome.mpr ⟨w, w, leftSome.mpr ⟨rfl, rfl⟩, bindSome.mpr ⟨(), _, skipSome.mpr equals, ?_⟩⟩
      rw [equals] at read
      exact bindSome.mpr ⟨_, _, leftSome.mpr ⟨rfl, rfl⟩, bindSome.mpr ⟨value, u, read, rfl⟩⟩
  | block header noEquals names read => exact ⟨_, placedBlock header noEquals names read⟩

theorem namedLabels {ls : List Label} : many namedLabel t = some (ls, u) ↔
    ∃ labels, many placedLabel t = some (labels, u) ∧ labels.map Prod.fst = ls := by
  rw [labelsView]
  constructor
  · intro read
    obtain ⟨labels, _, names, last⟩ := bindSome.mp read
    obtain ⟨rfl, rfl⟩ := pureSome.mp last
    exact ⟨labels, names, rfl⟩
  · rintro ⟨labels, names, rfl⟩
    exact bindSome.mpr ⟨labels, u, names, rfl⟩

theorem parsedIff {v : Structure} : Parsed (bodyUpTo bound) t v u ↔
    (do namedStructure (bodyItems bound) (← identifier)) t = some (v, u) := by
  constructor
  · intro parsed
    cases parsed with
    | @assigned name w _ value header equals read =>
        refine bindSome.mpr ⟨name, w, header, bindSome.mpr ⟨w, w, leftSome.mpr ⟨rfl, rfl⟩, ?_⟩⟩
        rw [if_pos (assignsIff.mpr equals)]
        exact bindSome.mpr ⟨(), _, skipSome.mpr rfl, bindSome.mpr ⟨value, _, read, rfl⟩⟩
    | @block name w x _ labels items header noEquals names read =>
        refine bindSome.mpr ⟨name, w, header, bindSome.mpr ⟨w, w, leftSome.mpr ⟨rfl, rfl⟩, ?_⟩⟩
        rw [if_neg fun equals => (assignsIff.mp equals).elim noEquals]
        obtain ⟨y, brace, held⟩ := blockBodyIff.mp read
        refine bindSome.mpr ⟨_, _, ?_, bindSome.mpr ⟨(), _, charSome.mpr rfl, rfl⟩⟩
        refine bindSome.mpr ⟨_, x, namedLabels.mpr ⟨labels, names, rfl⟩, bindSome.mpr ⟨(), _, skipSome.mpr brace, ?_⟩⟩
        exact bindSome.mpr ⟨(), y, charSome.mpr rfl, bindSome.mpr ⟨items, _, held, rfl⟩⟩
  · intro read
    obtain ⟨name, w, header, read⟩ := bindSome.mp read
    obtain ⟨_, _, here, read⟩ := bindSome.mp read
    obtain ⟨rfl, rfl⟩ := leftSome.mp here
    split at read
    · rename_i equals
      obtain ⟨_, x, skips, read⟩ := bindSome.mp read
      obtain rfl := skipSome.mp skips
      obtain ⟨value, y, value, last⟩ := bindSome.mp read
      obtain ⟨rfl, rfl⟩ := pureSome.mp last
      exact .assigned header (assignsIff.mp equals) value
    · rename_i other
      obtain ⟨block, x, held, read⟩ := bindSome.mp read
      obtain ⟨_, y, closes, last⟩ := bindSome.mp read
      obtain ⟨rfl, rfl⟩ := pureSome.mp last
      obtain rfl := charSome.mp closes
      obtain ⟨ls, q, named, held⟩ := bindSome.mp held
      obtain ⟨labels, names, rfl⟩ := namedLabels.mp named
      obtain ⟨_, r, skips, held⟩ := bindSome.mp held
      obtain ⟨_, z, brace, held⟩ := bindSome.mp held
      obtain ⟨items, _, inside, last⟩ := bindSome.mp held
      obtain ⟨rfl, rfl⟩ := pureSome.mp last
      refine .block header (fun x same => other (assignsIff.mpr ⟨x, same⟩)) names (blockBodyIff.mpr ⟨z, ?_, inside⟩)
      exact (skipSome.mp skips).trans (charSome.mp brace)

theorem placedItemReads (bound : List Char) :
    placedItem (bodyUpTo bound) = (do namedStructure (bodyItems bound) (← identifier)) := by
  funext t
  refine Option.ext fun q => ?_
  obtain ⟨v, u⟩ := q
  constructor
  · intro read
    obtain ⟨p, w, places, last⟩ := bindSome.mp read
    obtain ⟨rfl, rfl⟩ := pureSome.mp last
    exact parsedIff.mp (placedReads places)
  · intro read
    obtain ⟨header, places⟩ := (parsedIff.mpr read).placed
    exact bindSome.mpr ⟨_, u, places, rfl⟩

theorem repeatsHeldBlock {items items' : Reader Body} (h : Repeats s s' n (fun b => bodyFilled b = true) Unclosing items items')
    (name : String) : Repeats s s' n (fun d => Structure.filled d = true) Unclosing (heldBlock items name) (heldBlock items' name) := by
  have inside (ls : List Label) : Repeats s s' n (fun d => Structure.filled d = true) Unclosing
      (do char '{'; return .block name ls (← heldItems items)) (do char '{'; return .block name ls (← heldItems items')) :=
    .token (localChar (by decide)) (tailChar _) fun _ => (repeatsHeldItems h).map fun _ => id
  refine repeatsLabels.bind (fun ls => .skip .withinLine (inside ls) ?_) (fun _ _ _ _ _ _ => trivial) fun ls t v u unbraced read => ?_
  · exact refusesBind (stalledOnly (haltedChar (by decide)))
  · obtain ⟨_, w, skips, read⟩ := bindSome.mp read
    rw [← skipSome.mp skips] at read
    rcases unbraced with past | braceless
    · exact .inl (pastTail past ((inside ls).tail read))
    · obtain ⟨_, y, brace, _⟩ := bindSome.mp read
      exact absurd (charSome.mp brace) (braceless y)

theorem tailHeldBlock {items : Reader Body} (tail : Tail items) (name : String) : Tail (heldBlock items name) :=
  tailBind (tailMany (tailBind (tailTrivia _) fun _ => shortLabel.tail)) fun _ => tailBind (tailTrivia _) fun _ =>
    tailBind (tailChar _) fun _ => tailBind (tailHeldItems tail) fun _ => tailPure _

theorem heldSnagged {items : Reader Body} (tail : Tail items) (name : String) :
    Leads (Snagged s .withinLine) (heldBlock items name) (Past s) := by
  have label : Leads (Snagged s .withinLine) namedLabel (Past s) := snaggedSkip shortLabel.tail labelStalls
  have labels := leadsManyPast (tailBind (tailTrivia _) fun _ => shortLabel.tail) label
  have brace (ls : List Label) : Tail (do char '{'; return .block name ls (← heldItems items) : Reader Structure) :=
    tailBind (tailChar _) fun _ => tailBind (tailHeldItems tail) fun _ => tailPure _
  refine leadsBind labels fun ls t v u barred read => ?_
  rcases barred with past | snagged
  · exact pastTail past (tailBind (tailTrivia _) (fun _ => brace ls) read)
  · exact snaggedSkip (brace ls) (refusesBind (stalledOnly (haltedChar (by decide)))) snagged read

theorem assignsCut (s s' x : List Char) :
    assigns (x ++ '}' :: s) = assigns (x ++ '}' :: s') ∨ Snagged s .withinLine (x ++ '}' :: s) := by
  rcases skipCut s s' .withinLine x with ⟨y, here, there⟩ | snagged
  · refine .inl (Bool.eq_iff_iff.mpr ?_)
    rw [assignsIff, assignsIff, here, there]
    exact (frontLocal ['='] y s (by decide)).trans (frontLocal ['='] y s' (by decide)).symm
  · exact .inr snagged

theorem repeatsNamedStructure {items items' : Reader Body}
    (h : Repeats s s' n (fun b => bodyFilled b = true) Unclosing items items') (name : String) :
    Repeats s s' n (fun d => d.filled = true) (Caught s .withinLine) (namedStructure items name) (namedStructure items' name) := by
  have assigned : Repeats s s' n (fun d => Structure.filled d = true) (Caught s .withinLine)
      (do gap; return .attribute name (← attributeValue)) (do gap; return .attribute name (← attributeValue)) :=
    .skip .withinLine (repeatsAttributeValue.map fun _ => id) (refusesBind (refusesBind (stalledOnly (haltedChar (by decide)))))
  have block : Repeats s s' n (fun d => d.filled = true) (Caught s .withinLine)
      (do let block ← heldBlock items name; char '}'; return block)
      (do let block ← heldBlock items' name; char '}'; return block) := by
    refine (repeatsHeldBlock h name).bind (fun b => ?_) (fun b => keepsBind fun _ => keepsPure id) fun b => ?_
    · exact repeatsBrace.bind (fun _ => repeatsPure _) (fun _ _ _ _ _ _ => trivial) fun _ => leadsNever
    · exact refusesBind (refusesChar fun rest unclosing => unclosing rest rfl)
  refine .fork (assignsCut s s') assigned block ?_ ?_
  · have value : Tail (do return .attribute name (← attributeValue) : Reader Structure) :=
      tailBind tailAttributeValue fun _ => tailPure _
    exact fun _ _ _ snagged read =>
      .inl (snaggedSkip value (refusesBind (refusesBind (stalledOnly (haltedChar (by decide))))) snagged read)
  · have held : Leads (Snagged s .withinLine) (heldBlock items name) (Past s) := heldSnagged h.tail name
    exact leadsBind held fun b _ _ _ past read => .inl (pastTail past (tailBind (tailChar _) (fun _ => tailPure _) read))

theorem repeatsPlacedItem (h : Repeats s s' n (fun b => bodyFilled b = true) Unclosing (bodyItems bound) (bodyItems bound')) :
    Repeats s s' (n + 1) (fun d => d.filled = true) (Caught s .withinLine) (placedItem (bodyUpTo bound))
      (placedItem (bodyUpTo bound')) := by
  rw [placedItemReads, placedItemReads]
  exact .tokenShort localIdentifier shortIdentifier fun name => repeatsNamedStructure h name

theorem tailFinalBreak : Tail finalBreak := by
  refine tailBind (tailGiven tailLineBreak) fun ends => ?_
  split
  · exact tailPure _
  · exact tailAtEnd

theorem repeatsFinalBreak : Repeats s s' n (fun _ => True) never finalBreak finalBreak := by
  refine ⟨tailFinalBreak, fun {x} within {v u} read _ => ?_⟩
  · rcases finalBreakSome read with line | ⟨none, _⟩
    · obtain ⟨y, left, line'⟩ := localLineBreak.again line s'
      exact .inl ⟨y, left, bindSome.mpr ⟨true, _, givenSome.mpr (.inl ⟨rfl, line'⟩), rfl⟩⟩
    · exact absurd none (by simp)

theorem haltedFinal : Leads (Halted .withinLine) finalBreak never := by
  intro t v u halted read
  rcases finalBreakSome read with line | ⟨rfl, _⟩
  · exact haltedBreaks halted line
  · exact haltedNil halted

theorem haltedCommentEnd : Leads (Halted .withinLine) (do let _ ← tried comment; finalBreak) never :=
  leadsBind (leadsTried haltedComment) fun _ => haltedFinal

theorem repeatsStructureEnd : Repeats s s' n (fun _ => True) never structureEnd structureEnd := by
  refine .skip .withinLine ?_ (refusesAny (stalledOnly haltedCommentEnd))
  refine repeatsComment.bind (fun _ => repeatsFinalBreak) (fun _ _ _ _ _ _ => trivial) fun _ => refusesAny ?_
  intro t v u comment read
  rcases finalBreakSome read with line | ⟨rfl, _⟩
  · exact commentBreaks comment line
  · obtain ⟨w, same | same⟩ := comment <;> contradiction

theorem entryItemReads (body : Reader (List Placed)) :
    entryItem body = (do let item ← placedItem body; structureEnd; space; return item) := by
  simp only [entryItem, entry, placedItem, bind_assoc, pure_bind]

theorem repeatsEntryItem (h : Repeats s s' n (fun b => bodyFilled b = true) Unclosing (bodyItems bound) (bodyItems bound')) :
    Repeats s s' (n + 1) (fun d => d.filled = true) (Stalled .acrossLines) (entryItem (bodyUpTo bound))
      (entryItem (bodyUpTo bound')) := by
  rw [entryItemReads, entryItemReads]
  have tailFinal : Tail (do let _ ← tried comment; finalBreak) := tailBind (tailTried tailComment) fun _ => tailFinalBreak
  have last (item : Structure) : Repeats s s' (n + 1) (fun d => d.filled = true) (Stalled .acrossLines)
      (do space; return item) (do space; return item) := .skip .acrossLines (repeatsPure _) (leadsPure _ fun _ => .inr)
  refine (repeatsPlacedItem h).bind (fun item => ?_) (fun item => ?_) fun item => ?_
  · exact repeatsStructureEnd.bind (fun _ => last item) (fun _ _ _ _ _ _ => trivial) fun _ => leadsNever
  · exact keepsBind fun _ => keepsBind fun _ => keepsPure id
  · have ends : Leads (Caught s .withinLine) structureEnd fun u => Past s u ∨ never u := caughtSkip tailFinal (refusesAny haltedCommentEnd)
    refine leadsBind ends fun _ t v u barred read => ?_
    rcases barred with past | barred
    · exact .inl (pastTail past ((last item).tail read))
    · exact absurd barred id

theorem stalledEntry {body : Reader (List Placed)} : Leads (Stalled .acrossLines) (entryItem body) never := by
  intro t v u stalled read
  obtain ⟨c, w, rfl, start⟩ := entryHead read
  exact stalledHead (identifierHead start).2.1 stalled

theorem bodyItemsReads (c : Char) (bound : List Char) : bodyItems (c :: bound) = (do
    space
    let items ← many (entryItem (bodyUpTo bound))
    if (items.filterMap Structure.attributeName?).Nodup then return items else failure) := by
  have entries : many (entryItem (bodyUpTo bound)) = (do return (← many (entry (bodyUpTo bound))).map Placed.item) :=
    manyView _ _
  have body : bodyUpTo (c :: bound) = (do
    space
    let items ← many (entry (bodyUpTo bound))
    if distinctAttributes items then return items else failure) := rfl
  rw [bodyItems, body, entries]
  simp only [bind_assoc, pure_bind]
  refine congrArg (space >>= ·) (funext fun _ => congrArg (many (entry (bodyUpTo bound)) >>= ·) (funext fun items => ?_))
  have same : distinctAttributes items = true ↔ ((items.map Placed.item).filterMap Structure.attributeName?).Nodup := by
    rw [distinctAttributes, decide_eq_true_iff, List.filterMap_map]
    rfl
  by_cases distinct : distinctAttributes items = true
  · rw [if_pos distinct, if_pos (same.mp distinct), pure_bind]
  · rw [if_neg distinct, if_neg fun nodup => distinct (same.mpr nodup)]
    rfl

theorem bodyAtBrace (bound s : List Char) : bodyItems bound ('}' :: s) = some ([], '}' :: s) := by
  cases bound with
  | nil => rfl
  | cons c bound =>
      have none : entryItem (bodyUpTo bound) ('}' :: s) = none := by
        refine Option.eq_none_iff_forall_ne_some.mpr fun p read => ?_
        obtain ⟨d, w, same, start⟩ := entryHead read
        exact identifierNoBrace start (List.cons.inj same).1.symm
      have stays : skipTrivia .acrossLines ('}' :: s) = '}' :: s := skipStop (triviumOther (by decide))
      rw [bodyItemsReads]
      refine bindSome.mpr ⟨(), _, skipSome.mpr stays, bindSome.mpr ⟨[], _, manyOfRun (.stop none) (Nat.zero_le _), ?_⟩⟩
      rfl

theorem tailBodyItems (bound : List Char) : Tail (bodyItems bound) := tailBind (tailBodyUpTo bound) fun _ => tailPure _

theorem bodyFilledAll (items : Body) : bodyFilled items = true ↔ ∀ d ∈ items, d.filled = true := by
  induction items with
  | nil => simp [bodyFilled]
  | cons d rest ih => rw [bodyFilled, Bool.and_eq_true_iff, ih, List.forall_mem_cons]

theorem repeatsEntries (inside : Repeats s s' n (fun b => bodyFilled b = true) Unclosing (bodyItems bound) (bodyItems bound')) :
    Repeats s s' (n + 1) (fun ds => ∀ d ∈ ds, d.filled = true) Unclosing
      (many (entryItem (bodyUpTo bound))) (many (entryItem (bodyUpTo bound'))) := by
  have short (bound : List Char) : Short (entryItem (bodyUpTo bound)) := shortEntryItem (tailBodyUpTo bound)
  refine (repeatsEntryItem inside).many (short _) (short _) (fun t stalled => ⟨?_, ?_⟩) fun {x v u} read _ => ?_
  · exact Option.eq_none_iff_forall_ne_some.mpr fun p read => stalledEntry stalled read
  · exact haltedUnclosing (.stalled stalled)
  · obtain ⟨d, w, whole, start⟩ := entryHead read
    obtain ⟨w', same⟩ := sameHead (s := s) (identifierNoBrace start) whole
    rw [same]
    exact identifierUnclosing start

theorem repeatsBody (enough : n + s.length < bound.length) (enough' : n ≤ bound'.length) :
    Repeats s s' n (fun b => bodyFilled b = true) Unclosing (bodyItems bound) (bodyItems bound') := by
  induction bound generalizing bound' n with
  | nil => exact absurd enough (Nat.not_lt_zero _)
  | cons c bound ih =>
      rw [List.length_cons] at enough
      cases n with
      | zero =>
          refine ⟨tailBodyItems _, fun {x} within {v u} read _ => ?_⟩
          obtain rfl := List.length_eq_zero_iff.mp (Nat.le_zero.mp within)
          obtain ⟨rfl, rfl⟩ := Prod.mk.inj (Option.some.inj ((bodyAtBrace _ _).symm.trans read))
          exact .inl ⟨[], rfl, bodyAtBrace _ _⟩
      | succ n =>
          cases bound' with
          | nil => exact absurd enough' (Nat.not_succ_le_zero n)
          | cons c' bound' =>
              have entries := repeatsEntries (@ih n bound' (by omega) (Nat.le_of_succ_le_succ enough'))
              rw [bodyItemsReads, bodyItemsReads]
              refine .skip .acrossLines (entries.bind (fun ds => ?_) (fun ds => ?_) fun ds => ?_) ?_
              · exact .if (repeatsPure _) (repeatsLocal localFailure tailFailure)
              · split
                · exact keepsPure (bodyFilledAll _).mp
                · exact fun _ _ _ read => absurd read failureSome
              · split
                · exact leadsPure _ fun _ => .inr
                · exact fun _ _ _ _ read => absurd read failureSome
              · refine leadsBind (leadsMany stalledEntry) fun ds => ?_
                split
                · exact leadsPure _ fun _ stalled => .inr (haltedUnclosing (.stalled stalled))
                · exact fun _ _ _ _ read => absurd read failureSome

theorem Repeats.upToBrace {α : Type} {whole : α → Prop} {B : List Char → Prop} {r r' : Reader α} {v : α}
    (h : Repeats s s' n whole B r r') (clear : ¬ B ('}' :: s)) (within : x.length ≤ n)
    (read : r (x ++ '}' :: s) = some (v, '}' :: s)) (good : whole v) : r' (x ++ '}' :: s') = some (v, '}' :: s') := by
  rcases h.again within read good with ⟨y, same, again⟩ | past | barred
  · cases y with
    | nil => exact again
    | cons c y =>
        have sizes := congrArg List.length same
        rw [List.length_append, List.length_cons, List.length_cons] at sizes
        omega
  · exact absurd past (notPast (x := []))
  · exact absurd barred clear

theorem blockBrace {kind : String} {labels : List Label} {items : Body}
    (read : placedItem (bodyUpTo bound) t = some (.block kind labels items, u)) : ∃ x, t = x ++ '}' :: u := by
  rw [placedItemReads] at read
  obtain ⟨name, w, header, read⟩ := bindSome.mp read
  obtain ⟨_, _, here, read⟩ := bindSome.mp read
  obtain ⟨rfl, rfl⟩ := leftSome.mp here
  split at read
  · obtain ⟨_, _, _, read⟩ := bindSome.mp read
    obtain ⟨_, _, _, last⟩ := bindSome.mp read
    exact Structure.noConfusion (pureSome.mp last).1
  · obtain ⟨b, x, held, read⟩ := bindSome.mp read
    obtain ⟨_, y, closes, last⟩ := bindSome.mp read
    obtain ⟨_, rfl⟩ := pureSome.mp last
    obtain rfl := charSome.mp closes
    obtain ⟨front, rfl⟩ := (tailHeldBlock (tailBodyItems bound) name held).trans (shortIdentifier header).1
    exact ⟨front, rfl⟩

/-- A block without a heredoc that has no text is the same block in front of any other text. -/
theorem blockAgain {kind : String} {labels : List Label} {items : Body} (enough : x.length + s.length ≤ bound.length)
    (enough' : x.length ≤ bound'.length + 1) (filled : bodyFilled items = true)
    (read : placedItem (bodyUpTo bound) (x ++ '}' :: s) = some (.block kind labels items, s)) :
    placedItem (bodyUpTo bound') (x ++ '}' :: s') = some (.block kind labels items, s') := by
  rw [placedItemReads] at read ⊢
  obtain ⟨name, w, header, read⟩ := bindSome.mp read
  obtain ⟨y, rfl, header'⟩ := localIdentifier.again header s'
  refine bindSome.mpr ⟨name, _, header', ?_⟩
  obtain ⟨_, _, here, read⟩ := bindSome.mp read
  obtain ⟨rfl, rfl⟩ := leftSome.mp here
  refine bindSome.mpr ⟨_, _, leftSome.mpr ⟨rfl, rfl⟩, ?_⟩
  split at read
  · obtain ⟨_, _, _, read⟩ := bindSome.mp read
    obtain ⟨_, _, _, last⟩ := bindSome.mp read
    exact Structure.noConfusion (pureSome.mp last).1
  · rename_i other
    obtain ⟨b, w, held, read⟩ := bindSome.mp read
    obtain ⟨_, z, closes, last⟩ := bindSome.mp read
    obtain ⟨rfl, rfl⟩ := pureSome.mp last
    obtain rfl := charSome.mp closes
    have less := (shortIdentifier header).2
    rw [List.length_append, List.length_append] at less
    have body : Repeats z s' y.length (fun b => bodyFilled b = true) Unclosing (bodyItems bound) (bodyItems bound') :=
      repeatsBody (by omega) (by omega)
    have again := (repeatsHeldBlock body name).upToBrace (fun unclosing => unclosing z rfl) (Nat.le_refl _) held filled
    rcases assignsCut z s' y with same | snagged
    · rw [if_neg (same ▸ other)]
      exact bindSome.mpr ⟨_, _, again, bindSome.mpr ⟨(), _, charSome.mpr rfl, rfl⟩⟩
    · have past := heldSnagged body.tail name snagged held
      exact absurd past (notPast (x := []))

end DeclOrder.Hcl
