import DeclOrder.Proofs.Hcl.Template

/-! The parts of a template, as runs of literal text between marks. -/
namespace DeclOrder.Hcl
open Text Reader Read

variable {inner inner' : Inner} {setting : Setting} {t t' u u' w w' : List Char} {vs vs' : List (List Char)}
  {p p' : Part} {ps ps' : List Part}

def opens (text : List Char) : Bool := opensDirective text = some (true, text)

def textParts (vs : List (List Char)) : List Part :=
  if (String.ofList vs.flatten).isEmpty then [] else [.literal (String.ofList vs.flatten)]

inductive Mark (inner : Inner) : List Char → Part → List Char → Prop where
  | interpolation {t u : List Char} {p : Part} (read : Read.interpolation inner t = some (p, u)) : Mark inner t p u
  | choice {t u : List Char} {p : Part} (starts : opens t = true) (read : Read.choice inner t = some (p, u)) : Mark inner t p u
  | loop {t u : List Char} {p : Part} (starts : opens t = true) (fails : Read.choice inner t = none)
      (read : Read.loop inner t = some (p, u)) : Mark inner t p u

def Markless (t : List Char) : Prop := (∀ rest, t ≠ '$' :: '{' :: rest) ∧ ∀ rest, t = '%' :: '{' :: rest → opens t = false

inductive Template (inner : Inner) (setting : Setting) : List Char → List Part → List Char → Prop where
  | stop {t u : List Char} {vs : List (List Char)} (text : Run (literal? setting) t vs u) (ends : Markless u) :
      Template inner setting t (textParts vs) u
  | step {t w x u : List Char} {vs : List (List Char)} {p : Part} {ps : List Part} (text : Run (literal? setting) t vs w)
      (mark : Mark inner w p x) (rest : Template inner setting x ps u) : Template inner setting t (textParts vs ++ p :: ps) u

theorem runEnd {α : Type} {r : Reader α} {vs : List α} (run : Run r t vs u) : r u = none := by
  induction run with
  | stop fails => exact fails
  | step _ _ ih => exact ih

theorem runTail {α : Type} {r : Reader α} {vs : List α} (tail : Tail r) (run : Run r t vs u) : u <:+ t := by
  induction run with
  | stop => exact List.suffix_rfl
  | step reads _ ih => exact ih.trans (tail reads)

theorem runAtEnd {α : Type} {r : Reader α} {vs : List α} (fails : r t = none) (run : Run r t vs u) : vs = [] ∧ u = t := by
  cases run with
  | stop => exact ⟨rfl, rfl⟩
  | step reads => rw [fails] at reads; contradiction

theorem literalSome (read : literal? setting t = some (w, u)) : w ≠ [] := by
  cases t with
  | nil => contradiction
  | cons c rest =>
      by_cases mark : StartsMark c rest
      · obtain ⟨isMark, x, rfl | rfl⟩ := mark
        · rw [literalMark isMark] at read
          contradiction
        · rw [literalDoubled isMark] at read
          cases read
          simp
      · rw [literalPlain mark] at read
        cases setting with
        | directive => cases read; simp
        | heredoc marker =>
            dsimp only at read
            split at read
            · contradiction
            · cases read; simp
        | quotes =>
            dsimp only at read
            split at read
            · contradiction
            · split at read
              · obtain ⟨q, _, same⟩ := Option.map_eq_some_iff.mp read
                cases same
                simp
              · cases read; simp

theorem literalReads {s : String} : literal setting t = some (s, u) →
    ∃ vs, Run (literal? setting) t vs u ∧ s = String.ofList vs.flatten := by
  intro read
  obtain ⟨vs, x, reads, read⟩ := bindSome.mp read
  obtain ⟨rfl, rfl⟩ := pureSome.mp read
  exact ⟨vs, manyRun (shortLiteral setting) reads, rfl⟩

theorem opensDirectiveSome {b : Bool} : opensDirective t = some (b, u) ↔ opens t = b ∧ t = u := by
  unfold opens
  unfold opensDirective
  dsimp only
  simp only [Option.some.injEq, Prod.mk.injEq, and_true]
  constructor
  · rintro ⟨rfl, rfl⟩
    exact ⟨by simp, rfl⟩
  · rintro ⟨rfl, rfl⟩
    exact ⟨by simp, rfl⟩

theorem Template.bare (fails : literal? setting t = none) (ends : Markless t) : Template inner setting t [] t :=
  show Template inner setting t (textParts []) t from .stop (.stop fails) ends

theorem Template.mark (fails : literal? setting t = none) (mark : Mark inner t p w) (rest : Template inner setting w ps u) :
    Template inner setting t (p :: ps) u :=
  show Template inner setting t (textParts [] ++ p :: ps) u from .step (.stop fails) mark rest

theorem Template.prepend (run : Run (literal? setting) t vs w) (h : Template inner setting w ps u) :
    Template inner setting t (textParts vs ++ ps) u := by
  cases h with
  | stop text ends =>
      obtain ⟨rfl, rfl⟩ := runAtEnd (runEnd run) text
      rw [show textParts [] = [] from rfl, List.append_nil]
      exact .stop run ends
  | step text mark rest =>
      obtain ⟨rfl, rfl⟩ := runAtEnd (runEnd run) text
      exact .step run mark rest

theorem partsBehind {r : Reader Part} {bound : List Char}
    (read : (do return (← r) :: (← partsUpTo inner setting bound) : Reader (List Part)) t = some (ps, u)) :
    ∃ p w more, r t = some (p, w) ∧ partsUpTo inner setting bound w = some (more, u) ∧ ps = p :: more := by
  obtain ⟨p, w, mark, read⟩ := bindSome.mp read
  obtain ⟨more, _, rest, read⟩ := bindSome.mp read
  obtain ⟨rfl, rfl⟩ := pureSome.mp read
  exact ⟨p, w, more, mark, rest, rfl⟩

theorem partsTemplate (tails : InnerTail inner) {bound : List Char} (enough : t.length ≤ bound.length)
    (read : partsUpTo inner setting bound t = some (ps, u)) : Template inner setting t ps u := by
  induction bound generalizing t ps with
  | nil =>
      obtain ⟨rfl, rfl⟩ := pureSome.mp read
      cases List.length_eq_zero_iff.mp (Nat.le_zero.mp enough)
      exact .bare rfl ⟨by simp, by simp⟩
  | cons b bound ih =>
      rw [List.length_cons] at enough
      obtain ⟨x, y, here, read⟩ := bindSome.mp read
      obtain ⟨rfl, rfl⟩ := leftSome.mp here
      split at read
      · obtain ⟨p, x, more, mark, rest, rfl⟩ := partsBehind read
        have less := (shortInterpolation tails mark).2
        exact .mark (literalMark (.inl rfl) _) (.interpolation mark) (ih (by omega) rest)
      · obtain ⟨found, x, look, read⟩ := bindSome.mp read
        obtain ⟨starts, rfl⟩ := opensDirectiveSome.mp look
        have noText (x : List Char) : literal? setting ('%' :: '{' :: x) = none := literalMark (.inr rfl) x
        split at read
        · rename_i isOpen
          rw [isOpen] at starts
          obtain ⟨first, x, tries, read⟩ := bindSome.mp read
          rcases triedSome.mp tries with ⟨p, rfl, mark⟩ | ⟨rfl, rfl, fails⟩
          · obtain ⟨_, _, more, keep, rest, rfl⟩ := partsBehind read
            obtain ⟨rfl, rfl⟩ := pureSome.mp keep
            have less := (shortChoice tails mark).2
            exact .mark (noText _) (.choice starts mark) (ih (by omega) rest)
          · obtain ⟨p, x, more, mark, rest, rfl⟩ := partsBehind read
            have less := (shortLoop tails mark).2
            exact .mark (noText _) (.loop starts fails mark) (ih (by omega) rest)
        · rename_i notOpen
          obtain ⟨rfl, rfl⟩ := pureSome.mp read
          rw [Bool.not_eq_true] at notOpen
          rw [notOpen] at starts
          exact .bare (noText _) ⟨by simp, fun _ _ => starts⟩
      · rename_i noMark noDirective
        obtain ⟨s, x, reads, read⟩ := bindSome.mp read
        obtain ⟨vs, run, rfl⟩ := literalReads reads
        split at read
        · rename_i empty
          obtain ⟨rfl, rfl⟩ := pureSome.mp read
          cases run with
          | stop fails => exact .bare fails ⟨noMark, fun rest same => absurd same (noDirective rest)⟩
          | step taken more =>
              exact absurd (by simpa using empty) (fun none : _ ∧ _ => literalSome taken none.1)
        · rename_i some
          obtain ⟨more, y, rest, read⟩ := bindSome.mp read
          obtain ⟨rfl, rfl⟩ := pureSome.mp read
          have less : x.length ≤ bound.length := by
            cases run with
            | stop => simp at some
            | step taken more =>
                have less := (literalTaken taken).2
                have behind := (runTail (shortLiteral setting).tail more).length_le
                omega
          have whole := (ih less rest).prepend run
          rwa [textParts, if_neg some] at whole

theorem textPartsSay : templateLiterals (textParts vs) = [String.ofList vs.flatten] := by
  unfold textParts
  split
  · rename_i empty
    rw [String.isEmpty_iff.mp empty]
    rfl
  · rfl

def Part.isMark : Part → Bool
  | .literal _ => false
  | _ => true

theorem partSays (vs : List (List Char)) (ps : List Part) (isMark : p.isMark = true) : templateLiterals (textParts vs ++ p :: ps) =
    String.ofList vs.flatten :: (p.literals ++ templateLiterals ps) := by
  unfold textParts
  split
  · rename_i empty
    rw [String.isEmpty_iff.mp empty]
    cases p <;> first | rfl | contradiction
  · rfl

theorem markIsMark (mark : Mark inner t p u) : p.isMark = true := by
  cases mark with
  | interpolation read =>
      obtain ⟨_, _, _, read⟩ := bindSome.mp read
      obtain ⟨⟨strip, value⟩, _, _, read⟩ := bindSome.mp read
      obtain ⟨rfl, _⟩ := pureSome.mp read
      rfl
  | choice _ read =>
      obtain ⟨_, _, _, read⟩ := bindSome.mp read
      obtain ⟨⟨strip, condition⟩, _, _, read⟩ := bindSome.mp read
      obtain ⟨yes, _, _, read⟩ := bindSome.mp read
      obtain ⟨otherwise, _, _, read⟩ := bindSome.mp read
      obtain ⟨close, _, _, read⟩ := bindSome.mp read
      obtain ⟨rfl, _⟩ := pureSome.mp read
      rfl
  | loop _ _ read =>
      obtain ⟨_, _, _, read⟩ := bindSome.mp read
      obtain ⟨⟨strip, names, collection⟩, _, _, read⟩ := bindSome.mp read
      obtain ⟨each, _, _, read⟩ := bindSome.mp read
      obtain ⟨close, _, _, read⟩ := bindSome.mp read
      obtain ⟨rfl, _⟩ := pureSome.mp read
      rfl

theorem interpolationStarts (read : interpolation inner t = some (p, u)) : ∃ w, t = '$' :: '{' :: w := by
  obtain ⟨_, w, start, _⟩ := bindSome.mp read
  exact ⟨w, wordSome.mp start⟩

def Directive (name : List Char) (t : List Char) : Prop :=
  ∃ s b x y, t = '%' :: '{' :: s ∧ stripMark s = some (b, x) ∧ skipTrivia .acrossLines x = name ++ y

theorem opensIff : opens t = true ↔ Directive ['i', 'f'] t ∨ Directive ['f', 'o', 'r'] t := by
  unfold opens opensDirective
  simp only [Option.some.injEq, Prod.mk.injEq, and_true, decide_eq_true_eq, Option.isSome_iff_exists]
  constructor
  · rintro ⟨⟨_, u⟩, read⟩
    obtain ⟨_, s, start, read⟩ := bindSome.mp read
    obtain ⟨b, x, strip, read⟩ := bindSome.mp read
    obtain ⟨_, y, skips, read⟩ := bindSome.mp read
    obtain ⟨isIf, z, look, read⟩ := bindSome.mp read
    rw [← skipSome.mp skips] at look
    rcases givenSome.mp look with ⟨rfl, found⟩ | ⟨rfl, rfl, _⟩
    · exact .inl ⟨s, b, x, z, wordSome.mp start, strip, wordSome.mp found⟩
    · exact .inr ⟨s, b, x, u, wordSome.mp start, strip, wordSome.mp read⟩
  · have reads (name : List Char) (directive : Directive name t) (next : ∀ y, ∃ p, (do
        if ← given (keyword "if") then pure () else keyword "for" : Reader Unit) (name ++ y) = some p) : ∃ p, (do
          directiveStart
          let _ ← stripMark
          space
          if ← given (keyword "if") then pure () else keyword "for" : Reader Unit) t = some p := by
      obtain ⟨s, b, x, y, rfl, strip, found⟩ := directive
      obtain ⟨⟨v, u⟩, last⟩ := next y
      refine ⟨(v, u), bindSome.mpr ⟨(), s, rfl, bindSome.mpr ⟨b, x, strip, ?_⟩⟩⟩
      refine bindSome.mpr ⟨(), name ++ y, skipSome.mpr found, last⟩
    rintro (directive | directive)
    · exact reads _ directive fun y => ⟨((), y), rfl⟩
    · exact reads _ directive fun y => ⟨((), y), rfl⟩

theorem Directive.carry {name : List Char} {c : Char} {more : List Char} (shape : name = c :: more)
    (inside : AllInside name) (other : c ∉ ['#', '/']) (h : Respaced t t') (directive : Directive name t) :
    Directive name t' ∨ Unclosed t' := by
  obtain ⟨s, b, x, y, rfl, strip, found⟩ := directive
  obtain ⟨s', rfl, rest⟩ := h.front ['%', '{'] (by decide)
  rcases firmStrip rest with ⟨fails, _⟩ | ⟨v, x₁, x', reads, strip', rest'⟩
  · rw [fails] at strip
    contradiction
  · rw [reads] at strip
    cases strip
    rcases skipReady (e := .acrossLines) rest'.loose with tight | stuck | stuck
    · rw [found] at tight
      obtain ⟨y', found', _⟩ := tight.front name inside
      exact .inl ⟨s', _, x', y', rfl, strip', found'⟩
    · rw [found, shape] at stuck
      rw [shape] at inside
      exact absurd stuck (stuckHead (inside c List.mem_cons_self).1 other)
    · exact .inr (.inr ⟨s', _, x', rfl, strip', stuck⟩)

theorem opensAlone (h : Respaced t t') (starts : opens t = true) (fails : opens t' = false) : Unclosed t' := by
  have away (both : Directive ['i', 'f'] t' ∨ Directive ['f', 'o', 'r'] t') : Unclosed t' := by
    rw [opensIff.mpr both] at fails
    contradiction
  rcases opensIff.mp starts with directive | directive
  · exact (directive.carry rfl (by decide) (by decide) h).elim (away ∘ .inl) id
  · exact (directive.carry rfl (by decide) (by decide) h).elim (away ∘ .inr) id

theorem directiveName {name name' : List Char} (here : Directive name t) (here' : Directive name' t) :
    name <+: name' ∨ name' <+: name := by
  obtain ⟨s, b, x, y, rfl, strip, found⟩ := here
  obtain ⟨s', b', x', y', same, strip', found'⟩ := here'
  cases same
  rw [strip] at strip'
  cases strip'
  rw [found] at found'
  exact List.prefix_or_prefix_of_prefix (found' ▸ List.prefix_append _ _) (List.prefix_append _ _)

theorem choiceName (read : choice inner t = some (p, u)) : Directive ['i', 'f'] t := by
  obtain ⟨_, s, start, read⟩ := bindSome.mp read
  obtain ⟨_, _, marks, _⟩ := bindSome.mp read
  obtain ⟨b, x, _, y, strip, reads⟩ := markedReads marks
  obtain ⟨_, z, name, _⟩ := bindSome.mp reads
  exact ⟨s, b, x, z, wordSome.mp start, strip, wordSome.mp name⟩

theorem loopName (read : loop inner t = some (p, u)) : Directive ['f', 'o', 'r'] t := by
  obtain ⟨_, s, start, read⟩ := bindSome.mp read
  obtain ⟨_, _, marks, _⟩ := bindSome.mp read
  obtain ⟨b, x, _, y, strip, reads⟩ := markedReads marks
  obtain ⟨_, z, name, _⟩ := bindSome.mp reads
  exact ⟨s, b, x, z, wordSome.mp start, strip, wordSome.mp name⟩

theorem unclosedDirective {name : List Char} {c : Char} {more : List Char} (shape : name = c :: more)
    (solid : isBlank c = false) (other : c ∉ ['#', '/']) (directive : Directive name t) : ¬ Unclosed t := by
  obtain ⟨s, b, x, y, rfl, strip, found⟩ := directive
  rintro (none | ⟨s', b', x', same, strip', stuck⟩)
  · contradiction
  · cases same
    rw [strip] at strip'
    cases strip'
    rw [found, shape] at stuck
    exact stuckHead solid other stuck

theorem directivesDiffer (h : Respaced t t') (isChoice : Directive ['i', 'f'] t) (isLoop : Directive ['f', 'o', 'r'] t') :
    False := by
  rcases isChoice.carry rfl (by decide) (by decide) h with also | unclosed
  · rcases directiveName also isLoop with front | front
    · exact absurd front (by decide)
    · exact absurd front (by decide)
  · exact unclosedDirective rfl (by decide) (by decide) isLoop unclosed

theorem Directive.head {name : List Char} (directive : Directive name t) : ∃ w, t = '%' :: w := by
  obtain ⟨s, _, _, _, rfl, _⟩ := directive
  exact ⟨_, rfl⟩

theorem markAlike (akin : Akin inner inner') (h : Respaced t t') (mark : Mark inner t p u) (mark' : Mark inner' t' p' u') :
    Outcome Respaced Part.literals never p p' u u' := by
  have apart {s s' : List Char} (h : Respaced ('$' :: s) ('%' :: s')) : False := by
    obtain ⟨_, same, _⟩ := h.inside (by decide)
    exact absurd (List.cons.inj same).1 (by decide)
  cases mark with
  | interpolation read =>
      obtain ⟨w, rfl⟩ := interpolationStarts read
      cases mark' with
      | interpolation read' => exact alikeInterpolation akin h read read'
      | choice _ read' =>
          obtain ⟨w', rfl⟩ := (choiceName read').head
          exact absurd (apart h) id
      | loop _ _ read' =>
          obtain ⟨w', rfl⟩ := (loopName read').head
          exact absurd (apart h) id
  | choice _ read =>
      cases mark' with
      | interpolation read' =>
          obtain ⟨w, rfl⟩ := (choiceName read).head
          obtain ⟨w', rfl⟩ := interpolationStarts read'
          exact absurd (apart h.symm) id
      | choice _ read' => exact alikeChoice akin h read read'
      | loop _ _ read' => exact absurd (directivesDiffer h (choiceName read) (loopName read')) id
  | loop _ _ read =>
      cases mark' with
      | interpolation read' =>
          obtain ⟨w, rfl⟩ := (loopName read).head
          obtain ⟨w', rfl⟩ := interpolationStarts read'
          exact absurd (apart h.symm) id
      | choice _ read' => exact absurd (directivesDiffer h.symm (choiceName read') (loopName read)) id
      | loop _ _ read' => exact alikeLoop akin h read read'

theorem Mark.head (mark : Mark inner t p u) : ∃ c w, t = c :: '{' :: w ∧ (c = '$' ∨ c = '%') := by
  have directive {name : List Char} (here : Directive name t) : ∃ c w, t = c :: '{' :: w ∧ (c = '$' ∨ c = '%') := by
    obtain ⟨s, _, _, _, rfl, _⟩ := here
    exact ⟨'%', s, rfl, .inr rfl⟩
  cases mark with
  | interpolation read =>
      obtain ⟨w, rfl⟩ := interpolationStarts read
      exact ⟨'$', w, rfl, .inl rfl⟩
  | choice _ read => exact directive (choiceName read)
  | loop _ _ read => exact directive (loopName read)

theorem markTight (named : Named setting) (h : Loose w w') (ends : literal? setting w = none) (mark : Mark inner w' p' u') :
    Respaced w w' := by
  obtain ⟨c, x, rfl, isMark⟩ := mark.head
  have solid : isBlank c = false := by rcases isMark with rfl | rfl <;> decide
  obtain ⟨b, y, within, rfl, _, _⟩ := looseSolid solid h.symm
  cases b with
  | nil => exact looseTight solid solid h
  | cons d b =>
      obtain ⟨inLine, within⟩ := withinCons.mp within
      rw [List.cons_append, literalBlank _ _ inLine.1] at ends
      split at ends
      · rename_i here
        obtain ⟨g, m, z, _, start, whole⟩ := atMarkerSome named here
        rcases whole with whole | whole
        · exact absurd (List.cons.inj whole).1 inLine.2
        · cases b with
          | nil => exact absurd (List.cons.inj (List.cons.inj whole).2).1 (solidNe solid (by decide))
          | cons e b => exact absurd (List.cons.inj (List.cons.inj whole).2).1 (withinCons.mp within).1.2
      · contradiction

theorem markUnclosed (h : Respaced w w') (ends : Markless w) (mark : Mark inner w' p' u') : Unclosed w := by
  have directive (starts : opens w' = true) {name : List Char} (here : Directive name w') : Unclosed w := by
    obtain ⟨s, _, _, _, rfl, _⟩ := here
    obtain ⟨x, rfl, _⟩ := h.symm.front ['%', '{'] (by decide)
    exact opensAlone h.symm starts (ends.2 x rfl)
  cases mark with
  | interpolation read =>
      obtain ⟨s, rfl⟩ := interpolationStarts read
      obtain ⟨x, rfl, _⟩ := h.symm.front ['$', '{'] (by decide)
      exact absurd rfl (ends.1 x)
  | choice starts read => exact directive starts (choiceName read)
  | loop starts _ read => exact directive starts (loopName read)

theorem Mark.notEnd (mark : Mark inner t p u) : t ≠ [] := by
  obtain ⟨c, w, rfl, _⟩ := mark.head
  exact List.cons_ne_nil _ _

theorem Template.first (h : Template inner setting t ps u) : ∃ vs w, Run (literal? setting) t vs w ∧
    (w = [] → u = []) ∧ ∃ more, templateLiterals ps = String.ofList vs.flatten :: more := by
  cases h with
  | stop text => exact ⟨_, _, text, id, [], textPartsSay⟩
  | step text mark => exact ⟨_, _, text, fun none => absurd none mark.notEnd, _, partSays _ _ (markIsMark mark)⟩

theorem ofListNe {s s' : List Char} (other : s ≠ s') : String.ofList s ≠ String.ofList s' :=
  fun same => other (String.ofList_injective same)

theorem runsTogether (named : Named setting) (start : Loose t t') (text : Run (literal? setting) t vs u)
    (text' : Run (literal? setting) t' vs' u') (same : vs.flatten = vs'.flatten) : Loose u u' ∨ u = [] ∨ u' = [] := by
  rcases runsStopped named start text text' with loose | none | none | other
  · exact .inl loose
  · exact .inr (.inl none)
  · exact .inr (.inr none)
  · exact absurd (congrArg solids same) other

theorem stopsAlike (named : Named setting) (start : Loose t t') (text : Run (literal? setting) t vs u)
    (text' : Run (literal? setting) t' vs' u') : Outcome Loose templateLiterals Unclosed (textParts vs) (textParts vs') u u' := by
  by_cases same : vs.flatten = vs'.flatten
  · have parts : textParts vs = textParts vs' := by rw [textParts, textParts, same]
    rw [parts]
    rcases runsTogether named start text text' same with loose | none | none
    · exact .same loose
    · exact .left (.inl none)
    · exact .right (.inl none)
  · refine .differ ?_
    rw [textPartsSay, textPartsSay]
    exact differFirst (ofListNe same)

theorem stopBeforeMark (named : Named setting) (start : Loose t t') (text : Run (literal? setting) t vs u) (ends : Markless u)
    (text' : Run (literal? setting) t' vs' w') (mark : Mark inner w' p u') :
    Unclosed u ∨ Differ (templateLiterals (textParts vs)) (templateLiterals (textParts vs' ++ p :: ps)) := by
  by_cases same : vs.flatten = vs'.flatten
  · rcases runsTogether named start text text' same with loose | none | none
    · exact .inl (markUnclosed (markTight named loose (runEnd text) mark) ends mark)
    · exact .inl (.inl none)
    · exact absurd none mark.notEnd
  · refine .inr ?_
    rw [textPartsSay, partSays _ _ (markIsMark mark)]
    exact differFirst (ofListNe same)

theorem marksAlike {x x' : List Char} (akin : Akin inner inner') (named : Named setting) (start : Loose t t')
    (text : Run (literal? setting) t vs w) (text' : Run (literal? setting) t' vs' w') (mark : Mark inner w p x)
    (mark' : Mark inner' w' p' x') (rest : Loose x x' → Outcome Loose templateLiterals Unclosed ps ps' u u') :
    Outcome Loose templateLiterals Unclosed (textParts vs ++ p :: ps) (textParts vs' ++ p' :: ps') u u' := by
  have told := partSays vs ps (markIsMark mark)
  have told' := partSays vs' ps' (markIsMark mark')
  by_cases same : vs.flatten = vs'.flatten
  · have parts : textParts vs = textParts vs' := by rw [textParts, textParts, same]
    rcases runsTogether named start text text' same with loose | none | none
    · cases markAlike akin (markTight named loose (runEnd text) mark') mark mark' with
      | same tight =>
          cases rest tight.loose with
          | same rest =>
              rw [parts]
              exact .same rest
          | differ texts =>
              refine .differ ?_
              rw [told, told', same]
              exact texts.behind (_ :: p.literals)
          | left barred => exact .left barred
          | right barred => exact .right barred
      | differ texts =>
          refine .differ ?_
          rw [told, told', same]
          refine (texts.behind [String.ofList vs'.flatten]).extend ?_ ?_
          · exact List.cons_prefix_cons.mpr ⟨rfl, List.prefix_append _ _⟩
          · exact List.cons_prefix_cons.mpr ⟨rfl, List.prefix_append _ _⟩
      | left barred => exact absurd barred id
      | right barred => exact absurd barred id
    · exact absurd none mark.notEnd
    · exact absurd none mark'.notEnd
  · refine .differ ?_
    rw [told, told']
    exact differFirst (ofListNe same)

theorem templateAlike (akin : Akin inner inner') (named : Named setting) (h : Template inner setting t ps u)
    (h' : Template inner' setting t' ps' u') (start : Loose t t') : Outcome Loose templateLiterals Unclosed ps ps' u u' := by
  -- The second template is taken apart along with the first one, mark by mark.
  induction h generalizing t' ps' with
  | stop text ends =>
      cases h' with
      | stop text' => exact stopsAlike named start text text'
      | step text' mark' =>
          rcases stopBeforeMark named start text ends text' mark' with barred | texts
          · exact .left barred
          · exact .differ texts
  | step text mark rest ih =>
      cases h' with
      | stop text' ends' =>
          rcases stopBeforeMark named start.symm text' ends' text mark with barred | texts
          · exact .right barred
          · exact .differ texts.symm
      | step text' mark' rest' => exact marksAlike akin named start text text' mark mark' (ih rest')

end DeclOrder.Hcl
