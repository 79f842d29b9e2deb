import DeclOrder.Proofs.Hcl.Trivia
import DeclOrder.Proofs.Layout.Kept

/-! The canonical layout respaces a text, line by line, and drops blank lines at its ends. -/
namespace DeclOrder.Layout
open Text Hcl Scan

variable {c : Char} {t t' u u' w w' : List Char}

inductive Ending : List Char → List Char → Prop where
  | lineBreak {a t t' : List Char} (before : Within a) (rest : Loose t t') : Ending (a ++ '\n' :: t) ('\n' :: t')
  | finish {t t' : List Char} (all : allBlank t = true) (all' : allBlank t' = true) : Ending t t'

theorem withinOfBlank {b : List Char} (all : allBlank b = true) (noBreak : '\n' ∉ b) : Within b := fun c member =>
  ⟨List.all_eq_true.mp all c member, fun same => noBreak (same ▸ member)⟩

theorem withinAppend {a b : List Char} (h : Within a) (h' : Within b) : Within (a ++ b) := fun c member =>
  (List.mem_append.mp member).elim (h c) (h' c)

theorem Ending.respaced (ending : Ending u u') {b b' : List Char} (within : Within b) (within' : Within b') :
    Respaced (b ++ u) (b' ++ u') := by
  cases ending with
  | @lineBreak a t t' before rest =>
      obtain ⟨behind, behind', t, t', isBehind, isBehind', rfl, rfl, tight⟩ := rest
      rw [← List.append_assoc]
      exact .lineBreak (withinAppend within before) within' isBehind isBehind' tight
  | finish all all' =>
      exact .blank (allBlankAppend.mpr ⟨withinAllBlank within, all⟩) (allBlankAppend.mpr ⟨withinAllBlank within', all'⟩)

theorem Ending.heads (ending : Ending u u') : (∀ c, u.head? = some c → isBlank c = true) ∧
    ∀ c, u'.head? = some c → isBlank c = true := by
  have ofBlank {t : List Char} (all : allBlank t = true) (c : Char) (head : t.head? = some c) : isBlank c = true :=
    List.all_eq_true.mp all c (List.mem_of_head? head)
  cases ending with
  | @lineBreak a t t' before rest =>
      refine ⟨fun c head => ?_, fun c head => ?_⟩
      · cases a with
        | nil =>
            cases head
            decide
        | cons d a =>
            cases head
            exact (withinCons.mp before).1.1
      · cases head
        decide
  | finish all all' => exact ⟨ofBlank all, ofBlank all'⟩

theorem blankHead {b : List Char} (all : allBlank b = true) (heads : ∀ c, u.head? = some c → isBlank c = true) (c : Char)
    (head : (b ++ u).head? = some c) : isBlank c = true := by
  cases b with
  | nil => exact heads c head
  | cons d b =>
      cases head
      exact (allBlankCons.mp all).1

theorem blankJoint (heads : ∀ c, u.head? = some c → isBlank c = true) (heads' : ∀ c, u'.head? = some c → isBlank c = true)
    (c : Char) : Joint c u u' := by
  have none {t : List Char} {d : Char} (heads : ∀ c, t.head? = some c → isBlank c = true) (solid : isBlank d = false) :
      t.head? ≠ some d := by
    intro head
    rw [heads d head] at solid
    contradiction
  exact fun _ => ⟨iff_of_false (none heads (by decide)) (none heads' (by decide)),
    iff_of_false (none heads (by decide)) (none heads' (by decide))⟩

theorem respacedBehind {piece : List Char} (noBreak : '\n' ∉ piece)
    (joint : ∀ c, piece.getLast? = some c → Joint c w w') (rest : Respaced w w') : Respaced (piece ++ w) (piece ++ w') := by
  induction piece with
  | nil => exact rest
  | cons c more ih =>
      have notBreak : c ≠ '\n' := fun same => noBreak (same ▸ List.mem_cons_self)
      refine .same notBreak ?_ (ih (fun member => noBreak (List.mem_cons_of_mem _ member)) ?_)
      · cases more with
        | nil => exact joint c rfl
        | cons d more => exact fun _ => ⟨Iff.rfl, Iff.rfl⟩
      · intro d last
        refine joint d ?_
        rw [List.getLast?_cons, last]
        rfl

theorem keptRespaced {piece b b' : List Char} (noBreak : '\n' ∉ piece) (within : Within b) (within' : Within b')
    (ending : Ending u u') : Respaced (piece ++ (b ++ u)) (piece ++ (b' ++ u')) :=
  respacedBehind noBreak (fun c _ => blankJoint (blankHead (withinAllBlank within) ending.heads.1)
    (blankHead (withinAllBlank within') ending.heads.2) c) (ending.respaced within within')

theorem trimParts (text : List Char) : ∃ b e, allBlank b = true ∧ allBlank e = true ∧ text = b ++ (trim text ++ e) := by
  obtain ⟨b, front, split⟩ := trimStartSplit text
  obtain ⟨e, back, split'⟩ := trimEndSplit (trimStart text)
  exact ⟨b, e, front, back, by rw [trim, ← split', ← split]⟩

theorem keyLast {key : List Char} (isKey : Key key) : ∀ c, key.getLast? = some c → c ∉ joining := by
  have part {c : Char} (part : isMarkerPart c = true) : c ∉ joining := by
    intro member
    simp only [joining, List.mem_cons, List.not_mem_nil, or_false] at member
    rcases member with rfl | rfl | rfl | rfl <;> exact absurd part (by decide)
  cases isKey with
  | @name c tail start parts =>
      intro d last
      rcases List.mem_cons.mp (List.mem_of_getLast? last) with rfl | below
      · exact part (by simp [isMarkerPart, start])
      · exact part (parts d below)
  | quoted =>
      intro d last
      rw [← List.cons_append, List.getLast?_concat] at last
      cases last
      decide

theorem Assigns.alone {rest : List Char} (assigns : Assigns rest) (heads : ∀ c, u.head? = some c → isBlank c = true) :
    Alone (rest ++ u) := by
  have other {d : Char} (solid : isBlank d = false) (notFirst : ∀ c, rest.head? = some c → c ≠ d) :
      (rest ++ u).head? ≠ some d := by
    cases rest with
    | nil =>
        intro head
        rw [heads d head] at solid
        contradiction
    | cons e more =>
        intro head
        exact notFirst e rfl (Option.some.inj head)
  exact ⟨other (by decide) fun c head => (assigns c head).1, other (by decide) fun c head => (assigns c head).2⟩

theorem assignedRespaced {key gap gap' rest rest' b b' : List Char} (isKey : Key key) (noBreak : '\n' ∉ key) (within : Within gap)
    (within' : Within gap') (assigns : Assigns rest) (assigns' : Assigns rest') (inLine : '\n' ∉ rest) (inLine' : '\n' ∉ rest')
    (same : trim rest = trim rest') (back : Within b) (back' : Within b') (ending : Ending u u') :
    Respaced (key ++ (gap ++ '=' :: (rest ++ (b ++ u)))) (key ++ (gap' ++ '=' :: (rest' ++ (b' ++ u')))) := by
  obtain ⟨front, tail, blank, blankTail, split⟩ := trimParts rest
  obtain ⟨front', tail', blank', blankTail', split'⟩ := trimParts rest'
  rw [← same] at split'
  have alone := assigns.alone (blankHead (withinAllBlank back) ending.heads.1)
  have alone' := assigns'.alone (blankHead (withinAllBlank back') ending.heads.2)
  rw [split] at inLine alone ⊢
  rw [split'] at inLine' alone' ⊢
  simp only [List.mem_append, not_or] at inLine inLine'
  rw [List.append_assoc, List.append_assoc] at alone alone' ⊢
  rw [List.append_assoc, List.append_assoc]
  have tails := withinAppend (withinOfBlank blankTail inLine.2.2) back
  have tails' := withinAppend (withinOfBlank blankTail' inLine'.2.2) back'
  have value := keptRespaced inLine.2.1 tails tails' ending
  rw [List.append_assoc, List.append_assoc] at value
  refine respacedBehind noBreak (fun c last member => absurd member (keyLast isKey c last)) ?_
  exact .equals within within' (withinOfBlank blank inLine.1) (withinOfBlank blank' inLine'.1) alone alone' value

theorem codeLineRespaced {s : Scan} (code : s.InCode) {text out b b' : List Char} (trimmed : trim text = text)
    (noBreak : '\n' ∉ text) (noBreak' : '\n' ∉ trim out) (laid : Laid (codeLine s text).1 out) (within : Within b)
    (within' : Within b') (ending : Ending u u') : Respaced (text ++ (b ++ u)) (trim out ++ (b' ++ u')) := by
  cases split : splitAttribute? text with
  | none =>
      rw [codeLineOther s split] at laid
      cases laid
      rw [trimIndent, trimmed]
      exact keptRespaced noBreak within within' ending
  | some found =>
      obtain ⟨key, value⟩ := found
      obtain ⟨line, isKey, whole⟩ := codeLineSplit code trimmed split
      rw [line] at laid
      obtain ⟨_, gap', blank', spelled⟩ := attributeLineLaid laid
      obtain ⟨rest', same, assigns', _, value'⟩ := trimSpelled isKey whole
      obtain ⟨gap, rest, _, blank, assigns, rfl, rfl⟩ := splitAttributeSource split
      rw [spelled, same] at noBreak' ⊢
      simp only [List.mem_append, List.mem_cons, not_or] at noBreak noBreak'
      rw [List.append_assoc, List.append_assoc, List.append_assoc, List.append_assoc, List.cons_append, List.cons_append]
      exact assignedRespaced isKey noBreak.1 (withinOfBlank blank noBreak.2.1) (withinOfBlank blank' noBreak'.2.1)
        assigns assigns' noBreak.2.2.2 noBreak'.2.2.2 value'.symm within within' ending

theorem lineRespaced {s : Scan} {raw out : List Char} (noBreak : '\n' ∉ raw) (laid : Laid (lineOf s raw).1 out)
    (ending : Ending u u') : Loose (raw ++ u) (out ++ u') := by
  cases literal : s.literal with
  | true =>
      rw [lineOfLiteral literal] at laid
      cases laid
      exact (keptRespaced noBreak withinNil withinNil ending).loose
  | false =>
      have noBreak' := soundNoBreak (lineOfSound s noBreak) laid
      by_cases blank : trim raw = []
      · rw [lineOfBlank literal blank] at laid
        cases laid
        have within := withinOfBlank (trimNil.mp blank) noBreak
        exact (ending.respaced within withinNil).loose
      · rw [lineOfCode literal blank] at laid
        obtain ⟨b, e, front, back, split⟩ := trimParts raw
        obtain ⟨b', e', front', back', split'⟩ := trimParts out
        rw [split] at noBreak
        rw [split'] at noBreak'
        simp only [List.mem_append, not_or] at noBreak noBreak'
        refine ⟨b, b', trim raw ++ (e ++ u), trim out ++ (e' ++ u'), withinOfBlank front noBreak.1,
          withinOfBlank front' noBreak'.1, ?_, ?_, ?_⟩
        · rw [← List.append_assoc, ← List.append_assoc, List.append_assoc b, ← split]
        · rw [← List.append_assoc, ← List.append_assoc, List.append_assoc b', ← split']
        · exact codeLineRespaced (inCodeOfNotLiteral literal) (trimTwice raw) noBreak.2.1 noBreak'.2.1 laid
            (withinOfBlank back noBreak.2.2) (withinOfBlank back' noBreak'.2.2) ending

theorem returnWithin {a : List Char} (before : a ∈ [[], ['\r']]) : Within a := by
  simp only [List.mem_cons, List.not_mem_nil, or_false] at before
  rcases before with rfl | rfl
  · exact withinNil
  · exact withinCons.mpr ⟨⟨by decide, by decide⟩, withinNil⟩

theorem textsRespaced {s : Scan} {text : List Char} {kept back : List Line} (run : Run)
    (behind : back.all Line.isBlank = true) (split : linesFrom s (lines text) = kept ++ back) :
    Loose text (unlines (laidFrom run kept)) := by
  induction kept generalizing s text run with
  | nil =>
      rw [List.nil_append] at split
      rw [← split] at behind
      have all := linesBlank behind
      exact (Respaced.blank all rfl).loose
  | cons line more ih =>
      cases found : lines text with
      | nil =>
          rw [found] at split
          contradiction
      | cons raw rest =>
          have noBreak := linesNoBreak text raw (by rw [found]; exact List.mem_cons_self)
          rw [found, linesFromCons, List.cons_append] at split
          obtain ⟨rfl, others⟩ := List.cons.inj split
          obtain ⟨u, rfl, ends⟩ := linesCons found
          obtain ⟨out, after, laid, texts⟩ := laidFromCons run (lineOf s raw).1 more
          rw [texts, unlinesCons]
          refine lineRespaced noBreak laid ?_
          cases ends with
          | last none =>
              subst none
              obtain ⟨rfl, _⟩ := List.append_eq_nil_iff.mp others.symm
              exact .finish rfl rfl
          | lineBreak before same =>
              subst same
              exact .lineBreak (returnWithin before) (ih after others)

/-- Behind its blank lines a text is respaced by its layout. -/
theorem laidOutRespaced (text : List Char) : ∃ front rest, text = front ++ rest ∧ allBlank front = true ∧
    Loose rest (laidOut text) := by
  obtain ⟨front, back, before, behind, split, _⟩ := dropEndsSplit Line.isBlank (ofText text)
  rw [ofText, List.append_assoc] at split
  obtain ⟨b, rest, whole, all, lines⟩ := linesFromBehindBlank (by decide) before split
  refine ⟨b, rest, whole, all, ?_⟩
  rw [laidOutKept]
  exact textsRespaced none behind lines

end DeclOrder.Layout
