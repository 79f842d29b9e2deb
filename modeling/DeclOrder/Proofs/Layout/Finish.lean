import DeclOrder.Proofs.Hcl.Trivia
import DeclOrder.Proofs.Layout.Settling

/-! Where a scan is at the end of a text that it stands in the middle of. What follows is there all along:
what a character does may depend on the one behind it, and whether a line ends in front of it. -/
namespace DeclOrder.Layout
open Text Hcl

def firstLine (text : List Char) : List Char := (lines text).headD []

def furtherLines (text : List Char) : List (List Char) := (lines text).tail

section
variable {c : Char} {t : List Char}

theorem linesParts (notBreak : c ≠ '\n') (notReturn : c = '\r' → t.head? ≠ some '\n') :
    firstLine (c :: t) = c :: firstLine t ∧ furtherLines (c :: t) = furtherLines t := by
  rw [firstLine, furtherLines, linesOther notBreak notReturn, firstLine, furtherLines]
  cases lines t with
  | nil => exact ⟨rfl, rfl⟩
  | cons line rest => exact ⟨rfl, rfl⟩

theorem firstLineBreak : firstLine ('\n' :: t) = [] := by rw [firstLine, linesBreak]; rfl

theorem furtherLinesBreak : furtherLines ('\n' :: t) = lines t := by rw [furtherLines, linesBreak]; rfl

theorem firstLineHead (head : (firstLine t).head? = some c) : t.head? = some c := by
  cases t with
  | nil => contradiction
  | cons d rest =>
      by_cases isBreak : d = '\n'
      · subst isBreak
        rw [firstLineBreak] at head
        contradiction
      by_cases isReturn : d = '\r' ∧ rest.head? = some '\n'
      · obtain ⟨rfl, behind⟩ := isReturn
        obtain ⟨more, rfl⟩ := List.head?_eq_some_iff.mp behind
        rw [firstLine, linesReturnBreak] at head
        contradiction
      · rw [(linesParts isBreak fun same behind => isReturn ⟨same, behind⟩).1] at head
        exact head

end

namespace Scan

/-- The scan at the end of a text that goes on in the middle of a line. -/
def finish (s : Scan) (text : List Char) : Scan := scanFrom (s.through (firstLine text)) (furtherLines text)

section
variable {s after : Scan} {c d : Char} {t u : List Char}

theorem lineOfThrough (open' : s.heredoc = none) (line : List Char) : (lineOf s line).2 = s.through line := by
  cases literal : s.literal with
  | true =>
      rw [lineOfLiteral literal, literalLine, open']
  | false =>
      have code := inCodeOfNotLiteral literal
      by_cases blank : trim line = []
      · rw [lineOfBlank literal blank, ← throughTrim code, blank]
        rfl
      · rw [lineOfCode literal blank, ← throughTrim code]
        rfl

theorem finishLines (open' : s.heredoc = none) (t : List Char) : scanFrom s (lines t) = s.finish t := by
  rw [finish, firstLine, furtherLines]
  cases lines t with
  | nil => rfl
  | cons line rest => rw [scanFrom, lineOfThrough open']; rfl

theorem finishNil (s : Scan) : s.finish [] = s := rfl

theorem finishAtBreak (s : Scan) (t : List Char) : s.finish ('\n' :: t) = scanFrom s (lines t) := by
  rw [finish, firstLineBreak, furtherLinesBreak]
  rfl

theorem finishBreak (open' : s.heredoc = none) (t : List Char) : s.finish ('\n' :: t) = s.finish t :=
  (finishAtBreak s t).trans (finishLines open' t)

theorem finishReturnBreak (s : Scan) (t : List Char) : s.finish ('\r' :: '\n' :: t) = s.finish ('\n' :: t) := by
  rw [finish, finish, firstLine, furtherLines, firstLine, furtherLines, linesReturnBreak, linesBreak]

theorem finishCons (notBreak : c ≠ '\n') (notReturn : c = '\r' → t.head? ≠ some '\n') : s.finish (c :: t) =
    match s.move c (firstLine t) with
    | .one after => after.finish t
    | .two after => scanFrom (after.through (firstLine t).tail) (furtherLines t)
    | .stop after => scanFrom after (furtherLines t) := by
  obtain ⟨first, further⟩ := linesParts notBreak notReturn
  rw [finish, first, further, throughCons]
  cases s.move c (firstLine t) <;> rfl

theorem finishReturn (s : Scan) (t : List Char) : s.finish ('\r' :: t) = s.finish t := by
  by_cases lineEnd : t.head? = some '\n'
  · obtain ⟨rest, rfl⟩ := List.head?_eq_some_iff.mp lineEnd
    exact finishReturnBreak s rest
  · rw [finishCons (by decide) fun _ => lineEnd, moveBlank (by decide)]

theorem finishOne (notBreak : c ∉ ['\n', '\r']) (moved : s.move c (firstLine t) = .one after) :
    s.finish (c :: t) = after.finish t := by
  simp only [List.mem_cons, List.not_mem_nil, or_false, not_or] at notBreak
  rw [finishCons notBreak.1 fun isReturn => absurd isReturn notBreak.2, moved]

theorem finishTwo (notBreak : c ∉ ['\n', '\r']) (notBreak' : d ∉ ['\n', '\r'])
    (moved : s.move c (d :: firstLine t) = .two after) : s.finish (c :: d :: t) = after.finish t := by
  simp only [List.mem_cons, List.not_mem_nil, or_false, not_or] at notBreak notBreak'
  obtain ⟨first, further⟩ := linesParts (t := t) notBreak'.1 fun isReturn => absurd isReturn notBreak'.2
  rw [finishCons notBreak.1 fun isReturn => absurd isReturn notBreak.2, first, moved, further]
  rfl

theorem finishStop (notBreak : c ∉ ['\n', '\r']) (moved : s.move c (firstLine t) = .stop after) :
    s.finish (c :: t) = scanFrom after (furtherLines t) := by
  simp only [List.mem_cons, List.not_mem_nil, or_false, not_or] at notBreak
  rw [finishCons notBreak.1 fun isReturn => absurd isReturn notBreak.2, moved]

end

structure Ready (s : Scan) : Prop where
  code : s.InCode
  outside : s.heredoc = none

structure Quoting (s : Scan) : Prop where
  noComment : s.comment = false
  quote : s.inQuote = true
  outside : s.heredoc = none

section
variable {s : Scan} {o : Opening} {c m : Char} {t u front : List Char}

theorem readyStart : Ready .start := ⟨⟨rfl, rfl⟩, rfl⟩

theorem Ready.opened (ready : s.Ready) (other : o ≠ .quote) : (s.push o).Ready :=
  ⟨⟨ready.code.1, beq_false_of_ne fun same => other (Option.some.inj same)⟩, ready.outside⟩

theorem Ready.quoted (ready : s.Ready) : (s.push .quote).Quoting := ⟨ready.code.1, rfl, ready.outside⟩

theorem Quoting.marked (quoting : s.Quoting) : (s.push .mark).Ready := ⟨⟨quoting.noComment, rfl⟩, quoting.outside⟩

theorem popPush (s : Scan) (o : Opening) : (s.push o).pop = s := rfl

theorem Ready.finishPlain (ready : s.Ready) (plain : c ∉ special) (t : List Char) : s.finish (c :: t) = s.finish t := by
  by_cases isBreak : c = '\n'
  · subst isBreak
    exact finishBreak ready.outside t
  by_cases isReturn : c = '\r'
  · subst isReturn
    exact finishReturn s t
  · exact finishOne (by simp [isBreak, isReturn]) ((moveInCode ready.code c _).trans (inCodePlain plain s _))

theorem Ready.finishFront (ready : s.Ready) (plain : Plain front) (t : List Char) :
    s.finish (front ++ t) = s.finish t := by
  induction front with
  | nil => rfl
  | cons c rest ih =>
      rw [List.cons_append, ready.finishPlain (plain c List.mem_cons_self), ih fun d member => plain d (List.mem_cons_of_mem c member)]

theorem Ready.finishOpen (ready : s.Ready) (opens : c ∈ ['{', '[', '(']) (t : List Char) :
    s.finish (c :: t) = (s.push .group).finish t := by
  simp only [List.mem_cons, List.not_mem_nil, or_false] at opens
  rcases opens with rfl | rfl | rfl <;> exact finishOne (by decide) (moveInCode ready.code _ _)

theorem finishClose (ready : s.Ready) (closes : c ∈ ['}', ']', ')']) (t : List Char) : s.finish (c :: t) = s.pop.finish t := by
  have closed : s.close = s.pop := if_neg (by rw [ready.code.2]; exact Bool.false_ne_true)
  rw [← closed]
  simp only [List.mem_cons, List.not_mem_nil, or_false] at closes
  rcases closes with rfl | rfl | rfl <;> exact finishOne (by decide) (moveInCode ready.code _ _)

theorem Ready.finishQuote (ready : s.Ready) (t : List Char) : s.finish ('"' :: t) = (s.push .quote).finish t :=
  finishOne (by decide) (moveInCode ready.code _ _)

theorem Ready.finishSlash (ready : s.Ready) (noSlash : t.head? ≠ some '/') (noStar : t.head? ≠ some '*') :
    s.finish ('/' :: t) = s.finish t := by
  refine finishOne (by decide) ((moveInCode ready.code _ _).trans ?_)
  have ahead : ∀ d, (firstLine t).head? = some d → t.head? = some d := fun _ => firstLineHead
  generalize firstLine t = w at ahead
  unfold inCode
  split <;> simp_all

theorem Ready.finishAngle (ready : s.Ready) (noMarker : ∀ w, firstLine t = '<' :: w → marker? w = none) :
    s.finish ('<' :: t) = s.finish t := by
  refine finishOne (by decide) ((moveInCode ready.code _ _).trans ?_)
  cases line : firstLine t with
  | nil => rfl
  | cons d w =>
      by_cases angle : d = '<'
      · subst angle
        rw [inCode, noMarker w line]
      · unfold inCode
        split <;> simp_all

theorem Ready.finishHeredoc (ready : s.Ready) {marker : List Char} (found : marker? (firstLine t) = some marker) :
    s.finish ('<' :: '<' :: t) = scanFrom { s with heredoc := some marker } (furtherLines t) := by
  obtain ⟨first, further⟩ := linesParts (c := '<') (t := t) (by decide) (fun same => absurd same (by decide))
  have stops : s.move '<' (firstLine ('<' :: t)) = .stop { s with heredoc := some marker } := by
    rw [first, moveInCode ready.code, inCode, found]
  rw [finishStop (by decide) stops, further]

theorem finishFurther (found : lineCommentEnd? t = some u) :
    scanFrom s (furtherLines t) = s.finish u := by
  induction t with
  | nil =>
      cases found
      rfl
  | cons c rest ih =>
      by_cases isBreak : c = '\n'
      · subst isBreak
        cases found
        rw [furtherLinesBreak, finishAtBreak]
      by_cases isReturn : c = '\r'
      · subst isReturn
        obtain ⟨rfl, more, rfl⟩ := lineCommentEndReturn found
        rw [finishReturnBreak, finishAtBreak, furtherLines, linesReturnBreak]
        rfl
      · rw [lineCommentEndCons isBreak isReturn] at found
        rw [(linesParts isBreak fun same => absurd same isReturn).2, ih found]

theorem Ready.finishLineComment (ready : s.Ready) (found : lineComment? t = some u) : s.finish t = s.finish u := by
  unfold lineComment? at found
  split at found
  · rw [finishStop (by decide) (moveInCode ready.code _ _), finishFurther found]
  · rename_i rest
    obtain ⟨first, further⟩ := linesParts (c := '/') (t := rest) (by decide) (fun same => absurd same (by decide))
    have stops : s.move '/' (firstLine ('/' :: rest)) = .stop s := by
      rw [first, moveInCode ready.code]
      rfl
    rw [finishStop (by decide) stops, further, finishFurther found]
  · contradiction

theorem Ready.finishInComment (ready : s.Ready) (found : afterBlockComment? t = some u) :
    ({ s with comment := true } : Scan).finish t = s.finish u := by
  have comment (c : Char) (w : List Char) : ({ s with comment := true } : Scan).move c w = inComment { s with comment := true } c w := rfl
  have ends : { { s with comment := true } with comment := false } = s := by rw [← ready.code.1]
  induction t with
  | nil => contradiction
  | cons c rest ih =>
      rw [afterBlockCommentCons] at found
      split at found
      · rename_i closes
        obtain ⟨rfl, slash⟩ := closes
        obtain ⟨more, rfl⟩ := List.head?_eq_some_iff.mp slash
        cases found
        exact (finishTwo (by decide) (by decide) rfl).trans (congrArg (finish · _) ends)
      · rename_i goesOn
        by_cases isBreak : c = '\n'
        · subst isBreak
          exact (finishBreak (s := { s with comment := true }) ready.outside rest).trans (ih found)
        by_cases isReturn : c = '\r'
        · subst isReturn
          rw [finishReturn, ih found]
        · have slash (w : List Char) (star : c = '*') : firstLine rest ≠ '/' :: w := fun same =>
            goesOn ⟨star, firstLineHead (by rw [same]; rfl)⟩
          have stays : ({ s with comment := true } : Scan).move c (firstLine rest) = .one { s with comment := true } := by
            rw [comment]
            unfold inComment
            split <;> simp_all
          rw [finishOne (by simp [isBreak, isReturn]) stays, ih found]

theorem Ready.finishBlockComment (ready : s.Ready) (found : afterBlockComment? t = some u) :
    s.finish ('/' :: '*' :: t) = s.finish u :=
  (finishTwo (by decide) (by decide) (moveInCode ready.code _ _)).trans (ready.finishInComment found)

theorem moveQuoting (quoting : s.Quoting) (c : Char) (rest : List Char) : s.move c rest = s.inText c rest := by
  simp [move, quoting.noComment, quoting.quote]

theorem Quoting.finishQuote (quoting : s.Quoting) (t : List Char) : s.finish ('"' :: t) = s.pop.finish t :=
  finishOne (by decide) (moveQuoting quoting _ _)

theorem Quoting.finishEscape (quoting : s.Quoting) (notBreak : c ∉ ['\n', '\r']) (t : List Char) :
    s.finish ('\\' :: c :: t) = s.finish t :=
  finishTwo (by decide) notBreak (moveQuoting quoting _ _)

theorem Quoting.finishMark (quoting : s.Quoting) (mark : m = '$' ∨ m = '%') (t : List Char) :
    s.finish (m :: '{' :: t) = (s.push .mark).finish t := by
  rcases mark with rfl | rfl <;> exact finishTwo (by decide) (by decide) (moveQuoting quoting _ _)

theorem Quoting.finishDoubled (quoting : s.Quoting) (mark : m = '$' ∨ m = '%') (t : List Char) :
    s.finish (m :: m :: t) = s.finish t := by
  rcases mark with rfl | rfl <;> exact finishTwo (by decide) (by decide) (moveQuoting quoting _ _)

theorem Quoting.finishText (quoting : s.Quoting) (noQuote : c ≠ '"') (noEscape : c ≠ '\\')
    (noMark : c = '$' ∨ c = '%' → t.head? ≠ some c ∧ t.head? ≠ some '{') : s.finish (c :: t) = s.finish t := by
  by_cases isBreak : c = '\n'
  · subst isBreak
    exact finishBreak quoting.outside t
  by_cases isReturn : c = '\r'
  · subst isReturn
    exact finishReturn s t
  · refine finishOne (by simp [isBreak, isReturn]) ((moveQuoting quoting _ _).trans ?_)
    have ahead : ∀ d, (firstLine t).head? = some d → t.head? = some d := fun _ => firstLineHead
    generalize firstLine t = w at ahead
    unfold inText
    split <;> simp_all

end

end Scan
end DeclOrder.Layout
