import DeclOrder.Proofs.Hcl.Literal
import DeclOrder.Proofs.Layout.Idempotence
import DeclOrder.Proofs.Layout.Respacing

/-! The canonical layout moves white space only: line by line it holds the other characters of the text,
in their order. -/
namespace DeclOrder.Layout
open Text Hcl Scan

theorem solidsNone {text : List Char} (blank : allBlank text = true) : solids text = [] := by
  rw [solids, List.filter_eq_nil_iff]
  intro c member
  simp [List.all_eq_true.mp blank c member]

theorem solidsNil {text : List Char} : (solids text).isEmpty = allBlank text := by
  rw [Bool.eq_iff_iff, List.isEmpty_iff, solids, List.filter_eq_nil_iff, allBlank, List.all_eq_true]
  simp

theorem solidsTrim (text : List Char) : solids (trim text) = solids text := by
  obtain ⟨b, e, before, behind, split⟩ := trimParts text
  have whole := congrArg solids split
  rw [solidsAppend, solidsAppend, solidsNone before, solidsNone behind, List.nil_append, List.append_nil] at whole
  exact whole.symm

theorem solidsAssigned {gap : List Char} (blank : allBlank gap = true) (key rest : List Char) :
    solids (key ++ (gap ++ '=' :: rest)) = solids key ++ '=' :: solids rest := by
  rw [solidsAppend, solidsAppend, solidsNone blank, List.nil_append, solidsCons (by decide)]

theorem solidsCodeLine {s : Scan} (code : s.InCode) {text out : List Char} (trimmed : trim text = text)
    (laid : Laid (codeLine s text).1 out) : solids out = solids text := by
  cases split : splitAttribute? text with
  | none =>
      rw [codeLineOther s split] at laid
      cases laid
      rw [solidsAppend, solidsNone (indentBlank _), List.nil_append]
  | some found =>
      obtain ⟨key, value⟩ := found
      obtain ⟨line, isKey, whole⟩ := codeLineSplit code trimmed split
      rw [line] at laid
      obtain ⟨_, gap', blank', spelled⟩ := attributeLineLaid laid
      obtain ⟨gap, rest, _, blank, _, rfl, rfl⟩ := splitAttributeSource split
      rw [← solidsTrim out, spelled, solidsTrim, solidsAssigned blank', solidsAssigned blank,
        solidsBlank (by decide), solidsTrim]

theorem solidsLine {s : Scan} {raw out : List Char} (laid : Laid (lineOf s raw).1 out) : solids out = solids raw := by
  cases literal : s.literal with
  | true =>
      rw [lineOfLiteral literal] at laid
      cases laid
      rfl
  | false =>
      by_cases blank : trim raw = []
      · rw [lineOfBlank literal blank] at laid
        cases laid
        exact (solidsNone (trimNil.mp blank)).symm
      · rw [lineOfCode literal blank] at laid
        rw [solidsCodeLine (inCodeOfNotLiteral literal) (trimTwice raw) laid, solidsTrim]

theorem solidsTexts (s : Scan) (raws : List (List Char)) (run : Run) :
    (laidFrom run (linesFrom s raws)).map solids = raws.map solids := by
  induction raws generalizing s run with
  | nil => rfl
  | cons raw rest ih =>
      rw [linesFromCons]
      obtain ⟨text, after, laid, texts⟩ := laidFromCons run (lineOf s raw).1 (linesFrom (lineOf s raw).2 rest)
      rw [texts, List.map_cons, List.map_cons, solidsLine laid, ih]

theorem solidsPieces (text : List Char) : ∃ last, last ∈ [[], [[]]] ∧
    (text.splitOn '\n').map solids = (lines text).map solids ++ last := by
  fun_induction lines text with
  | case1 => exact ⟨[[]], by simp, rfl⟩
  | case2 rest ih =>
      obtain ⟨last, isLast, pieces⟩ := ih
      refine ⟨last, isLast, ?_⟩
      rw [List.splitOn_cons_eq_if_modifyHead, if_pos (by decide), List.map_cons, pieces]
      rfl
  | case3 rest ih =>
      obtain ⟨last, isLast, pieces⟩ := ih
      refine ⟨last, isLast, ?_⟩
      rw [List.splitOn_cons_eq_if_modifyHead, if_neg (by decide), List.splitOn_cons_eq_if_modifyHead,
        if_pos (by decide), List.modifyHead_cons, List.map_cons, pieces]
      rfl
  | case4 c rest notBreak notReturn empty ih =>
      rw [linesEmpty empty, List.splitOn_cons_eq_if_modifyHead, if_neg (by simpa using notBreak)]
      exact ⟨[], by simp, rfl⟩
  | case5 c rest notBreak notReturn line more found ih =>
      obtain ⟨last, isLast, pieces⟩ := ih
      refine ⟨last, isLast, ?_⟩
      rw [List.splitOn_cons_eq_if_modifyHead, if_neg (by simpa using notBreak)]
      rw [found, List.map_cons, List.cons_append] at pieces
      cases split : rest.splitOn '\n' with
      | nil =>
          rw [split] at pieces
          contradiction
      | cons piece others =>
          rw [split, List.map_cons] at pieces
          obtain ⟨first, behind⟩ := List.cons.inj pieces
          have both : solids (c :: piece) = solids (c :: line) := by
            rw [← List.singleton_append, solidsAppend, first, ← solidsAppend, List.singleton_append]
          rw [List.modifyHead_cons, List.map_cons, both, behind]
          rfl

section
variable {α β : Type} {p : α → Bool} {q : β → Bool} {f : α → β}

theorem dropEndsMap (same : ∀ x, q (f x) = p x) (items : List α) : (dropEnds p items).map f = dropEnds q (items.map f) := by
  have test : q ∘ f = p := funext same
  rw [dropEnds, dropEnds, List.dropWhile_map, test, ← List.map_reverse, List.dropWhile_map, test, List.map_reverse]

theorem dropEndsBehind (items : List α) {back : List α} (behind : back.all p = true) :
    dropEnds p (items ++ back) = dropEnds p items := by
  obtain ⟨front, tail, before, dropped, split, ends⟩ := dropEndsSplit p items
  have both : (tail ++ back).all p = true := by rw [List.all_append, dropped, behind]; rfl
  have whole := dropEndsMiddle before ends both
  rwa [← List.append_assoc, ← split] at whole

end

theorem solidsDropEnds (texts : List (List Char)) : (dropBlankEnds texts).map solids = dropEnds List.isEmpty (texts.map solids) :=
  dropEndsMap (fun _ => solidsNil) texts

theorem laidOutSolids (text : List Char) : ∃ out, laidOut text = unlines out ∧ (∀ line ∈ out, '\n' ∉ line) ∧
    out.map solids = (dropBlankEnds (text.splitOn '\n')).map solids ∧
    (dropBlankEnds (text.splitOn '\n') = [] → laidOut text = []) := by
  have sound := linesFromSound .start (linesNoBreak text)
  obtain ⟨last, isLast, pieces⟩ := solidsPieces text
  have noPiece : last.all List.isEmpty = true := by
    simp only [List.mem_cons, List.not_mem_nil, or_false] at isLast
    rcases isLast with rfl | rfl <;> rfl
  have same : (dropBlankEnds (laidFrom none (ofText text))).map solids =
      (dropBlankEnds (text.splitOn '\n')).map solids := by
    rw [solidsDropEnds, solidsDropEnds, pieces, dropEndsBehind _ noPiece, ofText, solidsTexts]
  refine ⟨dropBlankEnds (laidFrom none (ofText text)), rfl, fun line member => ?_, same, fun empty => ?_⟩
  · obtain ⟨front, back, _, _, split, _⟩ := dropEndsSplit allBlank (laidFrom none (ofText text))
    refine textsNoBreak sound none line ?_
    rw [← ofText, split]
    exact List.mem_append_left _ (List.mem_append_right _ member)
  · rw [empty, List.map_nil, List.map_eq_nil_iff] at same
    rw [laidOut, same]
    rfl

/-- Where no key is too long, the canonical text has a line for each line of the text, blank ones at the ends
left out, and without white space the two are the same. Where a key is too long there is none. -/
theorem solidsKept (text : List Char) :
    (Narrow text ∧ ∃ out, canonical text = some (unlines out) ∧ (∀ line ∈ out, '\n' ∉ line) ∧
      out.map solids = (dropBlankEnds (text.splitOn '\n')).map solids ∧
      (dropBlankEnds (text.splitOn '\n') = [] → canonical text = some [])) ∨
    ¬ Narrow text ∧ canonical text = none := by
  by_cases narrow : Narrow text
  · obtain ⟨out, laid, noBreak, same, empty⟩ := laidOutSolids text
    rw [canonicalNarrow narrow]
    exact .inl ⟨narrow, out, congrArg some laid, noBreak, same, fun none => congrArg some (empty none)⟩
  · exact .inr ⟨narrow, canonicalNone.mpr narrow⟩

theorem solidsLost : ¬ ∃ out, canonical (List.replicate 65536 'a' ++ " = 1\n".toList) = some out := by
  rintro ⟨out, same⟩
  cases same.symm.trans (@wideLetters 65535 (Nat.le_refl _) _ [] _ (linesLetters 65536) rfl)

end DeclOrder.Layout
