import DeclOrder.Layout.Line
import DeclOrder.Proofs.Reading
import DeclOrder.Text.Lines

/-! How a scan goes through the pieces of a line: past blanks, identifiers and plain quoted text it
comes out as it went in, and white space at the end changes nothing. -/
namespace DeclOrder.Layout.Scan

def InCode (s : Scan) : Prop := s.comment = false ∧ s.inQuote = false

def special : List Char := ['"', '#', '/', '<', '{', '[', '(', '}', ']', ')']

def Plain (text : List Char) : Prop := ∀ c ∈ text, c ∉ special

instance (text : List Char) : Decidable (Plain text) := List.decidableBAll _ text

theorem plainKind {p : Char → Bool} (none : special.any p = false) {c : Char} (kind : p c = true) : c ∉ special :=
  fun member => List.any_eq_false.mp none c member kind

theorem moveInCode {s : Scan} (code : s.InCode) (c : Char) (rest : List Char) : s.move c rest = s.inCode c rest := by
  simp [move, code.1, code.2]

theorem inCodePlain {c : Char} (plain : c ∉ special) (s : Scan) (rest : List Char) : s.inCode c rest = .one s := by
  unfold inCode
  split <;> simp_all [special]

theorem throughCons (s : Scan) (c : Char) (rest : List Char) : s.through (c :: rest) =
    match s.move c rest with
    | .one after => after.through rest
    | .two after => after.through rest.tail
    | .stop after => after := by
  cases rest with
  | nil => rw [through]; cases s.move c [] <;> simp [Move.after, through]
  | cons d more => rw [through]; rfl

theorem throughPlain {s : Scan} (code : s.InCode) {front : List Char} (plain : Plain front)
    (rest : List Char) : s.through (front ++ rest) = s.through rest := by
  induction front with
  | nil => rfl
  | cons c tail ih =>
      rw [List.cons_append, throughCons, moveInCode code, inCodePlain (plain c List.mem_cons_self)]
      exact ih (fun d h => plain d (List.mem_cons_of_mem _ h))

theorem blankPlain {c : Char} (blank : Text.isBlank c = true) : c ∉ special := plainKind (by decide) blank

theorem markerPartPlain {c : Char} (part : isMarkerPart c = true) : c ∉ special := plainKind (by decide) part

theorem markerPartSolid {c : Char} (part : isMarkerPart c = true) : Text.isBlank c = false := by
  have upper : c.isUpper = decide (65 ≤ c.val.toNat ∧ c.val.toNat ≤ 90) := rfl
  have lower : c.isLower = (decide (97 ≤ c.val.toNat) && decide (c.val.toNat ≤ 122)) := rfl
  have digit : c.isDigit = (decide (48 ≤ c.val.toNat) && decide (c.val.toNat ≤ 57)) := rfl
  by_cases joint : c = '_' ∨ c = '-'
  · rcases joint with rfl | rfl <;> decide
  · obtain ⟨notUnderscore, notDash⟩ := not_or.mp joint
    change (c.isUpper || c.isLower || c == '_' || c.isDigit || c == '-') = true at part
    rw [upper, lower, digit, beq_false_of_ne notUnderscore, beq_false_of_ne notDash] at part
    simp only [Bool.or_false, Bool.or_eq_true, Bool.and_eq_true, decide_eq_true_eq] at part
    have range : 48 ≤ c.val.toNat ∧ c.val.toNat ≤ 122 := by omega
    exact Text.solidRange (Nat.lt_of_lt_of_le (by decide) range.1) (Nat.lt_of_le_of_lt range.2 (by decide))

theorem throughBlank {s : Scan} (code : s.InCode) {front : List Char} (blank : Text.allBlank front = true)
    (rest : List Char) : s.through (front ++ rest) = s.through rest :=
  throughPlain code (fun c h => blankPlain (List.all_eq_true.mp blank c h)) rest

theorem throughTrimStart {s : Scan} (code : s.InCode) (text : List Char) :
    s.through (Text.trimStart text) = s.through text := by
  obtain ⟨front, blank, split⟩ := Text.trimStartSplit text
  have past := throughBlank code blank (Text.trimStart text)
  rw [← split] at past
  exact past.symm

theorem hasMarkTail {c : Char} {tail : List Char} (noMark : hasMark (c :: tail) = false) : hasMark tail = false := by
  unfold hasMark at noMark
  split at noMark <;> simp_all

theorem inTextName {c : Char} {tail : List Char} (notQuote : c ≠ '"') (notEscape : c ≠ '\\')
    (noMark : hasMark (c :: tail) = false) (s : Scan) (rest : List Char) :
    s.inText c (tail ++ '"' :: rest) = .one s ∨
      ∃ d more, tail = d :: more ∧ s.inText c (tail ++ '"' :: rest) = .two s := by
  cases tail with
  | nil => unfold inText; split <;> simp_all
  | cons d more => unfold inText; split <;> simp_all [hasMark]

theorem throughName {s : Scan} (noComment : s.comment = false) (quote : s.inQuote = true) (name rest : List Char)
    (plain : ∀ c ∈ name, c ≠ '"' ∧ c ≠ '\\') (noMark : hasMark name = false) :
    s.through (name ++ '"' :: rest) = s.pop.through rest := by
  cases name with
  | nil => simp [throughCons, move, noComment, quote, inText]
  | cons c tail =>
      have first := plain c List.mem_cons_self
      have inTail := fun d h => plain d (List.mem_cons_of_mem c h)
      have step : s.move c (tail ++ '"' :: rest) = s.inText c (tail ++ '"' :: rest) := by
        simp [move, noComment, quote]
      rw [List.cons_append, throughCons, step]
      rcases inTextName first.1 first.2 noMark s rest with one | ⟨d, more, rfl, two⟩
      · rw [one]
        exact throughName noComment quote tail rest inTail (hasMarkTail noMark)
      · rw [two]
        exact throughName noComment quote more rest (fun e h => inTail e (List.mem_cons_of_mem d h))
          (hasMarkTail (hasMarkTail noMark))
termination_by name.length

theorem throughQuoted {s : Scan} (code : s.InCode) {name : List Char} (plain : ∀ c ∈ name, c ≠ '"' ∧ c ≠ '\\')
    (noMark : hasMark name = false) (rest : List Char) :
    s.through ('"' :: name ++ '"' :: rest) = s.through rest := by
  have opened : s.move '"' (name ++ '"' :: rest) = .one (s.push .quote) := moveInCode code _ _
  rw [List.cons_append, throughCons, opened]
  exact throughName (s := s.push .quote) code.1 rfl name rest plain noMark

theorem takeWhileAll {p : Char → Bool} {front : List Char} {c : Char} (all : ∀ d ∈ front, p d = true)
    (stop : p c = false) (rest : List Char) : (front ++ c :: rest).takeWhile p = front := by
  rw [List.takeWhile_append_of_pos all, List.takeWhile_cons_of_neg (by simp [stop]), List.append_nil]

theorem leadingIdentifierStop {c : Char} (stop : isMarkerPart c = false) (front rest : List Char) :
    leadingIdentifier (front ++ c :: rest) = leadingIdentifier front := by
  cases front with
  | nil =>
      have noStart : isMarkerStart c = false := by simp_all [isMarkerPart]
      simp [leadingIdentifier, noStart]
  | cons d tail => rw [List.cons_append, leadingIdentifier, leadingIdentifier, Text.takeWhileStop stop]

theorem markerPlain {c : Char} (noDash : c ≠ '-') (tail : List Char) : marker? (c :: tail) =
    if (leadingIdentifier (c :: tail)).isEmpty then none else some (leadingIdentifier (c :: tail)) := by
  unfold marker?
  split
  · rename_i h
    exact absurd (List.cons.inj h).1 noDash
  · rfl

/-- The characters that can give the one in front of them another meaning. -/
def pairing : List Char := ['"', '#', '/', '<', '{', '*', '$', '%', '-']

section
variable {b : Char}

theorem blankNoPair (blank : Text.isBlank b = true) : b ∉ pairing := by
  intro member
  revert blank
  simp only [pairing, List.mem_cons, List.not_mem_nil, or_false] at member
  rcases member with h | h | h | h | h | h | h | h | h <;> subst h <;> decide

theorem markerBlankEnd (blank : Text.isBlank b = true) (text : List Char) : marker? (text ++ [b]) = marker? text := by
  have stop : isMarkerPart b = false := Bool.eq_false_iff.mpr fun part => by
    rw [markerPartSolid part] at blank
    contradiction
  cases text with
  | nil =>
      have noDash : b ≠ '-' := fun same => blankNoPair blank (by rw [same]; decide)
      rw [List.nil_append, markerPlain noDash, ← List.nil_append [b], leadingIdentifierStop stop]
      rfl
  | cons c tail =>
      by_cases dash : c = '-'
      · subst dash
        simp only [marker?, List.cons_append, leadingIdentifierStop stop]
      · rw [List.cons_append, markerPlain dash, markerPlain dash, ← List.cons_append, leadingIdentifierStop stop]

theorem inCodeBlankEnd (blank : Text.isBlank b = true) (s : Scan) (c : Char) (rest : List Char) :
    s.inCode c (rest ++ [b]) = s.inCode c rest := by
  have other := blankNoPair blank
  cases rest with
  | nil => unfold inCode; split <;> simp_all [pairing]
  | cons d tail =>
      by_cases heredoc : c = '<' ∧ d = '<'
      · obtain ⟨rfl, rfl⟩ := heredoc
        simp only [inCode, List.cons_append, markerBlankEnd blank]
      · unfold inCode
        split <;> simp_all

theorem moveBlankEnd (blank : Text.isBlank b = true) (s : Scan) (c : Char) (rest : List Char) :
    s.move c (rest ++ [b]) = s.move c rest := by
  have other := blankNoPair blank
  simp only [move]
  split
  · cases rest <;> unfold inComment <;> split <;> simp_all [pairing]
  · split
    · cases rest <;> unfold inText <;> split <;> simp_all [pairing]
    · exact inCodeBlankEnd blank s c rest

theorem moveBlank (blank : Text.isBlank b = true) (s : Scan) (rest : List Char) : s.move b rest = .one s := by
  have other := blankNoPair blank
  have noEscape : b ≠ '\\' := by
    rintro rfl
    contradiction
  simp only [move]
  split
  · unfold inComment
    split <;> simp_all [pairing]
  · split
    · unfold inText
      split <;> simp_all [pairing]
    · exact inCodePlain (blankPlain blank) s rest

theorem throughBlankEnd (blank : Text.isBlank b = true) (s : Scan) (line : List Char) :
    s.through (line ++ [b]) = s.through line := by
  cases line with
  | nil => rw [List.nil_append, throughCons, moveBlank blank]
  | cons c tail =>
      rw [List.cons_append, throughCons, throughCons, moveBlankEnd blank]
      cases s.move c tail with
      | one after => exact throughBlankEnd blank after tail
      | two after =>
          cases tail with
          | nil => rfl
          | cons d more => exact throughBlankEnd blank after more
      | stop after => rfl
termination_by line.length

end

theorem throughDropReturn (s : Scan) (line : List Char) : s.through (Text.dropReturn line) = s.through line := by
  rcases Text.dropReturnSplit line with whole | cut
  · rw [← whole]
  · have kept := throughBlankEnd (by decide : Text.isBlank '\r' = true) s (Text.dropReturn line)
    rw [← cut] at kept
    exact kept.symm

theorem throughBlankBehind (s : Scan) {tail : List Char} (blank : Text.allBlank tail = true) (line : List Char) :
    s.through (line ++ tail) = s.through line := by
  induction tail generalizing line with
  | nil => rw [List.append_nil]
  | cons b rest ih =>
      obtain ⟨first, blank⟩ := Text.allBlankCons.mp blank
      rw [List.append_cons, ih blank, throughBlankEnd first]

theorem throughTrim {s : Scan} (code : s.InCode) (line : List Char) : s.through (Text.trim line) = s.through line := by
  obtain ⟨tail, blank, split⟩ := Text.trimEndSplit (Text.trimStart line)
  have kept := throughBlankBehind s blank (Text.trim line)
  rw [Text.trim, ← split, throughTrimStart code] at kept
  exact kept.symm

end DeclOrder.Layout.Scan
