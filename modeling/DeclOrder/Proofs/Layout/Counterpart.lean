import DeclOrder.Proofs.Layout.Kept
import Mathlib.Data.List.Forall2

/-! Texts that differ in their author's layout alone: line by line they are copies where the layout copies,
and elsewhere the same but for the blanks around a line or around an equals sign. A line and its counterpart
leave the scan in one and the same state, so both texts get one layout. -/
namespace DeclOrder.Layout
open Text

def Line.isLiteral : Line → Bool
  | .literal _ => true
  | _ => false

def rows (text : List Char) : List (List Char × Line) :=
  dropEnds (fun row => allBlank row.1) ((lines text).zip (ofText text))

/-- How another author could have written a line. -/
inductive Counterpart : List Char × Line → List Char → Prop where
  | copied {raw : List Char} {line : Line} (literal : line.isLiteral = true) : Counterpart (raw, line) raw
  | blank {raw raw' : List Char} {line : Line} (code : line.isLiteral = false) (before : allBlank raw = true)
      (after : allBlank raw' = true) : Counterpart (raw, line) raw'
  | trimmed {raw raw' : List Char} {line : Line} (code : line.isLiteral = false) (same : trim raw' = trim raw) :
      Counterpart (raw, line) raw'
  | assigned {raw raw' key value : List Char} {line : Line} (code : line.isLiteral = false)
      (before : splitAttribute? (trim raw) = some (key, value))
      (after : splitAttribute? (trim raw') = some (key, value)) : Counterpart (raw, line) raw'

theorem counterpartIff {row : List Char × Line} {raw : List Char} : Counterpart row raw ↔
    row.2.isLiteral = true ∧ raw = row.1 ∨
    row.2.isLiteral = false ∧ (allBlank row.1 = true ∧ allBlank raw = true ∨ trim raw = trim row.1 ∨
      (splitAttribute? (trim row.1)).isSome = true ∧ splitAttribute? (trim raw) = splitAttribute? (trim row.1)) := by
  constructor
  · intro other
    cases other with
    | copied literal => exact .inl ⟨literal, rfl⟩
    | blank code before after => exact .inr ⟨code, .inl ⟨before, after⟩⟩
    | trimmed code same => exact .inr ⟨code, .inr (.inl same)⟩
    | assigned code before after => exact .inr ⟨code, .inr (.inr ⟨by rw [before]; rfl, after.trans before.symm⟩)⟩
  · rintro (⟨literal, rfl⟩ | ⟨code, ⟨before, after⟩ | same | ⟨found, same⟩⟩)
    · exact .copied literal
    · exact .blank code before after
    · exact .trimmed code same
    · obtain ⟨⟨key, value⟩, before⟩ := Option.isSome_iff_exists.mp found
      exact .assigned code before (same.trans before)

instance (row : List Char × Line) (raw : List Char) : Decidable (Counterpart row raw) :=
  decidable_of_iff' _ counterpartIff

theorem literalOfLine {s : Scan} {raw : List Char} (code : (lineOf s raw).1.isLiteral = false) : s.literal = false := by
  cases literal : s.literal with
  | false => rfl
  | true =>
      rw [lineOfLiteral literal] at code
      exact code

theorem splitAttributeSome {text key value : List Char} (split : splitAttribute? text = some (key, value)) :
    text ≠ [] := by
  rintro rfl
  contradiction

theorem lineOfTrim {s : Scan} (notLiteral : s.literal = false) {raw raw' : List Char} (same : trim raw' = trim raw) :
    lineOf s raw' = lineOf s raw := by
  simp [lineOf, notLiteral, same]

theorem lineOfAssigned {s : Scan} (notLiteral : s.literal = false) {raw key value : List Char}
    (split : splitAttribute? (trim raw) = some (key, value)) : lineOf s raw = attributeLine s key value := by
  rw [lineOfCode notLiteral (splitAttributeSome split)]
  exact (codeLineSplit (inCodeOfNotLiteral notLiteral) (trimTwice raw) split).1

theorem lineOfCounterpart {s : Scan} {raw raw' : List Char} (other : Counterpart (raw, (lineOf s raw).1) raw') :
    lineOf s raw' = lineOf s raw := by
  generalize found : (lineOf s raw).1 = line at other
  cases other with
  | copied => rfl
  | blank code before after =>
      have notLiteral := literalOfLine (found ▸ code)
      exact lineOfTrim notLiteral ((trimNil.mpr after).trans (trimNil.mpr before).symm)
  | trimmed code same => exact lineOfTrim (literalOfLine (found ▸ code)) same
  | assigned code before after =>
      -- The scan passes a key, quoted or not, as it came, so both are in the state behind the value.
      have notLiteral := literalOfLine (found ▸ code)
      rw [lineOfAssigned notLiteral before, lineOfAssigned notLiteral after]

theorem linesFromCounterparts {s : Scan} {raws raws' : List (List Char)}
    (others : List.Forall₂ Counterpart (raws.zip (linesFrom s raws)) raws') : linesFrom s raws' = linesFrom s raws := by
  induction raws generalizing s raws' with
  | nil =>
      cases others
      rfl
  | cons raw rest ih =>
      rw [linesFromCons, List.zip_cons_cons] at others
      cases others with
      | cons other behind =>
          rw [linesFromCons, linesFromCons, lineOfCounterpart other]
          exact congrArg _ (ih behind)

theorem zipIsBlank (s : Scan) (raws : List (List Char)) :
    (raws.zip (linesFrom s raws)).map (fun row => allBlank row.1) = raws.map allBlank := by
  have firsts : (raws.zip (linesFrom s raws)).map Prod.fst = raws :=
    List.map_fst_zip (Nat.le_of_eq (linesFromLength s raws).symm)
  have both := congrArg (List.map allBlank) firsts
  rwa [List.map_map] at both

theorem innerRows (text : List Char) :
    rows text = (dropBlankEnds (lines text)).zip (linesFrom .start (dropBlankEnds (lines text))) := by
  obtain ⟨front, back, after, before, behind, ends, split, found⟩ := innerLines text
  have paired : (lines text).zip (ofText text) = front.zip (linesFrom .start front) ++
      (dropBlankEnds (lines text)).zip (linesFrom .start (dropBlankEnds (lines text))) ++ back.zip (linesFrom after back) := by
    generalize dropBlankEnds (lines text) = inner at split found ⊢
    rw [found, split, List.zip_append (by simp only [List.length_append, linesFromLength]),
      List.zip_append (linesFromLength .start front).symm]
  rw [rows, paired]
  exact dropEndsMiddle (allOfMap (zipIsBlank .start front) before) (endsMap (zipIsBlank .start _) ends)
    (allOfMap (zipIsBlank after back) behind)

theorem canonicalUnspaced {text text' : List Char}
    (others : List.Forall₂ Counterpart (rows text) (dropBlankEnds (lines text'))) :
    canonical text' = canonical text := by
  rw [innerRows] at others
  rw [canonicalKept, canonicalKept, keptInner, keptInner, linesFromCounterparts others]

/-- The layout does not depend on how the author wrote the lines: texts that correspond have the same one,
or both have none. -/
theorem sameLayout {text text' : List Char}
    (others : List.Forall₂ Counterpart (rows text) (dropBlankEnds (lines text'))) :
    canonical text' = canonical text := canonicalUnspaced others

def roughText : List Char := "\n \"b c\"=1\nlonger   =  \x7b\n\na=<<E\n  k  =  v \nE\n  \x7d".toList

def tidyText : List Char := "\"b c\" = 1\nlonger = \x7b\n  \na = <<E\n  k  =  v \nE\n\x7d\n\n".toList

theorem sameLayoutTidy : List.Forall₂ Counterpart (rows roughText) (dropBlankEnds (lines tidyText)) ∧
    canonical tidyText = canonical roughText := by
  have others : List.Forall₂ Counterpart (rows roughText) (dropBlankEnds (lines tidyText)) := by decide
  exact ⟨others, sameLayout others⟩

end DeclOrder.Layout
