import DeclOrder.Proofs.Layout.Attribute
import DeclOrder.Proofs.Layout.Width

/-! Laying out a text that is laid out already. Its lines are the same lines again, but a literal line
that ends with a carriage return loses it to the line end. -/
namespace DeclOrder.Layout
open Scan

/-- A line as it is found in its own layout. -/
def Line.settled : Line → Line
  | .literal text => .literal (Text.dropReturn text)
  | line => line

inductive Laid : Line → List Char → Prop where
  | blank : Laid .blank []
  | literal (text : List Char) : Laid (.literal text) text
  | code (depth : Nat) (text : List Char) : Laid (.code depth text) (indent depth ++ text)
  | aligned (depth width : Nat) (key value : List Char) :
      Laid (.attribute depth key value) (paddedText depth width key value)

theorem indentBlank (depth : Nat) : Text.allBlank (indent depth) = true := by
  simp [Text.allBlank, indent, List.all_replicate, Text.isBlank]

theorem inCodeOfNotLiteral {s : Scan} (h : s.literal = false) : s.InCode := by
  simp only [Scan.literal, Bool.or_eq_false_iff] at h
  refine ⟨h.1.1, ?_⟩
  cases openings : s.openings with
  | nil => simp [Scan.inQuote, openings]
  | cons o rest =>
      have group := h.2
      rw [openings, List.any_cons, Bool.or_eq_false_iff] at group
      cases o <;> simp_all [Scan.inQuote]

theorem trimDropReturn (line : List Char) : Text.trim (Text.dropReturn line) = Text.trim line := by
  rcases Text.dropReturnSplit line with whole | cut
  · rw [← whole]
  · have blank : Text.allBlank ['\r'] = true := by decide
    rw [← Text.trimAppendBlank blank, ← cut]

theorem trimIndent (depth : Nat) (text : List Char) : Text.trim (indent depth ++ text) = Text.trim text :=
  Text.trimPrependBlank (indentBlank depth) text

theorem trimEndEquals {value : List Char} (trimmed : Text.trim value = value) :
    ∃ rest, Text.trimEnd ('=' :: ' ' :: value) = '=' :: rest ∧ Assigns rest ∧ Text.trimStart rest = value ∧
      Text.trim rest = value := by
  cases value with
  | nil => exact ⟨[], by decide, by simp [Assigns], rfl, rfl⟩
  | cons c tail =>
      have solid := Text.trimHead trimmed
      have ends : Text.trimEnd (c :: tail) = c :: tail := by
        rw [Text.trim, Text.trimStartSolid solid] at trimmed
        exact trimmed
      have notBlank : Text.allBlank (c :: tail) = false := by simp [Text.allBlank, solid]
      have spelled := Text.trimEndAppendSolid notBlank ['=', ' ']
      rw [ends] at spelled
      have space : Text.allBlank [' '] = true := by decide
      refine ⟨' ' :: c :: tail, spelled, by simp [Assigns], ?_, ?_⟩
      · exact (Text.trimStartAppendBlank space (c :: tail)).trans (Text.trimStartSolid solid tail)
      · exact (Text.trimPrependBlank space (c :: tail)).trans trimmed

theorem trimSpelled {key gap value : List Char} (isKey : Key key) (trimmed : Text.trim value = value) : ∃ rest,
    Text.trim (key ++ (gap ++ '=' :: ' ' :: value)) = key ++ (gap ++ '=' :: rest) ∧ Assigns rest ∧
      Text.trimStart rest = value ∧ Text.trim rest = value := by
  obtain ⟨rest, spelled, assigns, start, whole⟩ := trimEndEquals trimmed
  obtain ⟨c, tail, rfl, solid, _⟩ := keyHead isKey
  have some : Text.allBlank ('=' :: ' ' :: value) = false := by simp [Text.allBlank, Text.isBlank]
  refine ⟨rest, ?_, assigns, start, whole⟩
  rw [Text.trim, List.cons_append, Text.trimStartSolid solid, ← List.cons_append, ← List.append_assoc,
    Text.trimEndAppendSolid some, spelled, List.append_assoc]

theorem codeLineSpelled {s : Scan} (code : s.InCode) {key gap value : List Char} (isKey : Key key)
    (blank : Text.allBlank gap = true) (trimmed : Text.trim value = value) :
    codeLine s (Text.trim (key ++ (gap ++ '=' :: ' ' :: value))) = attributeLine s key value := by
  obtain ⟨rest, spelled, assigns, start, whole⟩ := trimSpelled isKey trimmed
  rw [spelled]
  exact codeLineAttribute code isKey blank assigns start whole

theorem codeLineSplit {s : Scan} (code : s.InCode) {text key value : List Char} (trimmed : Text.trim text = text)
    (h : splitAttribute? text = some (key, value)) :
    codeLine s text = attributeLine s key value ∧ Key key ∧ Text.trim value = value := by
  obtain ⟨gap, rest, isKey, blank, assigns, rfl, rfl⟩ := splitAttributeSource h
  refine ⟨codeLineAttribute code isKey blank assigns ?_ rfl, isKey, Text.trimTwice rest⟩
  obtain ⟨c, tail, rfl, solid, _⟩ := keyHead isKey
  have some : Text.allBlank ('=' :: rest) = false := by simp [Text.allBlank, Text.isBlank]
  rw [Text.trim, List.cons_append, Text.trimStartSolid solid, ← List.cons_append, ← List.append_assoc,
    Text.trimEndAppendSolid some, Text.trimEndHead (by decide)] at trimmed
  have ends := (List.cons.inj (List.append_cancel_left trimmed)).2
  exact (Text.trimOfTrimmedEnd ends).symm

theorem codeLineOther (s : Scan) {text : List Char} (split : splitAttribute? text = none) :
    codeLine s text = (.code (s.depth - (text.takeWhile isCloser).length) text, s.through text) := by
  simp only [codeLine, split]

theorem attributeLineLaid {s : Scan} {key value out : List Char} (laid : Laid (attributeLine s key value).1 out) :
    (attributeLine s key value).1.settled = (attributeLine s key value).1 ∧
    ∃ gap, Text.allBlank gap = true ∧ Text.trim out = Text.trim (key ++ (gap ++ '=' :: ' ' :: value)) := by
  unfold attributeLine at laid ⊢
  dsimp only at laid ⊢
  split at laid
  · rename_i closed
    rw [if_pos closed]
    cases laid with
    | aligned depth width =>
        refine ⟨rfl, List.replicate (width - key.length) ' ' ++ [' '], by simp [Text.allBlank, Text.isBlank], ?_⟩
        rw [paddedText, Text.trimTrimEnd, List.append_assoc, List.append_assoc, trimIndent, padded]
        simp only [List.append_assoc, List.cons_append, List.nil_append]
  · rename_i opened
    rw [if_neg opened]
    cases laid with
    | code depth text =>
        refine ⟨rfl, [' '], by decide, ?_⟩
        rw [trimIndent]
        simp only [List.append_assoc, List.cons_append, List.nil_append]

theorem codeLineLaid {s : Scan} (code : s.InCode) {text out : List Char} (trimmed : Text.trim text = text)
    (some : text ≠ []) (laid : Laid (codeLine s text).1 out) : Text.trim out ≠ [] ∧
      codeLine s (Text.trim out) = codeLine s text ∧ (codeLine s text).1.settled = (codeLine s text).1 := by
  cases split : splitAttribute? text with
  | none =>
      rw [codeLineOther s split] at laid
      cases laid
      rw [trimIndent, trimmed, codeLineOther s split]
      exact ⟨some, rfl, rfl⟩
  | some found =>
      obtain ⟨key, value⟩ := found
      obtain ⟨line, isKey, whole⟩ := codeLineSplit code trimmed split
      rw [line] at laid
      obtain ⟨settled, gap, blank, spelled⟩ := attributeLineLaid laid
      rw [spelled, line]
      refine ⟨?_, codeLineSpelled code isKey blank whole, settled⟩
      rw [ne_eq, Text.trimNil, Text.allBlank, List.all_append, ← Text.allBlank, keySolid isKey]
      exact Bool.false_ne_true

theorem literalLineSettled (s : Scan) (raw : List Char) :
    literalLine s (Text.dropReturn raw) = (.literal (Text.dropReturn raw), (literalLine s raw).2) := by
  simp only [literalLine, trimDropReturn, throughDropReturn]

theorem lineOfLiteral {s : Scan} (literal : s.literal = true) (raw : List Char) :
    lineOf s raw = literalLine s raw := if_pos literal

theorem lineOfBlank {s : Scan} (notLiteral : s.literal = false) {raw : List Char} (blank : Text.trim raw = []) :
    lineOf s raw = (.blank, s) := by
  simp [lineOf, notLiteral, blank]

theorem lineOfCode {s : Scan} (notLiteral : s.literal = false) {raw : List Char} (some : Text.trim raw ≠ []) :
    lineOf s raw = codeLine s (Text.trim raw) := by
  simp [lineOf, notLiteral, some]

/-- A line is found again in any of its layouts, and the scan goes on as before. -/
theorem lineOfLaid {s : Scan} {raw out : List Char} (laid : Laid (lineOf s raw).1 out) :
    lineOf s (Text.dropReturn out) = ((lineOf s raw).1.settled, (lineOf s raw).2) := by
  cases literal : s.literal with
  | true =>
      rw [lineOfLiteral literal] at laid ⊢
      cases laid
      rw [lineOfLiteral literal]
      exact literalLineSettled s raw
  | false =>
      by_cases blank : Text.trim raw = []
      · rw [lineOfBlank literal blank] at laid ⊢
        cases laid
        exact lineOfBlank literal rfl
      · rw [lineOfCode literal blank] at laid ⊢
        obtain ⟨some, again, settled⟩ :=
          codeLineLaid (inCodeOfNotLiteral literal) (Text.trimTwice raw) blank laid
        rw [← trimDropReturn] at some again
        rw [lineOfCode literal some, again, settled]

end DeclOrder.Layout
