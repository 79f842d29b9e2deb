import DeclOrder.Proofs.Layout.Idempotence

/-! What the canonical layout looks like. Each line that the author could have spaced is indented by what is
open in front of it and ends with no white space, and the equals signs of neighbouring attributes stand in one
column. -/
namespace DeclOrder.Layout
open Text Scan

/-- A line of the layout: what is open in front of its source, the source, what the layout takes it for, and
the line that is written. -/
structure Written where
  before : Scan
  raw : List Char
  line : Line
  out : List Char

inductive Reads : Scan → List Written → Prop where
  | nil {s : Scan} : Reads s []
  | cons {s : Scan} {raw out : List Char} {rest : List Written} (behind : Reads (lineOf s raw).2 rest) :
      Reads s (⟨s, raw, (lineOf s raw).1, out⟩ :: rest)

def leadingClosers (raw : List Char) : Nat := ((trim raw).takeWhile isCloser).length

/-- Two spaces for each group that is open and not closed by the line at once, and none at the end. -/
structure Indented (w : Written) : Prop where
  blank : allBlank w.out = allBlank w.raw
  trimmed : trimEnd w.out = w.out
  indent : allBlank w.out = false → ∃ c rest,
    w.out = List.replicate (2 * (w.before.depth - leadingClosers w.raw)) ' ' ++ c :: rest ∧ isBlank c = false

def Line.isAttributeAt (depth : Nat) : Line → Bool
  | .attribute d _ _ => d == depth
  | _ => false

/-- Neighbouring attributes of one depth, with none of that depth before or behind them. -/
structure MaximalRun (depth : Nat) (front run back : List Line) : Prop where
  some : run ≠ []
  all : ∀ line ∈ run, line.isAttributeAt depth = true
  before : ∀ line, front.getLast? = .some line → line.isAttributeAt depth = false
  behind : ∀ line, back.head? = .some line → line.isAttributeAt depth = false

def EqualsAt (depth column : Nat) (w : Written) : Prop := ∃ key value gap rest, w.line = .attribute depth key value ∧
  w.out = List.replicate (2 * depth) ' ' ++ key ++ gap ++ '=' :: rest ∧ gap.all (· == ' ') = true ∧
  (List.replicate (2 * depth) ' ' ++ key ++ gap).length = column

/-- The equals signs of a run stand in one column, one space behind the longest key. -/
structure Aligned (depth column : Nat) (run : List Written) : Prop where
  equals : ∀ w ∈ run, EqualsAt depth column w
  within : ∀ w ∈ run, 2 * depth + w.line.keyLength + 1 ≤ column
  reached : ∃ w ∈ run, 2 * depth + w.line.keyLength + 1 = column

structure InColumns (rows : List Written) : Prop where
  unbroken : ∀ w ∈ rows, '\n' ∉ w.out
  ends : Ends allBlank (rows.map (·.out))
  indented : ∀ w ∈ rows, w.before.literal = false → Indented w
  aligned : ∀ depth front run back, rows = front ++ run ++ back →
    MaximalRun depth (front.map (·.line)) (run.map (·.line)) (back.map (·.line)) → ∃ column, Aligned depth column run

/-! Indentation. -/

theorem trimmedEnd {text : List Char} (trimmed : trim text = text) (some : text ≠ []) :
    ∃ c rest, text = c :: rest ∧ isBlank c = false ∧ trimEnd text = text := by
  cases text with
  | nil => exact absurd rfl some
  | cons c rest =>
      have solid := trimHead trimmed
      rw [trim, trimStartSolid solid] at trimmed
      exact ⟨c, rest, rfl, solid, trimmed⟩

theorem trimEndBehind {c : Char} {rest : List Char} (solid : isBlank c = false) (ends : trimEnd (c :: rest) = c :: rest)
    (text : List Char) : trimEnd (text ++ c :: rest) = text ++ c :: rest := by
  have notBlank : allBlank (c :: rest) = false := by simp [allBlank, solid]
  rw [trimEndAppendSolid notBlank, ends]

theorem paddedTextShape (depth width : Nat) (key value : List Char) : paddedText depth width key value =
    indent depth ++ key ++ List.replicate (width - key.length + 1) ' ' ++ '=' :: trimEnd (' ' :: value) := by
  have equals : isBlank '=' = false := by decide
  have notBlank : allBlank ('=' :: ' ' :: value) = false := by simp [allBlank, equals]
  have shape : indent depth ++ padded width key ++ [' ', '=', ' '] ++ value =
      indent depth ++ key ++ List.replicate (width - key.length + 1) ' ' ++ '=' :: ' ' :: value := by
    simp [padded, List.replicate_succ']
  rw [paddedText, shape, trimEndAppendSolid notBlank, trimEndHead equals]

theorem attributeLineEnds {s : Scan} (notLiteral : s.literal = false) {key value out : List Char}
    (trimmed : trim value = value) (laid : Laid (attributeLine s key value).1 out) :
    trimEnd out = out ∧ ∃ rest, out = indent s.depth ++ key ++ rest := by
  unfold attributeLine at laid
  dsimp only at laid
  split at laid
  · cases laid
    exact ⟨trimEndTwice _, _, by rw [paddedTextShape, List.append_assoc]⟩
  · rename_i opened
    have some : value ≠ [] := by
      rintro rfl
      simp [through, notLiteral] at opened
    obtain ⟨c, rest, rfl, solid, ends⟩ := trimmedEnd trimmed some
    cases laid
    refine ⟨?_, [' ', '=', ' '] ++ c :: rest, by simp⟩
    rw [← List.append_assoc]
    exact trimEndBehind solid ends _

theorem attributeClosers {raw key value : List Char} (split : splitAttribute? (trim raw) = some (key, value)) :
    leadingClosers raw = 0 := by
  obtain ⟨gap, rest, isKey, _, _, _, whole⟩ := splitAttributeSource split
  obtain ⟨c, tail, rfl, _, notCloser⟩ := keyHead isKey
  rw [leadingClosers, whole, List.cons_append, List.takeWhile_cons_of_neg (by simp [notCloser])]
  rfl

theorem indentedLine {s : Scan} {raw out : List Char} (noBreak : '\n' ∉ raw) (laid : Laid (lineOf s raw).1 out)
    (code : s.literal = false) : Indented ⟨s, raw, (lineOf s raw).1, out⟩ := by
  have blank : allBlank out = allBlank raw := (soundBlank (lineOfSound s noBreak) laid).trans (lineOfIsBlank s raw)
  by_cases empty : trim raw = []
  · rw [lineOfBlank code empty] at laid
    cases laid
    exact ⟨blank, rfl, fun solid => absurd (show true = false from solid) (by decide)⟩
  · rw [lineOfCode code empty] at laid
    cases split : splitAttribute? (trim raw) with
    | none =>
        obtain ⟨c, rest, shape, solid, ends⟩ := trimmedEnd (trimTwice raw) empty
        rw [codeLineOther s split] at laid
        cases laid
        rw [shape] at blank ends ⊢
        exact ⟨blank, trimEndBehind solid ends _, fun _ => ⟨c, rest, by rw [← shape]; rfl, solid⟩⟩
    | some found =>
        obtain ⟨key, value⟩ := found
        obtain ⟨line, isKey, whole⟩ := codeLineSplit (inCodeOfNotLiteral code) (trimTwice raw) split
        rw [line] at laid
        obtain ⟨ends, rest, shape⟩ := attributeLineEnds code whole laid
        obtain ⟨c, tail, rfl, solid, _⟩ := keyHead isKey
        refine ⟨blank, ends, fun _ => ⟨c, tail ++ rest, ?_, solid⟩⟩
        rw [attributeClosers split, shape, List.append_assoc]
        rfl

/-! Columns. -/

theorem attributeAt {depth : Nat} {line : Line} (is : line.isAttributeAt depth = true) :
    ∃ key value, line = .attribute depth key value := by
  cases line with
  | blank | literal | code => contradiction
  | «attribute» d key value =>
      rw [Line.isAttributeAt, beq_iff_eq] at is
      exact ⟨key, value, by rw [is]⟩

theorem runWidthLongest {depth : Nat} {run : List Line} (all : ∀ line ∈ run, line.isAttributeAt depth = true)
    (some : run ≠ []) : (∀ line ∈ run, line.keyLength ≤ runWidth depth run) ∧
      ∃ line ∈ run, line.keyLength = runWidth depth run := by
  induction run with
  | nil => exact absurd rfl some
  | cons line rest ih =>
      obtain ⟨here, others⟩ := List.forall_mem_cons.mp all
      obtain ⟨key, value, rfl⟩ := attributeAt here
      rw [runWidth, if_pos rfl]
      cases rest with
      | nil => exact ⟨by simp [Line.keyLength, runWidth], _, List.mem_cons_self, by simp [Line.keyLength, runWidth]⟩
      | cons next more =>
          obtain ⟨within, longest, member, reached⟩ := ih others (List.cons_ne_nil next more)
          refine ⟨List.forall_mem_cons.mpr ⟨Nat.le_max_left _ _, fun l inside =>
            Nat.le_trans (within l inside) (Nat.le_max_right _ _)⟩, ?_⟩
          rcases Nat.le_total key.length (runWidth depth (next :: more)) with shorter | longer
          · exact ⟨longest, List.mem_cons_of_mem _ member, by rw [reached, Nat.max_eq_right shorter]⟩
          · exact ⟨_, List.mem_cons_self, by rw [Nat.max_eq_left longer]; rfl⟩

def Line.alignedText (width : Nat) : Line → List Char
  | .attribute depth key value => paddedText depth width key value
  | _ => []

theorem textsInRun {depth width : Nat} {run : List Line} (all : ∀ line ∈ run, line.isAttributeAt depth = true)
    (back : List Line) : laidFrom (some (depth, width)) (run ++ back) =
      run.map (·.alignedText width) ++ laidFrom (some (depth, width)) back := by
  induction run with
  | nil => rfl
  | cons line rest ih =>
      obtain ⟨here, others⟩ := List.forall_mem_cons.mp all
      obtain ⟨key, value, rfl⟩ := attributeAt here
      have same : ∀ lines, widthIn (some (depth, width)) depth lines = width := fun _ => if_pos rfl
      rw [List.cons_append, laidFrom, same, ih others]
      rfl

theorem laidFromLine (run : Run) (line : Line) (rest : List Line) : ∃ text after,
    laidFrom run (line :: rest) = text :: laidFrom after rest ∧
      ∀ depth width, after = some (depth, width) → line.isAttributeAt depth = true := by
  cases line with
  | blank | literal | code => exact ⟨_, none, rfl, fun _ _ other => by contradiction⟩
  | «attribute» d key value =>
      refine ⟨_, _, rfl, fun depth width same => ?_⟩
      cases same
      exact beq_self_eq_true _

theorem textsInFront (front : List Line) (run : Run) (back : List Line) : ∃ texts after,
    laidFrom run (front ++ back) = texts ++ laidFrom after back ∧ texts.length = front.length ∧
      ∀ depth width, after = some (depth, width) → front = [] ∧ run = after ∨
        ∃ line, front.getLast? = some line ∧ line.isAttributeAt depth = true := by
  induction front generalizing run with
  | nil => exact ⟨[], run, rfl, rfl, fun _ _ _ => .inl ⟨rfl, rfl⟩⟩
  | cons line rest ih =>
      obtain ⟨text, next, first, opened⟩ := laidFromLine run line (rest ++ back)
      obtain ⟨texts, after, others, size, last⟩ := ih next
      refine ⟨text :: texts, after, ?_, congrArg (· + 1) size, fun depth width same => .inr ?_⟩
      · rw [List.cons_append, first, others, List.cons_append]
      · rcases last depth width same with ⟨rfl, none⟩ | ⟨l, found, is⟩
        · exact ⟨line, rfl, opened depth width (none.trans same)⟩
        · exact ⟨l, by rw [List.getLast?_cons, found]; rfl, is⟩

theorem runWidthOther {depth : Nat} {lines : List Line}
    (other : ∀ line, lines.head? = some line → line.isAttributeAt depth = false) : runWidth depth lines = 0 := by
  cases lines with
  | nil => rfl
  | cons line rest =>
      cases line with
      | blank | literal | code => rfl
      | «attribute» d key value => exact if_neg (beq_eq_false_iff_ne.mp (other _ rfl))

theorem textsStartRun {depth : Nat} {after : Run} (fresh : ∀ width, after ≠ some (depth, width)) {lines : List Line}
    (start : ∀ line, lines.head? = some line → line.isAttributeAt depth = true) (some : lines ≠ []) :
    laidFrom after lines = laidFrom (.some (depth, runWidth depth lines)) lines := by
  cases lines with
  | nil => exact absurd rfl some
  | cons line rest =>
      obtain ⟨key, value, rfl⟩ := attributeAt (start line rfl)
      have width : widthIn after depth (.attribute depth key value :: rest) =
          runWidth depth (.attribute depth key value :: rest) := by
        cases after with
        | none => rfl
        | some found =>
            obtain ⟨d, width⟩ := found
            exact if_neg (fun same => fresh width (by rw [same]))
      have kept : widthIn (.some (depth, runWidth depth (.attribute depth key value :: rest))) depth
          (.attribute depth key value :: rest) = runWidth depth (.attribute depth key value :: rest) := if_pos rfl
      rw [laidFrom, laidFrom, width, kept]

theorem textsAroundRun {depth : Nat} {front run back : List Line} (maximal : MaximalRun depth front run back) :
    ∃ before behind, laidFrom none (front ++ run ++ back) =
      before ++ run.map (·.alignedText (runWidth depth run)) ++ behind ∧ before.length = front.length := by
  obtain ⟨before, after, texts, size, last⟩ := textsInFront front none (run ++ back)
  -- A run of this depth that is open in front of `run` would reach back over its first line.
  have fresh (width : Nat) : after ≠ some (depth, width) := by
    intro same
    rcases last depth width same with ⟨_, none⟩ | ⟨line, found, is⟩
    · rw [same] at none
      contradiction
    · rw [maximal.before line found] at is
      contradiction
  have start : ∀ line, (run ++ back).head? = some line → line.isAttributeAt depth = true := by
    obtain ⟨first, rest, rfl⟩ := List.exists_cons_of_ne_nil maximal.some
    rintro line ⟨⟩
    exact maximal.all first List.mem_cons_self
  have begun := textsStartRun fresh start (fun none => maximal.some (List.append_eq_nil_iff.mp none).1)
  rw [runWidthBehind (runWidthOther maximal.behind) run, textsInRun maximal.all] at begun
  refine ⟨before, laidFrom (.some (depth, runWidth depth run)) back, ?_, size⟩
  rw [List.append_assoc, texts, begun, List.append_assoc]

/-! The lines of a text. -/

def writtenFrom (s : Scan) : List (List Char) → List (List Char) → List Written
  | raw :: raws, out :: outs => ⟨s, raw, (lineOf s raw).1, out⟩ :: writtenFrom (lineOf s raw).2 raws outs
  | _, _ => []

theorem writtenReads (s : Scan) (raws outs : List (List Char)) : Reads s (writtenFrom s raws outs) := by
  induction raws generalizing s outs with
  | nil => exact .nil
  | cons raw raws ih =>
      cases outs with
      | nil => exact .nil
      | cons out outs => exact .cons (ih _ outs)

theorem writtenParts (s : Scan) {raws outs : List (List Char)} (size : raws.length = outs.length) :
    (writtenFrom s raws outs).map (·.raw) = raws ∧ (writtenFrom s raws outs).map (·.out) = outs ∧
      (writtenFrom s raws outs).map (·.line) = linesFrom s raws := by
  induction raws generalizing s outs with
  | nil =>
      obtain rfl := List.length_eq_zero_iff.mp size.symm
      exact ⟨rfl, rfl, rfl⟩
  | cons raw raws ih =>
      cases outs with
      | nil => contradiction
      | cons out outs =>
          obtain ⟨sources, written, lines⟩ := ih (lineOf s raw).2 (Nat.succ.inj size)
          exact ⟨congrArg _ sources, congrArg _ written, congrArg _ lines⟩

theorem writtenIndented {s : Scan} {raws : List (List Char)} (noBreak : ∀ raw ∈ raws, '\n' ∉ raw) (run : Run) :
    ∀ w ∈ writtenFrom s raws (laidFrom run (linesFrom s raws)), w.before.literal = false → Indented w := by
  induction raws generalizing s run with
  | nil => exact fun w member => absurd member List.not_mem_nil
  | cons raw raws ih =>
      obtain ⟨here, others⟩ := List.forall_mem_cons.mp noBreak
      rw [linesFromCons]
      obtain ⟨text, after, laid, texts⟩ := laidFromCons run (lineOf s raw).1 (linesFrom (lineOf s raw).2 raws)
      rw [texts]
      exact List.forall_mem_cons.mpr ⟨indentedLine here laid, ih others after⟩

theorem textsLength (run : Run) (lines : List Line) : (laidFrom run lines).length = lines.length := by
  induction lines generalizing run with
  | nil => rfl
  | cons line rest ih =>
      obtain ⟨text, after, _, texts⟩ := laidFromCons run line rest
      rw [texts, List.length_cons, List.length_cons, ih]

theorem equalsInText {depth width : Nat} {w : Written} (is : w.line.isAttributeAt depth = true)
    (out : w.out = w.line.alignedText width) (within : w.line.keyLength ≤ width) :
    EqualsAt depth (2 * depth + width + 1) w := by
  obtain ⟨key, value, line⟩ := attributeAt is
  rw [line] at out within
  refine ⟨key, value, List.replicate (width - key.length + 1) ' ', trimEnd (' ' :: value), line, ?_, ?_, ?_⟩
  · rw [out, Line.alignedText, paddedTextShape]
    rfl
  · simp
  · have fits : key.length ≤ width := within
    simp only [List.length_append, List.length_replicate]
    omega

theorem alignedRun {depth : Nat} {front run back : List Written}
    (outs : (front ++ run ++ back).map (·.out) = laidFrom none ((front ++ run ++ back).map (·.line)))
    (maximal : MaximalRun depth (front.map (·.line)) (run.map (·.line)) (back.map (·.line))) :
    ∃ column, Aligned depth column run := by
  obtain ⟨before, behind, texts, size⟩ := textsAroundRun maximal
  obtain ⟨within, longest, member, reached⟩ := runWidthLongest maximal.all maximal.some
  generalize runWidth depth (run.map (·.line)) = width at texts within reached
  -- The runs stand at the same place in both lists, so their parts are the same.
  have same : run.map (·.out) = run.map (fun w => w.line.alignedText width) := by
    simp only [List.map_append] at outs
    rw [texts, List.append_assoc, List.append_assoc, List.map_map] at outs
    have behindFront := List.append_inj_right outs (by rw [List.length_map, size, List.length_map])
    exact List.append_inj_left behindFront (by rw [List.length_map, List.length_map])
  have out : ∀ w ∈ run, w.out = w.line.alignedText width := List.map_inj_left.mp same
  obtain ⟨w, inRun, rfl⟩ := List.mem_map.mp member
  refine ⟨2 * depth + width + 1, fun w inside => ?_, fun w inside => ?_, w, inRun, by rw [reached]⟩
  · exact equalsInText (maximal.all _ (List.mem_map_of_mem inside)) (out w inside) (within _ (List.mem_map_of_mem inside))
  · have fits := within w.line (List.mem_map_of_mem inside)
    omega

theorem laidOutColumns (text : List Char) : ∃ front rows back,
    lines text = front ++ rows.map (·.raw) ++ back ∧ front.all allBlank = true ∧ back.all allBlank = true ∧
    Reads (scanFrom .start front) rows ∧ laidOut text = unlines (rows.map (·.out)) ∧ InColumns rows := by
  obtain ⟨front, back, _, before, behind, ends, split, _⟩ := innerLines text
  have noBreak : ∀ raw ∈ dropBlankEnds (lines text), '\n' ∉ raw := by
    intro raw member
    refine linesNoBreak text raw ?_
    rw [split]
    exact List.mem_append_left back (List.mem_append_right front member)
  generalize inner : dropBlankEnds (lines text) = raws at ends split noBreak
  have kept : keptLines text = linesFrom .start raws := inner ▸ keptInner text
  have size : raws.length = (laidFrom none (linesFrom .start raws)).length := by
    rw [textsLength, linesFromLength]
  obtain ⟨sources, outs, found⟩ := writtenParts .start size
  refine ⟨front, writtenFrom .start raws (laidFrom none (linesFrom .start raws)), back, ?_, before, behind, ?_, ?_, ?_⟩
  · rw [sources, split]
  · rw [scanFromBlank before]
    exact writtenReads ..
  · rw [laidOutKept, kept, outs]
  · refine ⟨fun w member => ?_, ?_, writtenIndented noBreak none, fun depth front run back whole maximal => ?_⟩
    · refine textsNoBreak (keptSound text) none w.out ?_
      rw [kept, ← outs]
      exact List.mem_map_of_mem member
    · rw [outs, ← kept]
      exact endsMap (textsBlank (keptSound text) none) (keptEnds text)
    · rw [whole] at outs found
      exact alignedRun (by rw [outs, found]) maximal

/-- Where no key is too long, the canonical text consists of the lines of the text but the blank ones at both
ends, in order, each with a line feed behind it. It is empty or starts and ends with a line that is not blank,
lines that are not kept as they are get their indentation and lose white space at their end, and the equals
signs of neighbouring attributes are aligned. Where a key is too long there is no canonical text. -/
theorem canonicalColumns (text : List Char) :
    (Narrow text ∧ ∃ front rows back, lines text = front ++ rows.map (·.raw) ++ back ∧
      front.all allBlank = true ∧ back.all allBlank = true ∧ Reads (scanFrom .start front) rows ∧
      canonical text = some (unlines (rows.map (·.out))) ∧ InColumns rows) ∨
    ¬ Narrow text ∧ canonical text = none := by
  by_cases narrow : Narrow text
  · obtain ⟨front, rows, back, split, before, behind, reads, laid, columns⟩ := laidOutColumns text
    exact .inl ⟨narrow, front, rows, back, split, before, behind, reads, by rw [canonicalNarrow narrow, laid], columns⟩
  · exact .inr ⟨narrow, canonicalNone.mpr narrow⟩

/-- Every key of a run is padded to the longest one. -/
theorem columnsLost : canonical ("b = 1\n".toList ++ List.replicate 65536 'a' ++ " = 1\n".toList) = none := by
  have first := linesOfLine "b = 1".toList (List.replicate 65536 'a' ++ " = 1\n".toList) (by decide)
  have split : lines ("b = 1\n".toList ++ (List.replicate 65536 'a' ++ " = 1\n".toList)) =
      ["b = 1".toList] ++ [List.replicate 65536 'a' ++ " = 1".toList] := by
    rw [linesLetters] at first
    exact first
  rw [List.append_assoc]
  exact @wideLetters 65535 (Nat.le_refl _) _ _ _ split (by decide)

/-- The key in quotes counts its characters, not its bytes. -/
example : canonical "x \x7b\n\"\u00e9\"=1\n    longer =  [ ]  \n\x7d\n\n".toList =
    some "x \x7b\n  \"\u00e9\"    = 1\n  longer = [ ]\n\x7d\n".toList := by decide

end DeclOrder.Layout
