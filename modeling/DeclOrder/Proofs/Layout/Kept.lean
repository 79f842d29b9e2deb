import DeclOrder.Proofs.Layout.Settling

/-! The lines that the layout writes out: all but the blank ones at both ends. A blank line in front
of the others leaves the scan where it was, so they are the lines of a text of their own. -/
namespace DeclOrder.Layout
open Text

def Line.isBlank : Line → Bool
  | .blank => true
  | .literal text => allBlank text
  | _ => false

def dropEnds {α : Type} (p : α → Bool) (items : List α) : List α :=
  ((items.dropWhile p).reverse.dropWhile p).reverse

def keptLines (text : List Char) : List Line := dropEnds Line.isBlank (ofText text)

structure Ends {α : Type} (p : α → Bool) (items : List α) : Prop where
  head : ∀ x, items.head? = some x → p x = false
  last : ∀ x, items.getLast? = some x → p x = false

section
variable {α β : Type} {p : α → Bool} {q : β → Bool}

theorem dropWhileStops {items : List α} (stop : ∀ x, items.head? = some x → p x = false) :
    items.dropWhile p = items := by
  cases items with
  | nil => rfl
  | cons x rest => exact List.dropWhile_cons_of_neg (by simp [stop x rfl])

theorem endsAppend {items : List α} (ends : Ends p items) (some : items ≠ []) (more : List α) :
    ∀ x, (items ++ more).head? = .some x → p x = false := by
  intro x head
  cases items with
  | nil => exact absurd rfl some
  | cons y rest => exact ends.head x head

theorem dropEndsMiddle {front middle back : List α} (before : front.all p = true) (ends : Ends p middle)
    (behind : back.all p = true) : dropEnds p (front ++ middle ++ back) = middle := by
  rw [dropEnds, List.append_assoc, List.dropWhile_append_of_pos (List.all_eq_true.mp before)]
  cases empty : middle.isEmpty with
  | true =>
      have none : (back ++ []).dropWhile p = [] := List.dropWhile_append_of_pos (List.all_eq_true.mp behind)
      rw [List.append_nil] at none
      rw [List.isEmpty_iff.mp empty, List.nil_append, none]
      rfl
  | false =>
      have some : middle ≠ [] := fun h => by simp [h] at empty
      have backward : ∀ x ∈ back.reverse, p x = true := by simpa using behind
      rw [dropWhileStops (endsAppend ends some back), List.reverse_append, List.dropWhile_append_of_pos backward,
        dropWhileStops (fun x head => ends.last x (by simpa using head)), List.reverse_reverse]

theorem dropEndsStops {items : List α} (ends : Ends p items) : dropEnds p items = items := by
  have middle : dropEnds p ([] ++ items ++ []) = items := dropEndsMiddle rfl ends rfl
  rwa [List.nil_append, List.append_nil] at middle

theorem dropEndsSplit (p : α → Bool) (items : List α) : ∃ front back, front.all p = true ∧ back.all p = true ∧
    items = front ++ dropEnds p items ++ back ∧ Ends p (dropEnds p items) := by
  have start := List.takeWhile_append_dropWhile (p := p) (l := items)
  have stop := List.takeWhile_append_dropWhile (p := p) (l := (items.dropWhile p).reverse)
  have rest : items.dropWhile p = dropEnds p items ++ ((items.dropWhile p).reverse.takeWhile p).reverse := by
    rw [dropEnds, ← List.reverse_append, stop, List.reverse_reverse]
  refine ⟨items.takeWhile p, ((items.dropWhile p).reverse.takeWhile p).reverse, List.all_takeWhile, ?_, ?_, ?_, ?_⟩
  · rw [List.all_reverse]
    exact List.all_takeWhile
  · rw [List.append_assoc, ← rest, start]
  · intro x head
    have first := List.head?_dropWhile_not p items
    obtain ⟨tail, shape⟩ := List.head?_eq_some_iff.mp head
    rw [rest, shape] at first
    simpa using first
  · intro x last
    have first := List.head?_dropWhile_not p (items.dropWhile p).reverse
    rw [dropEnds, List.getLast?_reverse] at last
    rw [last] at first
    simpa using first

theorem endsMap {items : List α} {images : List β} (same : images.map q = items.map p) (ends : Ends p items) :
    Ends q images := by
  constructor
  · intro y head
    have heads := congrArg List.head? same
    rw [List.head?_map, List.head?_map, head] at heads
    obtain ⟨x, first, value⟩ := Option.map_eq_some_iff.mp heads.symm
    rw [← value]
    exact ends.head x first
  · intro y last
    have lasts := congrArg List.getLast? same
    rw [List.getLast?_map, List.getLast?_map, last] at lasts
    obtain ⟨x, first, value⟩ := Option.map_eq_some_iff.mp lasts.symm
    rw [← value]
    exact ends.last x first

theorem allOfMap {items : List α} {images : List β} (same : images.map q = items.map p) (all : items.all p = true) :
    images.all q = true := by
  have both := congrArg (·.all id) same
  simp only [List.all_map, Function.id_comp] at both
  rw [both, all]

end

theorem paddedTextSolid (depth width : Nat) (key value : List Char) :
    allBlank (paddedText depth width key value) = false := by
  rw [← Bool.not_eq_true, ← trimEndNil, paddedText, trimEndTwice, trimEndNil]
  simp [allBlank, isBlank]

/-- A line of some text. Its code is trimmed and no part of it reaches over a line end. -/
inductive Line.Sound : Line → Prop where
  | blank : Sound .blank
  | literal {text : List Char} (noBreak : '\n' ∉ text) : Sound (.literal text)
  | code {depth : Nat} {text : List Char} (solid : allBlank text = false) (trimmed : text.getLast? ≠ some '\r')
      (noBreak : '\n' ∉ text) : Sound (.code depth text)
  | aligned {depth : Nat} {key value : List Char} (noBreakKey : '\n' ∉ key) (noBreakValue : '\n' ∉ value) :
      Sound (.attribute depth key value)

theorem splitAttributeSubset {text key value : List Char} (h : splitAttribute? text = some (key, value)) :
    key ⊆ text ∧ value ⊆ text := by
  obtain ⟨gap, rest, _, _, _, rfl, rfl⟩ := splitAttributeSource h
  refine ⟨List.subset_append_left _ _, fun c member => ?_⟩
  have below := trimSubset rest member
  simp [below]

theorem trimReturn (text : List Char) : (trim text).getLast? ≠ some '\r' := by
  intro last
  have solid := trimEndLast last
  contradiction

theorem returnAppend {front tail : List Char} (before : front.getLast? ≠ some '\r')
    (behind : tail.getLast? ≠ some '\r') : (front ++ tail).getLast? ≠ some '\r' := by
  intro last
  rw [List.getLast?_append, Option.or_eq_some_iff] at last
  rcases last with last | ⟨_, last⟩
  · exact behind last
  · exact before last

theorem codeLineSound {s : Scan} {text : List Char} (trimmed : trim text = text)
    (solid : allBlank text = false) (noBreak : '\n' ∉ text) : (codeLine s text).1.Sound := by
  unfold codeLine
  dsimp only
  split
  · rename_i key value found
    obtain ⟨ofKey, ofValue⟩ := splitAttributeSubset found
    obtain ⟨_, rest, _, _, _, rfl, _⟩ := splitAttributeSource found
    have noBreakKey : '\n' ∉ key := fun h => noBreak (ofKey h)
    have noBreakValue : '\n' ∉ trim rest := fun h => noBreak (ofValue h)
    split
    · exact .aligned noBreakKey noBreakValue
    · refine .code ?_ ?_ ?_
      · simp [allBlank, isBlank]
      · exact returnAppend (by simp) (trimReturn rest)
      · simp [noBreakKey, noBreakValue]
  · exact .code solid (trimmed ▸ trimReturn text) noBreak

theorem lineOfSound (s : Scan) {raw : List Char} (noBreak : '\n' ∉ raw) : (lineOf s raw).1.Sound := by
  cases literal : s.literal with
  | true =>
      rw [lineOfLiteral literal]
      exact .literal noBreak
  | false =>
      by_cases blank : trim raw = []
      · rw [lineOfBlank literal blank]
        exact .blank
      · rw [lineOfCode literal blank]
        exact codeLineSound (trimTwice raw) (trimSolid blank) (fun h => noBreak (trimSubset raw h))

theorem linesFromCons (s : Scan) (raw : List Char) (rest : List (List Char)) :
    linesFrom s (raw :: rest) = (lineOf s raw).1 :: linesFrom (lineOf s raw).2 rest := rfl

theorem linesFromSound (s : Scan) {raws : List (List Char)} (noBreak : ∀ raw ∈ raws, '\n' ∉ raw) :
    ∀ line ∈ linesFrom s raws, line.Sound := by
  induction raws generalizing s with
  | nil => simp [linesFrom]
  | cons raw rest ih =>
      rw [linesFromCons]
      exact List.forall_mem_cons.mpr ⟨lineOfSound s (noBreak raw List.mem_cons_self),
        ih _ (fun r member => noBreak r (List.mem_cons_of_mem _ member))⟩

theorem soundBlank {line : Line} {out : List Char} (sound : line.Sound) (laid : Laid line out) :
    allBlank out = line.isBlank := by
  cases sound with
  | blank | literal => cases laid; rfl
  | code solid =>
      cases laid
      rw [allBlank, List.all_append, ← allBlank, ← allBlank, solid, Bool.and_false]
      rfl
  | aligned =>
      cases laid
      exact paddedTextSolid ..

theorem soundNoBreak {line : Line} {out : List Char} (sound : line.Sound) (laid : Laid line out) : '\n' ∉ out := by
  cases sound with
  | blank => cases laid; exact List.not_mem_nil
  | literal noBreak => cases laid; exact noBreak
  | code _ _ noBreak =>
      cases laid
      simp [indent, noBreak]
  | aligned noBreakKey noBreakValue =>
      cases laid
      intro member
      have below := trimEndSubset _ member
      simp [indent, padded, noBreakKey, noBreakValue] at below

theorem laidFromCons (run : Run) (line : Line) (rest : List Line) : ∃ text after, Laid line text ∧
    laidFrom run (line :: rest) = text :: laidFrom after rest := by
  cases line with
  | blank => exact ⟨_, _, .blank, rfl⟩
  | literal text => exact ⟨_, _, .literal text, rfl⟩
  | code depth text => exact ⟨_, _, .code depth text, rfl⟩
  | _ => exact ⟨_, _, .aligned .., rfl⟩

theorem textsBlank {lines : List Line} (sound : ∀ line ∈ lines, line.Sound) (run : Run) :
    (laidFrom run lines).map allBlank = lines.map Line.isBlank := by
  induction lines generalizing run with
  | nil => rfl
  | cons line rest ih =>
      obtain ⟨text, after, laid, texts⟩ := laidFromCons run line rest
      rw [texts, List.map_cons, List.map_cons, soundBlank (sound line List.mem_cons_self) laid,
        ih (fun l member => sound l (List.mem_cons_of_mem _ member))]

theorem textsBlankFront {front : List Line} (blank : front.all Line.isBlank = true) (rest : List Line) :
    laidFrom none (front ++ rest) = laidFrom none front ++ laidFrom none rest := by
  induction front with
  | nil => rfl
  | cons line more ih =>
      rw [List.all_cons, Bool.and_eq_true] at blank
      cases line with
      | blank | literal => exact congrArg _ (ih blank.2)
      | _ => exact absurd blank.1 Bool.false_ne_true

theorem runWidthBlank {back : List Line} (blank : back.all Line.isBlank = true) (depth : Nat) :
    runWidth depth back = 0 := by
  cases back with
  | nil => rfl
  | cons line more =>
      rw [List.all_cons, Bool.and_eq_true] at blank
      cases line with
      | blank | literal => rfl
      | _ => exact absurd blank.1 Bool.false_ne_true

theorem runWidthBehind {back : List Line} {depth : Nat} (idle : runWidth depth back = 0) (lines : List Line) :
    runWidth depth (lines ++ back) = runWidth depth lines := by
  induction lines with
  | nil => exact idle
  | cons line rest ih =>
      cases line with
      | blank | literal | code => rfl
      | _ => simp only [List.cons_append, runWidth, ih]

theorem textsBehind {back : List Line} (idle : ∀ depth, runWidth depth back = 0) (lines : List Line) (run : Run) :
    ∃ after, laidFrom run (lines ++ back) = laidFrom run lines ++ laidFrom after back := by
  induction lines generalizing run with
  | nil => exact ⟨run, rfl⟩
  | cons line rest ih =>
      cases line with
      | blank | literal | code =>
          obtain ⟨after, texts⟩ := ih none
          exact ⟨after, congrArg _ texts⟩
      | _ =>
          rename_i depth key value
          have width := runWidthBehind (idle depth) (.attribute depth key value :: rest)
          have same : widthIn run depth (.attribute depth key value :: rest ++ back) =
              widthIn run depth (.attribute depth key value :: rest) := by
            simp only [widthIn, width]
          obtain ⟨after, texts⟩ := ih (some (depth, widthIn run depth (.attribute depth key value :: rest)))
          refine ⟨after, ?_⟩
          rw [List.cons_append] at same ⊢
          simp only [laidFrom, same, texts, List.cons_append]

theorem textsAllBlank {lines : List Line} (sound : ∀ line ∈ lines, line.Sound)
    (blank : lines.all Line.isBlank = true) (run : Run) : (laidFrom run lines).all allBlank = true :=
  allOfMap (textsBlank sound run) blank

theorem laidOutKept (text : List Char) : laidOut text = unlines (laidFrom none (keptLines text)) := by
  obtain ⟨front, back, before, behind, split, ends⟩ := dropEndsSplit Line.isBlank (ofText text)
  have sound := linesFromSound .start (linesNoBreak text)
  rw [← ofText, split] at sound
  simp only [List.mem_append] at sound
  obtain ⟨after, texts⟩ := textsBehind (runWidthBlank behind) (dropEnds Line.isBlank (ofText text)) none
  have textsBefore := textsAllBlank (fun line member => sound line (.inl (.inl member))) before none
  have textsBehind := textsAllBlank (fun line member => sound line (.inr member)) behind after
  have textsEnd := endsMap (textsBlank (fun line member => sound line (.inl (.inr member))) none) ends
  change unlines (dropEnds allBlank (laidFrom none (ofText text))) = _
  rw [split, List.append_assoc, textsBlankFront before, texts, ← List.append_assoc,
    dropEndsMiddle textsBefore textsEnd textsBehind, keptLines]

theorem blankKey {line : Line} (blank : line.isBlank = true) : line.keyLength = 0 := by
  cases line with
  | blank | literal => rfl
  | _ => exact absurd blank Bool.false_ne_true

theorem narrowKept {text : List Char} : Narrow text ↔ ∀ line ∈ keptLines text, line.keyLength ≤ widthLimit := by
  obtain ⟨front, back, before, behind, split, _⟩ := dropEndsSplit Line.isBlank (ofText text)
  have short {lines : List Line} (blank : lines.all Line.isBlank = true) : ∀ line ∈ lines, line.keyLength ≤ widthLimit := by
    intro line member
    rw [blankKey (List.all_eq_true.mp blank line member)]
    exact Nat.zero_le _
  unfold Narrow keptLines
  rw [split, List.forall_mem_append, List.forall_mem_append, ← split]
  exact ⟨fun all => all.1.2, fun kept => ⟨⟨short before, kept⟩, short behind⟩⟩

theorem canonicalKept (text : List Char) : canonical text = (textsFrom none (keptLines text)).map unlines := by
  refine Option.ext fun out => ?_
  simp only [canonicalIff, Option.map_eq_some_iff, textsFromIff (fitsNone _), narrowKept, laidOutKept]
  constructor
  · rintro ⟨narrow, rfl⟩
    exact ⟨_, ⟨narrow, rfl⟩, rfl⟩
  · rintro ⟨_, ⟨narrow, rfl⟩, rfl⟩
    exact ⟨narrow, rfl⟩

theorem codeLineSolid (s : Scan) (text : List Char) : (codeLine s text).1.isBlank = false := by
  unfold codeLine
  dsimp only
  split
  · split <;> rfl
  · rfl

theorem lineOfBlankLine {s : Scan} (notLiteral : s.literal = false) {raw : List Char}
    (blank : (lineOf s raw).1.isBlank = true) : (lineOf s raw).2 = s := by
  by_cases empty : trim raw = []
  · rw [lineOfBlank notLiteral empty]
  · rw [lineOfCode notLiteral empty, codeLineSolid] at blank
    contradiction

theorem lineOfIsBlank (s : Scan) (raw : List Char) : (lineOf s raw).1.isBlank = allBlank raw := by
  cases literal : s.literal with
  | true =>
      rw [lineOfLiteral literal]
      rfl
  | false =>
      by_cases blank : trim raw = []
      · rw [lineOfBlank literal blank, trimNil.mp blank]
        rfl
      · rw [lineOfCode literal blank, codeLineSolid]
        exact (Bool.eq_false_iff.mpr (fun all => blank (trimNil.mpr all))).symm

theorem breakBlank {a text : List Char} (before : a ∈ [[], ['\r']]) (blank : allBlank text = true) :
    allBlank (a ++ '\n' :: text) = true := by
  simp only [List.mem_cons, List.not_mem_nil, or_false] at before
  refine allBlankAppend.mpr ⟨?_, allBlankCons.mpr ⟨by decide, blank⟩⟩
  rcases before with rfl | rfl <;> decide

theorem linesBlank {s : Scan} {text : List Char} (blank : (linesFrom s (lines text)).all Line.isBlank = true) :
    allBlank text = true := by
  generalize split : lines text = raws at blank
  induction raws generalizing s text with
  | nil => rw [linesEmpty split]; rfl
  | cons raw rest ih =>
      rw [linesFromCons, List.all_cons, Bool.and_eq_true] at blank
      obtain ⟨u, rfl, ends⟩ := linesCons split
      refine allBlankAppend.mpr ⟨(lineOfIsBlank s raw).symm.trans blank.1, ?_⟩
      cases ends with
      | last => rfl
      | lineBreak before behind =>
          exact breakBlank before (ih behind blank.2)

theorem linesFromBehindBlank {s : Scan} (notLiteral : s.literal = false) {front others : List Line} {text : List Char}
    (blank : front.all Line.isBlank = true) (split : linesFrom s (lines text) = front ++ others) :
    ∃ b rest, text = b ++ rest ∧ allBlank b = true ∧ linesFrom s (lines rest) = others := by
  induction front generalizing text with
  | nil => exact ⟨[], text, rfl, rfl, split⟩
  | cons line more ih =>
      rw [List.all_cons, Bool.and_eq_true] at blank
      cases found : lines text with
      | nil =>
          rw [found] at split
          contradiction
      | cons raw rest =>
          rw [found, linesFromCons, List.cons_append] at split
          obtain ⟨rfl, others⟩ := List.cons.inj split
          rw [lineOfBlankLine notLiteral blank.1] at others
          obtain ⟨u, rfl, ends⟩ := linesCons found
          cases ends with
          | last none =>
              subst none
              obtain ⟨_, rfl⟩ := List.append_eq_nil_iff.mp others.symm
              exact ⟨raw ++ [], [], by simp, allBlankAppend.mpr ⟨(lineOfIsBlank s raw).symm.trans blank.1, rfl⟩, rfl⟩
          | @lineBreak a t before behind =>
              subst behind
              obtain ⟨b, rest, rfl, all, same⟩ := ih blank.2 others
              refine ⟨raw ++ (a ++ '\n' :: b), rest, by simp, ?_, same⟩
              exact allBlankAppend.mpr ⟨(lineOfIsBlank s raw).symm.trans blank.1, breakBlank before all⟩

theorem linesFromAppend (s : Scan) (front rest : List (List Char)) :
    linesFrom s (front ++ rest) = linesFrom s front ++ linesFrom (scanFrom s front) rest := by
  induction front generalizing s with
  | nil => rfl
  | cons raw more ih =>
      rw [List.cons_append, linesFromCons, ih, linesFromCons]
      rfl

theorem linesFromLength (s : Scan) (raws : List (List Char)) : (linesFrom s raws).length = raws.length := by
  induction raws generalizing s with
  | nil => rfl
  | cons raw rest ih => rw [linesFromCons, List.length_cons, ih, List.length_cons]

theorem linesFromIsBlank (s : Scan) (raws : List (List Char)) :
    (linesFrom s raws).map Line.isBlank = raws.map allBlank := by
  induction raws generalizing s with
  | nil => rfl
  | cons raw rest ih => rw [linesFromCons, List.map_cons, lineOfIsBlank, ih, List.map_cons]

theorem scanFromBlank {front : List (List Char)} (blank : front.all allBlank = true) :
    scanFrom .start front = .start := by
  induction front with
  | nil => rfl
  | cons raw rest ih =>
      rw [List.all_cons, Bool.and_eq_true] at blank
      rw [scanFrom, lineOfBlank rfl (trimNil.mpr blank.1)]
      exact ih blank.2

theorem innerLines (text : List Char) : ∃ front back after, front.all allBlank = true ∧ back.all allBlank = true ∧
    Ends allBlank (dropBlankEnds (lines text)) ∧ lines text = front ++ dropBlankEnds (lines text) ++ back ∧
    ofText text = linesFrom .start front ++ linesFrom .start (dropBlankEnds (lines text)) ++ linesFrom after back := by
  obtain ⟨front, back, before, behind, split, ends⟩ := dropEndsSplit allBlank (lines text)
  refine ⟨front, back, scanFrom .start (front ++ dropBlankEnds (lines text)), before, behind, ends, split, ?_⟩
  change lines text = front ++ dropBlankEnds (lines text) ++ back at split
  generalize dropBlankEnds (lines text) = inner at split ⊢
  rw [ofText, split, linesFromAppend, linesFromAppend, scanFromBlank before]

theorem keptInner (text : List Char) : keptLines text = linesFrom .start (dropBlankEnds (lines text)) := by
  obtain ⟨front, back, after, before, behind, ends, _, found⟩ := innerLines text
  rw [keptLines, found]
  exact dropEndsMiddle (allOfMap (linesFromIsBlank .start front) before) (endsMap (linesFromIsBlank .start _) ends)
    (allOfMap (linesFromIsBlank after back) behind)

theorem keptSource (text : List Char) : ∃ raws, (∀ raw ∈ raws, '\n' ∉ raw) ∧ keptLines text = linesFrom .start raws := by
  obtain ⟨front, back, _, _, _, _, split, _⟩ := innerLines text
  refine ⟨dropBlankEnds (lines text), fun raw member => linesNoBreak text raw ?_, keptInner text⟩
  rw [split]
  exact List.mem_append_left back (List.mem_append_right front member)

theorem keptSound (text : List Char) : ∀ line ∈ keptLines text, line.Sound := by
  obtain ⟨raws, noBreak, source⟩ := keptSource text
  rw [source]
  exact linesFromSound .start noBreak

theorem keptEnds (text : List Char) : Ends Line.isBlank (keptLines text) := by
  obtain ⟨front, back, before, behind, split, ends⟩ := dropEndsSplit Line.isBlank (ofText text)
  exact ends

/-! Keys that are too long. -/

theorem narrowKey {text key : List Char} {before after : List (List Char)} (isKey : Key key)
    (split : lines text = before ++ (key ++ " = 1".toList) :: after) (code : (scanFrom .start before).literal = false)
    (narrow : Narrow text) : key.length ≤ widthLimit := by
  have solid : trim (key ++ " = 1".toList) ≠ [] := by
    rw [ne_eq, trimNil, allBlank, List.all_append, ← allBlank, keySolid isKey]
    exact Bool.false_ne_true
  have member : (lineOf (scanFrom .start before) (key ++ " = 1".toList)).1 ∈ ofText text := by
    rw [ofText, split, linesFromAppend, linesFromCons]
    exact List.mem_append_right _ List.mem_cons_self
  have within := narrow _ member
  generalize scanFrom .start before = s at code within
  have past : s.through ['1'] = s := @Scan.throughPlain s (inCodeOfNotLiteral code) ['1'] (by decide) []
  have spelled := @codeLineSpelled s (inCodeOfNotLiteral code) key [' '] ['1'] isKey (by decide) (by decide)
  rw [attributeLine, past, code, beq_self_eq_true] at spelled
  have line : lineOf s (key ++ " = 1".toList) = _ := (lineOfCode code solid).trans spelled
  rw [line] at within
  exact within

theorem linesKey {key : List Char} (noBreak : '\n' ∉ key) (rest : List Char) :
    lines (key ++ " = 1".toList ++ '\n' :: rest) = (key ++ " = 1".toList) :: lines rest := by
  rw [linesOfLine _ _ (by simp [noBreak]), dropReturnIff.mpr (by simp)]

theorem lettersKey (n : Nat) : Key (List.replicate (n + 1) 'a') := by
  rw [List.replicate_succ]
  exact .name (by decide) fun c member => List.eq_of_mem_replicate member ▸ by decide

theorem lettersNoBreak (n : Nat) : '\n' ∉ List.replicate n 'a' :=
  fun member => absurd (List.eq_of_mem_replicate member) (by decide)

theorem linesLetters (n : Nat) :
    lines (List.replicate n 'a' ++ " = 1\n".toList) = [List.replicate n 'a' ++ " = 1".toList] := by
  have line := linesKey (lettersNoBreak n) []
  rw [List.append_assoc] at line
  exact line

theorem wideLetters {n : Nat} (long : widthLimit ≤ n) {text : List Char} {before after : List (List Char)}
    (split : lines text = before ++ (List.replicate (n + 1) 'a' ++ " = 1".toList) :: after)
    (code : (scanFrom .start before).literal = false) : canonical text = none := by
  rw [canonicalNone]
  intro narrow
  have within := narrowKey (lettersKey n) split code narrow
  rw [List.length_replicate] at within
  omega

end DeclOrder.Layout
