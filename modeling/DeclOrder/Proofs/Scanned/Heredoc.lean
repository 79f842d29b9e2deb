import DeclOrder.Proofs.Scanned.Template

/-! Heredocs. A scan goes over one line by line, up to the line that is nothing but the marker. -/
namespace DeclOrder.Hcl
open Text Reader Read
open Layout (Scan firstLine furtherLines scanFrom lineOf)
open Layout.Scan (finish isMarkerPart leadingIdentifier)

section
variable {s : Scan} {marker piece t u : List Char}

theorem linesAtFirst (some : t ≠ []) : lines t = firstLine t :: furtherLines t := by
  rw [firstLine, furtherLines]
  cases found : lines t with
  | nil => exact absurd (linesEmpty found) some
  | cons line rest => rfl

theorem linePiece (noBreak : ∀ c ∈ piece, c ∉ ['\n', '\r']) (t : List Char) :
    firstLine (piece ++ t) = piece ++ firstLine t ∧ furtherLines (piece ++ t) = furtherLines t := by
  induction piece with
  | nil => exact ⟨rfl, rfl⟩
  | cons c rest ih =>
      have here := noBreak c List.mem_cons_self
      simp only [List.mem_cons, List.not_mem_nil, or_false, not_or] at here
      obtain ⟨first, further⟩ := ih fun d member => noBreak d (List.mem_cons_of_mem c member)
      obtain ⟨first', further'⟩ := Layout.linesParts (t := rest ++ t) here.1 fun same => absurd same here.2
      exact ⟨first'.trans (congrArg _ first), further'.trans further⟩

theorem markerParts (ascii : leadingIdentifier marker = marker) : ∀ c ∈ marker, isMarkerPart c = true := by
  cases marker with
  | nil => simp
  | cons c rest =>
      rw [leadingIdentifier] at ascii
      split at ascii
      · rename_i start
        have parts : ∀ d ∈ rest, isMarkerPart d = true := fun d member => by
          rw [← (List.cons.inj ascii).2] at member
          exact List.all_eq_true.mp List.all_takeWhile d member
        refine List.forall_mem_cons.mpr ⟨?_, parts⟩
        rw [isMarkerPart, start]
        rfl
      · contradiction

theorem solidUnbroken {c : Char} (solid : isBlank c = false) : c ∉ ['\n', '\r'] := by
  intro member
  simp only [List.mem_cons, List.not_mem_nil, or_false] at member
  rcases member with rfl | rfl <;> contradiction

theorem trimSolidText (solid : ∀ c ∈ t, isBlank c = false) : trim t = t := by
  cases t with
  | nil => rfl
  | cons c rest =>
      have ends : ∀ rest : List Char, (∀ c ∈ rest, isBlank c = false) → trimEnd rest = rest := by
        intro rest
        induction rest with
        | nil => exact fun _ => rfl
        | cons d rest ih =>
            intro solid
            obtain ⟨first, rest⟩ := List.forall_mem_cons.mp solid
            rw [trimEndHead first, ih rest]
      rw [trim, trimStartSolid (solid c List.mem_cons_self), ends _ solid]

theorem scanFromHeredoc (outside : s.heredoc = none) {body : List (List Char)} (inside : ∀ line ∈ body, trim line ≠ marker)
    {last : List Char} (ends : trim last = marker) (rest : List (List Char)) :
    scanFrom { s with heredoc := some marker } (body ++ last :: rest) = scanFrom s rest := by
  have literal : ({ s with heredoc := some marker } : Scan).literal = true := by simp [Layout.Scan.literal]
  induction body with
  | nil =>
      rw [List.nil_append, scanFrom, Layout.lineOfLiteral literal, Layout.literalLine]
      dsimp only
      rw [if_pos ends, ← outside]
  | cons line body ih =>
      obtain ⟨first, more⟩ := List.forall_mem_cons.mp inside
      rw [List.cons_append, scanFrom, Layout.lineOfLiteral literal, Layout.literalLine]
      dsimp only
      rw [if_neg first, ih more]

theorem markerFound (ascii : leadingIdentifier marker = marker) (some : marker ≠ []) {dash : List Char}
    (isDash : dash ∈ [[], ['-']]) : Scan.marker? (dash ++ marker) = .some marker := by
  have notEmpty : marker.isEmpty = false := by simpa using some
  have here : Scan.marker? ('-' :: marker) = .some marker := by simp [Scan.marker?, ascii, notEmpty]
  simp only [List.mem_cons, List.not_mem_nil, or_false] at isDash
  rcases isDash with rfl | rfl
  · cases marker with
    | nil => exact absurd rfl some
    | cons c rest =>
        have noDash : c ≠ '-' := by
          rintro rfl
          contradiction
        rw [List.nil_append, Layout.Scan.markerPlain noDash, ascii]
        rfl
  · exact here

theorem identifierTakes {name : String} (read : identifier t = some (name, u)) : name.toList ≠ [] ∧ t = name.toList ++ u := by
  obtain ⟨c, w, rfl, _, rfl, rfl⟩ := identifierSome.mp read
  rw [String.toList_ofList, List.cons_append, List.takeWhile_append_dropWhile]
  exact ⟨by simp, rfl⟩

inductive HeredocSpan (marker : String) : List Char → List Char → Prop where
  | mk {dash opening body front gap u : List Char} (isDash : dash ∈ [[], ['-']]) (named : identifier opening = some (marker, body))
      (opens : ∃ line, lineBreak body = some ((), line)) (closes : body = front ++ '\n' :: (gap ++ (marker.toList ++ u)))
      (gaps : ∀ c ∈ gap, isGap c = true) : HeredocSpan marker ('<' :: '<' :: (dash ++ opening)) u

theorem markerLine {line : List Char} (breaks : lineBreak t = some ((), line)) (found : line.dropWhile isGap = marker ++ u) :
    ∃ front gap, t = front ++ '\n' :: (gap ++ (marker ++ u)) ∧ ∀ c ∈ gap, isGap c = true := by
  have split : line = line.takeWhile isGap ++ (marker ++ u) := by rw [← found, List.takeWhile_append_dropWhile]
  have gaps : ∀ c ∈ line.takeWhile isGap, isGap c = true := fun c member => List.all_eq_true.mp List.all_takeWhile c member
  rcases lineBreakSome.mp breaks with rfl | rfl
  · exact ⟨[], _, congrArg _ split, gaps⟩
  · exact ⟨['\r'], _, congrArg _ (congrArg _ split), gaps⟩

theorem headSpelled {indented : Bool} {marker : String} (head : heredocHead t = some ((indented, marker), u)) :
    ∃ dash ∈ [[], ['-']], ∃ opening, t = '<' :: '<' :: (dash ++ opening) ∧ identifier opening = some (marker, u) := by
  obtain ⟨_, y, opens, dashes, name⟩ := heredocHeadSome.mp head
  rcases givenSome.mp dashes with ⟨_, minus⟩ | ⟨_, rfl, _⟩
  · rw [wordSome.mp opens, charSome.mp minus]
    exact ⟨['-'], by simp, y, rfl, name⟩
  · rw [wordSome.mp opens]
    exact ⟨[], by simp, _, rfl, name⟩

theorem heredocSpanned {inner : Inner} (tails : InnerTail inner) {v : Expr} (read : heredoc inner t = some (v, u)) :
    ∃ indented marker parts, v = .heredoc indented marker parts ∧ HeredocSpan marker t u := by
  cases heredocIff.mp read with
  | closed head breaks texts ends =>
      obtain ⟨dash, isDash, opening, rfl, name⟩ := headSpelled head
      obtain ⟨line, breaks', found⟩ := afterMarkerSome.mp (endMarkerSome.mp ends)
      obtain ⟨front, gap, rfl, gaps⟩ := markerLine breaks' found
      obtain ⟨before, rfl⟩ := (tailParts tails _ texts).trans (tailLineBreak breaks)
      exact ⟨_, _, _, rfl, .mk isDash name ⟨_, breaks⟩ (List.append_assoc before front _).symm gaps⟩
  | bare head breaks _ _ again =>
      obtain ⟨dash, isDash, opening, rfl, name⟩ := headSpelled head
      obtain ⟨front, gap, closes, gaps⟩ := markerLine breaks again
      exact ⟨_, _, [], rfl, .mk isDash name ⟨_, breaks⟩ closes gaps⟩

theorem closingLine (named : marker ≠ []) (solid : ∀ c ∈ marker, isBlank c = false) {gap : List Char}
    (gaps : ∀ c ∈ gap, isGap c = true) (alone : allBlank (firstLine u) = true) :
    ∃ last, lines (gap ++ (marker ++ u)) = last :: furtherLines u ∧ trim last = marker := by
  have kinds : ∀ c ∈ gap, isBlank c = true ∧ c ∉ ['\n', '\r'] := fun c member => by
    have gap := gaps c member
    simp only [isGap, Bool.or_eq_true, beq_iff_eq] at gap
    rcases gap with rfl | rfl <;> decide
  obtain ⟨first, further⟩ := linePiece (fun c member => (kinds c member).2) (marker ++ u)
  obtain ⟨first', further'⟩ := linePiece (fun c member => solidUnbroken (solid c member)) u
  refine ⟨gap ++ (marker ++ firstLine u), ?_, ?_⟩
  · rw [linesAtFirst (by simp [named]), first, further, first', further']
  · rw [trimPrependBlank (List.all_eq_true.mpr fun c member => (kinds c member).1), trimAppendBlank alone, trimSolidText solid]

theorem EndsAlone.solid (ends : EndsAlone marker t u) : ∀ c ∈ marker, isBlank c = false := fun c member =>
  Layout.Scan.markerPartSolid (markerParts ends.ascii c member)

section
variable {marker : String}

theorem HeredocSpan.finishOpening (ready : s.Ready) (span : HeredocSpan marker t u) (ends : EndsAlone marker.toList t u) :
    s.finish t = scanFrom { s with heredoc := some marker.toList } (furtherLines t) := by
  cases span with
  | @mk dash _ body _ _ _ isDash named opens =>
      obtain ⟨notEmpty, rfl⟩ := identifierTakes named
      have unbroken : ∀ c ∈ dash ++ marker.toList, c ∉ ['\n', '\r'] := by
        refine List.forall_mem_append.mpr ⟨?_, fun c member => solidUnbroken (ends.solid c member)⟩
        simp only [List.mem_cons, List.not_mem_nil, or_false] at isDash
        rcases isDash with rfl | rfl <;> simp
      have lineEnd : firstLine body = [] := by
        obtain ⟨line, breaks⟩ := opens
        rcases lineBreakSome.mp breaks with rfl | rfl
        · exact Layout.firstLineBreak
        · rw [firstLine, linesReturnBreak]
          rfl
      have line : firstLine (dash ++ (marker.toList ++ body)) = dash ++ marker.toList := by
        rw [← List.append_assoc, (linePiece unbroken body).1, lineEnd, List.append_nil]
      have further : furtherLines (['<', '<'] ++ (dash ++ (marker.toList ++ body))) = furtherLines (dash ++ (marker.toList ++ body)) :=
        (linePiece (by simp) _).2
      rw [ready.finishHeredoc (line ▸ markerFound ends.ascii notEmpty isDash), ← further]
      rfl

theorem HeredocSpan.lines (span : HeredocSpan marker t u) (ends : EndsAlone marker.toList t u) : ∃ inside last,
    furtherLines t = inside ++ last :: furtherLines u ∧ (∀ line ∈ inside, trim line ≠ marker.toList) ∧ trim last = marker.toList := by
  have solid := ends.solid
  obtain ⟨_, first, alone⟩ := ends
  cases span with
  | @mk dash start body front gap _ _ named _ closes gaps =>
      obtain ⟨notEmpty, rfl⟩ := identifierTakes named
      obtain ⟨last, lastLine, itself⟩ := closingLine notEmpty solid gaps alone
      obtain ⟨opening, whole⟩ : ∃ opening, '<' :: '<' :: (dash ++ (marker.toList ++ body)) =
          opening ++ '\n' :: (gap ++ (marker.toList ++ u)) :=
        ⟨'<' :: '<' :: (dash ++ (marker.toList ++ front)), by simp only [closes, List.cons_append, List.append_assoc]⟩
      obtain ⟨line, inside, before⟩ : ∃ line inside, Text.lines (opening ++ ['\n']) = line :: inside := by
        cases found : Text.lines (opening ++ ['\n']) with
        | nil => exact absurd (linesEmpty found) (by simp)
        | cons line inside => exact ⟨line, inside, rfl⟩
      refine ⟨inside, last, ?_, ?_, itself⟩
      · rw [whole, furtherLines, linesThrough, before, lastLine]
        rfl
      · have front := first (opening ++ '\n' :: gap) (by rw [whole, List.append_assoc, List.cons_append])
        rw [linesThrough, before] at front
        exact fun line member => front line (List.mem_append_left _ member)

theorem HeredocSpan.finish (ready : s.Ready) (span : HeredocSpan marker t u) (ends : EndsAlone marker.toList t u) :
    s.finish t = s.finish u := by
  obtain ⟨inside, last, further, notMarker, itself⟩ := span.lines ends
  have blank : s.through (firstLine u) = s := Layout.Scan.throughBlankBehind s ends.alone []
  rw [span.finishOpening ready ends, further, scanFromHeredoc ready.outside notMarker itself, Layout.Scan.finish, blank]

theorem scansHeredoc (ready : s.Ready) (bound : List Char) {whole : Expr → Prop} : Scans s s whole (heredoc (inner bound)) := by
  refine ⟨(shortHeredoc (innerTail bound)).tail, fun {t} alone v u read _ => ?_⟩
  obtain ⟨indented, marker, parts, rfl, span⟩ := heredocSpanned (innerTail bound) read
  exact span.finish ready (alone t List.suffix_rfl bound indented marker parts u read)

end

end

end DeclOrder.Hcl
