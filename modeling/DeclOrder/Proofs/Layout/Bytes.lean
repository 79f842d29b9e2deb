import DeclOrder.Layout.Bytes
import DeclOrder.Proofs.Layout.Attribute
import Mathlib.Data.List.TakeWhile
import Mathlib.Logic.Function.Iterate

/-! Read byte by byte, the layout never faults. An offset that lies within a character is met in a quote only, behind
an escape, and from there the bytes up to the next character mean nothing; wherever something is cut out, the bytes
in front of the cut are characters of their own. So the bytes give the lines that the characters give, and every
scan of a line comes to an end. -/
namespace DeclOrder.Layout.Bytes
open Text

section
variable (front rest : List Char)

theorem sliceFromFront : sliceFrom (front ++ rest) (byteSize front) = .ok rest := by
  rw [sliceFrom, dropBytesSome.mpr ⟨front, rfl, rfl⟩]

theorem sliceToFront : sliceTo (front ++ rest) (byteSize front) = .ok front := by
  rw [sliceTo, takeBytesSome.mpr ⟨rest, rfl, rfl⟩]

end

theorem offsetsFind {p : Nat → Char → Bool} {q : Char → Bool} (offset : Nat) (text : List Char)
    (same : ∀ n c, offset ≤ n → p n c = !q c) :
    ((offsetsFrom offset text).find? (fun (n, c) => p n c)).map Prod.fst =
      if text.all q then none else some (offset + byteSize (text.takeWhile q)) := by
  induction text generalizing offset with
  | nil => rfl
  | cons c rest ih =>
      have here := same offset c (Nat.le_refl offset)
      have later := ih (offset + c.utf8Size) (fun n d h => same n d (by omega))
      cases holds : q c with
      | false => simp [offsetsFrom, here, holds, byteSize]
      | true =>
          rw [offsetsFrom, List.find?_cons_of_neg (by simp [here, holds]), later, List.takeWhile_cons_of_pos holds,
            byteSizeCons, Nat.add_assoc]
          simp [holds]

theorem endsIdentifierLater {offset : Nat} (later : 0 < offset) (c : Char) :
    endsIdentifier offset c = !Scan.isMarkerPart c := by
  simp [endsIdentifier, Scan.isMarkerPart, later, Bool.or_assoc]

theorem identifierSizeIs (text : List Char) : identifierSize text = byteSize (Scan.leadingIdentifier text) := by
  cases text with
  | nil => rfl
  | cons c rest =>
      rw [identifierSize, firstOffset?, offsetsFrom, leadingIdentifierCons]
      cases start : Scan.isMarkerStart c with
      | false => simp [endsIdentifier, start, byteSize]
      | true =>
          have positive := c.utf8Size_pos
          have parts := offsetsFind (p := endsIdentifier) (0 + c.utf8Size) rest
            (fun n d h => endsIdentifierLater (by omega) d)
          rw [List.find?_cons_of_neg (by simp [endsIdentifier, start]), parts]
          split
          · rename_i all
            rw [Option.getD_none, if_pos rfl, List.takeWhile_eq_self_iff.mpr (List.all_eq_true.mp all)]
          · rw [Option.getD_some, Nat.zero_add, if_pos rfl, byteSizeCons]

theorem sliceToIdentifier (text : List Char) :
    sliceTo text (identifierSize text) = .ok (Scan.leadingIdentifier text) := by
  obtain ⟨rest, split⟩ := leadingIdentifierPrefix text
  rw [identifierSizeIs]
  calc sliceTo text (byteSize (Scan.leadingIdentifier text))
    _ = sliceTo (Scan.leadingIdentifier text ++ rest) (byteSize (Scan.leadingIdentifier text)) := by rw [split]
    _ = .ok (Scan.leadingIdentifier text) := sliceToFront _ rest

theorem byteSizePositive {text : List Char} : 0 < byteSize text ↔ text ≠ [] := by
  refine ⟨?_, fun some => Nat.pos_of_ne_zero fun none => some (byteSizeZero none)⟩
  rintro positive rfl
  exact Nat.lt_irrefl 0 positive

theorem markerNamed (named : List Char) :
    (if 0 < identifierSize named then (sliceTo named (identifierSize named)).map some else .ok none) =
      .ok (if (Scan.leadingIdentifier named).isEmpty then none else some (Scan.leadingIdentifier named)) := by
  rw [sliceToIdentifier, identifierSizeIs]
  simp only [byteSizePositive, List.isEmpty_iff, Except.map]
  by_cases none : Scan.leadingIdentifier named = [] <;> simp [none]

theorem markerIs (text : List Char) : marker text = .ok (Scan.marker? text) := markerNamed (dropDash text)

section
variable (s : Scan) (c : Char) (rest : List Char)

theorem nextIs {d : Char} (ascii : d.toNat < 128) :
    rest.head?.map leadByte = some d.toUInt8 ↔ rest.head? = some d := by
  cases rest with
  | nil => simp
  | cons e more => simp [leadByteIff ascii]

theorem nextSame (ascii : c.toNat < 128) :
    rest.head?.map leadByte = some (leadByte c) ↔ rest.head? = some c := by
  rw [(leadByteIff ascii).mpr rfl]
  exact nextIs rest ascii

theorem doubledIs : (c = '$' ∨ c = '%') ∧ rest.head?.map leadByte = some (leadByte c) ↔
    (c = '$' ∨ c = '%') ∧ rest.head? = some c := by
  refine and_congr_right fun mark => nextSame c rest ?_
  rcases mark with rfl | rfl <;> decide

theorem headAlone {c d e : Char} {rest : List Char} (never : ∀ tail, c = d → rest = e :: tail → False) :
    ¬ (c = d ∧ rest.head? = some e) := by
  rintro ⟨first, head⟩
  obtain ⟨tail, split⟩ := List.head?_eq_some_iff.mp head
  exact never tail first split

theorem inCommentIs : inComment s (leadByte c) (rest.head?.map leadByte) = s.inComment c rest := by
  simp (disch := decide) only [inComment, leadByteIff, nextIs]
  fun_cases Scan.inComment s c rest
  · simp
  · exact if_neg (headAlone ‹_›)

theorem inTextIs : inText s (leadByte c) (rest.head?.map leadByte) = s.inText c rest := by
  simp (disch := decide) only [inText, leadByteIff, nextIs, doubledIs]
  fun_cases Scan.inText s c rest
  case case7 =>
    rename_i notEscape notQuote notDollars notPercents notInterpolation notDirective
    have alone : ¬ ((c = '$' ∨ c = '%') ∧ rest.head? = some c) := by
      rintro ⟨rfl | rfl, head⟩
      · exact headAlone notDollars ⟨rfl, head⟩
      · exact headAlone notPercents ⟨rfl, head⟩
    have unmarked : ¬ ((c = '$' ∨ c = '%') ∧ rest.head? = some '{') := by
      rintro ⟨rfl | rfl, head⟩
      · exact headAlone notInterpolation ⟨rfl, head⟩
      · exact headAlone notDirective ⟨rfl, head⟩
    rw [if_neg notEscape, if_neg notQuote, if_neg alone, if_neg unmarked]
  all_goals simp

end

theorem sliceFromAngles (front rest : List Char) :
    sliceFrom (front ++ '<' :: '<' :: rest) (byteSize front + 2) = .ok rest := by
  have cut := sliceFromFront (front ++ ['<', '<']) rest
  rw [byteSizeAppend, List.append_assoc] at cut
  exact cut

theorem inCodeIs (front : List Char) (s : Scan) (c : Char) (rest : List Char) :
    inCode (front ++ c :: rest) (byteSize front) s (leadByte c) (rest.head?.map leadByte) = .ok (s.inCode c rest) := by
  simp (disch := decide) only [inCode, leadByteIff, nextIs]
  fun_cases Scan.inCode s c rest
  case case5 found => simp [sliceFromAngles, markerIs, bind, Except.bind, pure, Except.pure, found]
  case case6 none => simp [sliceFromAngles, markerIs, bind, Except.bind, pure, Except.pure, none]
  case case13 =>
    rename_i notSlashes notStar notAngles
    simp only [headAlone notSlashes, headAlone notStar, headAlone notAngles]
    simp_all
  all_goals simp

theorem moveIs (front : List Char) (s : Scan) (c : Char) (rest : List Char) :
    move (front ++ c :: rest) (byteSize front) s (leadByte c) (rest.head?.map leadByte) = .ok (s.move c rest) := by
  unfold move Scan.move
  split
  · rw [inCommentIs]
  · split
    · rw [inTextIs]
    · exact inCodeIs front s c rest

theorem moveHigh {b : UInt8} (high : 128 ≤ b) (line : List Char) (offset : Nat) (s : Scan) (next : Option UInt8) :
    move line offset s b next = .ok (.one s) := by
  unfold move inComment inText inCode
  simp (disch := decide) [highByte high]

namespace Loop

theorem runReading (line : List Char) (s : Scan) (offset : Nat) :
    run line (.reading s offset) = run line (step line (.reading s offset)) := by rw [run]

theorem runFinished (line : List Char) (s : Scan) : run line (.finished s) = .ok s := by rw [run]

section
variable (front rest : List Char) (c : Char) (s : Scan)

theorem runWithin {offset : Nat} (positive : 0 < offset) (inside : offset ≤ c.utf8Size) :
    run (front ++ c :: rest) (.reading s (byteSize front + offset)) =
      run (front ++ c :: rest) (.reading s (byteSize front + c.utf8Size)) := by
  rcases Nat.eq_or_lt_of_le inside with last | more
  · rw [last]
  · obtain ⟨b, byte, high⟩ := highByteAt front rest c positive more
    simp only [runReading _ s (byteSize front + offset), step, byte, moveHigh high, behind]
    exact runWithin (Nat.succ_pos offset) more
termination_by c.utf8Size - offset

theorem moveWide (wide : c.utf8Size ≠ 1) : s.move c rest = .one s := by
  have read := moveIs [] s c rest
  rw [moveHigh (encodeWide wide _ (leadByteMember c))] at read
  exact (Except.ok.inj read).symm

theorem stepFront : step (front ++ c :: rest) (.reading s (byteSize front)) =
    behind (byteSize front) (.ok (s.move c rest)) := by
  simp only [step, leadByteAt]
  by_cases single : c.utf8Size = 1
  · rw [leadByteNext front rest c single, moveIs]
  · rw [moveHigh (encodeWide single _ (leadByteMember c)), moveWide rest c s single]

theorem runPast : run (front ++ c :: rest) (.reading s (byteSize front + 1)) =
    run (front ++ c :: rest) (.reading s (byteSize (front ++ [c]))) := by
  rw [runWithin front rest c s Nat.one_pos c.utf8Size_pos, byteSizeAppend, byteSizeCons]
  rfl

end

theorem runEnd (line : List Char) (s : Scan) {offset : Nat} (past : byteSize line ≤ offset) :
    run line (.reading s offset) = .ok s := by
  rw [runReading, step, List.getElem?_eq_none (by rwa [utf8Length])]
  exact runFinished line s

theorem runRest (front rest : List Char) (s : Scan) :
    run (front ++ rest) (.reading s (byteSize front)) = .ok (s.through rest) := by
  cases rest with
  | nil => rw [List.append_nil, runEnd front s (Nat.le_refl _), Scan.through]
  | cons c more =>
      rw [runReading, stepFront, Scan.throughCons]
      cases moved : s.move c more with
      | stop after => exact runFinished _ after
      | one after =>
          rw [behind, runPast, List.append_cons]
          exact runRest (front ++ [c]) more after
      | two after =>
          -- Only characters of one byte take another one with them, which may be of more bytes.
          have single : c.utf8Size = 1 := by
            by_contra wide
            rw [moveWide more c s wide] at moved
            contradiction
          have size : byteSize (front ++ [c]) = byteSize front + 1 := by rw [byteSizeAppend, byteSizeCons, single]; rfl
          cases more with
          | nil => exact runEnd _ after (by rw [size]; exact Nat.le_succ _)
          | cons d tail =>
              rw [behind, ← Nat.add_assoc (byteSize front) 1 1, ← size, List.append_cons, runPast, List.append_cons]
              exact runRest (front ++ [c] ++ [d]) tail after
termination_by rest.length

def ended : Except Fault Scan → Loop
  | .ok s => .finished s
  | .error fault => .broken fault

theorem runEnds (line : List Char) (l : Loop) : ∃ n ≤ l.left line, (step line)^[n] l = ended (run line l) := by
  fun_induction run line l with
  | case1 s offset ih =>
      obtain ⟨n, few, ends⟩ := ih
      have less := leftStep line s offset
      exact ⟨n + 1, by omega, by rw [Function.iterate_succ_apply, ends]⟩
  | case2 s => exact ⟨0, Nat.zero_le _, rfl⟩
  | case3 fault => exact ⟨0, Nat.zero_le _, rfl⟩

def Within (line : List Char) : Loop → Prop
  | .reading _ offset => offset ≤ byteSize line + 1
  | _ => True

theorem withinStep {line : List Char} {l : Loop} (within : l.Within line) : (step line l).Within line := by
  cases l with
  | finished s => exact within
  | broken fault => exact within
  | reading s offset =>
      cases byte : (utf8 line)[offset]? with
      | none => simp [step, byte, Within]
      | some b =>
          obtain ⟨inside, -⟩ := List.getElem?_eq_some_iff.mp byte
          rw [utf8Length] at inside
          simp only [step, byte]
          unfold behind
          split <;> simp only [Within] <;> omega

theorem withinSteps {line : List Char} {l : Loop} (within : l.Within line) (n : Nat) :
    ((step line)^[n] l).Within line := by
  induction n generalizing l with
  | zero => exact within
  | succ n ih =>
      rw [Function.iterate_succ_apply]
      exact ih (withinStep within)

end Loop

def isNamePart (c : Char) : Bool := c != '"' && c != '\\'

theorem nameEnds (rest : List Char) : firstOffset? (fun _ c => c == '"' || c == '\\') rest =
    if rest.all isNamePart then none else some (byteSize (rest.takeWhile isNamePart)) := by
  have found := offsetsFind (p := fun _ c => c == '"' || c == '\\') (q := isNamePart) 0 rest
    (fun _ c _ => by simp [isNamePart, bne])
  rw [Nat.zero_add] at found
  exact found

theorem leadingKeyQuoted (rest : List Char) : leadingKey? ('"' :: rest) =
    if (rest.dropWhile isNamePart).head? = some '"' ∧ hasMark (rest.takeWhile isNamePart) = false then
      some ('"' :: rest.takeWhile isNamePart ++ ['"'], (rest.dropWhile isNamePart).tail)
    else none := by
  have folded : (fun c => c != '"' && c != '\\') = isNamePart := rfl
  simp only [leadingKey?, folded]
  generalize rest.dropWhile isNamePart = closing
  split
  · cases hasMark (rest.takeWhile isNamePart) <;> rfl
  · rename_i unclosed
    refine (if_neg fun closed => ?_).symm
    obtain ⟨more, split⟩ := List.head?_eq_some_iff.mp closed.1
    exact unclosed more split

theorem quotedSize (name : List Char) : byteSize ('"' :: name ++ ['"']) = byteSize name + 2 := by
  rw [List.cons_append, byteSizeCons, byteSizeAppend]
  exact Nat.add_comm 1 _

theorem keyQuoted (rest : List Char) :
    keySize ('"' :: rest) = .ok ((leadingKey? ('"' :: rest)).elim 0 (fun found => byteSize found.1)) := by
  have behindName := sliceFromFront (rest.takeWhile isNamePart) (rest.dropWhile isNamePart)
  have name := sliceToFront (rest.takeWhile isNamePart) (rest.dropWhile isNamePart)
  rw [List.takeWhile_append_dropWhile] at behindName name
  rw [keySize, nameEnds, leadingKeyQuoted]
  by_cases all : rest.all isNamePart
  · have unended : rest.dropWhile isNamePart = [] := List.dropWhile_eq_nil_iff.mpr (List.all_eq_true.mp all)
    simp [all, unended]
  · simp only [if_neg all, behindName, name, bind, Except.bind, pure, Except.pure]
    by_cases closed : (rest.dropWhile isNamePart).head? = some '"'
    · cases marked : hasMark (rest.takeWhile isNamePart) with
      | true => simp [closed]
      | false =>
          rw [if_pos closed, if_neg Bool.false_ne_true, if_pos ⟨closed, rfl⟩]
          exact congrArg Except.ok (quotedSize _).symm
    · simp [closed]

theorem keyNamed {text : List Char} (unquoted : ∀ rest, text = '"' :: rest → False) :
    keySize text = .ok ((leadingKey? text).elim 0 (fun found => byteSize found.1)) := by
  rw [keySize, leadingKey?, identifierSizeIs]
  · cases found : Scan.leadingIdentifier text with
    | nil => rfl
    | cons c name => rfl
  · exact unquoted
  · exact unquoted

theorem keySizeIs (text : List Char) :
    keySize text = .ok ((leadingKey? text).elim 0 (fun found => byteSize found.1)) := by
  by_cases quoted : ∃ rest, text = '"' :: rest
  · obtain ⟨rest, rfl⟩ := quoted
    exact keyQuoted rest
  · exact keyNamed (fun rest same => quoted ⟨rest, same⟩)

theorem splitAttributeOf (text : List Char) :
    splitAttribute? text = (leadingKey? text).bind (fun found => attributeOf? found.1 found.2) := rfl

theorem splitAttributeIs (text : List Char) : splitAttribute text = .ok (splitAttribute? text) := by
  rw [splitAttribute, keySizeIs, splitAttributeOf]
  cases found : leadingKey? text with
  | none => simp [bind, Except.bind, pure, Except.pure]
  | some pair =>
      obtain ⟨key, rest⟩ := pair
      obtain ⟨isKey, rfl⟩ := leadingKeySource found
      have some : byteSize key ≠ 0 := fun none => by
        obtain ⟨c, tail, rfl, -⟩ := keyHead isKey
        exact List.cons_ne_nil c tail (byteSizeZero none)
      cases rest with
      | nil =>
          rw [List.append_nil]
          simp [bind, Except.bind, pure, Except.pure, attributeOf?, trimStart]
      | cons c more =>
          have inside : byteSize key ≠ byteSize (key ++ c :: more) := by
            have positive := c.utf8Size_pos
            rw [byteSizeAppend, byteSizeCons]
            omega
          simp only [Option.elim_some, bind, Except.bind, pure, Except.pure, some, inside, or_self, if_false,
            sliceToFront, sliceFromFront, Option.bind_some]

theorem closerIs (c : Char) : isCloser (leadByte c) = Layout.isCloser c := by
  rw [Bool.eq_iff_iff]
  simp (disch := decide) only [isCloser, Layout.isCloser, Bool.or_eq_true, beq_iff_eq, leadByteIff]

theorem closerSingle {c : Char} (closer : Layout.isCloser c = true) : c.utf8Size = 1 := by
  simp only [Layout.isCloser, Bool.or_eq_true, beq_iff_eq] at closer
  rcases closer with (rfl | rfl) | rfl <;> rfl

theorem closersCounted (text : List Char) :
    ((utf8 text).takeWhile isCloser).length = (text.takeWhile Layout.isCloser).length := by
  induction text with
  | nil => rfl
  | cons c rest ih =>
      have first := closerIs c
      rw [utf8Cons]
      cases closer : Layout.isCloser c with
      | true =>
          have single := closerSingle closer
          rw [closer, leadByteSingle single] at first
          rw [encodeSingle single, List.singleton_append, List.takeWhile_cons_of_pos first,
            List.takeWhile_cons_of_pos closer, List.length_cons, List.length_cons, ih]
      | false =>
          obtain ⟨tail, encoded⟩ := encodeLead c
          rw [encoded, List.cons_append, List.takeWhile_cons_of_neg (by simp [first, closer]),
            List.takeWhile_cons_of_neg (by simp [closer])]
          rfl

theorem scanned (line : List Char) (s : Scan) : Loop.run line (.reading s 0) = .ok (s.through line) :=
  Loop.runRest [] line s

theorem codeLineIs (s : Scan) (text : List Char) : codeLine s text = .ok (Layout.codeLine s text) := by
  rw [codeLine, scanned, splitAttributeIs, closersCounted]
  rfl

theorem literalLineIs (s : Scan) (raw : List Char) : literalLine s raw = .ok (Layout.literalLine s raw) := by
  unfold literalLine Layout.literalLine
  cases s.heredoc with
  | none =>
      rw [scanned]
      rfl
  | some marker => rfl

theorem lineOfIs (s : Scan) (raw : List Char) : lineOf s raw = .ok (Layout.lineOf s raw) := by
  unfold lineOf Layout.lineOf
  split
  · exact literalLineIs s raw
  · split
    · rfl
    · exact codeLineIs s (trim raw)

theorem linesFromIs (s : Scan) (raws : List (List Char)) : linesFrom s raws = .ok (Layout.linesFrom s raws) := by
  induction raws generalizing s with
  | nil => rfl
  | cons raw rest ih =>
      rw [linesFrom, lineOfIs, Layout.linesFrom]
      simp only [bind, Except.bind, pure, Except.pure, ih]

theorem sliceFromIff {text : List Char} {offset : Nat} :
    (∃ rest, sliceFrom text offset = .ok rest) ↔ (String.Pos.Raw.mk offset).IsValid (String.ofList text) := by
  rw [← cutIff, sliceFrom]
  cases dropBytes? text offset <;> simp

theorem sliceToIff {text : List Char} {offset : Nat} :
    (∃ front, sliceTo text offset = .ok front) ↔ (String.Pos.Raw.mk offset).IsValid (String.ofList text) := by
  have whole : (∃ front, takeBytes? text offset = some front) ↔ ∃ rest, dropBytes? text offset = some rest := by
    simp only [takeBytesSome, dropBytesSome]
    exact exists_comm
  rw [← cutIff, ← whole, sliceTo]
  cases takeBytes? text offset <;> simp

/-- A cut is made where the text has a position and nowhere else, and so the layout makes none that does not exist:
whatever the text and wherever a line finds the scan, the loop over its bytes ends, with offsets that leave the line
by one at most, and markers, keys and lines are those of the characters. -/
theorem bytesFaultless :
    (∀ text offset, (∃ rest, sliceFrom text offset = .ok rest) ↔
      (String.Pos.Raw.mk offset).IsValid (String.ofList text)) ∧
    (∀ text offset, (∃ front, sliceTo text offset = .ok front) ↔
      (String.Pos.Raw.mk offset).IsValid (String.ofList text)) ∧
    (∀ line s, (∃ n ≤ byteSize line + 1, (Loop.step line)^[n] (.reading s 0) = .finished (s.through line)) ∧
      ∀ n, ((Loop.step line)^[n] (.reading s 0)).Within line) ∧
    (∀ text, marker text = .ok (Scan.marker? text) ∧ splitAttribute text = .ok (splitAttribute? text)) ∧
    (∀ s raw, lineOf s raw = .ok (Layout.lineOf s raw)) ∧
    ∀ text, ofText text = .ok (Layout.ofText text) := by
  refine ⟨fun _ _ => sliceFromIff, fun _ _ => sliceToIff, fun line s => ⟨?_, ?_⟩, fun text => ?_, lineOfIs,
    fun text => ?_⟩
  · obtain ⟨n, few, ends⟩ := Loop.runEnds line (.reading s 0)
    rw [scanned] at ends
    exact ⟨n, few, ends⟩
  · exact Loop.withinSteps (Nat.zero_le _)
  · exact ⟨markerIs text, splitAttributeIs text⟩
  · exact linesFromIs .start (lines text)

/-- Behind an escape the next offset can lie within a character, where a cut would be a fault. -/
example : Loop.step "\\é".toList (.reading ⟨[.quote], false, none⟩ 0) = .reading ⟨[.quote], false, none⟩ 2 ∧
    sliceFrom "\\é".toList 2 = .error ⟨"\\é".toList, 2⟩ := ⟨rfl, rfl⟩

end DeclOrder.Layout.Bytes
