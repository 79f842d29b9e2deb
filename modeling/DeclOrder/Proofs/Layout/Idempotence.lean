import DeclOrder.Formatter
import DeclOrder.Proofs.Layout.Kept

/-! When the layout of a layout is that layout. Only carriage returns stand against it that literal
lines still end with: the line feed behind takes up one of them each time. -/
namespace DeclOrder.Layout

theorem linesFromTexts (s : Scan) (raws : List (List Char)) (run : Run) :
    linesFrom s ((laidFrom run (linesFrom s raws)).map Text.dropReturn) = (linesFrom s raws).map Line.settled := by
  induction raws generalizing s run with
  | nil => rfl
  | cons raw rest ih =>
      rw [linesFromCons]
      obtain ⟨text, after, laid, texts⟩ := laidFromCons run (lineOf s raw).1 (linesFrom (lineOf s raw).2 rest)
      rw [texts, List.map_cons, linesFromCons, lineOfLaid laid, ih, List.map_cons]

theorem textsNoBreak {lines : List Line} (sound : ∀ line ∈ lines, line.Sound) (run : Run) :
    ∀ text ∈ laidFrom run lines, '\n' ∉ text := by
  induction lines generalizing run with
  | nil => exact fun text member => absurd member List.not_mem_nil
  | cons line rest ih =>
      obtain ⟨text, after, laid, texts⟩ := laidFromCons run line rest
      rw [texts]
      exact List.forall_mem_cons.mpr ⟨soundNoBreak (sound line List.mem_cons_self) laid,
        ih (fun l member => sound l (List.mem_cons_of_mem _ member)) after⟩

theorem isBlankSettled (line : Line) : line.settled.isBlank = line.isBlank := by
  cases line with
  | literal text =>
      rw [Line.settled, Line.isBlank, Line.isBlank, Bool.eq_iff_iff, ← Text.trimNil, ← Text.trimNil, trimDropReturn]
  | _ => rfl

theorem keptAgain (text : List Char) : keptLines (laidOut text) = (keptLines text).map Line.settled := by
  obtain ⟨raws, noBreak, source⟩ := keptSource text
  have lines : ofText (laidOut text) = (keptLines text).map Line.settled := by
    rw [laidOutKept, ofText, Text.linesOfUnlines (textsNoBreak (keptSound text) none), source, linesFromTexts]
  have settledEnds : Ends Line.isBlank ((keptLines text).map Line.settled) := by
    refine endsMap ?_ (keptEnds text)
    rw [List.map_map]
    exact List.map_congr_left (fun line _ => isBlankSettled line)
  rw [keptLines, lines, dropEndsStops settledEnds]

theorem narrowAgain (text : List Char) : Narrow (laidOut text) ↔ Narrow text := by
  have same (line : Line) : line.settled.keyLength = line.keyLength := by cases line <;> rfl
  rw [narrowKept, narrowKept, keptAgain, List.forall_mem_map]
  simp only [same]

theorem runWidthSettled (depth : Nat) (lines : List Line) :
    runWidth depth (lines.map Line.settled) = runWidth depth lines := by
  induction lines with
  | nil => rfl
  | cons line rest ih =>
      cases line with
      | blank | literal | code => rfl
      | _ => simp only [List.map_cons, Line.settled, runWidth, ih]

theorem paddedTextReturn (depth width : Nat) (key value : List Char) :
    Text.dropReturn (paddedText depth width key value) = paddedText depth width key value := by
  refine Text.dropReturnIff.mpr (fun last => ?_)
  have solid := Text.trimEndLast last
  contradiction

theorem codeTextReturn (depth : Nat) {text : List Char} (trimmed : text.getLast? ≠ some '\r') :
    Text.dropReturn (indent depth ++ text) = indent depth ++ text := by
  refine Text.dropReturnIff.mpr (returnAppend ?_ trimmed)
  simp [indent, List.getLast?_replicate]

theorem textsSettled {lines : List Line} (sound : ∀ line ∈ lines, line.Sound) (run : Run) :
    laidFrom run (lines.map Line.settled) = (laidFrom run lines).map Text.dropReturn := by
  induction lines generalizing run with
  | nil => rfl
  | cons line rest ih =>
      have tail := ih (fun l member => sound l (List.mem_cons_of_mem _ member))
      cases sound line List.mem_cons_self with
      | blank => simp only [List.map_cons, Line.settled, laidFrom, tail, Text.dropReturn]; rfl
      | literal => simp only [List.map_cons, Line.settled, laidFrom, tail]
      | code _ trimmed => simp only [List.map_cons, Line.settled, laidFrom, tail, codeTextReturn _ trimmed]
      | @aligned depth key value =>
          have width := runWidthSettled depth (.attribute depth key value :: rest)
          simp only [List.map_cons, Line.settled] at width
          simp only [List.map_cons, Line.settled, laidFrom, widthIn, width, tail, paddedTextReturn]

theorem laidOutTwice (text : List Char) :
    laidOut (laidOut text) = Text.unlines (Text.lines (laidOut text)) := by
  have noBreak := textsNoBreak (keptSound text) none
  rw [laidOutKept (laidOut text), keptAgain, textsSettled (keptSound text), ← Text.linesOfUnlines noBreak,
    ← laidOutKept]

theorem laidOutTwiceIff (text : List Char) :
    laidOut (laidOut text) = laidOut text ↔ ¬ ['\r', '\n'] <:+: laidOut text := by
  rw [laidOutTwice, Text.unlinesLines]
  exact and_iff_left (Text.unlinesLast _)

end DeclOrder.Layout

namespace DeclOrder

theorem canonicalFormatterOk {text out : List Char} : canonicalFormatter text = some (.ok out) ↔
    (Hcl.parse? text).isNone = false ∧ (Hcl.parse? out).isNone = false ∧ Layout.canonical text = some out := by
  constructor
  · intro formatted
    unfold canonicalFormatter at formatted
    split at formatted
    · cases formatted
    · rename_i document
      obtain ⟨laid, canonical, formatted⟩ := Option.bind_eq_some_iff.mp formatted
      split at formatted
      · cases formatted
      · rename_i whole
        cases formatted
        exact ⟨Bool.eq_false_iff.mpr document, Bool.eq_false_iff.mpr whole, canonical⟩
  · rintro ⟨document, whole, canonical⟩
    simp only [canonicalFormatter, document, canonical, whole, bind, Option.bind]
    rfl

/-- Formatting again gives the same text exactly where no line of the formatted text ends with a carriage
return. -/
theorem formatAgain {text out : List Char} (formatted : canonicalFormatter text = some (.ok out)) :
    canonicalFormatter out = some (.ok out) ↔ ¬ ['\r', '\n'] <:+: out := by
  obtain ⟨_, document, canonical⟩ := canonicalFormatterOk.mp formatted
  obtain ⟨narrow, rfl⟩ := Layout.canonicalIff.mp canonical
  rw [canonicalFormatterOk, Layout.canonicalIff, Layout.narrowAgain, ← Layout.laidOutTwiceIff]
  exact ⟨fun h => h.2.2.2, fun h => ⟨document, document, narrow, h⟩⟩

theorem formatAgainAssigned : canonicalFormatter "a=1".toList = some (.ok "a = 1\n".toList) ∧
    canonicalFormatter "a = 1\n".toList = some (.ok "a = 1\n".toList) := by
  have formatted : canonicalFormatter "a=1".toList = some (.ok "a = 1\n".toList) := by rfl
  exact ⟨formatted, (formatAgain formatted).mpr (by decide)⟩

/-- The comment's last line has a carriage return of its own, which is lost the second time only. -/
theorem formatAgainReturn : canonicalFormatter "/*\n*/\r\r\n".toList = some (.ok "/*\n*/\r\n".toList) ∧
    canonicalFormatter "/*\n*/\r\n".toList = some (.ok "/*\n*/\n".toList) ∧
    canonicalFormatter "/*\n*/\r\n".toList ≠ some (.ok "/*\n*/\r\n".toList) := by
  have second : canonicalFormatter "/*\n*/\r\n".toList = some (.ok "/*\n*/\n".toList) := by rfl
  refine ⟨by rfl, second, ?_⟩
  rw [second]
  intro same
  exact absurd (Except.ok.inj (Option.some.inj same)) (by decide)

end DeclOrder
