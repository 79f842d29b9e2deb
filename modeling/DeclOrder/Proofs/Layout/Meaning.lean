import DeclOrder.Proofs.Hcl.Document
import DeclOrder.Proofs.Layout.Counterpart
import DeclOrder.Proofs.Layout.Idempotence
import DeclOrder.Proofs.Layout.Respacing
import DeclOrder.Proofs.OutputOrder

/-! Which documents the canonical formatter accepts, and what it keeps of them: everything, unless it
changes a text that the document says literally. -/
namespace DeclOrder
open Hcl

theorem laidOutAlike {text : List Char} {v v' : Body} (read : parse? text = some v)
    (read' : parse? (Layout.laidOut text) = some v') : v' = v ∨ Differ (bodyLiterals v') (bodyLiterals v) := by
  obtain ⟨front, rest, rfl, all, loose⟩ := Layout.laidOutRespaced text
  rcases parseAlike all loose read read' with same | texts
  · exact .inl same.symm
  · exact .inr texts.symm

/-- A formatted document is the same document exactly where its quoted texts, labels and heredocs are the
same texts in the same order. -/
theorem formatMeaning {text out : List Char} (formatted : canonicalFormatter text = some (.ok out)) :
    parse? out = parse? text ↔ (parse? out).map bodyLiterals = (parse? text).map bodyLiterals := by
  obtain ⟨document, whole, canonical⟩ := canonicalFormatterOk.mp formatted
  obtain ⟨_, rfl⟩ := Layout.canonicalIff.mp canonical
  obtain ⟨v, read⟩ := Option.isSome_iff_exists.mp (Option.isNone_eq_false_iff.mp document)
  obtain ⟨v', read'⟩ := Option.isSome_iff_exists.mp (Option.isNone_eq_false_iff.mp whole)
  rw [read, read', Option.map_some, Option.map_some, Option.some_inj, Option.some_inj]
  constructor
  · rintro rfl
    rfl
  · intro texts
    rcases laidOutAlike read read' with same | other
    · exact same
    · exact absurd texts other.ne

theorem formatMeaningQuoted : canonicalFormatter "a=\"x\"".toList = some (.ok "a = \"x\"\n".toList) ∧
    parse? "a = \"x\"\n".toList = parse? "a=\"x\"".toList := by
  have formatted : canonicalFormatter "a=\"x\"".toList = some (.ok "a = \"x\"\n".toList) :=
    canonicalFormatterOk.mpr (by decide +kernel)
  have texts : (parse? "a = \"x\"\n".toList).map bodyLiterals = (parse? "a=\"x\"".toList).map bodyLiterals := by
    decide +kernel
  exact ⟨formatted, (formatMeaning formatted).mpr texts⟩

/-- The blank before a line break inside quotes is lost. -/
theorem formatMeaningLost : canonicalFormatter "a = \"x \ny\"\n".toList = some (.ok "a = \"x\ny\"\n".toList) ∧
    parse? "a = \"x\ny\"\n".toList ≠ parse? "a = \"x \ny\"\n".toList := by
  refine ⟨canonicalFormatterOk.mpr (by decide +kernel), fun same => ?_⟩
  have texts := congrArg (Option.map bodyLiterals) same
  exact absurd texts (by decide +kernel)

/-- So a suggestion may have a name that its own text does not have. -/
theorem expectedNameLost :
    let source := "output \"b \n\" \x7b\n\x7d\noutput \"a\" \x7b\n\x7d\n".toList
    let path : RepoPath := ⟨"outputs.tf"⟩
    ∃ s, OutputOrder.checkFile canonicalFormatter (Source.ofText path source) = some (.ok (some s)) ∧
      s.expected = ["a", "b \n"] ∧
      (Source.parse? path s.formatted).map (fun file => file.blocks.map (·.labels)) = some [["a"], ["b\n"]] := by
  intro source path
  let b : OutputOrder.Entry := ⟨"b \n", ⟨path, ⟨1, 1, 0⟩, ⟨2, 2, 12⟩⟩, "output \"b \n\" \x7b\n\x7d".toList⟩
  let a : OutputOrder.Entry := ⟨"a", ⟨path, ⟨4, 1, 17⟩, ⟨4, 11, 27⟩⟩, "output \"a\" \x7b\n\x7d".toList⟩
  have parsed : Source.ofText path source = ⟨path, .parsed source
      [⟨OutputOrder.trackedKind, ["b \n"], ⟨path, ⟨1, 1, 0⟩, ⟨3, 2, 16⟩⟩, b.header⟩,
        ⟨OutputOrder.trackedKind, ["a"], ⟨path, ⟨4, 1, 17⟩, ⟨5, 2, 31⟩⟩, a.header⟩]⟩ := by decide +kernel
  have order := @OutputOrder.arrangedTurned a b (by decide) (by simp [a, b])
  have moved : [a, b] ≠ [b, a] := fun same => absurd (congrArg (List.map OutputOrder.Entry.name) same) (by simp [a, b])
  have accepted : canonicalFormatter (OutputOrder.recommended [a, b]) =
      some (.ok "output \"a\" \x7b\n\x7d\n\noutput \"b\n\" \x7b\n\x7d\n".toList) :=
    canonicalFormatterOk.mpr ⟨by decide +kernel, by decide +kernel, by decide +kernel⟩
  rw [parsed]
  refine ⟨_, OutputOrder.checkedSound (.suggested (.tracked rfl ⟨rfl, rfl, OutputOrder.coversSlice.mp (by decide +kernel)⟩
    (.tracked rfl ⟨rfl, rfl, OutputOrder.coversSlice.mp (by decide +kernel)⟩ .nil)) order moved accepted), rfl, ?_⟩
  decide +kernel

/-! Acceptance. -/

theorem canonicalFormatterNone {text : List Char} :
    canonicalFormatter text = none ↔ (parse? text).isNone = false ∧ ¬ Layout.Narrow text := by
  rw [← Layout.canonicalNone]
  unfold canonicalFormatter
  cases (parse? text).isNone <;> cases Layout.canonical text <;> simp

theorem canonicalFormatterBroken {text : List Char} : canonicalFormatter text = some (.error .broken) ↔
    (parse? text).isNone = false ∧ ∃ out, Layout.canonical text = some out ∧ (parse? out).isNone = true := by
  unfold canonicalFormatter
  cases document : (parse? text).isNone with
  | true => simp
  | false =>
      cases Layout.canonical text with
      | none => simp
      | some out => simp

/-- A text in the canonical layout is accepted, and left as it is, exactly if it is a document and none of
its lines ends with a carriage return. -/
theorem laidOutAccepted {text : List Char} (narrow : Layout.Narrow text) :
    canonicalFormatter (Layout.laidOut text) = some (.ok (Layout.laidOut text)) ↔
      (parse? (Layout.laidOut text)).isNone = false ∧ ¬ ['\r', '\n'] <:+: Layout.laidOut text := by
  rw [canonicalFormatterOk, Layout.canonicalIff, Layout.narrowAgain, ← Layout.laidOutTwiceIff]
  exact ⟨fun h => ⟨h.1, h.2.2.2⟩, fun h => ⟨h.1, h.1, narrow, h.2⟩⟩

theorem counterpartFormatted {text text' : List Char} (same : (parse? text').isNone = (parse? text).isNone)
    (others : List.Forall₂ Layout.Counterpart (Layout.rows text) (Layout.dropBlankEnds (Text.lines text'))) :
    canonicalFormatter text' = canonicalFormatter text := by
  rw [canonicalFormatter, canonicalFormatter, same, Layout.canonicalUnspaced others]

/-- The layout takes no marker outside ASCII for one. It trims the line that only looks like the end
marker, which ends the heredoc there. -/
theorem formatBroken : (parse? "a = <<É\n x\n\u00a0É\n y\nÉ\nb=1\n".toList).isSome ∧
    canonicalFormatter "a = <<É\n x\n\u00a0É\n y\nÉ\nb=1\n".toList = some (.error .broken) :=
  ⟨by decide +kernel, canonicalFormatterBroken.mpr ⟨by decide +kernel, _, rfl, by decide +kernel⟩⟩

end DeclOrder
