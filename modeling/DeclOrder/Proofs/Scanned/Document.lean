import DeclOrder.Proofs.Hcl.Document
import DeclOrder.Proofs.Layout.Locality
import DeclOrder.Proofs.Scanned.Expression
import Mathlib.Data.List.Basic

/-! Whole documents. A scan by characters is at the end of one where it started, if it can tell the texts in
quotes from their marks and sees every heredoc end. -/
namespace DeclOrder.Hcl
open Text Reader Read
open Layout (Scan Closes)
open Layout.Scan (finish)

variable {s : Scan} {body : Reader (List Placed)} {t u : List Char}

theorem scansFullExpression (ready : s.Ready) (scope : Scope) :
    Scans s s (fun e => e.scannable = true) (fullExpression scope) :=
  ⟨(shortFullExpression scope).tail, fun {t} alone _ _ read good => ((innerScans t).expression ready scope).passes alone read good⟩

theorem scansAttributeValue (ready : s.Ready) : Scans s s (fun e => e.scannable = true) attributeValue :=
  .token (scansChar ready (by decide)) fun _ => .token (scansTrivia ready _) fun _ => scansFullExpression ready _

theorem scansDefinition (ready : s.Ready) : Scans s s (fun d => d.scannable = true) definition :=
  .token (scansIdentifier ready) fun _ => .token (scansTrivia ready _) fun _ => (scansAttributeValue ready).map fun _ => id

theorem scansLabel (ready : s.Ready) : Scans s s (fun l => l.scannable = true) label := by
  refine .look fun text => ?_
  split
  · exact (scansQuotedText ready).map fun _ => id
  · exact .token (scansIdentifier ready) fun _ => scansPure _

theorem scansPlacedLabel (ready : s.Ready) : Scans s s (fun l => l.1.scannable = true) placedLabel := by
  refine .token (scansTrivia ready _) fun _ => (scansLabel ready).bind (fun l => .look fun _ => scansPure _) fun l => ?_
  exact keepsBind fun _ => keepsPure id

theorem bodyScannableAll (items : Body) : bodyScannable items = true ↔ ∀ d ∈ items, d.scannable = true := by
  induction items with
  | nil => simp [bodyScannable]
  | cons d rest ih => rw [bodyScannable, Bool.and_eq_true_iff, ih, List.forall_mem_cons]

theorem scansBlockBody (inside : ∀ {s : Scan}, s.Ready → Scans s s (fun ps => ∀ p ∈ ps, p.item.scannable = true) body)
    (ready : s.Ready) : Scans s s (fun b => bodyScannable b = true) (blockBody body) := by
  have opened : (s.push .group).Ready := ready.opened (by decide)
  have close (b : Body) : Scans (s.push .group) s (fun b => bodyScannable b = true) (do char '}'; return b) :=
    .token (scansClose opened (by decide)) fun _ => scansPure b
  refine .token (scansOpen ready (by decide)) fun _ => .token (scansLineEnd opened).given fun _ => .if ?_ ?_
  · refine (inside opened).bind (fun ps => close _) fun ps => keepsBind fun _ => keepsPure fun good => ?_
    exact List.forall_mem_map.mp ((bodyScannableAll _).mp good)
  · refine .token (scansTrivia opened _) fun _ => (scansDefinition opened).tried.bind (fun d => ?_) fun d => ?_
    · exact .token (scansTrivia opened _) fun _ => close _
    · refine keepsBind fun _ => keepsBind fun _ => keepsPure fun good => ?_
      cases d with
      | none => trivial
      | some d => exact (bodyScannableAll [d]).mp good d List.mem_cons_self

theorem scansPlaced (inside : ∀ {s : Scan}, s.Ready → Scans s s (fun ps => ∀ p ∈ ps, p.item.scannable = true) body)
    (tail : Tail body) (ready : s.Ready) : Scans s s (fun p => p.item.scannable = true) (placed body) := by
  refine ⟨(shortPlaced tail).tail, fun {t} alone p u read good => ?_⟩
  have name : Scans s s (fun _ => True) identifier := scansIdentifier ready
  have names : Scans s s (fun ls => ∀ l ∈ ls, l.1.scannable = true) (many placedLabel) := (scansPlacedLabel ready).many shortPlacedLabel
  have parsed := placedReads read
  generalize p.item = item at parsed good
  cases parsed with
  | assigned header _ reads =>
      have behind := (alone.behind (name.tail header)).behind (skipStopped .withinLine _).2
      rw [name.passes alone header trivial, ← finishSkip ready .withinLine]
      exact (scansAttributeValue ready).passes behind reads good
  | block header _ labels reads =>
      obtain ⟨each, within⟩ := Bool.and_eq_true_iff.mp good
      have labelled := alone.behind (name.tail header)
      have behind := (labelled.behind (names.tail labels)).behind (skipStopped .withinLine _).2
      rw [name.passes alone header trivial, names.passes labelled labels (List.forall_mem_map.mp (List.all_eq_true.mp each)),
        ← finishSkip ready .withinLine]
      exact (scansBlockBody inside ready).passes behind reads within

theorem scansAtEnd {wholes : Unit → Prop} : Scans s s wholes atEnd :=
  ⟨tailAtEnd, fun _ _ _ read _ => by rw [(atEndSome.mp read).1, (atEndSome.mp read).2]⟩

theorem scansStructureEnd (ready : s.Ready) {wholes : Unit → Prop} : Scans s s wholes structureEnd :=
  .token (scansTrivia ready _) fun _ => .token (scansComment ready).optional fun _ => .token (scansLineBreak ready).given fun _ =>
    .if (scansPure _) scansAtEnd

theorem scansBody (bound : List Char) (ready : s.Ready) :
    Scans s s (fun ps => ∀ p ∈ ps, p.item.scannable = true) (bodyUpTo bound) := by
  -- The scan is general since the body of a block is read with one more bracket open.
  induction bound generalizing s with
  | nil => exact scansPure _
  | cons b bound ih =>
      have entries : Scans s s (fun p => p.item.scannable = true) (entry (bodyUpTo bound)) := by
        refine (scansPlaced (fun inside => ih inside) (tailBodyUpTo bound) ready).bind (fun p => ?_) fun p => ?_
        · exact .token (scansStructureEnd ready) fun _ => .token (scansTrivia ready _) fun _ => scansPure p
        · exact keepsBind fun _ => keepsBind fun _ => keepsPure id
      refine .token (scansTrivia ready _) fun _ => (entries.many (shortEntry (tailBodyUpTo bound))).bind (fun ps => ?_) fun ps => ?_
      · exact .if (scansPure _) scansFailure
      · split
        · exact keepsPure id
        · exact fun _ _ _ read => absurd read failureSome

/-- Behind a document that can be scanned nothing is left open: every quote, mark, bracket, comment and heredoc
ends for a scan where it ends in the document. -/
theorem scanCloses {text : List Char} {document : Body} (read : parse? text = some document)
    (scannable : bodyScannable document = true) (alone : HeredocsAlone text) : Closes text := by
  obtain ⟨items, reads, rfl⟩ := parseReads read
  have good := List.forall_mem_map.mp ((bodyScannableAll _).mp scannable)
  rw [Closes, Layout.Scan.finishLines rfl, (scansBody text Layout.Scan.readyStart).passes alone reads good, Layout.Scan.finishNil]

def mixedOpening : List Char := "E\n    a \" (\n    ".toList

def mixedEnding : List Char := "\n\x7d\n".toList

def mixedSource : List Char :=
  "output \"a\" \x7b\n  v = \"$$\x7bx $\x7bf(\"\x7d\")\x7d\" /* \x7b */\n  t = <<-".toList ++ (mixedOpening ++ 'E' :: mixedEnding)

theorem mixedEnds {marker : String} (span : HeredocSpan marker ('<' :: '<' :: '-' :: (mixedOpening ++ 'E' :: mixedEnding)) u) :
    marker = "E" ∧ u = mixedEnding := by
  have name : identifier (mixedOpening ++ 'E' :: mixedEnding) = some ("E", mixedOpening.tail ++ 'E' :: mixedEnding) := by decide +kernel
  generalize whole : '<' :: '<' :: '-' :: (mixedOpening ++ 'E' :: mixedEnding) = t at span
  cases span with
  | @mk dash opening body front gap _ isDash named _ closes _ =>
      have behind := (List.cons.inj (List.cons.inj whole).2).2
      simp only [List.mem_cons, List.not_mem_nil, or_false] at isDash
      rcases isDash with rfl | rfl
      · obtain rfl : '-' :: (mixedOpening ++ 'E' :: mixedEnding) = opening := behind
        contradiction
      · obtain rfl : mixedOpening ++ 'E' :: mixedEnding = opening := (List.cons.inj behind).2
        obtain ⟨rfl, rfl⟩ := Prod.mk.inj (Option.some.inj (name.symm.trans named))
        have parted : mixedOpening.tail ++ 'E' :: mixedEnding = (front ++ '\n' :: gap) ++ 'E' :: u := closes.trans (by simp)
        obtain ⟨_, _, rfl⟩ := (List.append_cons_inj_of_notMem (by decide) (by decide)).mp parted
        exact ⟨rfl, rfl⟩

theorem mixedAlone : HeredocsAlone mixedSource := by
  intro t tail bound indented marker parts u read
  obtain ⟨_, _, _, same, span⟩ := heredocSpanned (innerTail bound) read
  cases same
  have places : ∀ n < mixedSource.length + 1, (mixedSource.drop n).take 2 = ['<', '<'] →
      mixedSource.drop n = '<' :: '<' :: '-' :: (mixedOpening ++ 'E' :: mixedEnding) := by decide +kernel
  have opens : t.take 2 = ['<', '<'] := by
    cases span
    rfl
  have here := places (mixedSource.length - t.length) (by omega)
  rw [← List.suffix_iff_eq_drop.mp tail] at here
  obtain rfl := here opens
  obtain ⟨rfl, rfl⟩ := mixedEnds span
  refine ⟨by decide, fun front same => ?_, by decide⟩
  have whole : '<' :: '<' :: '-' :: mixedOpening ++ 'E' :: mixedEnding = front ++ 'E' :: mixedEnding := same
  rw [← List.append_cancel_right whole]
  decide

theorem scanClosesMixed : ∃ document, parse? mixedSource = some document ∧ bodyScannable document = true ∧
    HeredocsAlone mixedSource ∧ Closes mixedSource := by
  have parsed : (parse? mixedSource).any bodyScannable = true := by decide +kernel
  obtain ⟨document, read, scannable⟩ := (Option.any_eq_true _ _).mp parsed
  exact ⟨document, read, scannable, mixedAlone, scanCloses read scannable mixedAlone⟩

def openSource : List Char := "a = f(<<EOT\n  x\n  EOT)\n   b   =  1\n".toList

theorem scanStaysOpen : (parse? openSource).any bodyScannable = true ∧ ¬ Closes openSource ∧ Layout.canonical openSource = openSource := by
  decide +kernel

end DeclOrder.Hcl
