import DeclOrder.Proofs.Hcl.Cut.Template
import DeclOrder.Proofs.Scanned.Reading

/-! Quoted texts. A scan takes two equal characters for a doubled mark where the grammar takes one for itself,
so the two are compared over whole runs of them. -/
namespace DeclOrder.Hcl
open Text Reader Read
open Layout (Scan firstLine)
open Layout.Scan (finish Plain)

def within (directive : Bool) : Setting := if directive then .directive else .quotes

section
variable {s : Scan} {directive : Bool} {c m : Char} {t u z : List Char} {vs : List (List Char)}

theorem hexEscape {n : Nat} {v : Char} (read : scalarOf n t = some (v, u)) :
    ∃ front, t = front ++ u ∧ ∀ d, hexValue? d = none → d ∉ front := by
  obtain ⟨value, w, hex, more⟩ := bindSome.mp read
  have rest : u = w := by
    split at more
    · exact (pureSome.mp more).2.symm
    · exact absurd more failureSome
  subst rest
  unfold hexOf at hex
  obtain ⟨found, digits, hex⟩ := Option.bind_eq_some_iff.mp hex
  split at hex
  · cases hex
    exact ⟨t.take n, (List.take_append_drop n t).symm, fun d noDigit => hexClear noDigit digits⟩
  · contradiction

theorem finishFront (quoting : s.Quoting) {front : List Char} (plain : ∀ d ∈ ['"', '\\', '$', '%'], d ∉ front) (t : List Char) :
    s.finish (front ++ t) = s.finish t := by
  induction front with
  | nil => rfl
  | cons c rest ih =>
      have other (d : Char) (member : d ∈ ['"', '\\', '$', '%']) : c ≠ d := fun same =>
        plain d member (by rw [same]; exact List.mem_cons_self)
      rw [List.cons_append, quoting.finishText (other '"' (by decide)) (other '\\' (by decide)),
        ih fun d member inside => plain d member (List.mem_cons_of_mem c inside)]
      rintro (mark | mark)
      · exact absurd mark (other '$' (by decide))
      · exact absurd mark (other '%' (by decide))

theorem finishEscaped (quoting : s.Quoting) {v : Char} (read : escape? t = some (v, u)) : s.finish ('\\' :: t) = s.finish u := by
  have one (c : Char) (notBreak : c ∉ ['\n', '\r']) : s.finish ('\\' :: c :: u) = s.finish u := quoting.finishEscape notBreak u
  have digits {n : Nat} {w : List Char} (read : scalarOf n w = some (v, u)) : s.finish w = s.finish u := by
    obtain ⟨front, rfl, clear⟩ := hexEscape read
    refine finishFront quoting (fun d member => clear d ?_) u
    simp only [List.mem_cons, List.not_mem_nil, or_false] at member
    rcases member with rfl | rfl | rfl | rfl <;> decide
  unfold escape? at read
  split at read
  · cases read; exact one _ (by decide)
  · cases read; exact one _ (by decide)
  · cases read; exact one _ (by decide)
  · cases read; exact one _ (by decide)
  · cases read; exact one _ (by decide)
  · cases read; exact one _ (by decide)
  · cases read; exact one _ (by decide)
  · cases read; exact one _ (by decide)
  · rw [quoting.finishEscape (by decide), digits read]
  · rw [quoting.finishEscape (by decide), digits read]
  · contradiction

theorem finishRun (quoting : s.Quoting) (mark : m = '$' ∨ m = '%') (noMore : z.head? ≠ some m) (noBrace : z.head? ≠ some '{') :
    ∀ k, s.finish (List.replicate k m ++ z) = s.finish z
  | 0 => rfl
  | 1 => by
      refine quoting.finishText ?_ ?_ fun _ => ⟨noMore, noBrace⟩
      · rcases mark with rfl | rfl <;> decide
      · rcases mark with rfl | rfl <;> decide
  | k + 2 => (quoting.finishDoubled mark _).trans (finishRun quoting mark noMore noBrace k)

theorem doubledBehind (doubled : hasDoubled t = true) (front : List Char) : hasDoubled (front ++ t) = true := by
  induction front with
  | nil => exact doubled
  | cons c rest ih =>
      rw [List.cons_append]
      unfold hasDoubled
      split <;> simp_all

theorem doubledRun (mark : m = '$' ∨ m = '%') (k : Nat) (t : List Char) :
    hasDoubled (List.replicate (k + 2) m ++ '{' :: t) = true := by
  have last : hasDoubled (List.replicate 2 m ++ '{' :: t) = true := by rcases mark with rfl | rfl <;> rfl
  rw [← List.replicate_append_replicate, List.append_assoc]
  exact doubledBehind last _

theorem literalWithin (noMark : ¬ StartsMark c t) (noQuote : c ≠ '"') (noEscape : c ≠ '\\') :
    literal? (within directive) (c :: t) = some ([c], t) := by
  rw [literalPlain noMark]
  cases directive with
  | true => rfl
  | false => exact (if_neg noQuote).trans (if_neg noEscape)

theorem runDoubled (mark : m = '$' ∨ m = '%') {k : Nat}
    (run : Run (literal? (within directive)) (List.replicate (k + 2) m ++ '{' :: t) vs u) :
    ∃ more, vs.flatten = List.replicate (k + 1) m ++ '{' :: more := by
  induction k generalizing vs with
  | zero =>
      have doubled : literal? (within directive) (m :: m :: '{' :: t) = some ([m, '{'], t) := literalDoubled mark t
      cases run with
      | stop fails => exact absurd (fails.symm.trans doubled) (by simp)
      | @step _ _ _ _ vs reads _ =>
          cases reads.symm.trans doubled
          exact ⟨vs.flatten, rfl⟩
  | succ k ih =>
      have noBrace : m ≠ '{' := by rcases mark with rfl | rfl <;> decide
      have noMark : ¬ StartsMark m (List.replicate (k + 2) m ++ '{' :: t) := by
        rintro ⟨_, rest, same | same⟩
        · exact noBrace (List.cons.inj same).1
        · exact noBrace (List.cons.inj (List.cons.inj same).2).1
      have alone : literal? (within directive) (m :: (List.replicate (k + 2) m ++ '{' :: t)) = some ([m], _) :=
        literalWithin noMark (by rcases mark with rfl | rfl <;> decide) (by rcases mark with rfl | rfl <;> decide)
      cases run with
      | stop fails => exact absurd (fails.symm.trans alone) (by simp)
      | @step _ _ _ _ vs reads rest =>
          cases reads.symm.trans alone
          obtain ⟨more, same⟩ := ih rest
          exact ⟨more, by rw [List.flatten_cons, same]; rfl⟩

theorem runSplit (m : Char) (t : List Char) : ∃ k z, t = List.replicate k m ++ z ∧ z.head? ≠ some m := by
  induction t with
  | nil => exact ⟨0, [], rfl, by simp⟩
  | cons c rest ih =>
      by_cases same : c = m
      · obtain ⟨k, z, rfl, other⟩ := ih
        exact ⟨k + 1, z, by rw [same]; rfl, other⟩
      · exact ⟨0, c :: rest, rfl, by simpa using same⟩

theorem finishLiteral (quoting : s.Quoting) (noQuote : c ≠ '"') (noEscape : c ≠ '\\') (noMark : ¬ StartsMark c t)
    (run : Run (literal? (within directive)) t vs u) (clear : hasDoubled (c :: vs.flatten) = false) :
    s.finish (c :: t) = s.finish t := by
  by_cases mark : c = '$' ∨ c = '%'
  -- The scan takes a run of these in pairs, so it is compared where both are behind the whole run.
  · obtain ⟨k, z, rfl, noMore⟩ := runSplit c t
    by_cases brace : z.head? = some '{'
    · obtain ⟨rest, rfl⟩ := List.head?_eq_some_iff.mp brace
      match k with
      | 0 => exact absurd ⟨mark, rest, .inl rfl⟩ noMark
      | 1 => exact absurd ⟨mark, rest, .inr rfl⟩ noMark
      | k + 2 =>
          obtain ⟨more, same⟩ := runDoubled mark run
          have doubled := doubledRun mark k more
          rw [same, ← List.cons_append] at clear
          exact absurd (clear.symm.trans doubled) (by simp)
    · have passed := finishRun quoting mark noMore brace
      exact (passed (k + 1)).trans (passed k).symm
  · exact quoting.finishText noQuote noEscape fun isMark => absurd isMark mark

theorem finishLiteralStep (quoting : s.Quoting) {v w : List Char} (reads : literal? (within directive) t = some (v, w))
    (run : Run (literal? (within directive)) w vs u) (clear : hasDoubled (v ++ vs.flatten) = false)
    (bare : directive = true → '"' ∉ v ∧ '\\' ∉ v) : s.finish t = s.finish w := by
  cases t with
  | nil => contradiction
  | cons c t =>
      by_cases mark : StartsMark c t
      · obtain ⟨isMark, x, rfl | rfl⟩ := mark
        · rw [literalMark isMark] at reads
          contradiction
        · rw [literalDoubled isMark] at reads
          cases reads
          rw [quoting.finishDoubled isMark, quoting.finishText (by decide) (by decide) fun isMark => absurd isMark (by decide)]
      have one (noQuote : c ≠ '"') (noEscape : c ≠ '\\') : s.finish (c :: t) = s.finish w := by
        rw [literalWithin mark noQuote noEscape] at reads
        cases reads
        exact finishLiteral quoting noQuote noEscape mark run clear
      cases directive with
      | true =>
          have plain : literal? .directive (c :: t) = some ([c], t) := literalPlain mark
          cases plain.symm.trans reads
          obtain ⟨noQuote, noEscape⟩ := bare rfl
          exact one (fun same => noQuote (by simp [same])) fun same => noEscape (by simp [same])
      | false =>
          have quoted : literal? .quotes (c :: t) = some (v, w) := reads
          have plain := (literalPlain mark).symm.trans quoted
          dsimp only at plain
          split at plain
          · contradiction
          · rename_i noQuote
            split at plain
            · rename_i escapes
              obtain ⟨⟨d, x⟩, escaped, same⟩ := Option.map_eq_some_iff.mp plain
              cases same
              rw [escapes, finishEscaped quoting escaped]
            · rename_i noEscape
              exact one noQuote noEscape

theorem textScannableIff {text : List Char} : textScannable directive (String.ofList text) = true ↔
    hasDoubled text = false ∧ (directive = true → '"' ∉ text ∧ '\\' ∉ text) := by
  cases directive <;> simp [textScannable]

theorem finishTexts (quoting : s.Quoting) (run : Run (literal? (within directive)) t vs u)
    (good : textScannable directive (String.ofList vs.flatten) = true) : s.finish t = s.finish u := by
  induction run with
  | stop => rfl
  | @step t w u v vs reads more ih =>
      rw [List.flatten_cons, textScannableIff] at good
      obtain ⟨clear, bare⟩ := good
      have here (inside : directive = true) : '"' ∉ v ∧ '\\' ∉ v :=
        ⟨fun member => (bare inside).1 (List.mem_append_left _ member), fun member => (bare inside).2 (List.mem_append_left _ member)⟩
      have rest : textScannable directive (String.ofList vs.flatten) = true := by
        refine textScannableIff.mpr ⟨Bool.eq_false_iff.mpr fun doubled => ?_, fun inside => ⟨fun member => ?_, fun member => ?_⟩⟩
        · rw [doubledBehind doubled] at clear
          contradiction
        · exact (bare inside).1 (List.mem_append_right v member)
        · exact (bare inside).2 (List.mem_append_right v member)
      rw [finishLiteralStep quoting reads more clear here, ih rest]

end

/-- What a scan does with what the readers of one level read. -/
structure ScansInner (inner : Inner) : Prop where
  tails : InnerTail inner
  /-- No expression starts with what a slash in front of it would make a comment of. -/
  noStar : ∀ {scope t}, inner.expression scope ('*' :: t) = none
  /-- An expression that starts with an angle bracket is a heredoc. -/
  angles : ∀ {scope t v u}, inner.expression scope ('<' :: t) = some (v, u) → ∃ w, t = '<' :: w
  heredoc : ∀ {s : Scan}, s.Ready → ∀ {whole : Expr → Prop}, Scans s s whole (heredoc inner)
  expression : ∀ {s : Scan}, s.Ready → ∀ scope, Scans s s (fun e => e.scannable = true) (inner.expression scope)
  template : ∀ {s : Scan}, s.Quoting → Scans s s (fun ps => partsScannable true ps = true) inner.template

section
variable {s : Scan} {directive : Bool} {α : Type} {whole : α → Prop} {r : Reader α} {inner : Inner} {p : Part} {ps qs : List Part}
  {t u : List Char} {vs : List (List Char)}

theorem scansMarkStart (quoting : s.Quoting) {m : Char} (mark : m = '$' ∨ m = '%') {wholes : Unit → Prop} :
    Scans s (s.push .mark) wholes (word [m, '{']) := by
  refine ⟨tailWord _, fun _ v u read _ => ?_⟩
  rw [wordSome.mp read]
  exact quoting.finishMark mark u

theorem Scans.marked (quoting : s.Quoting) (h : Scans (s.push .mark) (s.push .mark) whole r) :
    Scans (s.push .mark) s (fun q => whole q.2) (Read.marked r) := by
  have ready := quoting.marked
  have strip {wholes : Bool → Prop} : Scans (s.push .mark) (s.push .mark) wholes stripMark := (scansChar ready (by decide)).given
  refine .token strip fun before => (h.spaced ready).bind (fun value => ?_) fun value => ?_
  · exact .token strip fun after => .token (scansClose ready (by decide)) fun _ => scansPure _
  · exact keepsBind fun _ => keepsBind fun _ => keepsPure id

theorem scansInterpolation (scans : ScansInner inner) (quoting : s.Quoting) :
    Scans s s (fun p => p.scannable directive = true) (interpolation inner) := by
  refine .token (scansMarkStart quoting (.inl rfl)) fun _ => ?_
  exact ((scans.expression quoting.marked .lines).marked quoting).map fun _ => id

theorem scansClosing (quoting : s.Quoting) {w : String} (plain : Plain w.toList) {whole : Strip → Prop} :
    Scans s s whole (closing w) := by
  have name : Scans (s.push .mark) (s.push .mark) (fun _ => True) (keyword w) := scansKeyword quoting.marked plain
  exact .token (scansMarkStart quoting (.inr rfl)) fun _ => (name.marked quoting).token fun _ => scansPure _

theorem scansBinding (scans : ScansInner inner) (ready : s.Ready) :
    Scans s s (fun b => b.2.scannable = true) (binding inner) := by
  have name : Scans s s (fun _ => True) (spaced identifier) := (scansIdentifier ready).spaced ready
  have second : Scans s s (fun _ => True) (do char ','; spaced identifier) := .token (scansChar ready (by decide)) fun _ => name
  refine .token (scansKeyword ready (by decide)) fun _ => .token name fun first => .token second.optional fun second => ?_
  exact .token (scansKeyword ready (by decide)) fun _ => ((scans.expression ready .lines).spaced ready).map fun _ => id

theorem scansChoice (scans : ScansInner inner) (quoting : s.Quoting) :
    Scans s s (fun p => p.scannable directive = true) (choice inner) := by
  have condition : Scans (s.push .mark) (s.push .mark) (fun e => e.scannable = true)
      (do keyword "if"; spaced (inner.expression .lines)) :=
    .token (scansKeyword quoting.marked (by decide)) fun _ => (scans.expression quoting.marked .lines).spaced quoting.marked
  have other : Scans s s (fun o => partsScannable true o.2 = true) (otherBranch inner) :=
    .token (scansClosing quoting (by decide)) fun _ => (scans.template quoting).map fun _ => id
  have otherwise : Scans s s (fun o => otherwiseScannable o = true) (tried (otherBranch inner)) :=
    other.tried.keeping fun {_ v _} _ good => by cases v with | none => trivial | some => exact good
  refine .token (scansMarkStart quoting (.inr rfl)) fun _ => (condition.marked quoting).bind ?_ ?_
  · rintro ⟨strip, condition⟩
    refine (scans.template quoting).bind (fun yes => otherwise.bind (fun otherwise => ?_) fun otherwise => ?_) fun yes => ?_
    · exact .token (scansClosing quoting (by decide)) fun _ => scansPure _
    · exact keepsBind fun _ => keepsPure fun good => (Bool.and_eq_true_iff.mp good).2
    · exact keepsBind fun _ => keepsBind fun _ => keepsPure fun good =>
        (Bool.and_eq_true_iff.mp (Bool.and_eq_true_iff.mp good).1).2
  · rintro ⟨strip, condition⟩
    exact keepsBind fun _ => keepsBind fun _ => keepsBind fun _ => keepsPure fun good =>
      (Bool.and_eq_true_iff.mp (Bool.and_eq_true_iff.mp good).1).1

theorem scansLoop (scans : ScansInner inner) (quoting : s.Quoting) :
    Scans s s (fun p => p.scannable directive = true) (loop inner) := by
  refine .token (scansMarkStart quoting (.inr rfl)) fun _ => ((scansBinding scans quoting.marked).marked quoting).bind ?_ ?_
  · rintro ⟨strip, names, collection⟩
    refine (scans.template quoting).bind (fun each => .token (scansClosing quoting (by decide)) fun _ => scansPure _) fun each => ?_
    exact keepsBind fun _ => keepsPure fun good => (Bool.and_eq_true_iff.mp good).2
  · rintro ⟨strip, names, collection⟩
    exact keepsBind fun _ => keepsBind fun _ => keepsPure fun good => (Bool.and_eq_true_iff.mp good).1

theorem Mark.finish (scans : ScansInner inner) (quoting : s.Quoting) (mark : Mark inner t p u) (alone : HeredocsAlone t)
    (good : p.scannable directive = true) : s.finish t = s.finish u ∧ u <:+ t := by
  have read {r : Reader Part} (h : Scans s s (fun p => p.scannable directive = true) r) (read : r t = some (p, u)) :
      s.finish t = s.finish u ∧ u <:+ t := ⟨h.passes alone read good, h.tail read⟩
  cases mark with
  | interpolation reads => exact read (scansInterpolation scans quoting) reads
  | choice _ reads => exact read (scansChoice scans quoting) reads
  | loop _ _ reads => exact read (scansLoop scans quoting) reads

theorem partsScannableAppend : partsScannable directive (ps ++ qs) = true ↔
    partsScannable directive ps = true ∧ partsScannable directive qs = true := by
  induction ps with
  | nil => simp [partsScannable]
  | cons p rest ih => rw [List.cons_append, partsScannable, partsScannable, Bool.and_eq_true_iff, Bool.and_eq_true_iff, ih, and_assoc]

theorem textPartsScannable (good : partsScannable directive (textParts vs) = true) :
    textScannable directive (String.ofList vs.flatten) = true := by
  unfold textParts at good
  split at good
  · rename_i empty
    have none : vs.flatten = [] := by simpa using empty
    rw [none]
    exact textScannableIff.mpr ⟨rfl, fun _ => ⟨List.not_mem_nil, List.not_mem_nil⟩⟩
  · exact (Bool.and_eq_true_iff.mp good).1

theorem Template.finish (scans : ScansInner inner) (quoting : s.Quoting) (h : Template inner (within directive) t ps u)
    (alone : HeredocsAlone t) (good : partsScannable directive ps = true) : s.finish t = s.finish u := by
  induction h with
  | stop text => exact finishTexts quoting text (textPartsScannable good)
  | @step t w x u vs p ps text mark rest ih =>
      obtain ⟨before, good⟩ := partsScannableAppend.mp good
      obtain ⟨here, behind⟩ := Bool.and_eq_true_iff.mp good
      have inside := alone.behind (runTail (shortLiteral _).tail text)
      obtain ⟨passed, tail⟩ := mark.finish scans quoting inside here
      rw [finishTexts quoting text (textPartsScannable before), passed, ih (inside.behind tail) behind]

theorem scansParts (scans : ScansInner inner) (quoting : s.Quoting) :
    Scans s s (fun ps => partsScannable directive ps = true) (parts inner (within directive)) :=
  ⟨tailParts scans.tails _, fun alone _ _ read good =>
    (partsTemplate scans.tails (Nat.le_refl _) read).finish scans quoting alone good⟩

theorem scansQuote (ready : s.Ready) {wholes : Unit → Prop} : Scans s (s.push .quote) wholes (char '"') := by
  refine ⟨tailChar _, fun _ v u read _ => ?_⟩
  rw [charSome.mp read, ready.finishQuote]

theorem scansUnquote (ready : s.Ready) {wholes : Unit → Prop} : Scans (s.push .quote) s wholes (char '"') := by
  refine ⟨tailChar _, fun _ v u read _ => ?_⟩
  rw [charSome.mp read, ready.quoted.finishQuote, Layout.Scan.popPush]

theorem scansQuotedTemplate (scans : ScansInner inner) (ready : s.Ready) :
    Scans s s (fun ps => partsScannable false ps = true) (quotedTemplate inner) := by
  have inside : Scans (s.push .quote) (s.push .quote) (fun ps => partsScannable false ps = true) (parts inner .quotes) :=
    scansParts scans ready.quoted
  refine .token (scansQuote ready) fun _ => inside.bind (fun found => ?_) fun found => ?_
  · exact .token (scansUnquote ready) fun _ => scansPure _
  · exact keepsBind fun _ => keepsPure id

theorem scansQuotedText (ready : s.Ready) : Scans s s (fun text => textScannable false text = true) quotedText := by
  have text : Scans (s.push .quote) (s.push .quote) (fun text => textScannable false text = true) (literal .quotes) := by
    refine ⟨tailLiteral _, fun _ v u read good => ?_⟩
    obtain ⟨vs, run, rfl⟩ := literalReads read
    exact finishTexts ready.quoted (show Run (literal? (within false)) _ _ _ from run) good
  refine .token (scansQuote ready) fun _ => text.bind (fun found => ?_) fun found => keepsBind fun _ => keepsPure id
  exact .token (scansUnquote ready) fun _ => scansPure _

end

end DeclOrder.Hcl
