import DeclOrder.Hcl.Scannable
import DeclOrder.Proofs.Hcl.Cut.Reading
import DeclOrder.Proofs.Layout.Finish

/-! Where a scan is behind what a reader takes. The text behind it is the same for both, so the scan is
compared at the end of it. -/
namespace DeclOrder.Hcl
open Text Reader Read
open Layout (Scan firstLine)
open Layout.Scan (finish special Plain plainKind)

/-- A heredoc that ends where a scan by lines sees it end: at a line that is nothing but its marker, and no line
before that one is. -/
structure EndsAlone (marker t u : List Char) : Prop where
  ascii : Scan.leadingIdentifier marker = marker
  first : ∀ front, t = front ++ (marker ++ u) → ∀ line ∈ (lines front).tail, trim line ≠ marker
  alone : allBlank (firstLine u) = true

def HeredocsAlone (text : List Char) : Prop := ∀ t, t <:+ text → ∀ bound indented marker parts u,
  heredoc (inner bound) t = some (.heredoc indented marker parts, u) → EndsAlone marker.toList t u

theorem HeredocsAlone.behind {t u : List Char} (alone : HeredocsAlone t) (tail : u <:+ t) : HeredocsAlone u :=
  fun w behind => alone w (behind.trans tail)

/-- What `r` takes leads a scan from `s` to `s'`, if the value is `whole` and every heredoc ends alone. -/
structure Scans (s s' : Scan) {α : Type} (whole : α → Prop) (r : Reader α) : Prop where
  tail : Tail r
  passes : ∀ {t : List Char}, HeredocsAlone t → ∀ {v : α} {u : List Char}, r t = some (v, u) → whole v → s.finish t = s'.finish u

section
variable {s s' s'' : Scan} {α β : Type} {whole whole' : α → Prop} {wholes : β → Prop} {r r' : Reader α} {k : α → Reader β}

theorem scansPure (v : α) : Scans s s whole (pure v) :=
  ⟨tailPure v, fun _ _ _ read _ => by rw [(pureSome.mp read).2]⟩

theorem scansFailure : Scans s s' whole (failure : Reader α) :=
  ⟨tailFailure, fun _ _ _ read => absurd read failureSome⟩

theorem Scans.keeping (h : Scans s s' whole r) (keeps : ∀ {t v u}, r t = some (v, u) → whole' v → whole v) :
    Scans s s' whole' r := ⟨h.tail, fun alone _ _ read good => h.passes alone read (keeps read good)⟩

theorem Scans.bind (first : Scans s s' whole r) (more : ∀ a, Scans s' s'' wholes (k a))
    (keeps : ∀ a, Keeps wholes (whole a) (k a)) : Scans s s'' wholes (r >>= k) := by
  refine ⟨tailBind first.tail fun a => (more a).tail, fun alone v u read good => ?_⟩
  obtain ⟨a, w, reads, read⟩ := bindSome.mp read
  rw [first.passes alone reads (keeps a read good), (more a).passes (alone.behind (first.tail reads)) read good]

theorem Scans.token (first : Scans s s' (fun _ => True) r) (more : ∀ a, Scans s' s'' wholes (k a)) :
    Scans s s'' wholes (r >>= k) := first.bind more fun _ _ _ _ _ _ => trivial

theorem Scans.map {f : α → β} (h : Scans s s' whole r) (keeps : ∀ a, wholes (f a) → whole a) :
    Scans s s' wholes (do return f (← r)) := h.bind (fun _ => scansPure _) fun a => keepsPure (keeps a)

theorem Scans.if {p : Prop} [Decidable p] (yes : Scans s s' whole r) (no : Scans s s' whole r') :
    Scans s s' whole (if p then r else r') := by
  split
  · exact yes
  · exact no

theorem Scans.look {k : List Char → Reader α} (more : ∀ text, Scans s s' whole (k text)) : Scans s s' whole (left >>= k) := by
  have here : Scans s s (fun _ => True) left := ⟨tailLeft, fun _ _ _ read _ => by rw [(leftSome.mp read).2]⟩
  exact here.token more

theorem Scans.tried (h : Scans s s whole r) : Scans s s (Optionally whole) (Reader.tried r) := by
  refine ⟨tailTried h.tail, fun alone v u read good => ?_⟩
  rcases triedSome.mp read with ⟨a, rfl, reads⟩ | ⟨rfl, rfl, _⟩
  · exact h.passes alone reads good
  · rfl

theorem Scans.optional (h : Scans s s (fun _ => True) r) {whole : Option α → Prop} : Scans s s whole (Reader.tried r) :=
  h.tried.keeping fun {_ v _} _ _ => by cases v <;> trivial

theorem Scans.given {r : Reader Unit} (h : Scans s s (fun _ => True) r) {whole : Bool → Prop} : Scans s s whole (Reader.given r) :=
  h.optional.token fun _ => scansPure _

theorem Scans.many (short : Short r) (h : Scans s s whole r) : Scans s s (fun vs => ∀ v ∈ vs, whole v) (Reader.many r) := by
  refine ⟨tailMany h.tail, fun {t} alone {vs u} read good => ?_⟩
  have run := manyRun short read
  clear read
  induction run with
  | stop => rfl
  | step reads _ ih =>
      obtain ⟨first, rest⟩ := List.forall_mem_cons.mp good
      rw [h.passes alone reads first, ih (alone.behind (h.tail reads)) rest]

theorem Scans.separated (h : Scans s s whole r) (comma : Scans s s (fun _ => True) (char ',')) :
    Scans s s (fun vs => ∀ v ∈ vs, whole v) (Reader.separated r) := by
  refine h.tried.bind (fun found => ?_) fun found => ?_
  · cases found with
    | none => exact scansPure _
    | some v =>
        have item : Scans s s whole (do char ','; r) := comma.token fun _ => h
        exact (item.many (shortBind (shortChar _) fun _ => h.tail)).map fun vs good => (List.forall_mem_cons.mp good).2
  · cases found with
    | none => exact keepsPure fun _ => trivial
    | some v => exact keepsBind fun _ => keepsPure fun good => (List.forall_mem_cons.mp good).1

end

/-! Tokens. In code a scan passes most of them. -/
section
variable {s : Scan} {o : Layout.Opening} {α : Type} {whole : α → Prop} {wholes : Unit → Prop} {r : Reader α} {e : Extent} {c : Char}
  {t u : List Char}

theorem scansFront (ready : s.Ready) (tail : Tail r)
    (front : ∀ {t v u}, r t = some (v, u) → ∃ front, t = front ++ u ∧ Plain front) : Scans s s whole r := by
  refine ⟨tail, fun _ v u read _ => ?_⟩
  obtain ⟨front, rfl, plain⟩ := front read
  exact ready.finishFront plain u

theorem scansWord (ready : s.Ready) {w : List Char} (plain : Plain w) : Scans s s wholes (word w) :=
  scansFront ready (tailWord w) fun read => ⟨w, wordSome.mp read, plain⟩

theorem scansKeyword (ready : s.Ready) {w : String} (plain : Plain w.toList) : Scans s s wholes (keyword w) :=
  scansWord ready plain

theorem scansChar (ready : s.Ready) (plain : c ∉ special) : Scans s s wholes (char c) :=
  scansFront ready (tailChar c) fun read => ⟨[c], charSome.mp read, List.forall_mem_singleton.mpr plain⟩

theorem scansOpen (ready : s.Ready) (opens : c ∈ ['{', '[', '(']) : Scans s (s.push .group) wholes (char c) := by
  refine ⟨tailChar c, fun _ v u read _ => ?_⟩
  rw [charSome.mp read, ready.finishOpen opens]

theorem scansClose (ready : (s.push o).Ready) (closes : c ∈ ['}', ']', ')']) : Scans (s.push o) s wholes (char c) := by
  refine ⟨tailChar c, fun _ v u read _ => ?_⟩
  rw [charSome.mp read, Layout.Scan.finishClose ready closes, Layout.Scan.popPush]

theorem finishTrivium (ready : s.Ready) (found : trivium? e t = some u) : s.finish t = s.finish u := by
  have passes {c : Char} (plain : c ∉ special) : s.finish (c :: u) = s.finish u := ready.finishPlain plain u
  unfold trivium? at found
  split at found
  · cases found
    exact passes (by decide)
  · cases found
    exact passes (by decide)
  · exact ready.finishBlockComment found
  · cases found
    exact passes (by decide)
  · cases found
    exact passes (by decide)
  · exact ready.finishLineComment found
  · contradiction

theorem finishSkip (ready : s.Ready) (e : Extent) (t : List Char) : s.finish (skipTrivia e t) = s.finish t := by
  generalize size : t.length = n
  induction n using Nat.strongRecOn generalizing t with
  | ind n ih =>
      cases found : trivium? e t with
      | none => rw [skipStop found]
      | some rest =>
          have less := (triviumTail found).2
          rw [skipStep found, ih rest.length (by omega) rest rfl, finishTrivium ready found]

theorem scansTrivia (ready : s.Ready) (e : Extent) : Scans s s wholes (trivia e) := by
  refine ⟨tailTrivia e, fun {t} _ v u read _ => ?_⟩
  rw [← skipSome.mp read, finishSkip ready]

theorem Scans.spaced (ready : s.Ready) (h : Scans s s whole r) : Scans s s whole (Read.spaced r) := by
  refine .token (scansTrivia ready _) fun _ => h.bind (fun v => ?_) fun v => keepsBind fun _ => keepsPure id
  exact .token (scansTrivia ready _) fun _ => scansPure v

theorem identifierPlain {c : Char} (part : continuesIdentifier c = true) : c ∉ special := plainKind (by decide) part

theorem startPlain {c : Char} (start : startsIdentifier c = true) : c ∉ special := plainKind (by decide) start

theorem digitPlain {c : Char} (digit : Text.isDigit c = true) : c ∉ special := plainKind (by decide) digit

theorem scansIdentifier (ready : s.Ready) {whole : String → Prop} : Scans s s whole identifier := by
  refine scansFront ready shortIdentifier.tail fun read => ?_
  obtain ⟨c, w, rfl, start, _, rfl⟩ := identifierSome.mp read
  refine ⟨c :: w.takeWhile continuesIdentifier, by rw [List.cons_append, List.takeWhile_append_dropWhile], fun d member => ?_⟩
  rcases List.mem_cons.mp member with rfl | member
  · exact startPlain start
  · exact identifierPlain (List.all_eq_true.mp List.all_takeWhile d member)

theorem scansDigits (ready : s.Ready) {whole : List Char → Prop} : Scans s s whole digits := by
  refine scansFront ready tailDigits fun {t v u} read => ?_
  unfold digits at read
  dsimp only at read
  split at read
  · contradiction
  · cases read
    exact ⟨t.takeWhile Text.isDigit, List.takeWhile_append_dropWhile.symm, fun c member =>
      digitPlain (List.all_eq_true.mp List.all_takeWhile c member)⟩

theorem scansWholeNumber (ready : s.Ready) {whole : Nat → Prop} : Scans s s whole wholeNumber :=
  .token (scansDigits ready) fun _ => .if (scansPure _) scansFailure

theorem scansPower (ready : s.Ready) {whole : List Char × List Char → Prop} : Scans s s whole power := by
  have sign : Scans s s whole (do
      if ← given (char '-') then return (['-'], ← digits)
      let _ ← given (char '+')
      return ([], ← digits) : Reader (List Char × List Char)) := by
    refine .token (scansChar ready (by decide)).given fun minus => .if ?_ (.token (scansChar ready (by decide)).given fun _ => ?_)
    · exact .token (scansDigits ready) fun _ => scansPure _
    · exact .token (scansDigits ready) fun _ => scansPure _
  exact .token (scansChar ready (by decide)).given fun small => .if sign (.token (scansChar ready (by decide)) fun _ => sign)

theorem scansNumber (ready : s.Ready) {whole : String → Prop} : Scans s s whole number := by
  have places : Scans s s (fun _ => True) fraction := .token (scansChar ready (by decide)) fun _ => scansDigits ready
  refine .token (scansDigits ready) fun whole => .token places.optional fun part =>
    .token (scansPower ready).optional fun scale => ?_
  split
  · exact .if (scansPure _) scansFailure
  · dsimp only
    split
    · exact scansPure _
    · exact scansFailure

theorem scansLineBreak (ready : s.Ready) : Scans s s wholes lineBreak := by
  refine scansFront ready tailLineBreak fun read => ?_
  rcases lineBreakSome.mp read with rfl | rfl
  · exact ⟨['\n'], rfl, by decide⟩
  · exact ⟨['\r', '\n'], rfl, by decide⟩

theorem scansComment (ready : s.Ready) : Scans s s wholes comment :=
  ⟨tailComment, fun _ _ _ read _ => ready.finishLineComment (commentSome.mp read)⟩

theorem scansLineEnd (ready : s.Ready) : Scans s s wholes lineEnd :=
  .token (scansTrivia ready _) fun _ => .token (scansComment ready).optional fun _ => scansLineBreak ready

end

end DeclOrder.Hcl
