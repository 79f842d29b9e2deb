import DeclOrder.Hcl.Heredocs
import DeclOrder.Proofs.Hcl.Cut.Trivia

/-! Templates in front of a brace. Literal text may go past it. -/
namespace DeclOrder.Hcl
open Text Reader Read

def Setting.clear : Setting → Prop
  | .heredoc marker => '}' ∉ marker
  | _ => True

/-- Stands at a directive whose name comes behind the brace or never. -/
def Undirected (s t : List Char) : Prop := ∃ w b x, t = '%' :: '{' :: w ∧ stripMark w = some (b, x) ∧
  (Past s (skipTrivia .acrossLines x) ∨ Stalled .acrossLines (skipTrivia .acrossLines x))

/-- Readers for what is inside that read in front of a brace what others read there. -/
structure Ahead (s s' : List Char) (n : Nat) (inner inner' : Inner) : Prop where
  regular : Regular inner
  regular' : Regular inner'
  /-- No expression starts with what opens a comment behind the first character. -/
  noStar : ∀ {scope t}, inner.expression scope ('*' :: t) = none
  expression : ∀ scope, Repeats s s' n (fun e => e.filled = true) (Caught s scope.extent) (inner.expression scope)
    (inner'.expression scope)
  template : Repeats s s' n (fun ps => partsFilled ps = true) (Undirected s) inner.template inner'.template

section
variable {s s' : List Char} {n : Nat} {c : Char} {setting : Setting} {x t u : List Char}

theorem startsMarkLocal : StartsMark c (x ++ '}' :: s) ↔ StartsMark c x := by
  refine and_congr_right fun mark => ?_
  have one := frontLocal ['{'] x s (by decide)
  have two := frontLocal [c, '{'] x s (by rcases mark with rfl | rfl <;> decide)
  constructor
  · rintro ⟨w, same | same⟩
    · obtain ⟨w', same'⟩ := one.mp ⟨w, same⟩
      exact ⟨w', .inl same'⟩
    · obtain ⟨w', same'⟩ := two.mp ⟨w, same⟩
      exact ⟨w', .inr same'⟩
  · rintro ⟨w, same | same⟩
    · obtain ⟨w', same'⟩ := one.mpr ⟨w, same⟩
      exact ⟨w', .inl same'⟩
    · obtain ⟨w', same'⟩ := two.mpr ⟨w, same⟩
      exact ⟨w', .inr same'⟩

theorem literalCons (clear : setting.clear) (c : Char) (x s : List Char) :
    literal? setting (c :: (x ++ '}' :: s)) = (literal? setting (c :: x)).map fun p => (p.1, p.2 ++ '}' :: s) := by
  by_cases mark : StartsMark c x
  · obtain ⟨isMark, w, rfl | rfl⟩ := mark
    · rw [List.cons_append, literalMark isMark, literalMark isMark]
      rfl
    · rw [List.cons_append, List.cons_append, literalDoubled isMark, literalDoubled isMark]
      rfl
  · rw [literalPlain mark, literalPlain (fun starts => mark (startsMarkLocal.mp starts))]
    cases setting with
    | directive => rfl
    | quotes =>
        dsimp only
        split
        · rfl
        · split
          · rw [localEscape]
            cases escape? x with
            | none => rfl
            | some p => rfl
          · rfl
    | heredoc marker =>
        have ends := localMarker clear (c :: x) s
        unfold endMarker at ends
        have same : (afterMarker? marker (c :: (x ++ '}' :: s))).isSome = (afterMarker? marker (c :: x)).isSome := by
          have sizes := congrArg Option.isSome ends
          simpa using sizes
        dsimp only
        rw [same]
        split <;> rfl

theorem literalBrace (setting : Setting) (s : List Char) : literal? setting ('}' :: s) = some (['}'], s) := by
  have plain : ¬ StartsMark '}' s := by
    rintro ⟨same | same, _⟩ <;> contradiction
  rw [literalPlain plain]
  cases setting with
  | directive => rfl
  | quotes => rfl
  | heredoc marker =>
      have away := noMarker (.heredoc marker) s (c := '}') (by decide) fun same => absurd same (by decide)
      rw [atMarker] at away
      simp only [away, Bool.false_eq_true, if_false]

theorem repeatsLiteralStep (clear : setting.clear) :
    Repeats s s' n (fun _ => True) never (literal? setting) (literal? setting) := by
  refine ⟨(shortLiteral setting).tail, fun {x} _ {v u} read _ => ?_⟩
  cases x with
  | nil =>
      rw [List.nil_append, literalBrace] at read
      cases read
      exact .inr (.inl (Nat.le_refl _))
  | cons c rest =>
      rw [List.cons_append, literalCons clear] at read
      obtain ⟨p, found, same⟩ := Option.map_eq_some_iff.mp read
      cases same
      refine .inl ⟨p.2, rfl, ?_⟩
      rw [List.cons_append, literalCons clear, found]
      rfl

theorem literalAlone (clear : setting.clear) (fails : literal? setting (x ++ '}' :: s) = none) :
    literal? setting (x ++ '}' :: s') = none := by
  cases x with
  | nil =>
      rw [List.nil_append, literalBrace] at fails
      contradiction
  | cons c rest =>
      rw [List.cons_append, literalCons clear] at fails ⊢
      rw [Option.map_eq_none_iff.mp fails]
      rfl

theorem repeatsLiteral (clear : setting.clear) {whole : String → Prop} :
    Repeats s s' n whole never (literal setting) (literal setting) := by
  have pieces : Repeats s s' n _ never (many (literal? setting)) (many (literal? setting)) :=
    (repeatsLiteralStep clear).many (shortLiteral setting) (shortLiteral setting) (fun _ => False.elim) fun read fails => by
      rw [literalAlone clear fails] at read
      contradiction
  exact pieces.map fun _ _ _ _ => trivial

theorem repeatsQuotedText {whole : String → Prop} : Repeats s s' n whole never quotedText quotedText := by
  have text : Repeats s s' n (fun _ => True) never (literal .quotes) (literal .quotes) :=
    repeatsLiteral (show Setting.clear .quotes from trivial)
  refine .token (localChar (by decide)) (tailChar _) fun _ => text.bind (fun text => ?_) (fun _ _ _ _ _ _ => trivial)
    fun _ => leadsNever
  exact .token (localChar (by decide)) (tailChar _) fun _ => repeatsPure _

theorem beginsStalls {e : Extent} (begins : Begins c) : ¬ Stalled e (c :: t) := by
  refine stalledHead fun member => begins.2 ?_
  simp only [List.mem_cons, List.not_mem_nil, or_false] at member ⊢
  rcases member with rfl | rfl <;> simp

theorem expressionStalls {inner : Inner} (regular : Regular inner) (scope : Scope) (e : Extent) :
    Leads (Stalled e) (inner.expression scope) never := by
  intro t v u stalled read
  obtain ⟨c, w, rfl, begins⟩ := regular.begins read
  exact beginsStalls begins stalled

variable {inner inner' : Inner}

theorem repeatsSpaced (ahead : Ahead s s' n inner inner') (scope : Scope) (across : scope.extent = .acrossLines) :
    Repeats s s' n (fun e => e.filled = true) (Halted .acrossLines) (spaced (inner.expression scope))
      (spaced (inner'.expression scope)) := by
  have h := ahead.expression scope
  rw [across] at h
  exact h.spaced (expressionStalls ahead.regular scope .acrossLines)

theorem repeatsInterpolation (ahead : Ahead s s' n inner inner') :
    Repeats s s' (n + 1) (fun p => p.filled = true) never (interpolation inner) (interpolation inner') := by
  refine .tokenShort (localKeyword (by decide)) (shortKeyword (by decide)) fun _ => ?_
  exact ((ahead.expression .lines).marked (expressionStalls ahead.regular _ _)).bind (fun _ => repeatsPure _)
    (fun _ => keepsPure id) fun _ => leadsNever

theorem undirectedMarked {α β : Type} {r : Reader α} {k : Strip × α → Reader β} (tail : Tail r) (tails : ∀ p, Tail (k p))
    (refuses : Leads (Stalled .acrossLines) r never) :
    Leads (Undirected s) (directiveStart >>= fun _ => marked r >>= k) (Past s) := by
  rintro t v u ⟨w, b, x, rfl, strip, away⟩ read
  obtain ⟨_, w', start, read⟩ := bindSome.mp read
  have same : '%' :: '{' :: w = '%' :: '{' :: w' := wordSome.mp (show keyword "%\x7b" _ = _ from start)
  cases same
  obtain ⟨p, y, marks, read⟩ := bindSome.mp read
  obtain ⟨b', x', strip', marks⟩ := bindSome.mp marks
  rw [strip] at strip'
  cases strip'
  obtain ⟨a, z, spaces, marks⟩ := bindSome.mp marks
  obtain ⟨_, w', skips, spaces⟩ := bindSome.mp spaces
  rw [← skipSome.mp skips] at spaces
  rcases away with past | stalled
  · have inside : Tail (do let value ← r; space; return value) :=
      tailBind tail fun _ => tailBind (tailTrivia _) fun _ => tailPure _
    have rest : Tail (do let after ← stripMark; char '}'; return ((⟨b, after⟩, a) : Strip × α)) :=
      tailBind (tailGiven (tailChar _)) fun _ => tailBind (tailChar _) fun _ => tailPure _
    exact pastTail (pastTail (pastTail past (inside spaces)) (rest marks)) (tails p read)
  · obtain ⟨_, _, reads, _⟩ := bindSome.mp spaces
    exact absurd (refuses stalled reads) id

theorem keywordStalls {w : String} (token : proceeds w.toList = true) {e : Extent} : Leads (Stalled e) (keyword w) never :=
  stalledOnly (haltedKeyword token)

theorem undirectedClosing {w : String} (token : proceeds w.toList = true) : Leads (Undirected s) (closing w) (Past s) :=
  undirectedMarked (tailKeyword _) (fun _ => tailPure _) (keywordStalls token)

theorem repeatsClosing {w : String} (clear : '}' ∉ w.toList) (token : proceeds w.toList = true) :
    Repeats s s' n (fun _ => True) never (closing w) (closing w) := by
  have word : Repeats s s' n (fun _ => True) (Caught s .acrossLines) (keyword w) (keyword w) :=
    repeatsLocal (localKeyword clear) (tailKeyword _)
  refine .token (localKeyword (by decide)) (tailKeyword _) fun _ => ?_
  exact (word.marked (keywordStalls token)).bind (fun _ => repeatsPure _) (fun _ _ _ _ _ _ => trivial) fun _ => leadsNever

theorem sameHead {w : List Char} (other : c ≠ '}') (same : x ++ '}' :: s' = c :: w) : ∃ w', x ++ '}' :: s = c :: w' := by
  obtain ⟨y, rfl⟩ := (frontLocal [c] x s' (by simpa using other.symm)).mp ⟨w, same⟩
  exact ⟨y ++ '}' :: s, rfl⟩

theorem identifierNoBrace (start : startsIdentifier c = true) : c ≠ '}' := by
  rintro rfl
  exact absurd start (by decide)

theorem identifierStalls {e : Extent} : Leads (Stalled e) identifier never := by
  intro t v u stalled read
  obtain ⟨c, w, rfl, start, _⟩ := identifierSome.mp read
  exact stalledHead (identifierHead start).2.1 stalled

theorem repeatsName {whole : String → Prop} :
    Repeats s s' n whole (Halted .acrossLines) (spaced identifier) (spaced identifier) :=
  (repeatsLocal localIdentifier shortIdentifier.tail).spaced identifierStalls

def Second (t : List Char) : Prop := Halted .acrossLines t ∨ ∃ w, t = ',' :: w

theorem secondKeyword : Leads Second (keyword "in") never := by
  rintro t v u (halted | ⟨w, rfl⟩) read
  · exact haltedKeyword (by decide) halted read
  · contradiction

theorem repeatsSecond : Repeats s s' n (fun _ => True) Second (tried (do char ','; spaced identifier))
    (tried (do char ','; spaced identifier)) := by
  have name : Repeats s s' n (fun _ => True) Second (do char ','; spaced identifier) (do char ','; spaced identifier) :=
    .token (localChar (by decide)) (tailChar _) fun _ => repeatsName.barred fun _ halted => .inr (.inl halted)
  refine (name.tried fun read _ => ?_).keeping fun _ v _ _ _ => by cases v with | none => trivial | some => trivial
  obtain ⟨_, w, comma, _⟩ := bindSome.mp read
  exact .inr (sameHead (by decide) (charSome.mp comma))

theorem repeatsBinding (ahead : Ahead s s' n inner inner') :
    Repeats s s' n (fun p => p.2.filled = true) (Halted .acrossLines) (binding inner) (binding inner') := by
  refine .token (localKeyword (by decide)) (tailKeyword _) fun _ => ?_
  refine repeatsName.bind (fun first => repeatsSecond.bind (fun second => ?_) ?_ ?_) (fun _ _ _ _ _ _ => trivial) ?_
  · refine .token (localKeyword (by decide)) (tailKeyword _) fun _ => ?_
    exact (repeatsSpaced ahead .lines rfl).map fun _ => id
  · exact fun _ _ _ _ _ _ => trivial
  · exact fun _ => refusesBind secondKeyword
  · refine fun _ => leadsBind (leadsTried (refusesBind (haltedChar (by decide)))) fun _ => ?_
    exact refusesBind (haltedKeyword (by decide))

theorem givenReads (r : Reader Unit) (t : List Char) : ∃ b w, Reader.given r t = some (b, w) := by
  cases found : r t with
  | some p => exact ⟨true, p.2, givenSome.mpr (.inl ⟨rfl, found⟩)⟩
  | none => exact ⟨false, t, givenSome.mpr (.inr ⟨rfl, rfl, found⟩)⟩

theorem directiveIff {name : List Char} {b : Bool} (strip : stripMark t = some (b, u)) :
    Directive name ('%' :: '{' :: t) ↔ ∃ w, skipTrivia .acrossLines u = name ++ w := by
  constructor
  · rintro ⟨w, b', x, y, same, strip', found⟩
    cases same
    rw [strip] at strip'
    cases strip'
    exact ⟨y, found⟩
  · rintro ⟨w, found⟩
    exact ⟨t, b, u, w, rfl, strip, found⟩

theorem directiveCut (s s' name x : List Char) (clear : '}' ∉ name) :
    (Directive name (x ++ '}' :: s) ↔ Directive name (x ++ '}' :: s')) ∨ Undirected s (x ++ '}' :: s) := by
  by_cases front : ∃ w, x = ['%', '{'] ++ w
  · obtain ⟨w, rfl⟩ := front
    have strips : Local stripMark := localGiven (localChar (by decide))
    obtain ⟨b, _, strip⟩ : ∃ b y, stripMark (w ++ '}' :: s) = some (b, y) := givenReads _ _
    obtain ⟨y, rfl, strip'⟩ := strips.again strip s'
    rcases skipCut s s' .acrossLines y with ⟨q, here, there⟩ | away
    · refine .inl ((directiveIff strip).trans (.trans ?_ (directiveIff strip').symm))
      rw [here, there, frontLocal name q s clear, frontLocal name q s' clear]
    · exact .inr ⟨_, b, _, rfl, strip, away⟩
  · refine .inl ⟨?_, ?_⟩
    · rintro ⟨w, _, _, _, same, _⟩
      exact absurd ((frontLocal ['%', '{'] x s (by decide)).mp ⟨w, same⟩) front
    · rintro ⟨w, _, _, _, same, _⟩
      exact absurd ((frontLocal ['%', '{'] x s' (by decide)).mp ⟨w, same⟩) front

def Unended (s t : List Char) : Prop := ∀ v u, closing "endif" t = some (v, u) → Past s u

theorem pastUnended (past : Past s t) : Unended s t := fun _ _ read => pastTail past (tailClosing _ read)

theorem undirectedUnended (undirected : Undirected s t) : Unended s t := fun _ _ read =>
  undirectedClosing (by decide) undirected read

theorem unendedPast {β : Type} {B : List Char → Prop} {f : Strip → β} :
    Leads (Unended s) (do return f (← closing "endif")) fun u => Past s u ∨ B u := by
  intro t v u unended read
  obtain ⟨close, w, ends, read⟩ := bindSome.mp read
  obtain ⟨_, rfl⟩ := pureSome.mp read
  exact .inl (unended _ _ ends)

def otherBranch (inner : Inner) : Reader (Strip × List Part) := do return (← closing "else", ← inner.template)

theorem repeatsOther (ahead : Ahead s s' n inner inner') :
    Repeats s s' n (fun o => otherwiseFilled o = true) (Unended s) (tried (otherBranch inner)) (tried (otherBranch inner')) := by
  have other : Repeats s s' n (fun p => partsFilled p.2 = true) (Unended s) (otherBranch inner) (otherBranch inner') := by
    refine (repeatsClosing (by decide) (by decide)).bind (fun strip => ?_) (fun _ _ _ _ _ _ => trivial) fun _ => leadsNever
    exact (ahead.template.barred fun _ undirected => .inr (undirectedUnended undirected)).map fun _ => id
  refine (other.tried fun read _ => ?_).keeping fun _ v _ _ filled => by cases v with | none => trivial | some => exact filled
  obtain ⟨_, _, opens, _⟩ := bindSome.mp read
  have named : Directive "else".toList _ := closingName opens
  rcases directiveCut s s' "else".toList _ (by decide) with same | undirected
  · intro v u ends
    rcases directiveName (same.mpr named) (closingName ends) with front | front
    · exact absurd front (by decide)
    · exact absurd front (by decide)
  · exact undirectedUnended undirected

theorem undirectedOther (ahead : Ahead s s' n inner inner') : Leads (Undirected s) (tried (otherBranch inner)) (Unended s) := by
  intro t v u undirected read
  rcases triedSome.mp read with ⟨a, _, read⟩ | ⟨_, rfl, _⟩
  · obtain ⟨strip, _, opens, read⟩ := bindSome.mp read
    have rest : Tail (do return (strip, ← inner.template) : Reader (Strip × List Part)) :=
      tailBind ahead.regular.template fun _ => tailPure _
    exact pastUnended (pastTail (undirectedClosing (by decide) undirected opens) (rest read))
  · exact undirectedUnended undirected

theorem repeatsCondition (ahead : Ahead s s' n inner inner') :
    Repeats s s' n (fun e => e.filled = true) (Caught s .acrossLines) (do keyword "if"; spaced (inner.expression .lines))
      (do keyword "if"; spaced (inner'.expression .lines)) :=
  .token (localKeyword (by decide)) (tailKeyword _) fun _ =>
    (repeatsSpaced ahead .lines rfl).barred fun _ halted => .inr (haltedCaught halted)

theorem repeatsChoice (ahead : Ahead s s' n inner inner') :
    Repeats s s' (n + 1) (fun p => p.filled = true) never (choice inner) (choice inner') := by
  refine .tokenShort (localKeyword (by decide)) (shortKeyword (by decide)) fun _ => ?_
  refine ((repeatsCondition ahead).marked (refusesBind (keywordStalls (by decide)))).bind ?_ ?_ fun _ => leadsNever
  · rintro ⟨strip, condition⟩
    refine ahead.template.bind (fun yes => ?_) ?_ ?_
    · refine (repeatsOther ahead).bind (fun otherwise => ?_) ?_ ?_
      · exact (repeatsClosing (by decide) (by decide)).bind (fun _ => repeatsPure _) (fun _ _ _ _ _ _ => trivial)
          fun _ => leadsNever
      · exact fun otherwise => keepsBind fun _ => keepsPure fun filled => (Bool.and_eq_true_iff.mp filled).2
      · exact fun otherwise => unendedPast
    · exact fun yes => keepsBind fun _ => keepsBind fun _ => keepsPure fun filled =>
        (Bool.and_eq_true_iff.mp (Bool.and_eq_true_iff.mp filled).1).2
    · exact fun yes => leadsBind (undirectedOther ahead) fun _ => unendedPast
  · rintro ⟨strip, condition⟩
    exact keepsBind fun _ => keepsBind fun _ => keepsBind fun _ => keepsPure fun filled =>
      (Bool.and_eq_true_iff.mp (Bool.and_eq_true_iff.mp filled).1).1

theorem repeatsLoop (ahead : Ahead s s' n inner inner') :
    Repeats s s' (n + 1) (fun p => p.filled = true) never (loop inner) (loop inner') := by
  refine .tokenShort (localKeyword (by decide)) (shortKeyword (by decide)) fun _ => ?_
  have binds : Repeats s s' n _ (Caught s .acrossLines) (binding inner) (binding inner') :=
    (repeatsBinding ahead).barred fun _ halted => .inr (haltedCaught halted)
  refine (binds.marked (refusesBind (keywordStalls (by decide)))).bind ?_ ?_ fun _ => leadsNever
  · rintro ⟨strip, names, collection⟩
    refine ahead.template.bind (fun each => ?_) ?_ ?_
    · exact (repeatsClosing (by decide) (by decide)).bind (fun _ => repeatsPure _) (fun _ _ _ _ _ _ => trivial)
        fun _ => leadsNever
    · exact fun each => keepsBind fun _ => keepsPure fun filled => (Bool.and_eq_true_iff.mp filled).2
    · intro each t v u undirected read
      obtain ⟨_, _, ends, read⟩ := bindSome.mp read
      obtain ⟨_, rfl⟩ := pureSome.mp read
      exact .inl (undirectedClosing (by decide) undirected ends)
  · rintro ⟨strip, names, collection⟩
    exact keepsBind fun _ => keepsBind fun _ => keepsPure fun filled => (Bool.and_eq_true_iff.mp filled).1

theorem opensCut (s s' x : List Char) : opens (x ++ '}' :: s) = opens (x ++ '}' :: s') ∨ Undirected s (x ++ '}' :: s) := by
  rcases directiveCut s s' ['i', 'f'] x (by decide) with choices | undirected
  · rcases directiveCut s s' ['f', 'o', 'r'] x (by decide) with loops | undirected
    · refine .inl ?_
      rw [Bool.eq_iff_iff, opensIff, opensIff, choices, loops]
    · exact .inr undirected
  · exact .inr undirected

def directive (inner : Inner) : Reader Part := do
  match ← tried (choice inner) with
  | some part => pure part
  | none => loop inner

theorem undirectedChoice (tails : InnerTail inner) : Leads (Undirected s) (choice inner) (Past s) :=
  undirectedMarked (tailBind (tailKeyword _) fun _ => tailSpaced (tails.expression _).tail)
    (fun _ => tailBind tails.template fun _ =>
      tailBind (tailTried (tailBind (tailClosing _) fun _ => tailBind tails.template fun _ => tailPure _)) fun _ =>
      tailBind (tailClosing _) fun _ => tailPure _)
    (refusesBind (keywordStalls (by decide)))

theorem undirectedLoop (tails : InnerTail inner) : Leads (Undirected s) (loop inner) (Past s) :=
  undirectedMarked (tailBinding tails)
    (fun _ => tailBind tails.template fun _ => tailBind (tailClosing _) fun _ => tailPure _)
    (refusesBind (keywordStalls (by decide)))

theorem repeatsDirective (ahead : Ahead s s' n inner inner') :
    Repeats s s' (n + 1) (fun p => p.filled = true) never (directive inner) (directive inner') := by
  have tail : Tail (directive inner) := by
    refine tailBind (tailTried (shortChoice ahead.regular.toInnerTail).tail) fun found => ?_
    cases found with
    | some part => exact tailPure _
    | none => exact (shortLoop ahead.regular.toInnerTail).tail
  refine ⟨tail, fun {x} within {v u} read filled => ?_⟩
  obtain ⟨found, w, tries, read⟩ := bindSome.mp read
  rcases triedSome.mp tries with ⟨part, rfl, reads⟩ | ⟨rfl, rfl, fails⟩
  · obtain ⟨rfl, rfl⟩ := pureSome.mp read
    exact ((repeatsChoice ahead).again within reads filled).imp_left fun ⟨y, same, reads'⟩ =>
      ⟨y, same, bindSome.mpr ⟨some part, _, triedSome.mpr (.inl ⟨part, rfl, reads'⟩), rfl⟩⟩
  · cases other : choice inner' (x ++ '}' :: s') with
    | none =>
        exact ((repeatsLoop ahead).again within read filled).imp_left fun ⟨y, same, reads'⟩ =>
          ⟨y, same, bindSome.mpr ⟨none, _, triedSome.mpr (.inr ⟨rfl, rfl, other⟩), reads'⟩⟩
    | some p =>
        rcases directiveCut s s' ['i', 'f'] x (by decide) with same | undirected
        · rcases directiveName (same.mpr (choiceName other)) (loopName read) with front | front
          · exact absurd front (by decide)
          · exact absurd front (by decide)
        · exact .inr (.inl (undirectedLoop ahead.regular.toInnerTail undirected read))

theorem undirectedDirective (tails : InnerTail inner) : Leads (Undirected s) (directive inner) (Past s) := by
  intro t v u undirected read
  obtain ⟨found, w, tries, read⟩ := bindSome.mp read
  rcases triedSome.mp tries with ⟨part, rfl, reads⟩ | ⟨rfl, rfl, _⟩
  · obtain ⟨_, rfl⟩ := pureSome.mp read
    exact undirectedChoice tails undirected reads
  · exact undirectedLoop tails undirected read

section
variable {b : Char} {bound : List Char}

theorem bindReads {α β : Type} {r : Reader α} {k : α → Reader β} {a : α} {w : List Char} (read : r t = some (a, w)) :
    (r >>= k) t = k a w := by
  change (r t).bind _ = _
  rw [read]
  rfl

theorem partsDirective (starts : opens ('%' :: '{' :: t) = true) : partsUpTo inner setting (b :: bound) ('%' :: '{' :: t) =
    (do return (← directive inner) :: (← partsUpTo inner setting bound)) ('%' :: '{' :: t) := by
  refine (bindReads (leftSome.mpr ⟨rfl, rfl⟩)).trans ((bindReads (opensDirectiveSome.mpr ⟨starts, rfl⟩)).trans ?_)
  rw [if_pos rfl]
  cases found : choice inner ('%' :: '{' :: t) with
  | some p =>
      have tries : tried (choice inner) ('%' :: '{' :: t) = some (some p.1, p.2) := triedSome.mpr (.inl ⟨p.1, rfl, found⟩)
      have whole : directive inner ('%' :: '{' :: t) = some p := (bindReads tries).trans rfl
      rw [bindReads tries, bindReads whole]
      rfl
  | none =>
      have tries : tried (choice inner) ('%' :: '{' :: t) = some (none, '%' :: '{' :: t) :=
        triedSome.mpr (.inr ⟨rfl, rfl, found⟩)
      have whole : directive inner ('%' :: '{' :: t) = loop inner ('%' :: '{' :: t) := bindReads tries
      rw [bindReads tries]
      change (loop inner _).bind _ = (directive inner _).bind _
      rw [whole]

theorem partsStop (stops : opens ('%' :: '{' :: t) = false) :
    partsUpTo inner setting (b :: bound) ('%' :: '{' :: t) = some ([], '%' :: '{' :: t) := by
  refine (bindReads (leftSome.mpr ⟨rfl, rfl⟩)).trans ((bindReads (opensDirectiveSome.mpr ⟨stops, rfl⟩)).trans ?_)
  rw [if_neg Bool.false_ne_true]
  rfl

def textFirst (inner : Inner) (setting : Setting) (bound : List Char) : Reader (List Part) := do
  let text ← literal setting
  if text.isEmpty then return [] else return Part.literal text :: (← partsUpTo inner setting bound)

theorem partsText (noMark : ∀ w, t ≠ '$' :: '{' :: w) (noDirective : ∀ w, t ≠ '%' :: '{' :: w) :
    partsUpTo inner setting (b :: bound) t = textFirst inner setting bound t := by
  rw [partsUpTo, bindReads (leftSome.mpr ⟨rfl, rfl⟩)]
  split
  · exact absurd rfl (noMark _)
  · exact absurd rfl (noDirective _)
  · rfl

end

theorem literalPast {v : String} (read : literal setting ('}' :: s) = some (v, u)) : Past s u := by
  obtain ⟨vs, run, _⟩ := literalReads read
  cases run with
  | stop fails =>
      rw [literalBrace] at fails
      contradiction
  | step reads more =>
      rw [literalBrace] at reads
      cases reads
      exact (runTail (shortLiteral setting).tail more).length_le

theorem literalShort {v : String} (read : literal setting t = some (v, u)) (some : v.isEmpty = false) :
    u.length < t.length := by
  obtain ⟨vs, run, rfl⟩ := literalReads read
  cases run with
  | stop => simp at some
  | step reads more =>
      exact Nat.lt_of_le_of_lt (runTail (shortLiteral setting).tail more).length_le (literalTaken reads).2

theorem tailTextFirst (tails : InnerTail inner) (bound : List Char) : Tail (textFirst inner setting bound) := by
  refine tailBind (tailLiteral _) fun text => ?_
  split
  · exact tailPure _
  · exact tailBind (tailPartsUpTo tails _ _) fun _ => tailPure _

theorem textPast (tails : InnerTail inner) {bound : List Char} {ps : List Part}
    (read : textFirst inner setting bound ('}' :: s) = some (ps, u)) : Past s u := by
  obtain ⟨text, w, reads, read⟩ := bindSome.mp read
  refine pastTail (literalPast reads) ?_
  split at read
  · obtain ⟨_, rfl⟩ := pureSome.mp read
    exact List.suffix_rfl
  · obtain ⟨more, w, found, last⟩ := bindSome.mp read
    obtain ⟨_, rfl⟩ := pureSome.mp last
    exact tailPartsUpTo tails _ _ found

theorem repeatsPartFirst {r r' : Reader Part} {q q' : Reader (List Part)} {B : List Char → Prop}
    (first : Repeats s s' (n + 1) (fun p => p.filled = true) never r r') (short : Short r)
    (rest : Repeats s s' n (fun ps => partsFilled ps = true) B q q') :
    Repeats s s' (n + 1) (fun ps => partsFilled ps = true) B (do return (← r) :: (← q)) (do return (← r') :: (← q')) := by
  refine first.bindShort short (fun p => rest.map fun ps filled => (Bool.and_eq_true_iff.mp filled).2) ?_ fun _ => leadsNever
  exact fun p => keepsBind fun _ => keepsPure fun filled => (Bool.and_eq_true_iff.mp filled).1

theorem repeatsTextFirst (tails : InnerTail inner) (clear : setting.clear) {bound bound' : List Char}
    (rest : Repeats s s' n (fun ps => partsFilled ps = true) (Undirected s) (partsUpTo inner setting bound)
      (partsUpTo inner' setting bound')) :
    Repeats s s' (n + 1) (fun ps => partsFilled ps = true) (Undirected s) (textFirst inner setting bound)
      (textFirst inner' setting bound') := by
  have literals : Repeats s s' (n + 1) (fun _ => True) never (literal setting) (literal setting) := repeatsLiteral clear
  refine ⟨tailTextFirst tails bound, fun {x} within {ps u} read filled => ?_⟩
  obtain ⟨text, w, reads, read⟩ := bindSome.mp read
  rcases literals.again within reads trivial with ⟨y, rfl, reads'⟩ | past | barred
  · split at read
    · rename_i empty
      obtain ⟨rfl, rfl⟩ := pureSome.mp read
      refine .inl ⟨y, rfl, bindSome.mpr ⟨text, _, reads', ?_⟩⟩
      rw [if_pos empty]
      rfl
    · rename_i some
      have less := literalShort reads (Bool.eq_false_iff.mpr some)
      obtain ⟨more, w, found, last⟩ := bindSome.mp read
      obtain ⟨rfl, rfl⟩ := pureSome.mp last
      rw [List.length_append, List.length_append] at less
      have filled := (Bool.and_eq_true_iff.mp filled).2
      refine (rest.again (by omega) found filled).imp_left fun ⟨z, same, read'⟩ => ⟨z, same, bindSome.mpr ⟨text, _, reads', ?_⟩⟩
      rw [if_neg some]
      exact bindSome.mpr ⟨more, _, read', rfl⟩
  · refine .inr (.inl (pastTail past ?_))
    split at read
    · obtain ⟨_, rfl⟩ := pureSome.mp read
      exact List.suffix_rfl
    · obtain ⟨more, w, found, last⟩ := bindSome.mp read
      obtain ⟨_, rfl⟩ := pureSome.mp last
      exact rest.tail found
  · exact absurd barred id

theorem shortDirective (tails : InnerTail inner) : Short (directive inner) := by
  intro t v u read
  obtain ⟨found, w, tries, read⟩ := bindSome.mp read
  rcases triedSome.mp tries with ⟨part, rfl, reads⟩ | ⟨rfl, rfl, _⟩
  · obtain ⟨_, rfl⟩ := pureSome.mp read
    exact shortChoice tails reads
  · exact shortLoop tails read

theorem repeatsAtDirective {b b' : Char} {bound bound' : List Char} {w : List Char} {ps : List Part}
    (first : Repeats s s' (n + 1) (fun ps => partsFilled ps = true) (Undirected s)
      (do return (← directive inner) :: (← partsUpTo inner setting bound))
      (do return (← directive inner') :: (← partsUpTo inner' setting bound')))
    (passes : Leads (Undirected s) (directive inner) (Past s)) (tail : Tail (partsUpTo inner setting bound))
    (within : (['%', '{'] ++ w).length ≤ n + 1)
    (read : partsUpTo inner setting (b :: bound) (['%', '{'] ++ w ++ '}' :: s) = some (ps, u)) (filled : partsFilled ps = true) :
    (∃ y, u = y ++ '}' :: s ∧ partsUpTo inner' setting (b' :: bound') (['%', '{'] ++ w ++ '}' :: s') = some (ps, y ++ '}' :: s')) ∨
      Past s u ∨ Undirected s u := by
  cases opened : opens (['%', '{'] ++ w ++ '}' :: s) with
  | true =>
      have reads := (partsDirective opened).symm.trans read
      rcases opensCut s s' (['%', '{'] ++ w) with same | undirected
      · exact (first.again within reads filled).imp_left fun ⟨y, left, again⟩ =>
          ⟨y, left, (partsDirective (same.symm.trans opened)).trans again⟩
      · obtain ⟨part, x, named, rest⟩ := bindSome.mp reads
        obtain ⟨more, y, found, last⟩ := bindSome.mp rest
        obtain ⟨_, rfl⟩ := pureSome.mp last
        exact .inr (.inl (pastTail (passes undirected named) (tail found)))
  | false =>
      obtain ⟨rfl, rfl⟩ := Prod.mk.inj (Option.some.inj ((partsStop opened).symm.trans read))
      rcases opensCut s s' (['%', '{'] ++ w) with same | undirected
      · exact .inl ⟨['%', '{'] ++ w, rfl, partsStop (same.symm.trans opened)⟩
      · exact .inr (.inr undirected)

theorem repeatsPartsUpTo (ahead : Ahead s s' n inner inner') (clear : setting.clear) {bound bound' : List Char} {m : Nat}
    (less : m ≤ n + 1) (enough : m + s.length < bound.length) (enough' : m ≤ bound'.length) :
    Repeats s s' m (fun ps => partsFilled ps = true) (Undirected s) (partsUpTo inner setting bound)
      (partsUpTo inner' setting bound') := by
  have tails := ahead.regular.toInnerTail
  induction bound generalizing bound' m with
  | nil => exact absurd enough (Nat.not_lt_zero _)
  | cons b bound ih =>
      refine ⟨tailPartsUpTo tails _ _, fun {x} within {ps u} read filled => ?_⟩
      rw [List.length_cons] at enough
      cases x with
      | nil =>
          rw [List.nil_append, partsText (by simp) (by simp)] at read
          exact .inr (.inl (textPast tails read))
      | cons c x =>
          cases m with
          | zero => exact absurd within (Nat.not_succ_le_zero _)
          | succ m =>
              cases bound' with
              | nil => exact absurd enough' (Nat.not_succ_le_zero _)
              | cons b' bound' =>
                  rw [List.length_cons] at enough'
                  have rest := @ih bound' m (by omega) (by omega) (by omega)
                  by_cases mark : ∃ w, c :: x = ['$', '{'] ++ w
                  · obtain ⟨w, same⟩ := mark
                    rw [same] at read within ⊢
                    have first := repeatsPartFirst ((repeatsInterpolation ahead).within less) (shortInterpolation tails) rest
                    exact first.again within read filled
                  by_cases isDirective : ∃ w, c :: x = ['%', '{'] ++ w
                  · obtain ⟨w, same⟩ := isDirective
                    rw [same] at read within ⊢
                    have first := repeatsPartFirst ((repeatsDirective ahead).within less) (shortDirective tails) rest
                    exact repeatsAtDirective first (undirectedDirective tails) (tailPartsUpTo tails _ _) within read filled
                  · have noMark (t : List Char) : ∀ w, c :: x ++ '}' :: t ≠ '$' :: '{' :: w := fun w same =>
                      mark ((frontLocal ['$', '{'] _ t (by decide)).mp ⟨w, same⟩)
                    have noDirective (t : List Char) : ∀ w, c :: x ++ '}' :: t ≠ '%' :: '{' :: w := fun w same =>
                      isDirective ((frontLocal ['%', '{'] _ t (by decide)).mp ⟨w, same⟩)
                    rw [partsText (noMark s) (noDirective s)] at read
                    rw [partsText (noMark s') (noDirective s')]
                    exact (repeatsTextFirst tails clear rest).again within read filled

theorem repeatsParts (ahead : Ahead s s' n inner inner') (clear : setting.clear) :
    Repeats s s' (n + 1) (fun ps => partsFilled ps = true) (Undirected s) (parts inner setting) (parts inner' setting) := by
  refine ⟨tailParts ahead.regular.toInnerTail setting, fun {x} within {ps u} read filled => ?_⟩
  have sizes (t : List Char) : (x ++ '}' :: t).length = x.length + t.length + 1 := by simp [Nat.add_assoc]
  have enough : x.length + s.length < (x ++ '}' :: s).length := by rw [sizes]; exact Nat.lt_succ_self _
  have enough' : x.length ≤ (x ++ '}' :: s').length := by rw [sizes]; omega
  exact (repeatsPartsUpTo ahead clear within enough enough').again (Nat.le_refl _) read filled

theorem partsPast (tails : InnerTail inner) {ps : List Part} (read : parts inner setting ('}' :: s) = some (ps, u)) :
    Past s u := textPast tails ((partsText (by simp) (by simp)).symm.trans read)

theorem quoteUndirected {B : List Char → Prop} : Leads (Undirected s) (char '"') B := by
  rintro t v u ⟨w, _, _, rfl, _⟩ read
  contradiction

theorem repeatsQuotedTemplate (ahead : Ahead s s' n inner inner') :
    Repeats s s' (n + 1) (fun ps => partsFilled ps = true) never (quotedTemplate inner) (quotedTemplate inner') := by
  refine .token (localChar (by decide)) (tailChar _) fun _ => ?_
  refine (repeatsParts ahead (show Setting.clear .quotes from trivial)).bind (fun found => ?_) (fun found => ?_) fun found => ?_
  · exact .token (localChar (by decide)) (tailChar _) fun _ => repeatsPure _
  · exact keepsBind fun _ => keepsPure id
  · exact leadsBind quoteUndirected fun _ => leadsNever

theorem identifierClear {name : String} (read : identifier t = some (name, u)) : '}' ∉ name.toList := by
  obtain ⟨c, w, rfl, start, rfl, _⟩ := identifierSome.mp read
  rw [String.toList_ofList]
  intro member
  rcases List.mem_cons.mp member with rfl | member
  · exact absurd start (by decide)
  · exact absurd (List.all_eq_true.mp List.all_takeWhile _ member) (by decide)

theorem localHeredocHead : Local heredocHead :=
  localBind (localKeyword (by decide)) fun _ => localBind (localGiven (localChar (by decide))) fun _ =>
    localBind localIdentifier fun _ => localPure _

theorem repeatsHeredoc (ahead : Ahead s s' n inner inner') :
    Repeats s s' (n + 1) (fun e => e.filled = true) never (heredoc inner) (heredoc inner') := by
  refine ⟨(shortHeredoc ahead.regular.toInnerTail).tail, fun {x} within {v u} read filled => ?_⟩
  cases heredocIff.mp read with
  | bare => contradiction
  | @closed indented marker body start w found head breaks texts ends =>
      obtain ⟨_, _, _, _, name⟩ := heredocHeadSome.mp head
      have clear : Setting.clear (.heredoc marker.toList) := identifierClear name
      obtain ⟨y, rfl, head'⟩ := localHeredocHead.again head s'
      obtain ⟨a, rfl, breaks'⟩ := localLineBreak.again breaks s'
      have shorter : a.length ≤ x.length :=
        Nat.le_trans (leftBefore (tailLineBreak breaks)) (leftBefore (shortHeredocHead.tail head))
      rcases (repeatsParts ahead clear).again (Nat.le_trans shorter within) texts (Bool.and_eq_true_iff.mp filled).2 with
        ⟨d, rfl, texts'⟩ | past | ⟨_, _, _, rfl, _⟩
      · obtain ⟨f, rfl, ends'⟩ := (localMarker clear).again ends s'
        exact .inl ⟨f, rfl, heredocIff.mpr (.closed head' breaks' texts' ends')⟩
      · exact .inr (.inl (pastTail past (tailEndMarker _ ends)))
      · obtain ⟨_, atBreak, _⟩ := afterMarkerSome.mp (endMarkerSome.mp ends)
        rcases lineBreakSome.mp atBreak with same | same <;> cases same

end

end DeclOrder.Hcl
