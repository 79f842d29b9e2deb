import DeclOrder.Hcl.Expression
import DeclOrder.Proofs.Hcl.Trivia

/-! Every reader of the grammar leaves an end of its text, and those that are used repeatedly take at
least one character. -/
namespace DeclOrder.Hcl.Read
open Reader

variable {α : Type} {r : Reader α}

theorem tailTrivia (extent : Extent) : Tail (trivia extent) := by
  intro t v u read
  rw [← skipSome.mp read]
  exact (skipStopped extent t).2

theorem tailSpaced (tail : Tail r) : Tail (spaced r) :=
  tailBind (tailTrivia _) fun _ => tailBind tail fun _ => tailBind (tailTrivia _) fun _ => tailPure _

theorem lineBreakSome {t u : List Char} {x : Unit} : lineBreak t = some (x, u) ↔ t = '\n' :: u ∨ t = '\r' :: '\n' :: u := by
  unfold lineBreak
  split
  · simp
  · simp
  · rename_i notBreak notReturn
    refine ⟨fun h => absurd h (by simp), ?_⟩
    rintro (rfl | rfl)
    · exact absurd rfl (notBreak u)
    · exact absurd rfl (notReturn u)

theorem tailLineBreak : Tail lineBreak := by
  intro t v u read
  rcases lineBreakSome.mp read with rfl | rfl
  · exact List.suffix_cons _ _
  · exact List.suffix_append ['\r', '\n'] u

theorem commentSome {t u : List Char} {x : Unit} : comment t = some (x, u) ↔ lineComment? t = some u := by
  simp [comment]

theorem tailComment : Tail comment := fun _ _ _ read => (lineCommentTail (commentSome.mp read)).1

theorem tailLineEnd : Tail lineEnd :=
  tailBind (tailTrivia _) fun _ => tailBind (tailTried tailComment) fun _ => tailLineBreak

theorem shortIdentifier : Short identifier := by
  intro t v u read
  obtain ⟨c, w, rfl, _, _, rfl⟩ := identifierSome.mp read
  have behind := List.dropWhile_suffix continuesIdentifier (l := w)
  exact ⟨behind.trans (List.suffix_cons c w), Nat.lt_succ_of_le behind.length_le⟩

theorem tailKeyword (w : String) : Tail (keyword w) := tailWord _

theorem shortKeyword {w : String} (some : w.toList ≠ []) : Short (keyword w) := by
  intro t v u read
  refine ⟨tailKeyword w read, ?_⟩
  rw [wordSome.mp read, List.length_append]
  exact Nat.lt_add_of_pos_left (List.length_pos_iff.mpr some)

theorem shortDigits : Short digits := by
  intro t v u read
  unfold digits at read
  dsimp only at read
  split at read
  · contradiction
  · rename_i found
    cases read
    refine ⟨List.dropWhile_suffix _, ?_⟩
    have whole := congrArg List.length (List.takeWhile_append_dropWhile (p := Text.isDigit) (l := t))
    rw [List.length_append] at whole
    have some := List.length_pos_iff.mpr (fun empty => found (List.isEmpty_iff.mpr empty))
    omega

theorem tailDigits : Tail digits := shortDigits.tail

theorem shortWholeNumber : Short wholeNumber := by
  refine shortBind shortDigits fun found => ?_
  split
  · exact tailPure _
  · exact tailFailure

theorem tailFraction : Tail fraction := (shortBind (shortChar _) fun _ => tailDigits).tail

theorem tailPower : Tail power := by
  have sign : Tail (do
      if ← given (char '-') then return (['-'], ← digits)
      let _ ← given (char '+')
      return ([], ← digits) : Reader (List Char × List Char)) := by
    refine tailBind (tailGiven (tailChar _)) fun minus => ?_
    split
    · exact tailBind tailDigits fun _ => tailPure _
    · exact tailBind (tailGiven (tailChar _)) fun _ => tailBind tailDigits fun _ => tailPure _
  refine tailBind (tailGiven (tailChar _)) fun small => ?_
  split
  · exact sign
  · exact tailBind (tailChar _) fun _ => sign

theorem shortNumber : Short number := by
  refine shortBind shortDigits fun whole => tailBind (tailTried tailFraction) fun part =>
    tailBind (tailTried tailPower) fun scale => ?_
  split
  · split
    · exact tailPure _
    · exact tailFailure
  · dsimp only
    split
    · exact tailPure _
    · exact tailFailure

theorem tailEscape : Tail escape? := by
  intro t v u read
  unfold escape? at read
  split at read
  · cases read; exact List.suffix_cons _ _
  · cases read; exact List.suffix_cons _ _
  · cases read; exact List.suffix_cons _ _
  · cases read; exact List.suffix_cons _ _
  · cases read; exact List.suffix_cons _ _
  · cases read; exact List.suffix_cons _ _
  · cases read; exact List.suffix_cons _ _
  · cases read; exact List.suffix_cons _ _
  · obtain ⟨front, _, rfl, _⟩ := scalarTaken read
    exact (List.suffix_append front u).trans (List.suffix_cons _ _)
  · obtain ⟨front, _, rfl, _⟩ := scalarTaken read
    exact (List.suffix_append front u).trans (List.suffix_cons _ _)
  · contradiction

def StartsMark (c : Char) (t : List Char) : Prop := (c = '$' ∨ c = '%') ∧ ∃ rest, t = '{' :: rest ∨ t = c :: '{' :: rest

theorem literalPlain {setting : Setting} {c : Char} {t : List Char} (plain : ¬ StartsMark c t) :
    literal? setting (c :: t) = match setting with
      | .directive => some ([c], t)
      | .quotes => if c = '"' then none
          else if c = '\\' then (escape? t).map (fun (d, left) => ([d], left)) else some ([c], t)
      | .heredoc marker => if (afterMarker? marker (c :: t)).isSome then none else some ([c], t) := by
  unfold literal?
  split
  · rename_i rest whole
    obtain ⟨rfl, rfl⟩ := List.cons.inj whole
    exact absurd ⟨.inl rfl, rest, .inr rfl⟩ plain
  · rename_i rest whole
    obtain ⟨rfl, rfl⟩ := List.cons.inj whole
    exact absurd ⟨.inr rfl, rest, .inr rfl⟩ plain
  · rename_i rest whole
    obtain ⟨rfl, rfl⟩ := List.cons.inj whole
    exact absurd ⟨.inl rfl, rest, .inl rfl⟩ plain
  · rename_i rest whole
    obtain ⟨rfl, rfl⟩ := List.cons.inj whole
    exact absurd ⟨.inr rfl, rest, .inl rfl⟩ plain
  · rename_i whole
    contradiction
  · rename_i whole
    obtain ⟨rfl, rfl⟩ := List.cons.inj whole
    rfl

theorem literalDoubled {setting : Setting} {c : Char} (mark : c = '$' ∨ c = '%') (t : List Char) :
    literal? setting (c :: c :: '{' :: t) = some ([c, '{'], t) := by
  rcases mark with rfl | rfl <;> rfl

theorem literalMark {setting : Setting} {c : Char} (mark : c = '$' ∨ c = '%') (t : List Char) :
    literal? setting (c :: '{' :: t) = none := by
  rcases mark with rfl | rfl <;> rfl

theorem literalTaken {setting : Setting} {t u : List Char} {v : List Char} (read : literal? setting t = some (v, u)) :
    u <:+ t ∧ u.length < t.length := by
  cases t with
  | nil => contradiction
  | cons c rest =>
      by_cases mark : StartsMark c rest
      · obtain ⟨isMark, x, rfl | rfl⟩ := mark
        · rw [literalMark isMark] at read
          contradiction
        · rw [literalDoubled isMark] at read
          cases read
          exact ⟨List.suffix_append [c, c, '{'] u, by simp only [List.length_cons]; omega⟩
      · rw [literalPlain mark] at read
        have alone {v' u' : List Char} (read : some ([c], rest) = some (v', u')) :
            u' <:+ c :: rest ∧ u'.length < (c :: rest).length := by
          cases read
          exact ⟨List.suffix_cons c _, Nat.lt_succ_self _⟩
        cases setting with
        | directive => exact alone read
        | heredoc marker =>
            dsimp only at read
            split at read
            · contradiction
            · exact alone read
        | quotes =>
            dsimp only at read
            split at read
            · contradiction
            · split at read
              · obtain ⟨⟨d, w⟩, escaped, same⟩ := Option.map_eq_some_iff.mp read
                cases same
                have tail := tailEscape escaped
                exact ⟨tail.trans (List.suffix_cons c rest), Nat.lt_succ_of_le tail.length_le⟩
              · exact alone read

theorem shortLiteral (setting : Setting) : Short (literal? setting) := fun _ _ _ read => literalTaken read

theorem tailLiteral (setting : Setting) : Tail (literal setting) :=
  tailBind (tailMany (shortLiteral setting).tail) fun _ => tailPure _

section
variable {inner : Inner}

/-- What the readers of one level may rely on about those of the next. -/
structure InnerTail (inner : Inner) : Prop where
  expression : ∀ scope, Short (inner.expression scope)
  template : Tail inner.template

theorem tailMarked (tail : Tail r) : Tail (marked r) :=
  tailBind (tailGiven (tailChar _)) fun _ => tailBind (tailSpaced tail) fun _ =>
    tailBind (tailGiven (tailChar _)) fun _ => tailBind (tailChar _) fun _ => tailPure _

theorem shortInterpolation (tails : InnerTail inner) : Short (interpolation inner) :=
  shortBind (shortKeyword (by decide)) fun _ => tailBind (tailMarked (tails.expression _).tail) fun _ => tailPure _

theorem tailClosing (w : String) : Tail (closing w) :=
  tailBind (tailKeyword _) fun _ => tailBind (tailMarked (tailKeyword _)) fun _ => tailPure _

theorem tailBinding (tails : InnerTail inner) : Tail (binding inner) :=
  tailBind (tailKeyword _) fun _ => tailBind (tailSpaced shortIdentifier.tail) fun _ =>
    tailBind (tailTried (tailBind (tailChar _) fun _ => tailSpaced shortIdentifier.tail)) fun _ =>
    tailBind (tailKeyword _) fun _ => tailBind (tailSpaced (tails.expression _).tail) fun _ => tailPure _

theorem shortChoice (tails : InnerTail inner) : Short (choice inner) :=
  shortBind (shortKeyword (by decide)) fun _ =>
    tailBind (tailMarked (tailBind (tailKeyword _) fun _ => tailSpaced (tails.expression _).tail)) fun _ =>
    tailBind tails.template fun _ =>
    tailBind (tailTried (tailBind (tailClosing _) fun _ => tailBind tails.template fun _ => tailPure _)) fun _ =>
    tailBind (tailClosing _) fun _ => tailPure _

theorem shortLoop (tails : InnerTail inner) : Short (loop inner) :=
  shortBind (shortKeyword (by decide)) fun _ => tailBind (tailMarked (tailBinding tails)) fun _ =>
    tailBind tails.template fun _ => tailBind (tailClosing _) fun _ => tailPure _

theorem tailLeft : Tail left := by
  intro t v u read
  obtain ⟨_, rfl⟩ := leftSome.mp read
  exact List.suffix_rfl

theorem tailOpensDirective : Tail opensDirective := by
  intro t v u read
  cases read
  exact List.suffix_rfl

theorem tailPartsUpTo (tails : InnerTail inner) (setting : Setting) (bound : List Char) :
    Tail (partsUpTo inner setting bound) := by
  induction bound with
  | nil => exact tailPure _
  | cons c rest ih =>
      refine tailBind tailLeft fun text => ?_
      split
      · exact tailBind (shortInterpolation tails).tail fun _ => tailBind ih fun _ => tailPure _
      · refine tailBind tailOpensDirective fun opens => ?_
        split
        · have more (part : Part) : Tail (do return part :: (← partsUpTo inner setting rest)) :=
            tailBind ih fun _ => tailPure _
          refine tailBind (tailTried (shortChoice tails).tail) fun found => ?_
          dsimp only
          split
          · exact tailBind (tailPure _) more
          · exact tailBind (shortLoop tails).tail more
        · exact tailPure _
      · refine tailBind (tailLiteral _) fun text => ?_
        split
        · exact tailPure _
        · exact tailBind ih fun _ => tailPure _

theorem tailParts (tails : InnerTail inner) (setting : Setting) : Tail (parts inner setting) :=
  fun _ _ _ read => tailPartsUpTo tails setting _ read

theorem shortQuotedTemplate (tails : InnerTail inner) : Short (quotedTemplate inner) :=
  shortBind (shortChar _) fun _ => tailBind (tailParts tails _) fun _ => tailBind (tailChar _) fun _ => tailPure _

theorem shortQuotedText : Short quotedText :=
  shortBind (shortChar _) fun _ => tailBind (tailLiteral _) fun _ => tailBind (tailChar _) fun _ => tailPure _

theorem afterMarkerSome {marker t u : List Char} : afterMarker? marker t = some u ↔
    ∃ line, lineBreak t = some ((), line) ∧ line.dropWhile isGap = marker ++ u := by
  unfold afterMarker?
  simp only [bind, Option.bind_eq_some_iff, pure, Option.some.injEq]
  constructor
  · rintro ⟨p, ends, q, found, rfl⟩
    exact ⟨p.2, ends, wordSome.mp found⟩
  · rintro ⟨line, ends, found⟩
    exact ⟨((), line), ends, ((), u), wordSome.mpr found, rfl⟩

theorem endMarkerSome {marker t u : List Char} {x : Unit} : endMarker marker t = some (x, u) ↔
    afterMarker? marker t = some u := by
  simp [endMarker]

theorem tailEndMarker (marker : List Char) : Tail (endMarker marker) := by
  intro t v u read
  obtain ⟨line, ends, found⟩ := afterMarkerSome.mp (endMarkerSome.mp read)
  have behind : u <:+ line.dropWhile isGap := by
    rw [found]
    exact List.suffix_append _ _
  exact (behind.trans (List.dropWhile_suffix _)).trans (tailLineBreak ends)

def heredocHead : Reader (Bool × String) := do
  keyword "<<"
  let indented ← given (char '-')
  return (indented, ← identifier)

theorem shortHeredocHead : Short heredocHead :=
  shortBind (shortKeyword (by decide)) fun _ => tailBind (tailGiven (tailChar _)) fun _ => tailBind shortIdentifier.tail fun _ =>
    tailPure _

theorem heredocHeadSome {indented : Bool} {marker : String} {t u : List Char} : heredocHead t = some ((indented, marker), u) ↔
    ∃ x y, keyword "<<" t = some ((), x) ∧ given (char '-') x = some (indented, y) ∧ identifier y = some (marker, u) := by
  constructor
  · intro read
    obtain ⟨_, x, opens, read⟩ := bindSome.mp read
    obtain ⟨_, y, dashes, read⟩ := bindSome.mp read
    obtain ⟨_, _, name, read⟩ := bindSome.mp read
    obtain ⟨same, rfl⟩ := pureSome.mp read
    cases same
    exact ⟨x, y, opens, dashes, name⟩
  · rintro ⟨x, y, opens, dashes, name⟩
    exact bindSome.mpr ⟨(), x, opens, bindSome.mpr ⟨indented, y, dashes, bindSome.mpr ⟨marker, u, name, rfl⟩⟩⟩

/-- How a heredoc is read: with its text up to the marker, or without one, where no later line has the marker. -/
inductive HeredocRead (inner : Inner) (t u : List Char) : Expr → Prop where
  | closed {indented : Bool} {marker : String} {body start w : List Char} {found : List Part}
      (head : heredocHead t = some ((indented, marker), body)) (breaks : lineBreak body = some ((), start))
      (texts : parts inner (.heredoc marker.toList) start = some (found, w)) (ends : endMarker marker.toList w = some ((), u)) :
      HeredocRead inner t u (.heredoc indented marker found)
  | bare {indented : Bool} {marker : String} {body start w : List Char} {found : List Part}
      (head : heredocHead t = some ((indented, marker), body)) (breaks : lineBreak body = some ((), start))
      (texts : parts inner (.heredoc marker.toList) start = some (found, w)) (unended : endMarker marker.toList w = none)
      (again : start.dropWhile isGap = marker.toList ++ u) : HeredocRead inner t u (.heredoc indented marker [])

theorem heredocIff {t u : List Char} {v : Expr} : heredoc inner t = some (v, u) ↔ HeredocRead inner t u v := by
  constructor
  · intro read
    obtain ⟨_, x, opens, read⟩ := bindSome.mp read
    obtain ⟨indented, y, dashes, read⟩ := bindSome.mp read
    obtain ⟨marker, body, name, read⟩ := bindSome.mp read
    obtain ⟨_, _, breaks, read⟩ := bindSome.mp read
    obtain ⟨_, _, here, read⟩ := bindSome.mp read
    obtain ⟨rfl, rfl⟩ := leftSome.mp here
    obtain ⟨found, _, texts, read⟩ := bindSome.mp read
    obtain ⟨ended, _, ends, read⟩ := bindSome.mp read
    have head := heredocHeadSome.mpr ⟨x, y, opens, dashes, name⟩
    rcases givenSome.mp ends with ⟨rfl, marked⟩ | ⟨rfl, rfl, unended⟩
    · obtain ⟨rfl, rfl⟩ := pureSome.mp read
      exact .closed head breaks texts marked
    · obtain ⟨_, _, back, read⟩ := bindSome.mp read
      obtain ⟨_, _, again, read⟩ := bindSome.mp read
      obtain ⟨rfl, rfl⟩ := pureSome.mp read
      rw [← setSome.mp back] at again
      exact .bare head breaks texts unended (wordSome.mp again)
  · intro h
    have behind {indented : Bool} {marker : String} {body start : List Char}
        (head : heredocHead t = some ((indented, marker), body)) (breaks : lineBreak body = some ((), start))
        (rest : (do
          let found ← parts inner (.heredoc marker.toList)
          if ← given (endMarker marker.toList) then return .heredoc indented marker found
          else
            set (start.dropWhile isGap)
            word marker.toList
            return .heredoc indented marker [] : Reader Expr) start = some (v, u)) : heredoc inner t = some (v, u) := by
      obtain ⟨x, y, opens, dashes, name⟩ := heredocHeadSome.mp head
      refine bindSome.mpr ⟨(), x, opens, bindSome.mpr ⟨indented, y, dashes, bindSome.mpr ⟨marker, body, name, ?_⟩⟩⟩
      exact bindSome.mpr ⟨(), start, breaks, bindSome.mpr ⟨start, start, leftSome.mpr ⟨rfl, rfl⟩, rest⟩⟩
    cases h with
    | closed head breaks texts ends =>
        exact behind head breaks (bindSome.mpr ⟨_, _, texts, bindSome.mpr ⟨true, _, givenSome.mpr (.inl ⟨rfl, ends⟩), rfl⟩⟩)
    | bare head breaks texts unended again =>
        refine behind head breaks (bindSome.mpr ⟨_, _, texts, bindSome.mpr ⟨false, _, givenSome.mpr (.inr ⟨rfl, rfl, unended⟩), ?_⟩⟩)
        exact bindSome.mpr ⟨(), _, setSome.mpr rfl, bindSome.mpr ⟨(), _, wordSome.mpr again, rfl⟩⟩

theorem shortHeredoc (tails : InnerTail inner) : Short (heredoc inner) := by
  have opened {head : Bool × String} {t body start u : List Char} (first : heredocHead t = some (head, body))
      (breaks : lineBreak body = some ((), start)) (behind : u <:+ start) : u <:+ t ∧ u.length < t.length := by
    obtain ⟨tail, less⟩ := shortHeredocHead first
    have inside := behind.trans (tailLineBreak breaks)
    exact ⟨inside.trans tail, Nat.lt_of_le_of_lt inside.length_le less⟩
  intro t v u read
  cases heredocIff.mp read with
  | closed head breaks texts ends => exact opened head breaks ((tailEndMarker _ ends).trans (tailParts tails _ texts))
  | bare head breaks _ _ again => exact opened head breaks ((again ▸ List.suffix_append _ u).trans (List.dropWhile_suffix isGap))

theorem tailGuard (tails : InnerTail inner) : Tail (guard? inner) :=
  tailTried (tailBind (tailKeyword _) fun _ => tailSpaced (tails.expression _).tail)

theorem tailListFor (tails : InnerTail inner) : Tail (listFor inner) :=
  tailBind (tailBinding tails) fun _ => tailBind (tailChar _) fun _ =>
    tailBind (tailSpaced (tails.expression _).tail) fun _ => tailBind (tailGuard tails) fun _ => tailPure _

theorem tailObjectFor (tails : InnerTail inner) : Tail (objectFor inner) :=
  tailBind (tailBinding tails) fun _ => tailBind (tailChar _) fun _ =>
    tailBind (tailSpaced (tails.expression _).tail) fun _ => tailBind (tailKeyword _) fun _ =>
    tailBind (tailSpaced (tails.expression _).tail) fun _ => tailBind (tailGiven (tailKeyword _)) fun _ =>
    tailBind (tailTrivia _) fun _ => tailBind (tailGuard tails) fun _ => tailPure _

theorem tailListItems (tails : InnerTail inner) (scope : Scope) : Tail (listItems inner scope) := by
  refine tailBind (tailSeparated (tailSpaced (tails.expression _).tail)) fun items => ?_
  split
  · exact tailBind (tailGiven (tailChar _)) fun _ => tailBind (tailTrivia _) fun _ => tailPure _
  · exact tailPure _

theorem tailClosed {α : Type} (c : Char) (v : α) : Tail (do space; char c; return v) :=
  tailBind (tailTrivia _) fun _ => tailBind (tailChar _) fun _ => tailPure _

theorem shortListLike (tails : InnerTail inner) (scope : Scope) : Short (listLike inner scope) := by
  refine shortBind (shortChar _) fun _ => tailBind (tailTrivia _) fun _ => tailBind tailLeft fun text => ?_
  dsimp only
  split
  · exact tailBind (tailListFor tails) (tailClosed ']')
  · exact tailBind (tailListItems tails scope) (tailClosed ']')

def itemEnd {α : Type} (v : α) : Reader α := do
  match ← left with
  | '}' :: _ => return v
  | ',' :: _ => char ','
  | _ => lineEnd
  space
  return v

def itemValue (inner : Inner) (key : Expr) : Reader (Expr × Expr) := do
  gap
  let value ← inner.expression .line
  gap
  itemEnd (key, value)

theorem tailItemEnd {v : α} : Tail (itemEnd v) := by
  refine tailBind tailLeft fun text => ?_
  split
  · exact tailPure _
  · exact tailBind (tailChar _) fun _ => tailBind (tailTrivia _) fun _ => tailPure _
  · exact tailBind tailLineEnd fun _ => tailBind (tailTrivia _) fun _ => tailPure _

theorem shortObjectItem (tails : InnerTail inner) : Short (objectItem inner) := by
  refine shortBind (tails.expression _) fun key => tailBind (tailTrivia _) fun _ =>
    tailBind (tailGiven (tailChar _)) fun equals => ?_
  have behind : Tail (itemValue inner key) := tailBind (tailTrivia _) fun _ =>
    tailBind (tails.expression _).tail fun _ => tailBind (tailTrivia _) fun _ => tailItemEnd
  split
  · exact behind
  · exact tailBind (tailChar _) fun _ => behind

theorem shortObjectLike (tails : InnerTail inner) : Short (objectLike inner) := by
  refine shortBind (shortChar _) fun _ => tailBind (tailTrivia _) fun _ => tailBind tailLeft fun text => ?_
  dsimp only
  split
  · exact tailBind (tailObjectFor tails) (tailClosed '}')
  · exact tailBind (tailBind (tailMany (shortObjectItem tails).tail) fun _ => tailPure _) (tailClosed '}')

theorem shortGroup (tails : InnerTail inner) : Short (group inner) :=
  shortBind (shortChar _) fun _ => tailBind (tailSpaced (tails.expression _).tail) fun _ =>
    tailBind (tailChar _) fun _ => tailPure _

theorem tailArguments (tails : InnerTail inner) (scope : Scope) : Tail (arguments inner scope) := by
  refine tailBind (tailChar _) fun _ => tailBind (tailSeparated (tailSpaced (tails.expression _).tail)) fun values => ?_
  have close (spread : Bool) : Tail (do space; char ')'; return (values, spread)) := tailClosed ')' _
  dsimp only
  split
  · exact tailBind (tailPure _) close
  · refine tailBind (tailGiven (tailKeyword _)) fun spread => ?_
    split
    · exact tailBind (tailPure _) close
    · exact tailBind (tailGiven (tailChar _)) fun _ => tailBind (tailPure _) close

theorem shortFurther (extent : Extent) : Short (do trivia extent; keyword "::"; trivia extent; identifier) :=
  shortBehind (tailTrivia _) fun _ => shortBind (shortKeyword (by decide)) fun _ =>
    tailBind (tailTrivia _) fun _ => shortIdentifier.tail

theorem tailCallOf (tails : InnerTail inner) (scope : Scope) (name : String) : Tail (callOf inner scope name) :=
  tailBind (tailMany (shortFurther _).tail) fun _ => tailBind (tailTrivia _) fun _ =>
    tailBind (tailArguments tails scope) fun _ => tailPure _

theorem shortNamed (tails : InnerTail inner) (scope : Scope) : Short (named inner scope) := by
  refine shortBind shortIdentifier fun name => tailBind tailLeft fun text => ?_
  split
  · exact tailCallOf tails scope name
  split
  · exact tailPure _
  split
  · exact tailPure _
  split
  · exact tailPure _
  · exact tailPure _

theorem shortPrimary (tails : InnerTail inner) (scope : Scope) : Short (primary inner scope) := by
  refine shortBehind tailLeft fun text => ?_
  split
  · exact shortBind (shortQuotedTemplate tails) fun _ => tailPure _
  · exact shortListLike tails scope
  · exact shortObjectLike tails
  · exact shortGroup tails
  · exact shortHeredoc tails
  · split
    · exact shortBind shortNumber fun _ => tailPure _
    · exact shortNamed tails scope
  · exact fun _ _ _ read => absurd read failureSome

theorem shortAccess (tails : InnerTail inner) (extent : Extent) : Short (access inner extent) := by
  refine shortBehind (tailTrivia _) fun _ => ?_
  intro t v u read
  obtain ⟨text, w, here, read⟩ := bindSome.mp read
  obtain ⟨rfl, rfl⟩ := leftSome.mp here
  split at read
  · exact absurd read failureSome
  · obtain ⟨_, x, moved, read⟩ := bindSome.mp read
    obtain ⟨_, rfl⟩ := pureSome.mp read
    rw [← setSome.mp moved]
    exact ⟨List.suffix_append ['.', '*'] _, Nat.lt_add_of_pos_right (Nat.succ_pos 1)⟩
  · rename_i c rest _ _ _
    obtain ⟨_, x, moved, read⟩ := bindSome.mp read
    rw [← setSome.mp moved] at read
    have member : u <:+ c :: rest := by
      split at read
      · exact tailBind shortWholeNumber.tail (fun _ => tailPure _) read
      · exact tailBind shortIdentifier.tail (fun _ => tailPure _) read
    exact ⟨member.trans (List.suffix_cons _ _), Nat.lt_succ_of_le member.length_le⟩
  · refine shortBind (shortChar _) (fun _ => tailBind (tailTrivia _) fun _ =>
      tailBind (tailGiven (tailChar _)) fun star => ?_) read
    split
    · exact tailBind (tailTrivia _) fun _ => tailBind (tailChar _) fun _ => tailPure _
    · exact tailBind (tails.expression _).tail fun _ => tailBind (tailTrivia _) fun _ =>
        tailBind (tailChar _) fun _ => tailPure _

theorem shortUnaryOp : Short unaryOp := by
  intro t v u read
  unfold unaryOp at read
  split at read
  · cases read
    exact ⟨List.suffix_cons _ _, Nat.lt_succ_self _⟩
  · cases read
    exact ⟨List.suffix_cons _ _, Nat.lt_succ_self _⟩
  · contradiction

theorem shortPrefix (extent : Extent) : Short (do
    let op ← unaryOp
    trivia extent
    return op) :=
  shortBind shortUnaryOp fun _ => tailBind (tailTrivia _) fun _ => tailPure _

theorem shortOperand (tails : InnerTail inner) (scope : Scope) : Short (operand inner scope) :=
  shortBehind (tailMany (shortPrefix _).tail) fun _ => shortBind (shortPrimary tails scope) fun _ =>
    tailBind (tailMany (shortAccess tails _).tail) fun _ => tailPure _

theorem tailConditional (tails : InnerTail inner) (scope : Scope) (condition : Expr) :
    Tail (conditional inner scope condition) :=
  tailBind (tailChar _) fun _ => tailBind (tailTrivia _) fun _ => tailBind (tails.expression _).tail fun _ =>
    tailBind (tailTrivia _) fun _ => tailBind (tailChar _) fun _ => tailBind (tailTrivia _) fun _ =>
    tailBind (tails.expression _).tail fun _ => tailPure _

theorem tailBinary (tails : InnerTail inner) (scope : Scope) (left : Expr) (op : BinaryOp) :
    Tail (binary inner scope left op) :=
  tailBind (tailTrivia _) fun _ => tailBind (tails.expression _).tail fun _ => tailPure _

theorem binaryOpTail {t u : List Char} {op : BinaryOp} (found : binaryOp? t = some (op, u)) : u <:+ t := by
  have one {c : Char} : u <:+ c :: u := List.suffix_cons c u
  have two {c d : Char} : u <:+ c :: d :: u := List.suffix_append [c, d] u
  unfold binaryOp? at found
  split at found
  all_goals first
    | contradiction
    | (cases found; first | exact one | exact two)

theorem shortExpression (tails : InnerTail inner) (scope : Scope) : Short (expression inner scope) := by
  refine shortBind (shortOperand tails scope) fun first => ?_
  intro t v u read
  obtain ⟨behind, w, here, read⟩ := bindSome.mp read
  obtain ⟨rfl, rfl⟩ := leftSome.mp here
  obtain ⟨_, w, skipped, read⟩ := bindSome.mp read
  have gap := tailTrivia _ skipped
  obtain ⟨ahead, x, there, read⟩ := bindSome.mp read
  obtain ⟨rfl, rfl⟩ := leftSome.mp there
  split at read
  · exact (tailConditional tails scope first read).trans gap
  · cases found : binaryOp? w with
    | some p =>
        rw [found] at read
        obtain ⟨_, y, moved, read⟩ := bindSome.mp read
        rw [← setSome.mp moved] at read
        exact ((tailBinary tails scope first _ read).trans (binaryOpTail found)).trans gap
    | none =>
        rw [found] at read
        obtain ⟨_, y, moved, read⟩ := bindSome.mp read
        obtain ⟨_, rfl⟩ := pureSome.mp read
        obtain rfl := setSome.mp moved
        exact List.suffix_rfl

end

theorem innerTail (bound : List Char) : InnerTail (inner bound) := by
  induction bound with
  | nil => exact ⟨fun _ _ _ _ read => absurd read failureSome, tailFailure⟩
  | cons c rest ih => exact ⟨fun scope => shortExpression ih scope, tailParts ih _⟩

end DeclOrder.Hcl.Read
