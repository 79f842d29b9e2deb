import DeclOrder.Hcl.Trivia
import DeclOrder.Proofs.Hcl.Firm

/-! Skipping trivia in respaced texts. What follows is respaced again, unless one of the texts is stuck at
something that is neither trivia nor the start of a token. -/
namespace DeclOrder.Hcl
open Text Reader

inductive Stuck : Extent → List Char → Prop where
  | foreign {e : Extent} {c : Char} {t : List Char} (blank : isBlank c = true)
      (foreign : c ∉ [' ', '\t', '\r', '\n']) : Stuck e (c :: t)
  | loneReturn {t : List Char} (alone : t.head? ≠ some '\n') : Stuck .withinLine ('\r' :: t)
  | hash {t : List Char} (broken : lineCommentEnd? t = none) : Stuck .acrossLines ('#' :: t)
  | slashes {t : List Char} (broken : lineCommentEnd? t = none) : Stuck .acrossLines ('/' :: '/' :: t)

variable {e : Extent} {c d : Char} {t t' u u' : List Char}

theorem afterBlockCommentCons : afterBlockComment? (c :: t) =
    if c = '*' ∧ t.head? = some '/' then some t.tail else afterBlockComment? t := by
  by_cases closes : c = '*' ∧ t.head? = some '/'
  · obtain ⟨rfl, head⟩ := closes
    obtain ⟨rest, rfl⟩ := List.head?_eq_some_iff.mp head
    rfl
  · rw [if_neg closes, afterBlockComment?]
    rintro rest rfl rfl
    exact closes ⟨rfl, rfl⟩

theorem afterBlockCommentTail (found : afterBlockComment? t = some u) : u <:+ t := by
  induction t with
  | nil => contradiction
  | cons c rest ih =>
      rw [afterBlockCommentCons] at found
      split at found
      · cases found
        exact (List.tail_suffix rest).trans (List.suffix_cons c rest)
      · exact (ih found).trans (List.suffix_cons c rest)

theorem lineCommentEndCons (notBreak : c ≠ '\n') (notReturn : c ≠ '\r') :
    lineCommentEnd? (c :: t) = lineCommentEnd? t := by
  rw [lineCommentEnd?]
  · exact notBreak
  · rintro rest rfl
    exact absurd rfl notReturn
  · exact notReturn

theorem lineCommentEndReturn (found : lineCommentEnd? ('\r' :: t) = some u) :
    u = '\r' :: t ∧ ∃ rest, t = '\n' :: rest := by
  cases t with
  | nil => contradiction
  | cons d rest =>
      by_cases isBreak : d = '\n'
      · subst isBreak
        cases found
        exact ⟨rfl, rest, rfl⟩
      · rw [lineCommentEnd?] at found
        · contradiction
        · rintro _ same
          exact isBreak (List.cons.inj same).1

theorem lineCommentEndTail (found : lineCommentEnd? t = some u) : u <:+ t := by
  induction t with
  | nil =>
      cases found
      exact List.suffix_rfl
  | cons c rest ih =>
      by_cases notBreak : c = '\n'
      · subst notBreak
        cases found
        exact List.suffix_rfl
      · by_cases notReturn : c = '\r'
        · subst notReturn
          obtain ⟨rfl, _⟩ := lineCommentEndReturn found
          exact List.suffix_rfl
        · rw [lineCommentEndCons notBreak notReturn] at found
          exact (ih found).trans (List.suffix_cons c rest)

theorem lineCommentTail (found : lineComment? t = some u) : u <:+ t ∧ u.length < t.length := by
  unfold lineComment? at found
  split at found
  · have tail := lineCommentEndTail found
    exact ⟨tail.trans (List.suffix_cons _ _), Nat.lt_succ_of_le tail.length_le⟩
  · have tail := lineCommentEndTail found
    refine ⟨tail.trans (List.suffix_append ['/', '/'] _), ?_⟩
    exact Nat.lt_of_le_of_lt tail.length_le (Nat.lt_add_of_pos_right (Nat.succ_pos 1))
  · contradiction

theorem triviumTail (found : trivium? e t = some u) : u <:+ t ∧ u.length < t.length := by
  unfold trivium? at found
  split at found
  · cases found
    exact ⟨List.suffix_cons _ _, Nat.lt_succ_self _⟩
  · cases found
    exact ⟨List.suffix_cons _ _, Nat.lt_succ_self _⟩
  · have tail := afterBlockCommentTail found
    refine ⟨tail.trans (List.suffix_append ['/', '*'] _), ?_⟩
    exact Nat.lt_of_le_of_lt tail.length_le (Nat.lt_add_of_pos_right (Nat.succ_pos 1))
  · cases found
    exact ⟨List.suffix_cons _ _, Nat.lt_succ_self _⟩
  · cases found
    exact ⟨List.suffix_cons _ _, Nat.lt_succ_self _⟩
  · exact lineCommentTail found
  · contradiction

theorem skipTriviaUpToEnough {bound bound' : List Char} (enough : t.length ≤ bound.length)
    (enough' : t.length ≤ bound'.length) : skipTriviaUpTo e bound t = skipTriviaUpTo e bound' t := by
  induction bound generalizing t bound' with
  | nil =>
      cases t with
      | cons => simp at enough
      | nil =>
          cases bound' with
          | nil => rfl
          | cons => cases e <;> rfl
  | cons b bound ih =>
      cases bound' with
      | nil =>
          cases t with
          | cons => simp at enough'
          | nil => cases e <;> rfl
      | cons b' bound' =>
          rw [skipTriviaUpTo, skipTriviaUpTo]
          cases found : trivium? e t with
          | none => rfl
          | some rest =>
              have less := (triviumTail found).2
              simp only [List.length_cons] at enough enough'
              exact ih (by omega) (by omega)

theorem skipStep (found : trivium? e t = some u) : skipTrivia e t = skipTrivia e u := by
  have less := (triviumTail found).2
  cases t with
  | nil => simp at less
  | cons c rest =>
      rw [skipTrivia, skipTriviaUpTo, found]
      exact skipTriviaUpToEnough (Nat.le_of_lt_succ less) (Nat.le_refl _)

theorem skipStop (none : trivium? e t = none) : skipTrivia e t = t := by
  cases t with
  | nil => rfl
  | cons c rest => rw [skipTrivia, skipTriviaUpTo, none]

theorem skipStopped (e : Extent) (t : List Char) : trivium? e (skipTrivia e t) = none ∧ skipTrivia e t <:+ t := by
  generalize size : t.length = n
  induction n using Nat.strongRecOn generalizing t with
  | ind n ih =>
      cases found : trivium? e t with
      | none =>
          rw [skipStop found]
          exact ⟨found, List.suffix_rfl⟩
      | some rest =>
          have tail := triviumTail found
          rw [skipStep found]
          obtain ⟨stopped, below⟩ := ih rest.length (by omega) rest rfl
          exact ⟨stopped, below.trans tail.1⟩

theorem skipTwice (e : Extent) (t : List Char) : skipTrivia e (skipTrivia e t) = skipTrivia e t :=
  skipStop (skipStopped e t).1

theorem allBlankTail (all : allBlank t = true) (tail : u <:+ t) : allBlank u = true :=
  List.all_eq_true.mpr fun c member => List.all_eq_true.mp all c (tail.subset member)

theorem triviumOther (other : c ∉ [' ', '\t', '\r', '\n', '/', '#']) : trivium? e (c :: t) = none := by
  simp only [List.mem_cons, List.not_mem_nil, or_false, not_or] at other
  obtain ⟨notSpace, notTab, notReturn, notBreak, notSlash, notHash⟩ := other
  have noComment : lineComment? (c :: t) = none := by
    unfold lineComment?
    split
    · rename_i h
      exact absurd (List.cons.inj h).1 notHash
    · rename_i h
      exact absurd (List.cons.inj h).1 notSlash
    · rfl
  unfold trivium?
  split
  · rename_i h
    exact absurd (List.cons.inj h).1 notSpace
  · rename_i h
    exact absurd (List.cons.inj h).1 notTab
  · rename_i h
    exact absurd (List.cons.inj h).1 notSlash
  · rename_i h
    exact absurd (List.cons.inj h).1 notReturn
  · rename_i h
    exact absurd (List.cons.inj h).1 notBreak
  · exact noComment
  · rfl

theorem stuckStays (stuck : Stuck e t) : trivium? e t = none := by
  cases stuck with
  | foreign blank foreign =>
      refine triviumOther fun member => ?_
      simp only [List.mem_cons, List.not_mem_nil, or_false] at member foreign
      rcases member with same | same | same | same | rfl | rfl
      · exact foreign (.inl same)
      · exact foreign (.inr (.inl same))
      · exact foreign (.inr (.inr (.inl same)))
      · exact foreign (.inr (.inr (.inr same)))
      · contradiction
      · contradiction
  | loneReturn => rfl
  | hash broken => exact broken
  | slashes broken => exact broken

theorem triviumSlash (notStar : t.head? ≠ some '*') : trivium? e ('/' :: t) =
    if e = .acrossLines ∧ t.head? = some '/' then lineCommentEnd? t.tail else none := by
  cases t with
  | nil => cases e <;> rfl
  | cons d rest =>
      have other : d ≠ '*' := fun same => notStar (by rw [same]; rfl)
      cases e with
      | withinLine => simp [trivium?, other]
      | acrossLines =>
          by_cases slash : d = '/'
          · subst slash
            rfl
          · rw [if_neg (fun both => slash (Option.some.inj both.2))]
            simp [trivium?, lineComment?, other, slash]

theorem Respaced.headIff (inside : Inside c) (h : Respaced t t') : t.head? = some c ↔ t'.head? = some c := by
  constructor
  · intro head
    obtain ⟨rest, rfl⟩ := List.head?_eq_some_iff.mp head
    obtain ⟨w, rfl, _⟩ := h.inside inside
    rfl
  · intro head
    obtain ⟨rest, rfl⟩ := List.head?_eq_some_iff.mp head
    obtain ⟨w, rfl, _⟩ := h.symm.inside inside
    rfl

theorem Loose.lineBreak (h : Loose t t') : Respaced ('\n' :: t) ('\n' :: t') := by
  obtain ⟨b, b', u, u', within, within', rfl, rfl, rest⟩ := h
  exact .lineBreak withinNil withinNil within within' rest

theorem Loose.consBreak (h : Loose t t') : Loose ('\n' :: t) ('\n' :: t') := h.lineBreak.loose

theorem afterBlockCommentBlank (all : allBlank t = true) : afterBlockComment? t = none := by
  induction t with
  | nil => rfl
  | cons c rest ih =>
      obtain ⟨blank, all⟩ := allBlankCons.mp all
      rw [afterBlockCommentCons, if_neg, ih all]
      rintro ⟨rfl, _⟩
      contradiction

theorem afterBlockCommentLoose (h : Loose t t') : (afterBlockComment? t = none ∧ afterBlockComment? t' = none) ∨
    ∃ u u', afterBlockComment? t = some u ∧ afterBlockComment? t' = some u' ∧ Loose u u' := by
  have passes {c : Char} {t : List Char} (inLine : isBlank c = true) :
      afterBlockComment? (c :: t) = afterBlockComment? t := by
    rw [afterBlockCommentCons, if_neg]
    rintro ⟨rfl, _⟩
    contradiction
  refine looseInduction (motive := fun t t' => (afterBlockComment? t = none ∧ afterBlockComment? t' = none) ∨
    ∃ u u', afterBlockComment? t = some u ∧ afterBlockComment? t' = some u' ∧ Loose u u') ?_ h
  intro t t' ih place
  cases place with
  | blank all all' => exact .inl ⟨afterBlockCommentBlank all, afterBlockCommentBlank all'⟩
  | left inLine rest =>
      rw [passes inLine.1]
      exact ih _ _ (by simp) rest
  | right inLine rest =>
      rw [passes inLine.1]
      exact ih _ _ (by simp) rest
  | lineBreak rest =>
      rw [passes (by decide), passes (by decide)]
      exact ih _ _ (by simp; omega) rest
  | @solid c w w' solid tight rest =>
      have next := ih w w' (by simp; omega) rest
      rw [afterBlockCommentCons, afterBlockCommentCons]
      by_cases star : c = '*'
      · subst star
        obtain ⟨x, same, behind⟩ := tight.inside (by decide)
        obtain ⟨_, rfl⟩ := List.cons.inj same
        have slash := behind.headIff (c := '/') (by decide)
        by_cases closes : w.head? = some '/'
        · rw [if_pos ⟨rfl, closes⟩, if_pos ⟨rfl, slash.mp closes⟩]
          obtain ⟨y, rfl⟩ := List.head?_eq_some_iff.mp closes
          obtain ⟨y', rfl, last⟩ := behind.inside (by decide)
          exact .inr ⟨y, y', rfl, rfl, last.loose⟩
        · rw [if_neg (fun both => closes both.2), if_neg (fun both => closes (slash.mpr both.2))]
          exact next
      · rw [if_neg (fun both => star both.1), if_neg (fun both => star both.1)]
        exact next

theorem solidNe (solid : isBlank c = false) (blank : isBlank d = true) : c ≠ d := by
  rintro rfl
  rw [solid] at blank
  contradiction

theorem lineCommentEndLoose (h : Loose t t') : ∀ u u', lineCommentEnd? t = some u → lineCommentEnd? t' = some u' →
    Loose u u' := by
  have passes {c : Char} {t u v : List Char} (inLine : InLine c) (found : lineCommentEnd? (c :: t) = some u)
      (next : ∀ {w}, lineCommentEnd? t = some w → Loose w v) : Loose u v := by
    by_cases notReturn : c = '\r'
    · subst notReturn
      obtain ⟨rfl, rest, rfl⟩ := lineCommentEndReturn found
      exact (next rfl).consLeft inLine
    · rw [lineCommentEndCons inLine.2 notReturn] at found
      exact next found
  refine looseInduction (motive := fun t t' => ∀ u u', lineCommentEnd? t = some u → lineCommentEnd? t' = some u' →
    Loose u u') ?_ h
  intro t t' ih place u u' found found'
  cases place with
  | blank all all' =>
      exact (Respaced.blank (allBlankTail all (lineCommentEndTail found))
        (allBlankTail all' (lineCommentEndTail found'))).loose
  | left inLine rest => exact passes inLine found fun found => ih _ _ (by simp) rest _ _ found found'
  | right inLine rest => exact (passes inLine found' fun found' => (ih _ _ (by simp) rest _ _ found found').symm).symm
  | lineBreak rest =>
      cases found
      cases found'
      exact rest.consBreak
  | solid solid _ rest =>
      rw [lineCommentEndCons (solidNe solid (by decide)) (solidNe solid (by decide))] at found found'
      exact ih _ _ (by simp; omega) rest _ _ found found'

theorem Respaced.consLeft (inLine : InLine c) (h : Respaced ('\n' :: t) t') : Respaced (c :: '\n' :: t) t' := by
  generalize whole : '\n' :: t = s at h
  cases h with
  | blank all all' =>
      exact .blank (allBlankCons.mpr ⟨inLine.1, all⟩) all'
  | same notBreak => exact absurd (List.cons.inj whole).1.symm notBreak
  | @lineBreak a _ _ _ _ _ before before' behind behind' rest =>
      rw [← List.cons_append]
      exact .lineBreak (withinCons.mpr ⟨inLine, before⟩) before' behind behind' rest
  | @equals a _ _ _ _ _ before =>
      cases a with
      | nil => exact absurd (List.cons.inj whole).1 (by decide)
      | cons d a => exact absurd (List.cons.inj whole).1.symm (withinCons.mp before).1.2

/-- What skipping trivia makes of two texts: respaced ones, or one that is stuck. -/
def Ready (e : Extent) (t t' : List Char) : Prop := Respaced t t' ∨ Stuck e t ∨ Stuck e t'

theorem Ready.symm (h : Ready e t t') : Ready e t' t := by
  rcases h with tight | stuck | stuck
  · exact .inl tight.symm
  · exact .inr (.inr stuck)
  · exact .inr (.inl stuck)

theorem skipInLine (inLine : InLine c) : skipTrivia e (c :: t) = skipTrivia e t ∨
    (skipTrivia e (c :: t) = c :: t ∧ (Stuck e (c :: t) ∨ (e = .withinLine ∧ ∃ rest, t = '\n' :: rest))) := by
  by_cases space : c = ' '
  · subst space
    exact .inl (skipStep (by cases e <;> rfl))
  by_cases tab : c = '\t'
  · subst tab
    exact .inl (skipStep (by cases e <;> rfl))
  by_cases isReturn : c = '\r'
  · subst isReturn
    cases e with
    | acrossLines => exact .inl (skipStep rfl)
    | withinLine =>
        refine .inr ⟨skipStop rfl, ?_⟩
        by_cases lineEnd : t.head? = some '\n'
        · exact .inr ⟨rfl, List.head?_eq_some_iff.mp lineEnd⟩
        · exact .inl (.loneReturn lineEnd)
  have foreign : c ∉ [' ', '\t', '\r', '\n'] := by simp [space, tab, isReturn, inLine.2]
  have notSlash : c ≠ '/' := by rintro rfl; exact absurd inLine.1 (by decide)
  have notHash : c ≠ '#' := by rintro rfl; exact absurd inLine.1 (by decide)
  exact .inr ⟨skipStop (triviumOther (by simp [space, tab, isReturn, inLine.2, notSlash, notHash])),
    .inl (.foreign inLine.1 foreign)⟩

theorem skipBlank {b : List Char} (all : allBlank b = true) (t : List Char) :
    skipTrivia .acrossLines (b ++ t) = skipTrivia .acrossLines t ∨ Stuck .acrossLines (skipTrivia .acrossLines (b ++ t)) := by
  induction b with
  | nil => exact .inl rfl
  | cons c b ih =>
      obtain ⟨blank, all⟩ := allBlankCons.mp all
      by_cases lineBreak : c = '\n'
      · subst lineBreak
        rw [List.cons_append, skipStep rfl]
        exact ih all
      · rcases skipInLine (e := .acrossLines) (t := b ++ t) ⟨blank, lineBreak⟩ with same | ⟨stays, stuck | ⟨other, _⟩⟩
        · rw [List.cons_append, same]
          exact ih all
        · rw [List.cons_append, stays]
          exact .inr stuck
        · contradiction

theorem skipLeft (inLine : InLine c) (next : Ready e (skipTrivia e t) (skipTrivia e t')) :
    Ready e (skipTrivia e (c :: t)) (skipTrivia e t') := by
  rcases skipInLine (e := e) (t := t) inLine with same | ⟨stays, stuck | ⟨rfl, rest, rfl⟩⟩
  · rw [same]
    exact next
  · rw [stays]
    exact .inr (.inl stuck)
  · rw [stays]
    have atBreak : skipTrivia .withinLine ('\n' :: rest) = '\n' :: rest := skipStop rfl
    rw [atBreak] at next
    rcases next with tight | stuck | stuck
    · exact .inl (tight.consLeft inLine)
    · cases stuck with
      | foreign _ foreign => simp at foreign
    · exact .inr (.inr stuck)

theorem skipSlash (tight : Respaced ('/' :: t) ('/' :: t')) (next : ∀ u u', u.length ≤ t.length →
    u'.length ≤ t'.length → Loose u u' → Ready e (skipTrivia e u) (skipTrivia e u')) :
    Ready e (skipTrivia e ('/' :: t)) (skipTrivia e ('/' :: t')) := by
  obtain ⟨w, same, behind⟩ := tight.inside (by decide)
  obtain ⟨_, rfl⟩ := List.cons.inj same
  have star := behind.headIff (c := '*') (by decide)
  have slash := behind.headIff (c := '/') (by decide)
  by_cases block : t.head? = some '*'
  · obtain ⟨x, rfl⟩ := List.head?_eq_some_iff.mp block
    obtain ⟨x', rfl, rest⟩ := behind.inside (by decide)
    have reads (y : List Char) : trivium? e ('/' :: '*' :: y) = afterBlockComment? y := by cases e <;> rfl
    rcases afterBlockCommentLoose rest.loose with ⟨open1, open2⟩ | ⟨u, u', closed, closed', last⟩
    · rw [skipStop ((reads x).trans open1), skipStop ((reads x').trans open2)]
      exact .inl tight
    · rw [skipStep ((reads x).trans closed), skipStep ((reads x').trans closed')]
      refine next u u' ?_ ?_ last
      · exact Nat.le_succ_of_le (afterBlockCommentTail closed).length_le
      · exact Nat.le_succ_of_le (afterBlockCommentTail closed').length_le
  · have noBlock := triviumSlash (e := e) block
    have noBlock' := triviumSlash (e := e) (fun head => block (star.mpr head))
    by_cases line : e = .acrossLines ∧ t.head? = some '/'
    · obtain ⟨rfl, head⟩ := line
      obtain ⟨x, rfl⟩ := List.head?_eq_some_iff.mp head
      obtain ⟨x', rfl, rest⟩ := behind.inside (by decide)
      rw [if_pos ⟨rfl, rfl⟩] at noBlock noBlock'
      cases found : lineCommentEnd? x with
      | none =>
          rw [skipStop (noBlock.trans found)]
          exact .inr (.inl (.slashes found))
      | some u =>
          cases found' : lineCommentEnd? x' with
          | none =>
              rw [skipStop (noBlock'.trans found')]
              exact .inr (.inr (.slashes found'))
          | some u' =>
              rw [skipStep (noBlock.trans found), skipStep (noBlock'.trans found')]
              refine next u u' ?_ ?_ (lineCommentEndLoose rest.loose _ _ found found')
              · exact Nat.le_succ_of_le (lineCommentEndTail found).length_le
              · exact Nat.le_succ_of_le (lineCommentEndTail found').length_le
    · rw [if_neg line] at noBlock
      rw [if_neg (fun both => line ⟨both.1, slash.mpr both.2⟩)] at noBlock'
      rw [skipStop noBlock, skipStop noBlock']
      exact .inl tight

theorem skipHash (tight : Respaced ('#' :: t) ('#' :: t')) (next : ∀ u u', u.length ≤ t.length →
    u'.length ≤ t'.length → Loose u u' → Ready e (skipTrivia e u) (skipTrivia e u')) :
    Ready e (skipTrivia e ('#' :: t)) (skipTrivia e ('#' :: t')) := by
  obtain ⟨w, same, rest⟩ := tight.inside (by decide)
  obtain ⟨_, rfl⟩ := List.cons.inj same
  cases e with
  | withinLine =>
      rw [skipStop rfl, skipStop rfl]
      exact .inl tight
  | acrossLines =>
      have reads (y : List Char) : trivium? .acrossLines ('#' :: y) = lineCommentEnd? y := rfl
      cases found : lineCommentEnd? t with
      | none =>
          rw [skipStop ((reads t).trans found)]
          exact .inr (.inl (.hash found))
      | some u =>
          cases found' : lineCommentEnd? t' with
          | none =>
              rw [skipStop ((reads t').trans found')]
              exact .inr (.inr (.hash found'))
          | some u' =>
              rw [skipStep ((reads t).trans found), skipStep ((reads t').trans found')]
              exact next u u' (lineCommentEndTail found).length_le (lineCommentEndTail found').length_le
                (lineCommentEndLoose rest.loose _ _ found found')

/-- Trivia are skipped alike in respaced texts, as long as neither is stuck behind them. -/
theorem skipReady (h : Loose t t') : Ready e (skipTrivia e t) (skipTrivia e t') := by
  refine looseInduction (motive := fun t t' => Ready e (skipTrivia e t) (skipTrivia e t')) ?_ h
  intro t t' ih place
  cases place with
  | blank all all' =>
      exact .inl (.blank (allBlankTail all (skipStopped e t).2) (allBlankTail all' (skipStopped e t').2))
  | left inLine rest => exact skipLeft inLine (ih _ _ (by simp) rest)
  | right inLine rest => exact (skipLeft inLine (ih _ _ (by simp) rest).symm).symm
  | lineBreak rest =>
      cases e with
      | acrossLines =>
          have reads (y : List Char) : trivium? .acrossLines ('\n' :: y) = some y := rfl
          rw [skipStep (reads _), skipStep (reads _)]
          exact ih _ _ (by simp; omega) rest
      | withinLine =>
          rw [skipStop rfl, skipStop rfl]
          exact .inl rest.lineBreak
  | @solid c w w' solid tight rest =>
      have next (u u' : List Char) (less : u.length ≤ w.length) (less' : u'.length ≤ w'.length) (loose : Loose u u') :
          Ready e (skipTrivia e u) (skipTrivia e u') := ih u u' (by simp; omega) loose
      by_cases slash : c = '/'
      · subst slash
        exact skipSlash tight next
      by_cases hash : c = '#'
      · subst hash
        exact skipHash tight next
      have other : c ∉ [' ', '\t', '\r', '\n', '/', '#'] := by
        intro member
        simp only [List.mem_cons, List.not_mem_nil, or_false] at member
        rcases member with rfl | rfl | rfl | rfl | same | same
        · contradiction
        · contradiction
        · contradiction
        · contradiction
        · exact slash same
        · exact hash same
      rw [skipStop (triviumOther other), skipStop (triviumOther other)]
      exact .inl tight

end DeclOrder.Hcl
