import DeclOrder.Proofs.Hcl.Cut.Reading

/-! White space and comments in front of a brace. A comment that is open there is either closed behind the
brace or stays where it is, and then no token can follow. -/
namespace DeclOrder.Hcl
open Text Reader Read

/-- Stands at a comment that does not end. -/
inductive Stalled : Extent → List Char → Prop where
  | block {e : Extent} {t : List Char} (unclosed : afterBlockComment? t = none) : Stalled e ('/' :: '*' :: t)
  | hash {t : List Char} (broken : lineCommentEnd? t = none) : Stalled .acrossLines ('#' :: t)
  | slashes {t : List Char} (broken : lineCommentEnd? t = none) : Stalled .acrossLines ('/' :: '/' :: t)

/-- Stands at such a comment, or at an accessor that could not be read. -/
inductive Halted : Extent → List Char → Prop where
  | stalled {e : Extent} {t : List Char} (stalled : Stalled e t) : Halted e t
  | bracket {e : Extent} {t : List Char} : Halted e ('[' :: t)
  | dot {e : Extent} {t : List Char} (alone : t.head? ≠ some '.') : Halted e ('.' :: t)

/-- Once trivia are skipped, the brace is passed or no token that follows an expression comes next. -/
def Caught (s : List Char) (e : Extent) (t : List Char) : Prop := Past s (skipTrivia e t) ∨ Halted e (skipTrivia e t)

section
variable {s s' : List Char} {n : Nat} {e : Extent} {c : Char} {x y t u : List Char}

theorem stalledStays (stalled : Stalled e t) : trivium? e t = none := by
  cases stalled with
  | block unclosed =>
      cases e with
      | withinLine => exact unclosed
      | acrossLines => exact unclosed
  | hash broken => exact broken
  | slashes broken => exact broken

theorem haltedStays (halted : Halted e t) : skipTrivia e t = t := by
  cases halted with
  | stalled stalled => exact skipStop (stalledStays stalled)
  | bracket => exact skipStop (triviumOther (by decide))
  | dot => exact skipStop (triviumOther (by decide))

theorem haltedCaught {s : List Char} (halted : Halted e t) : Caught s e t := by
  rw [Caught, haltedStays halted]
  exact .inr halted

theorem stalledHead (other : c ∉ ['#', '/']) : ¬ Stalled e (c :: t) := by
  intro stalled
  cases stalled with
  | block => simp at other
  | hash => simp at other
  | slashes => simp at other

theorem haltedHead (other : c ∉ ['#', '/', '[', '.']) : ¬ Halted e (c :: t) := by
  intro halted
  simp only [List.mem_cons, List.not_mem_nil, or_false, not_or] at other
  cases halted with
  | stalled stalled => exact stalledHead (by simp [other.1, other.2.1]) stalled
  | bracket => exact other.2.2.1 rfl
  | dot => exact other.2.2.2 rfl

theorem haltedNil : ¬ Halted e [] := by
  intro halted
  cases halted with
  | stalled stalled => cases stalled

def EndCut (s s' : List Char) (ends : List Char → Option (List Char)) (x : List Char) : Prop :=
  (∃ y, y.length ≤ x.length ∧ ends (x ++ '}' :: s) = some (y ++ '}' :: s) ∧ ends (x ++ '}' :: s') = some (y ++ '}' :: s')) ∨
    (∃ u, ends (x ++ '}' :: s) = some u ∧ Past s u) ∨ ends (x ++ '}' :: s) = none

theorem blockCut (s s' x : List Char) : EndCut s s' afterBlockComment? x := by
  unfold EndCut
  induction x with
  | nil =>
      have passes : afterBlockComment? ('}' :: s) = afterBlockComment? s := by
        rw [afterBlockCommentCons, if_neg (by simp)]
      rw [List.nil_append, passes]
      cases found : afterBlockComment? s with
      | none => exact .inr (.inr rfl)
      | some u => exact .inr (.inl ⟨u, rfl, (afterBlockCommentTail found).length_le⟩)
  | cons c rest ih =>
      rw [List.cons_append, List.cons_append, afterBlockCommentCons, afterBlockCommentCons]
      cases rest with
      | nil =>
          rw [if_neg (by simp), if_neg (by simp)]
          exact ih.imp_left fun ⟨y, less, same⟩ => ⟨y, Nat.le_succ_of_le less, same⟩
      | cons d rest =>
          by_cases closes : c = '*' ∧ d = '/'
          · refine .inl ⟨rest, ?_, ?_, ?_⟩
            · simp only [List.length_cons]
              omega
            · rw [if_pos (by simpa using closes)]
              rfl
            · rw [if_pos (by simpa using closes)]
              rfl
          · rw [if_neg (by simpa using closes), if_neg (by simpa using closes)]
            exact ih.imp_left fun ⟨y, less, same⟩ => ⟨y, Nat.le_succ_of_le less, same⟩

theorem lineCut (s s' x : List Char) : EndCut s s' lineCommentEnd? x := by
  unfold EndCut
  induction x with
  | nil =>
      rw [List.nil_append, lineCommentEndCons (by decide) (by decide)]
      cases found : lineCommentEnd? s with
      | none => exact .inr (.inr rfl)
      | some u => exact .inr (.inl ⟨u, rfl, (lineCommentEndTail found).length_le⟩)
  | cons c rest ih =>
      rw [List.cons_append, List.cons_append]
      by_cases atBreak : c = '\n'
      · subst atBreak
        exact .inl ⟨'\n' :: rest, Nat.le_refl _, rfl, rfl⟩
      · by_cases atReturn : c = '\r'
        · subst atReturn
          cases found : lineCommentEnd? ('\r' :: (rest ++ '}' :: s)) with
          | none => exact .inr (.inr rfl)
          | some u =>
              obtain ⟨rfl, z, same⟩ := lineCommentEndReturn found
              cases rest with
              | nil => exact absurd (List.cons.inj same).1 (by decide)
              | cons d rest =>
                  obtain ⟨rfl, _⟩ := List.cons.inj same
                  exact .inl ⟨'\r' :: '\n' :: rest, Nat.le_refl _, rfl, rfl⟩
        · rw [lineCommentEndCons atBreak atReturn, lineCommentEndCons atBreak atReturn]
          exact ih.imp_left fun ⟨y, less, same⟩ => ⟨y, Nat.le_succ_of_le less, same⟩

inductive Skipped (s s' : List Char) (e : Extent) (x : List Char) : Prop where
  | stops (here : trivium? e (x ++ '}' :: s) = none) (there : trivium? e (x ++ '}' :: s') = none)
  | goes {y : List Char} (less : y.length < x.length) (here : trivium? e (x ++ '}' :: s) = some (y ++ '}' :: s))
      (there : trivium? e (x ++ '}' :: s') = some (y ++ '}' :: s'))
  | passes {u : List Char} (here : trivium? e (x ++ '}' :: s) = some u) (past : Past s u)
  | stalls (here : Stalled e (x ++ '}' :: s))

theorem commentSkipped {ends : List Char → Option (List Char)} {start : List Char} (some : start ≠ [])
    (reads : ∀ t, trivium? e (start ++ t) = ends t) (open' : ∀ t, ends t = none → Stalled e (start ++ t))
    (cut : EndCut s s' ends x) : Skipped s s' e (start ++ x) := by
  have each (t : List Char) : trivium? e (start ++ x ++ '}' :: t) = ends (x ++ '}' :: t) := by
    rw [List.append_assoc]
    exact reads _
  rcases cut with ⟨y, less, here, there⟩ | ⟨u, here, past⟩ | none
  · refine .goes ?_ ((each s).trans here) ((each s').trans there)
    have begun := List.length_pos_iff.mpr some
    rw [List.length_append]
    omega
  · exact .passes ((each s).trans here) past
  · refine .stalls ?_
    rw [List.append_assoc]
    exact open' _ none

theorem slashCut (s s' : List Char) (e : Extent) (x : List Char) : Skipped s s' e ('/' :: x) := by
  cases x with
  | nil =>
      have reads (t : List Char) : trivium? e ('/' :: '}' :: t) = none := by
        rw [triviumSlash (by simp), if_neg (by simp)]
      exact .stops (reads s) (reads s')
  | cons d rest =>
      by_cases star : d = '*'
      · subst star
        have reads (t : List Char) : trivium? e (['/', '*'] ++ t) = afterBlockComment? t := by cases e <;> rfl
        exact commentSkipped (by simp) reads (fun _ => .block) (blockCut s s' rest)
      by_cases line : e = .acrossLines ∧ d = '/'
      · obtain ⟨rfl, rfl⟩ := line
        have reads (t : List Char) : trivium? .acrossLines (['/', '/'] ++ t) = lineCommentEnd? t := rfl
        exact commentSkipped (by simp) reads (fun _ => .slashes) (lineCut s s' rest)
      · have reads (t : List Char) : trivium? e ('/' :: d :: t) = none := by
          rw [triviumSlash (by simpa using star), if_neg (by simpa using line)]
        exact .stops (reads _) (reads _)

theorem triviumCut (s s' : List Char) (e : Extent) (x : List Char) : Skipped s s' e x := by
  have blank (c : Char) (rest : List Char) (skips : ∀ t, trivium? e (c :: t) = some t) : Skipped s s' e (c :: rest) :=
    .goes (Nat.lt_succ_self _) (skips _) (skips _)
  have stays (c : Char) (rest : List Char) (skips : ∀ t, trivium? e (c :: t) = none) : Skipped s s' e (c :: rest) :=
    .stops (skips _) (skips _)
  cases x with
  | nil => exact .stops (triviumOther (by decide)) (triviumOther (by decide))
  | cons c rest =>
      by_cases space : c = ' '
      · subst space
        exact blank _ _ fun _ => by cases e <;> rfl
      by_cases tab : c = '\t'
      · subst tab
        exact blank _ _ fun _ => by cases e <;> rfl
      by_cases atReturn : c = '\r'
      · subst atReturn
        cases e with
        | acrossLines => exact blank _ _ fun _ => rfl
        | withinLine => exact stays _ _ fun _ => rfl
      by_cases atBreak : c = '\n'
      · subst atBreak
        cases e with
        | acrossLines => exact blank _ _ fun _ => rfl
        | withinLine => exact stays _ _ fun _ => rfl
      by_cases hash : c = '#'
      · subst hash
        cases e with
        | withinLine => exact stays _ _ fun _ => rfl
        | acrossLines =>
            have reads (t : List Char) : trivium? .acrossLines (['#'] ++ t) = lineCommentEnd? t := rfl
            exact commentSkipped (by simp) reads (fun _ => .hash) (lineCut s s' rest)
      by_cases slash : c = '/'
      · subst slash
        exact slashCut s s' e rest
      · exact stays _ _ fun _ => triviumOther (by simp [space, tab, atReturn, atBreak, hash, slash])

theorem skipCut (s s' : List Char) (e : Extent) (x : List Char) : (∃ y, skipTrivia e (x ++ '}' :: s) = y ++ '}' :: s ∧
    skipTrivia e (x ++ '}' :: s') = y ++ '}' :: s') ∨ Past s (skipTrivia e (x ++ '}' :: s)) ∨
      Stalled e (skipTrivia e (x ++ '}' :: s)) := by
  induction size : x.length using Nat.strongRecOn generalizing x with
  | ind size ih =>
      cases triviumCut s s' e x with
      | stops here there => exact .inl ⟨x, skipStop here, skipStop there⟩
      | @goes y less here there =>
          rw [skipStep here, skipStep there]
          exact ih y.length (by omega) y rfl
      | passes here past =>
          rw [skipStep here]
          exact .inr (.inl (pastTail past (skipStopped e _).2))
      | stalls here =>
          rw [skipStop (stalledStays here)]
          exact .inr (.inr here)

end

section
variable {s s' : List Char} {n : Nat} {e : Extent} {c : Char} {α β : Type} {whole : α → Prop} {wholes : β → Prop}
  {B : List Char → Prop} {r r' : Reader α} {k k' : Unit → Reader β}

theorem repeatsTrivia (e : Extent) : Repeats s s' n (fun _ => True) (Stalled e) (trivia e) (trivia e) := by
  refine ⟨tailTrivia e, fun {x} _ {v u} read _ => ?_⟩
  obtain rfl := skipSome.mp read
  exact (skipCut s s' e x).imp_left fun ⟨y, here, there⟩ => ⟨y, here, skipSome.mpr there⟩

theorem Repeats.skip (e : Extent) (more : Repeats s s' n wholes B (k ()) (k' ()))
    (refuses : Leads (Stalled e) (k ()) fun u => Past s u ∨ B u) :
    Repeats s s' n wholes B (trivia e >>= k) (trivia e >>= k') :=
  (repeatsTrivia e).bind (fun _ => more) (fun _ _ _ _ _ _ => trivial) fun _ => refuses

theorem caughtSkip (tail : Tail (k ())) (more : Leads (Halted e) (k ()) fun u => Past s u ∨ B u) :
    Leads (Caught s e) (trivia e >>= k) fun u => Past s u ∨ B u := by
  intro t v u caught read
  obtain ⟨_, w, skips, read⟩ := bindSome.mp read
  rw [← skipSome.mp skips] at read
  rcases caught with past | halted
  · exact .inl (pastTail past (tail read))
  · exact more halted read

theorem haltedSkip (more : Leads (Halted e) (k ()) B) : Leads (Halted e) (trivia e >>= k) B := by
  intro t v u halted read
  obtain ⟨_, w, skips, read⟩ := bindSome.mp read
  rw [← skipSome.mp skips, haltedStays halted] at read
  exact more halted read

theorem stalledOnly (more : Leads (Halted e) r B) : Leads (Stalled e) r B := fun _ _ _ stalled read =>
  more (.stalled stalled) read

theorem haltedChar (other : c ∉ ['#', '/', '[', '.']) : Leads (Halted e) (char c) never :=
  refusesChar fun _ => haltedHead other

def proceeds : List Char → Bool
  | c :: _ => c ∉ ['#', '/', '[', '.']
  | [] => false

theorem haltedWord {w : List Char} (token : proceeds w = true) : Leads (Halted e) (word w) never := by
  refine refusesWord fun rest => ?_
  cases w with
  | nil => contradiction
  | cons c w => exact haltedHead (of_decide_eq_true token)

theorem haltedKeyword {w : String} (token : proceeds w.toList = true) : Leads (Halted e) (keyword w) never :=
  haltedWord token

theorem haltedDots : Leads (Halted e) (keyword "...") never := by
  refine refusesWord fun rest halted => ?_
  cases halted with
  | stalled stalled => exact stalledHead (by decide) stalled
  | dot alone => exact alone rfl

theorem Repeats.spaced (h : Repeats s s' n whole (Caught s .acrossLines) r r')
    (refuses : Leads (Stalled .acrossLines) r never) :
    Repeats s s' n whole (Halted .acrossLines) (Read.spaced r) (Read.spaced r') := by
  have behind (v : α) : Repeats s s' n whole (Halted .acrossLines) (do space; return v) (do space; return v) :=
    .skip .acrossLines (repeatsPure v) (leadsPure _ fun _ stalled => .inr (.stalled stalled))
  refine .skip .acrossLines ?_ (refusesBind refuses)
  refine h.bind behind (fun v => keepsBind fun _ => keepsPure id) fun v => ?_
  exact caughtSkip (tailPure v) (leadsPure _ fun _ => .inr)

theorem repeatsBrace : Repeats s s' n (fun _ => True) never (char '}') (char '}') := by
  refine ⟨tailChar _, fun {x} _ {v u} read _ => ?_⟩
  have whole := charSome.mp read
  cases x with
  | nil =>
      rw [← (List.cons.inj whole).2]
      exact .inr (.inl (Nat.le_refl _))
  | cons c rest =>
      obtain ⟨rfl, rfl⟩ := List.cons.inj whole
      exact .inl ⟨rest, rfl, charSome.mpr rfl⟩

theorem Repeats.marked (h : Repeats s s' n whole (Caught s .acrossLines) r r')
    (refuses : Leads (Stalled .acrossLines) r never) :
    Repeats s s' n (fun p => whole p.2) never (Read.marked r) (Read.marked r') := by
  have strip : Local stripMark := localGiven (localChar (by decide))
  have stripTail : Tail stripMark := tailGiven (tailChar _)
  refine .token strip stripTail fun before => ?_
  refine (h.spaced refuses).bind (fun v => .token strip stripTail fun after => ?_) (fun v => ?_) fun v => ?_
  · exact repeatsBrace.bind (fun _ => repeatsPure _) (fun _ _ _ _ _ _ => trivial) fun _ => leadsNever
  · exact keepsBind fun _ => keepsBind fun _ => keepsPure id
  · refine leadsBind (leadsGiven (haltedChar (by decide))) fun _ => ?_
    exact refusesBind (haltedChar (by decide))

end

end DeclOrder.Hcl
