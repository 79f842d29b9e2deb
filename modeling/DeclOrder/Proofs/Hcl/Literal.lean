import DeclOrder.Proofs.Hcl.Tail

/-! Literal text in respaced texts. The runs of literal text that two of them start with are left at the
same place, unless one has an end marker that the other has not. Then the other run holds more than white
space besides. -/
namespace DeclOrder.Hcl
open Text Reader Read

def solids (text : List Char) : List Char := text.filter fun c => !isBlank c

def atMarker : Setting → List Char → Bool
  | .heredoc marker, text => (afterMarker? marker text).isSome
  | _, _ => false

def Named : Setting → Prop
  | .heredoc marker => ∃ c rest, marker = c :: rest ∧ startsIdentifier c = true ∧ AllInside rest
  | _ => True

variable {setting : Setting} {c m : Char} {b t t' u u' : List Char} {vs vs' : List (List Char)}

theorem solidsAppend {s s' : List Char} : solids (s ++ s') = solids s ++ solids s' := List.filter_append s s'

theorem solidsBlank {s : List Char} (blank : isBlank c = true) : solids (c :: s) = solids s := by
  simp [solids, blank]

theorem solidsCons {s : List Char} (solid : isBlank c = false) : solids (c :: s) = c :: solids s := by
  simp [solids, solid]

theorem gapsWithin (t : List Char) : Within (t.takeWhile isGap) := by
  intro c member
  have gap := List.all_eq_true.mp List.all_takeWhile c member
  simp only [isGap, Bool.or_eq_true, beq_iff_eq] at gap
  rcases gap with rfl | rfl <;> exact ⟨by decide, by decide⟩

theorem atMarkerSome (named : Named setting) (here : atMarker setting t = true) : ∃ b m w, Within b ∧
    startsIdentifier m = true ∧ (t = '\n' :: (b ++ m :: w) ∨ t = '\r' :: '\n' :: (b ++ m :: w)) := by
  cases setting with
  | quotes => contradiction
  | directive => contradiction
  | heredoc marker =>
      obtain ⟨x, found⟩ := Option.isSome_iff_exists.mp here
      obtain ⟨line, ends, behind⟩ := afterMarkerSome.mp found
      obtain ⟨m, rest, rfl, start, _⟩ := named
      have whole : line = line.takeWhile isGap ++ m :: (rest ++ x) := by
        rw [← List.cons_append, ← behind, List.takeWhile_append_dropWhile]
      refine ⟨_, m, rest ++ x, gapsWithin line, start, ?_⟩
      rw [← whole]
      exact lineBreakSome.mp ends

theorem noMarker (setting : Setting) (t : List Char) (notBreak : c ≠ '\n') (notReturn : c = '\r' → t.head? ≠ some '\n') :
    atMarker setting (c :: t) = false := by
  cases setting with
  | quotes => rfl
  | directive => rfl
  | heredoc marker =>
      rw [atMarker, Bool.eq_false_iff]
      intro here
      obtain ⟨x, found⟩ := Option.isSome_iff_exists.mp here
      obtain ⟨line, ends, _⟩ := afterMarkerSome.mp found
      rcases lineBreakSome.mp ends with same | same
      · exact notBreak (List.cons.inj same).1
      · obtain ⟨rfl, rfl⟩ := List.cons.inj same
        exact notReturn rfl rfl

theorem literalBlank (setting : Setting) (t : List Char) (blank : isBlank c = true) :
    literal? setting (c :: t) = if atMarker setting (c :: t) then none else some ([c], t) := by
  have plain : ¬ StartsMark c t := by
    rintro ⟨rfl | rfl, _⟩ <;> contradiction
  rw [literalPlain plain]
  cases setting with
  | directive => rfl
  | heredoc marker => rfl
  | quotes =>
      have notQuote : c ≠ '"' := by rintro rfl; contradiction
      have notSlash : c ≠ '\\' := by rintro rfl; contradiction
      rw [if_neg notQuote, if_neg notSlash]
      rfl

theorem runBlank (named : Named setting) (all : allBlank t = true) (run : Run (literal? setting) t vs u) : u = [] := by
  induction t generalizing vs with
  | nil =>
      cases run with
      | stop => rfl
      | step reads => contradiction
  | cons c rest ih =>
      obtain ⟨blank, all'⟩ := allBlankCons.mp all
      have reads := literalBlank setting rest blank
      have away : atMarker setting (c :: rest) = false := by
        rw [Bool.eq_false_iff]
        intro here
        obtain ⟨b, m, w, _, start, whole⟩ := atMarkerSome named here
        have member : m ∈ c :: rest := by rcases whole with whole | whole <;> simp [whole]
        have blank := List.all_eq_true.mp all m member
        rw [(continuesInside (startsContinues start)).1] at blank
        contradiction
      rw [away] at reads
      cases run with
      | stop fails =>
          rw [fails] at reads
          contradiction
      | step taken more =>
          rw [taken] at reads
          cases reads
          exact ih all' more

theorem literalLetter (start : startsIdentifier m = true) : literal? setting (m :: t) = some ([m], t) := by
  have inside := continuesInside (startsContinues start)
  have other {d : Char} (no : startsIdentifier d = false) : m ≠ d := by
    rintro rfl
    rw [start] at no
    contradiction
  have plain : ¬ StartsMark m t := by
    rintro ⟨rfl | rfl, _⟩
    · exact other (by decide) rfl
    · exact other (by decide) rfl
  rw [literalPlain plain]
  cases setting with
  | directive => rfl
  | quotes => rw [if_neg (other (by decide)), if_neg (other (by decide))]
  | heredoc marker =>
      have away := noMarker (.heredoc marker) t (solidNe inside.1 (by decide))
        fun same => absurd same (solidNe inside.1 (by decide))
      rw [atMarker] at away
      simp only [away, Bool.false_eq_true, if_false]

theorem runSolid (within : Within b) (start : startsIdentifier m = true)
    (run : Run (literal? setting) (b ++ m :: t) vs u) : solids vs.flatten ≠ [] := by
  induction b generalizing vs with
  | nil =>
      rw [List.nil_append] at run
      cases run with
      | stop fails =>
          rw [literalLetter start] at fails
          contradiction
      | step taken more =>
          rw [literalLetter start] at taken
          cases taken
          simp [solidsCons (continuesInside (startsContinues start)).1]
  | cons c rest ih =>
      obtain ⟨inLine, within⟩ := withinCons.mp within
      have away : atMarker setting (c :: (rest ++ m :: t)) = false := by
        refine noMarker _ _ inLine.2 fun _ head => ?_
        cases rest with
        | nil =>
            rw [Option.some.inj head] at start
            revert start
            decide
        | cons d rest =>
            rw [Option.some.inj head] at within
            exact (withinCons.mp within).1.2 rfl
      have reads := literalBlank setting (rest ++ m :: t) inLine.1
      rw [away] at reads
      cases run with
      | stop fails =>
          rw [List.cons_append, reads] at fails
          contradiction
      | step taken more =>
          rw [List.cons_append, reads] at taken
          cases taken
          rw [List.flatten_cons, List.singleton_append, solidsBlank inLine.1]
          exact ih within more

/-- Where one text has its end marker, the other has it too, or its run goes on with more than white space. -/
theorem runToMarker (named : Named setting) (h : Loose t t') (here : atMarker setting t = true)
    (run : Run (literal? setting) t' vs u) : Loose t u ∨ solids vs.flatten ≠ [] := by
  obtain ⟨g, m, x, gaps, start, whole⟩ := atMarkerSome named here
  have inside := continuesInside (startsContinues start)
  have atBreak : Loose ('\n' :: (g ++ m :: x)) t' := by
    rcases whole with rfl | rfl
    · exact h
    · exact h.tailLeft ⟨by decide, by decide⟩
  rcases looseBreak atBreak with ⟨b, w, within, rfl, loose⟩ | ⟨all, _⟩
  · obtain ⟨b', y, within', rfl, _, _⟩ := looseSolid inside.1 (loose.dropLeft gaps)
    clear atBreak loose
    induction b generalizing vs with
    | nil =>
        cases run with
        | stop => exact .inl h
        | step taken more =>
            have reads := literalBlank setting (b' ++ m :: y) (c := '\n') (by decide)
            rw [List.nil_append, reads] at taken
            split at taken
            · contradiction
            · cases taken
              rw [List.flatten_cons, List.singleton_append, solidsBlank (by decide)]
              exact .inr (runSolid within' start more)
    | cons d b ih =>
        obtain ⟨inLine, within⟩ := withinCons.mp within
        cases run with
        | stop => exact .inl h
        | step taken more =>
            have reads := literalBlank setting (b ++ '\n' :: (b' ++ m :: y)) inLine.1
            rw [List.cons_append, reads] at taken
            split at taken
            · contradiction
            · cases taken
              rw [List.flatten_cons, List.singleton_append, solidsBlank inLine.1]
              exact ih within (h.tailRight inLine) more
  · have blank := List.all_eq_true.mp all m (by simp)
    rw [inside.1] at blank
    contradiction

theorem solidMarker (solid : isBlank c = false) (marker : List Char) : afterMarker? marker (c :: t) = none := by
  have away := noMarker (.heredoc marker) t (solidNe solid (by decide))
    fun same => absurd same (solidNe solid (by decide))
  exact Option.not_isSome_iff_eq_none.mp (Bool.eq_false_iff.mp away)

theorem startsMarkCarry (inside : Inside c) (h : Respaced t t') (starts : StartsMark c t) : StartsMark c t' := by
  obtain ⟨mark, x, rfl | rfl⟩ := starts
  · obtain ⟨x', rfl, _⟩ := h.inside (by decide)
    exact ⟨mark, x', .inl rfl⟩
  · obtain ⟨y, rfl, second⟩ := h.inside inside
    obtain ⟨x', rfl, _⟩ := second.inside (by decide)
    exact ⟨mark, x', .inr rfl⟩

theorem literalSolid (setting : Setting) (solid : isBlank c = false) (tight : Respaced (c :: t) (c :: t')) :
    (literal? setting (c :: t) = none ∧ literal? setting (c :: t') = none) ∨ ∃ v u u',
      literal? setting (c :: t) = some (v, u) ∧ literal? setting (c :: t') = some (v, u') ∧ u.length ≤ t.length ∧
        u'.length ≤ t'.length ∧ Loose u u' := by
  have alone : ∃ v u u', some ([c], t) = some (v, u) ∧ some ([c], t') = some (v, u') ∧ u.length ≤ t.length ∧
      u'.length ≤ t'.length ∧ Loose u u' := ⟨[c], t, t', rfl, rfl, Nat.le_refl _, Nat.le_refl _, tight.tailLoose solid⟩
  by_cases mark : c = '$' ∨ c = '%'
  · have inside : Inside c := by rcases mark with rfl | rfl <;> decide
    obtain ⟨w, same, rest⟩ := tight.inside inside
    obtain ⟨_, rfl⟩ := List.cons.inj same
    by_cases opens : StartsMark c t
    · obtain ⟨_, x, rfl | rfl⟩ := opens
      · obtain ⟨x', rfl, _⟩ := rest.inside (by decide)
        exact .inl ⟨literalMark mark x, literalMark mark x'⟩
      · obtain ⟨y, rfl, second⟩ := rest.inside inside
        obtain ⟨x', rfl, last⟩ := second.inside (by decide)
        refine .inr ⟨_, _, _, literalDoubled mark x, literalDoubled mark x', ?_, ?_, last.loose⟩ <;>
          simp only [List.length_cons] <;> omega
    · rw [literalPlain opens, literalPlain fun opens' => opens (startsMarkCarry inside rest.symm opens')]
      have notQuote : c ≠ '"' := by rcases mark with rfl | rfl <;> decide
      have notSlash : c ≠ '\\' := by rcases mark with rfl | rfl <;> decide
      cases setting with
      | directive => exact .inr alone
      | heredoc marker => simpa [solidMarker solid] using alone
      | quotes => simpa [notQuote, notSlash] using alone
  · rw [literalPlain fun opens => mark opens.1, literalPlain fun opens => mark opens.1]
    cases setting with
    | directive => exact .inr alone
    | heredoc marker => simpa [solidMarker solid] using alone
    | quotes =>
        dsimp only
        by_cases quote : c = '"'
        · rw [if_pos quote, if_pos quote]
          exact .inl ⟨rfl, rfl⟩
        · rw [if_neg quote, if_neg quote]
          by_cases slash : c = '\\'
          · subst slash
            rw [if_pos rfl, if_pos rfl]
            obtain ⟨w, same, rest⟩ := tight.inside (by decide)
            obtain ⟨_, rfl⟩ := List.cons.inj same
            rcases firmEscape rest with ⟨fails, fails'⟩ | ⟨v, u, u', reads, reads', rest⟩
            · rw [fails, fails']
              exact .inl ⟨rfl, rfl⟩
            · rw [reads, reads']
              exact .inr ⟨[v], u, u', rfl, rfl, (tailEscape reads).length_le, (tailEscape reads').length_le, rest.loose⟩
          · rw [if_neg slash, if_neg slash]
            exact .inr alone

def Stopped (u u' : List Char) (vs vs' : List (List Char)) : Prop :=
  Loose u u' ∨ u = [] ∨ u' = [] ∨ solids vs.flatten ≠ solids vs'.flatten

theorem Stopped.symm (h : Stopped u u' vs vs') : Stopped u' u vs' vs := by
  rcases h with loose | none | none | other
  · exact .inl loose.symm
  · exact .inr (.inr (.inl none))
  · exact .inr (.inl none)
  · exact .inr (.inr (.inr other.symm))

theorem Stopped.piece {v : List Char} (h : Stopped u u' vs vs') : Stopped u u' (v :: vs) (v :: vs') := by
  rcases h with loose | none | none | other
  · exact .inl loose
  · exact .inr (.inl none)
  · exact .inr (.inr (.inl none))
  · refine .inr (.inr (.inr ?_))
    rw [List.flatten_cons, List.flatten_cons, solidsAppend, solidsAppend]
    exact fun same => other (List.append_cancel_left same)

theorem Stopped.blankLeft (blank : isBlank c = true) (h : Stopped u u' vs vs') : Stopped u u' ([c] :: vs) vs' := by
  unfold Stopped
  rw [List.flatten_cons, List.singleton_append, solidsBlank blank]
  exact h

theorem runBlankCons (blank : isBlank c = true) (run : Run (literal? setting) (c :: t) vs u) :
    (atMarker setting (c :: t) = true ∧ vs = [] ∧ u = c :: t) ∨
      ∃ ws, vs = [c] :: ws ∧ Run (literal? setting) t ws u := by
  have reads := literalBlank setting t blank
  cases run with
  | stop fails =>
      rw [reads] at fails
      split at fails
      · rename_i here
        exact .inl ⟨here, rfl, rfl⟩
      · contradiction
  | step taken more =>
      rw [reads] at taken
      split at taken
      · contradiction
      · cases taken
        exact .inr ⟨_, rfl, more⟩

theorem Stopped.atMarker (named : Named setting) (h : Loose t t') (here : Hcl.atMarker setting t = true)
    (run : Run (literal? setting) t' vs' u') : Stopped t u' [] vs' := by
  rcases runToMarker named h here run with loose | more
  · exact .inl loose
  · exact .inr (.inr (.inr more.symm))

theorem runsStopped (named : Named setting) (h : Loose t t') (run : Run (literal? setting) t vs u)
    (run' : Run (literal? setting) t' vs' u') : Stopped u u' vs vs' := by
  revert vs vs' u u'
  refine looseInduction (motive := fun t t' => ∀ {u u' vs vs'}, Run (literal? setting) t vs u →
    Run (literal? setting) t' vs' u' → Stopped u u' vs vs') ?_ h
  intro t t' ih place u u' vs vs' run run'
  cases place with
  | blank all => exact .inr (.inl (runBlank named all run))
  | left inLine rest =>
      rcases runBlankCons inLine.1 run with ⟨here, rfl, rfl⟩ | ⟨ws, rfl, more⟩
      · exact .atMarker named (rest.consLeft inLine) here run'
      · exact (ih _ _ (by simp) rest more run').blankLeft inLine.1
  | right inLine rest =>
      rcases runBlankCons inLine.1 run' with ⟨here, rfl, rfl⟩ | ⟨ws, rfl, more⟩
      · exact (Stopped.atMarker named (rest.consRight inLine).symm here run).symm
      · exact ((ih _ _ (by simp) rest run more).symm.blankLeft inLine.1).symm
  | lineBreak rest =>
      rcases runBlankCons (by decide) run with ⟨here, rfl, rfl⟩ | ⟨ws, rfl, more⟩
      · exact .atMarker named rest.consBreak here run'
      · rcases runBlankCons (by decide) run' with ⟨here, rfl, rfl⟩ | ⟨ws', rfl, more'⟩
        · exact (Stopped.atMarker named rest.consBreak.symm here run).symm
        · exact (ih _ _ (by simp; omega) rest more more').piece
  | @solid c w w' solid tight rest =>
      rcases literalSolid setting solid tight with ⟨fails, fails'⟩ | ⟨v, x, x', reads, reads', less, less', loose⟩
      · cases run with
        | step taken => rw [fails] at taken; contradiction
        | stop =>
            cases run' with
            | step taken => rw [fails'] at taken; contradiction
            | stop => exact .inl tight.loose
      · cases run with
        | stop fails => rw [reads] at fails; contradiction
        | step taken more =>
            cases run' with
            | stop fails => rw [reads'] at fails; contradiction
            | step taken' more' =>
                rw [reads] at taken
                rw [reads'] at taken'
                cases taken
                cases taken'
                exact (ih _ _ (by simp; omega) loose more more').piece

end DeclOrder.Hcl
