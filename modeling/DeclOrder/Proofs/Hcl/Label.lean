import DeclOrder.Proofs.Hcl.Cut.Reading
import DeclOrder.Proofs.Hcl.Document
import Mathlib.Data.List.TakeWhile

/-! The tokens that labels are written with. A quoted label reaches to its closing quote and a word as far
as its characters go, and neither depends on what stands behind it. -/
namespace DeclOrder.Hcl
open Text Reader Read

variable {t u x : List Char} {c : Char}

inductive Token : String → List Char → Prop where
  | word {name : String} {token : List Char} (reads : identifier token = some (name, [])) : Token name token
  | quoted {text : String} {inside : List Char} (reads : quotedText ('"' :: (inside ++ ['"'])) = some (text, [])) :
      Token text ('"' :: (inside ++ ['"']))

theorem identifierToken {name : String} (read : identifier t = some (name, u)) :
    t = name.toList ++ u ∧ identifier name.toList = some (name, []) ∧ name.toList ≠ [] := by
  obtain ⟨c, w, rfl, start, rfl, rfl⟩ := identifierSome.mp read
  have whole : ∀ d ∈ w.takeWhile continuesIdentifier, continuesIdentifier d = true := List.all_eq_true.mp List.all_takeWhile
  rw [String.toList_ofList]
  refine ⟨by simp, identifierSome.mpr ⟨c, _, rfl, start, ?_, ?_⟩, List.cons_ne_nil _ _⟩
  · rw [List.takeWhile_eq_self_iff.mpr whole]
  · exact List.dropWhile_eq_nil_iff.mpr whole

theorem startsMarkQuote {u' : List Char} (starts : StartsMark c (x ++ '"' :: u')) : StartsMark c (x ++ '"' :: u) := by
  obtain ⟨mark, starts⟩ := starts
  refine ⟨mark, ?_⟩
  rcases mark with rfl | rfl
  · rcases x with _ | ⟨d, _ | ⟨e, x⟩⟩ <;> simp_all [exists_or]
  · rcases x with _ | ⟨d, _ | ⟨e, x⟩⟩ <;> simp_all [exists_or]

theorem literalQuoted {v : List Char} (read : literal? .quotes t = some (v, x ++ '"' :: u)) :
    ∃ front, t = front ++ (x ++ '"' :: u) ∧ ∀ u', literal? .quotes (front ++ (x ++ '"' :: u')) = some (v, x ++ '"' :: u') := by
  cases t with
  | nil => contradiction
  | cons c rest =>
      by_cases mark : StartsMark c rest
      · obtain ⟨isMark, w, rfl | rfl⟩ := mark
        · rw [literalMark isMark] at read
          contradiction
        · rw [literalDoubled isMark] at read
          cases read
          exact ⟨[c, c, '{'], rfl, fun u' => literalDoubled isMark _⟩
      · rw [literalPlain mark] at read
        dsimp only at read
        split at read
        · contradiction
        · rename_i noQuote
          split at read
          · rename_i escape
            obtain ⟨⟨d, w⟩, escaped, same⟩ := Option.map_eq_some_iff.mp read
            cases same
            obtain ⟨front, _, rfl, again⟩ := escapeTaken escaped
            refine ⟨c :: front, rfl, fun u' => ?_⟩
            have plain : ¬ StartsMark c (front ++ (x ++ '"' :: u')) := by
              rw [escape]
              rintro ⟨same | same, _⟩ <;> exact absurd same (by decide)
            rw [List.cons_append, literalPlain plain]
            dsimp only
            rw [if_neg noQuote, if_pos escape, again (x ++ '"' :: u')]
            rfl
          · rename_i noEscape
            cases read
            refine ⟨[c], rfl, fun u' => ?_⟩
            have plain : ¬ StartsMark c (x ++ '"' :: u') := fun starts => mark (startsMarkQuote starts)
            rw [List.singleton_append, literalPlain plain]
            dsimp only
            rw [if_neg noQuote, if_neg noEscape]

theorem runQuoted {vs : List (List Char)} {rest : List Char} (run : Run (literal? .quotes) t vs rest) (stop : rest = '"' :: u) :
    ∃ inside, t = inside ++ '"' :: u ∧ ∀ u', Run (literal? .quotes) (inside ++ '"' :: u') vs ('"' :: u') := by
  -- From the closing quote backwards: what a step leaves ends with that quote.
  induction run with
  | stop => exact ⟨[], stop, fun u' => .stop rfl⟩
  | step reads _ ih =>
      obtain ⟨x, rfl, again⟩ := ih stop
      obtain ⟨front, rfl, reads'⟩ := literalQuoted reads
      refine ⟨front ++ x, by simp, fun u' => ?_⟩
      rw [List.append_assoc]
      exact .step (reads' u') (again u')

theorem quotedToken {text : String} (read : quotedText t = some (text, u)) :
    ∃ inside, t = '"' :: (inside ++ ['"']) ++ u ∧ quotedText ('"' :: (inside ++ ['"'])) = some (text, []) := by
  obtain ⟨_, w, opens, read⟩ := bindSome.mp read
  obtain ⟨found, y, literal, read⟩ := bindSome.mp read
  obtain ⟨_, z, closes, last⟩ := bindSome.mp read
  obtain ⟨rfl, rfl⟩ := pureSome.mp last
  obtain rfl := charSome.mp opens
  obtain rfl := charSome.mp closes
  obtain ⟨vs, run, rfl⟩ := literalReads literal
  obtain ⟨inside, rfl, again⟩ := runQuoted run rfl
  have short : Short (literal? .quotes) := shortLiteral .quotes
  have pieces : many (literal? .quotes) (inside ++ ['"']) = some (vs, ['"']) :=
    manyOfRun (again []) (Nat.le_trans (Nat.le_add_right _ _) (runLength short (again [])))
  have text : Read.literal .quotes (inside ++ ['"']) = some (String.ofList vs.flatten, ['"']) :=
    bindSome.mpr ⟨vs, ['"'], pieces, rfl⟩
  refine ⟨inside, by simp, bindSome.mpr ⟨(), _, charSome.mpr rfl, bindSome.mpr ⟨_, _, text, ?_⟩⟩⟩
  exact bindSome.mpr ⟨(), [], charSome.mpr rfl, rfl⟩

theorem labelToken {l : Label} (read : label t = some (l, u)) : ∃ token, t = token ++ u ∧ Token l.text token := by
  rcases labelReads read with ⟨_, text, _, reads, rfl⟩ | ⟨_, _, name, _, _, reads, rfl⟩
  · obtain ⟨inside, whole, again⟩ := quotedToken reads
    exact ⟨_, whole, .quoted again⟩
  · obtain ⟨whole, again, _⟩ := identifierToken reads
    exact ⟨_, whole, .word again⟩

theorem placedLabelReads {p : Label × List Char} (read : placedLabel t = some (p, u)) :
    p.2 = u ∧ label (skipTrivia .withinLine t) = some (p.1, u) := by
  obtain ⟨_, w, skips, read⟩ := bindSome.mp read
  obtain ⟨l, x, reads, read⟩ := bindSome.mp read
  obtain ⟨_, _, here, last⟩ := bindSome.mp read
  obtain ⟨rfl, rfl⟩ := leftSome.mp here
  obtain ⟨rfl, rfl⟩ := pureSome.mp last
  rw [skipSome.mp skips]
  exact ⟨rfl, reads⟩

variable {labels : List (Label × List Char)}

theorem labelsHeader (run : Run placedLabel t labels u) : (labels.getLast?.map Prod.snd).getD t = u := by
  induction run with
  | stop => rfl
  | @step _ _ _ _ rest reads _ ih =>
      rw [← ih, ← (placedLabelReads reads).1, List.getLast?_cons]
      cases rest.getLast? <;> rfl

theorem labelsNone (run : Run placedLabel t [] u) : t = u := by
  cases run
  rfl

theorem labelsLast (run : Run placedLabel t labels u) : ∀ last, labels.getLast? = some last →
    ∃ between token, t = between ++ token ++ u ∧ Token last.1.text token := by
  induction run with
  | stop => exact fun _ none => absurd none (by simp)
  | @step t w u p rest reads more ih =>
      intro last found
      obtain ⟨gap, whole⟩ := (skipStopped .withinLine t).2
      obtain ⟨token, same, written⟩ := labelToken (placedLabelReads reads).2
      rw [same] at whole
      cases rest with
      | nil =>
          cases found
          rw [← labelsNone more]
          exact ⟨gap, token, by rw [← whole]; simp, written⟩
      | cons q rest =>
          obtain ⟨between, token', rfl, written'⟩ := ih last found
          exact ⟨gap ++ token ++ between, token', by rw [← whole]; simp, written'⟩

end DeclOrder.Hcl
