import DeclOrder.Path.Location
import DeclOrder.Proofs.Path.Normal

/-! What a path denotes: whether it starts at the root, and the names on its way. Its normal form denotes the same
exactly when no slash stands behind the `./` in front: without them that slash would be the root. -/
namespace DeclOrder.Path

def way (text : List Char) : List Component := (components text).filter (· ≠ .here)

def namesIn (text : List Char) : List Component := componentsUpTo (text.length + 1) ⟨true, text⟩

variable {text rest : List Char} {w : Walk}

theorem componentsEnough {n m : Nat} (enough : w.left.length < n) (enough' : w.left.length < m) :
    componentsUpTo n w = componentsUpTo m w := by
  induction n generalizing m w with
  | zero => exact absurd enough (Nat.not_lt_zero _)
  | succ n ih =>
      cases m with
      | zero => exact absurd enough' (Nat.not_lt_zero _)
      | succ m =>
          unfold componentsUpTo
          cases step : w.next? with
          | none => rfl
          | some met =>
              have shorter := (Walk.nextShorter step).2.2
              exact congrArg _ (ih (by omega) (by omega))

theorem namesInDropped (same : dropEmptySegments text = dropEmptySegments rest) : namesIn text = namesIn rest := by
  have step : Walk.next? ⟨true, text⟩ = Walk.next? ⟨true, rest⟩ := by
    change nextName? text = nextName? rest
    rw [Walk.nextNameEq, Walk.nextNameEq, same]
  unfold namesIn componentsUpTo
  rw [step]
  cases found : Walk.next? ⟨true, rest⟩ with
  | none => rfl
  | some met =>
      have shorter := (Walk.nextShorter found).2.2
      have shorter' := (Walk.nextShorter (step.trans found)).2.2
      exact congrArg _ (componentsEnough shorter' shorter)

theorem begunNames {n : Nat} (begun : w.begun = true) : ∀ c ∈ componentsUpTo n w, ∃ name, c = .name name := by
  induction n generalizing w with
  | zero => exact fun c member => absurd member List.not_mem_nil
  | succ n ih =>
      intro c member
      unfold componentsUpTo at member
      cases step : w.next? with
      | none =>
          rw [step] at member
          exact absurd member List.not_mem_nil
      | some met =>
          rw [step] at member
          rcases List.mem_cons.mp member with rfl | later
          · rw [Walk.next?, if_pos begun, Walk.nextNameEq] at step
            split at step
            · contradiction
            · cases step
              exact ⟨_, rfl⟩
          · exact ih (Walk.nextShorter step).1 c later

theorem namesInWay (text : List Char) : (namesIn text).filter (· ≠ .here) = namesIn text := by
  refine List.filter_eq_self.mpr fun c member => ?_
  obtain ⟨name, rfl⟩ := begunNames rfl c member
  rfl

theorem waySplit (text : List Char) : way text = (if isAbsolute text then [.root] else []) ++ namesIn text := by
  cases text with
  | nil => rfl
  | cons c rest =>
      unfold way components
      rw [List.length_cons, componentsUpTo, Walk.nextStart]
      by_cases slash : c = '/'
      · subst slash
        rw [if_pos rfl]
        change (Component.root :: namesIn rest).filter _ = [Component.root] ++ _
        have behind : namesIn ('/' :: rest) = namesIn rest := namesInDropped rfl
        rw [List.filter_cons_of_pos (by decide), namesInWay, behind]
        rfl
      have relative : isAbsolute (c :: rest) = false := by simpa [isAbsolute] using slash
      rw [if_neg slash, relative]
      by_cases here : c = '.' ∧ isSegmentStart rest = true
      · obtain ⟨rfl, starts⟩ := here
        rw [if_pos ⟨rfl, starts⟩]
        change (Component.here :: namesIn rest).filter _ = _
        rw [List.filter_cons_of_neg (by decide), namesInWay]
        refine namesInDropped ?_
        unfold isSegmentStart at starts
        split at starts
        · rfl
        · rfl
        · contradiction
      · rw [if_neg here]
        exact namesInWay (c :: rest)

theorem namesInDropHere (text : List Char) : namesIn (dropHere text) = namesIn text := by
  fun_induction dropHere text with
  | case1 rest ih =>
      have behind : namesIn ('.' :: '/' :: rest) = namesIn rest := namesInDropped rfl
      exact ih.trans behind.symm
  | case2 text => rfl

theorem namesInNormalize (text : List Char) : namesIn (normalize text) = namesIn (slashed text) := by
  rw [← namesInDropHere (slashed text)]
  unfold normalize
  split
  · rename_i none
    rw [none]
    rfl
  · rfl

theorem absoluteNormalize (text : List Char) : isAbsolute (normalize text) = isAbsolute (dropHere (slashed text)) := by
  unfold normalize
  split
  · rename_i none
    rw [none]
    rfl
  · rfl

theorem absoluteIff : isAbsolute text = true ↔ ∃ rest, text = '/' :: rest := by
  rw [isAbsolute, beq_iff_eq]
  exact List.head?_eq_some_iff

theorem heresRelative (n : Nat) (text : List Char) : isAbsolute (heres (n + 1) ++ text) = false := by
  rw [heresSucc]
  rfl

theorem absoluteDropHere (text : List Char) : isAbsolute (dropHere text) = isAbsolute text ↔
    ∀ n rest, text = heres n ++ '/' :: rest → n = 0 := by
  constructor
  · rintro same n rest rfl
    have slash : dropHere ('/' :: rest) = '/' :: rest := dropHereStays (by simp)
    rw [dropHeres, slash] at same
    cases n with
    | zero => rfl
    | succ n =>
        rw [heresRelative] at same
        contradiction
  · intro none
    obtain ⟨n, front⟩ := dropHereFront text
    cases n with
    | zero => exact congrArg isAbsolute front.symm
    | succ n =>
        have relative : isAbsolute text = false := by
          rw [front]
          exact heresRelative n _
        rw [relative]
        refine Bool.eq_false_iff.mpr fun absolute => ?_
        obtain ⟨rest, slash⟩ := absoluteIff.mp absolute
        rw [slash] at front
        exact absurd (none _ _ front) (Nat.succ_ne_zero n)

end DeclOrder.Path

namespace DeclOrder.RepoPath
open DeclOrder.Path

/-- A path with forward slashes starts at the root or not and has the same names on its way as its normal form,
exactly where no slash stands behind the `./` in front. -/
theorem denotesSame (p : String) :
    (isAbsolute (ofString p).text.toList = isAbsolute (slashed p.toList) ∧
      way (ofString p).text.toList = way (slashed p.toList)) ↔
    ∀ n rest, slashed p.toList = heres n ++ '/' :: rest → n = 0 := by
  rw [ofStringText, absoluteNormalize, ← absoluteDropHere, waySplit, waySplit, namesInNormalize, absoluteNormalize]
  refine ⟨And.left, fun same => ⟨same, ?_⟩⟩
  rw [same]

theorem denotesSameFurther : (∀ n rest, slashed ".\\./a//b".toList = heres n ++ '/' :: rest → n = 0) ∧
    way (ofString ".\\./a//b").text.toList = way (slashed ".\\./a//b".toList) := by
  have front : ∀ n rest, slashed ".\\./a//b".toList = heres n ++ '/' :: rest → n = 0 :=
    (absoluteDropHere _).mp (by decide +kernel)
  exact ⟨front, ((denotesSame ".\\./a//b").mpr front).2⟩

/-- Below the module the path goes to `a`, and its normal form goes there from the root. -/
theorem denotesRoot : isAbsolute (slashed ".//a".toList) = false ∧ way (slashed ".//a".toList) = [.name ['a']] ∧
    (ofString ".//a").text = "/a" ∧ isAbsolute (ofString ".//a").text.toList = true ∧
    way (ofString ".//a").text.toList = [.root, .name ['a']] := by
  decide +kernel

end DeclOrder.RepoPath
