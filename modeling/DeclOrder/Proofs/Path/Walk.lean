import DeclOrder.Path.Location
import Mathlib.Data.List.Infix

/-! Walks over a text that goes on behind a slash: the components of the first part come first, and a
walk behind them is a walk over the second part. -/
namespace DeclOrder.Path

/-- A component of the first text ends where the second one begins. -/
def Meets (text more : List Char) : Prop := text = [] ∨ text.getLast? = some '/' ∨ more.head? = some '/'

theorem Meets.suffix {text rest more : List Char} (meets : Meets text more) (suffix : rest <:+ text) :
    Meets rest more := by
  obtain ⟨front, rfl⟩ := suffix
  by_cases ended : rest = []
  · exact .inl ended
  · rcases meets with none | slash | slash
    · exact .inl (List.append_eq_nil_iff.mp none).2
    · rw [List.getLast?_append_of_ne_nil _ ended] at slash
      exact .inr (.inl slash)
    · exact .inr (.inr slash)

theorem Meets.opens {c : Char} {more : List Char} (meets : Meets [c] more) (plain : c ≠ '/') :
    ∃ rest, more = '/' :: rest := by
  have behind : more.head? = some '/' := by simpa [Meets, plain] using meets
  exact List.head?_eq_some_iff.mp behind

theorem segmentStartMeets {c : Char} {rest more : List Char} (meets : Meets (c :: rest) more) (plain : c ≠ '/') :
    isSegmentStart (rest ++ more) = isSegmentStart rest := by
  cases rest with
  | nil =>
      obtain ⟨rest, rfl⟩ := meets.opens plain
      rfl
  | cons d rest =>
      unfold isSegmentStart
      split <;> simp_all

theorem dropEmptyKept {c : Char} {rest : List Char} (notSlash : c ≠ '/')
    (notHere : c = '.' → isSegmentStart rest = false) : dropEmptySegments (c :: rest) = c :: rest := by
  unfold dropEmptySegments
  split
  · simp_all
  · simp_all [isSegmentStart]
  · simp_all [isSegmentStart]
  · rfl

theorem dropEmptySuffix (text : List Char) : dropEmptySegments text <:+ text := by
  fun_induction dropEmptySegments text with
  | case1 rest ih => exact ih.trans (List.suffix_cons ..)
  | case2 => exact List.nil_suffix
  | case3 rest ih => exact ih.trans ((List.suffix_cons ..).trans (List.suffix_cons ..))
  | case4 text => exact List.suffix_rfl

theorem dropEmptyHead {text rest : List Char} {c : Char} (left : dropEmptySegments text = c :: rest) : c ≠ '/' := by
  fun_induction dropEmptySegments text with
  | case1 rest ih => exact ih left
  | case2 => cases left
  | case3 rest ih => exact ih left
  | case4 text notSlash notHere notDot =>
      intro slash
      exact notSlash rest (by rw [left, slash])

theorem dropEmptyAppend {text more : List Char} (meets : Meets text more) :
    dropEmptySegments (text ++ more) =
      if dropEmptySegments text = [] then dropEmptySegments more else dropEmptySegments text ++ more := by
  fun_induction dropEmptySegments text with
  | case1 rest ih => exact ih (meets.suffix (List.suffix_cons ..))
  | case2 =>
      obtain ⟨rest, rfl⟩ := meets.opens (by decide)
      rfl
  | case3 rest ih => exact ih (meets.suffix ((List.suffix_cons ..).trans (List.suffix_cons ..)))
  | case4 text notSlash notHere notDot =>
      cases text with
      | nil => rfl
      | cons c rest =>
          -- The text starts with a name, and what follows cannot make a dot segment of it.
          rw [if_neg (by simp), List.cons_append]
          have plain : c ≠ '/' := fun slash => notSlash rest (by rw [slash])
          refine dropEmptyKept plain (fun dot => ?_)
          rw [segmentStartMeets meets plain]
          subst dot
          unfold isSegmentStart
          split
          · exact (notHere rfl).elim
          · exact (notDot _ rfl).elim
          · rfl

theorem nameAppend {text more : List Char} (meets : Meets text more) (present : text ≠ []) :
    (text ++ more).takeWhile (!isSlash ·) = text.takeWhile (!isSlash ·) ∧
      (text ++ more).dropWhile (!isSlash ·) = text.dropWhile (!isSlash ·) ++ more := by
  induction text with
  | nil => exact (present rfl).elim
  | cons c rest ih =>
      by_cases slash : isSlash c = true
      · simp [slash]
      · by_cases ended : rest = []
        · subst ended
          have plain : c ≠ '/' := fun same => slash (by rw [same]; rfl)
          obtain ⟨rest, rfl⟩ := meets.opens plain
          simp [plain, isSlash]
        · have tail := ih (meets.suffix (List.suffix_cons ..)) ended
          simp [slash, tail]

namespace Walk

def extend (w : Walk) (more : List Char) : Walk := ⟨w.begun, w.left ++ more⟩

theorem nextNameEq (text : List Char) :
    nextName? text =
      if dropEmptySegments text = [] then none
      else some (.name ((dropEmptySegments text).takeWhile (!isSlash ·)),
        ⟨true, (dropEmptySegments text).dropWhile (!isSlash ·)⟩) := by
  unfold nextName?
  split
  · rename_i none
    rw [if_pos none]
  · rename_i some
    rw [if_neg some]

theorem nextNameShorter {text : List Char} {c : Component} {rest : Walk} (found : nextName? text = some (c, rest)) :
    rest.begun = true ∧ rest.left <:+ text ∧ rest.left.length < text.length := by
  rw [nextNameEq] at found
  cases left : dropEmptySegments text with
  | nil =>
      rw [if_pos left] at found
      cases found
  | cons d others =>
      have plain : isSlash d = false := beq_eq_false_iff_ne.mpr (dropEmptyHead left)
      have whole := left ▸ dropEmptySuffix text
      rw [if_neg (by simp [left]), left, List.dropWhile_cons_of_pos (by simp [plain])] at found
      cases found
      have behind := List.dropWhile_suffix (!isSlash ·) |>.trans (List.suffix_cons d others)
      refine ⟨rfl, behind.trans whole, ?_⟩
      exact Nat.lt_of_lt_of_le (Nat.lt_succ_of_le (List.dropWhile_suffix _).length_le) whole.length_le

theorem nextNameAppend {text more : List Char} (meets : Meets text more) {c : Component} {rest : Walk}
    (found : nextName? text = some (c, rest)) : nextName? (text ++ more) = some (c, rest.extend more) := by
  rw [nextNameEq] at found
  split at found
  · cases found
  · rename_i present
    cases found
    obtain ⟨name, behind⟩ := nameAppend (meets.suffix (dropEmptySuffix text)) present
    have whole := dropEmptyAppend meets
    rw [if_neg present] at whole
    rw [nextNameEq, whole, if_neg (by simp [present]), name, behind]
    rfl

theorem nextStart (c : Char) (rest : List Char) :
    (start (c :: rest)).next? =
      if c = '/' then some (.root, ⟨true, rest⟩)
      else if c = '.' ∧ isSegmentStart rest = true then some (.here, ⟨true, rest⟩)
      else nextName? (c :: rest) := by
  unfold next? start
  by_cases slash : c = '/'
  · subst slash
    rfl
  · by_cases dot : c = '.'
    · subst dot
      cases here : isSegmentStart rest <;> simp [here]
    · simp [slash, dot]

theorem nextShorter {w rest : Walk} {c : Component} (found : w.next? = some (c, rest)) :
    rest.begun = true ∧ rest.left <:+ w.left ∧ rest.left.length < w.left.length := by
  obtain ⟨begun, left⟩ := w
  cases begun with
  | true => exact nextNameShorter found
  | false =>
      cases left with
      | nil => cases found
      | cons d left =>
          rw [← start, nextStart] at found
          split at found
          · cases found
            exact ⟨rfl, List.suffix_cons .., Nat.lt_succ_self _⟩
          · split at found
            · cases found
              exact ⟨rfl, List.suffix_cons .., Nat.lt_succ_self _⟩
            · exact nextNameShorter found

theorem nextAppend {w rest : Walk} {c : Component} {more : List Char} (meets : Meets w.left more)
    (found : w.next? = some (c, rest)) : (w.extend more).next? = some (c, rest.extend more) := by
  obtain ⟨begun, left⟩ := w
  cases begun with
  | true => exact nextNameAppend meets found
  | false =>
      cases left with
      | nil => cases found
      | cons d left =>
          show (start (d :: (left ++ more))).next? = _
          rw [← start, nextStart] at found
          rw [nextStart]
          split at found
          · rename_i slash
            cases found
            rw [if_pos slash]
            rfl
          · rename_i notSlash
            rw [if_neg notSlash, segmentStartMeets meets notSlash]
            split at found
            · rename_i here
              cases found
              rw [if_pos here]
              rfl
            · rename_i name
              rw [if_neg name]
              exact nextNameAppend meets found

theorem pastCons {w rest : Walk} {c : Component} {found : List Component} :
    w.past? (c :: found) = some rest ↔ ∃ next, w.next? = some (c, next) ∧ next.past? found = some rest := by
  rw [past?]
  cases step : w.next? with
  | none => simp
  | some met =>
      obtain ⟨d, next⟩ := met
      by_cases same : c = d
      · simp [same]
      · simp [same, Ne.symm same]

theorem pastAppend {w rest : Walk} {found : List Component} {more : List Char} (meets : Meets w.left more)
    (past : w.past? found = some rest) :
    (w.extend more).past? found = some (rest.extend more) ∧ Meets rest.left more := by
  -- Each step leaves an end of the text, so the two texts still meet there.
  induction found generalizing w with
  | nil =>
      cases past
      exact ⟨rfl, meets⟩
  | cons c found ih =>
      obtain ⟨next, step, past⟩ := pastCons.mp past
      obtain ⟨further, meets'⟩ := ih (meets.suffix (nextShorter step).2.1) past
      exact ⟨pastCons.mpr ⟨_, nextAppend meets step, further⟩, meets'⟩

theorem pastBegun {w rest : Walk} {found : List Component} (past : w.past? found = some rest) :
    rest.begun = true ∨ rest = w := by
  induction found generalizing w with
  | nil =>
      cases past
      exact .inr rfl
  | cons c found ih =>
      obtain ⟨next, step, past⟩ := pastCons.mp past
      rcases ih past with begun | same
      · exact .inl begun
      · exact .inl (same ▸ (nextShorter step).1)

theorem pastComponents {n : Nat} {w : Walk} (enough : w.left.length < n) :
    ∃ rest, w.past? (componentsUpTo n w) = some rest ∧ rest.next? = none := by
  induction n generalizing w with
  | zero => cases enough
  | succ n ih =>
      unfold componentsUpTo
      cases step : w.next? with
      | none => exact ⟨w, rfl, step⟩
      | some met =>
          obtain ⟨c, next⟩ := met
          obtain ⟨rest, past, ended⟩ := ih (Nat.lt_of_lt_of_le (nextShorter step).2.2 (Nat.le_of_lt_succ enough))
          exact ⟨rest, pastCons.mpr ⟨next, step, past⟩, ended⟩

theorem endedLeft {w : Walk} (ended : w.next? = none) (begun : w.begun = true) : dropEmptySegments w.left = [] := by
  unfold next? at ended
  rw [if_pos begun, nextNameEq] at ended
  split at ended
  · assumption
  · cases ended

theorem startNext {text : List Char} (nonempty : text ≠ []) : (start text).next? ≠ none := by
  cases text with
  | nil => exact (nonempty rfl).elim
  | cons c rest =>
      rw [nextStart]
      split
      · simp
      · rename_i plain
        split
        · simp
        · rename_i name
          have kept : dropEmptySegments (c :: rest) = c :: rest :=
            dropEmptyKept plain (fun dot => Bool.eq_false_iff.mpr (fun here => name ⟨dot, here⟩))
          simp [nextNameEq, kept]

end Walk

/-- What stands below a root is seen from there as it is, but for slashes and dot segments at its ends. -/
theorem relativeAppend {root more : List Char} (nonempty : root ≠ []) (meets : Meets root more) :
    relative root (root ++ more) = dropEmptyEnd (dropEmptySegments more) := by
  obtain ⟨rest, past, ended⟩ := Walk.pastComponents (w := start root) (Nat.lt_succ_self root.length)
  obtain ⟨further, meets'⟩ := Walk.pastAppend meets past
  have begun : rest.begun = true := by
    rcases Walk.pastBegun past with begun | same
    · exact begun
    · exact (Walk.startNext nonempty (same ▸ ended)).elim
  have behind : dropEmptySegments (rest.left ++ more) = dropEmptySegments more := by
    rw [dropEmptyAppend meets', if_pos (Walk.endedLeft ended begun)]
  have whole : (start (root ++ more)).past? (components root) = some (rest.extend more) := further
  unfold relative
  rw [whole]
  show (rest.extend more).text = _
  unfold Walk.text Walk.extend
  rw [if_pos begun, behind]

end DeclOrder.Path
