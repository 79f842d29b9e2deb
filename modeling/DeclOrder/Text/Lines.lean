/-! Lines of a text. A line ends with a line feed, and a carriage return just before the line feed
belongs to the line end. What follows the last line feed is a line unless it is empty. -/
namespace DeclOrder.Text

def lines : List Char → List (List Char)
  | [] => []
  | '\n' :: rest => [] :: lines rest
  | '\r' :: '\n' :: rest => [] :: lines rest
  | c :: rest => match lines rest with
      | [] => [[c]]
      | line :: more => (c :: line) :: more

def unlines (ls : List (List Char)) : List Char := ls.flatMap (· ++ ['\n'])

/-- A line without the carriage return that would belong to the line end behind it. -/
def dropReturn (line : List Char) : List Char :=
  if line.getLast? = some '\r' then line.dropLast else line

theorem dropReturnCons (c d : Char) (rest : List Char) : dropReturn (c :: d :: rest) = c :: dropReturn (d :: rest) := by
  unfold dropReturn
  rw [List.getLast?_cons_cons]
  split <;> rfl

theorem dropReturnLength {line : List Char} (h : line.getLast? = some '\r') :
    (dropReturn line).length + 1 = line.length := by
  cases line with
  | nil => contradiction
  | cons c rest => rw [dropReturn, if_pos h, List.length_dropLast, List.length_cons]; omega

theorem dropReturnIff {line : List Char} : dropReturn line = line ↔ line.getLast? ≠ some '\r' := by
  constructor
  · intro same last
    have shorter := dropReturnLength last
    rw [same] at shorter
    exact absurd shorter (Nat.succ_ne_self _)
  · exact fun other => if_neg other

theorem dropReturnSplit (line : List Char) : line = dropReturn line ∨ line = dropReturn line ++ ['\r'] := by
  by_cases h : line.getLast? = some '\r'
  · obtain ⟨front, rfl⟩ := List.getLast?_eq_some_iff.mp h
    rw [dropReturn, if_pos h, List.dropLast_concat]
    exact .inr rfl
  · exact .inl (dropReturnIff.mpr h).symm

theorem linesBreak (rest : List Char) : lines ('\n' :: rest) = [] :: lines rest := by rw [lines]

theorem linesReturnBreak (rest : List Char) : lines ('\r' :: '\n' :: rest) = [] :: lines rest := by rw [lines]

theorem linesOther {c : Char} {rest : List Char} (notBreak : c ≠ '\n')
    (notReturn : c = '\r' → rest.head? ≠ some '\n') :
    lines (c :: rest) = match lines rest with
      | [] => [[c]]
      | line :: more => (c :: line) :: more := by
  rw [lines]
  · exact notBreak
  · rintro more rfl rfl
    exact notReturn rfl rfl

theorem linesOfLine (line rest : List Char) (noBreak : '\n' ∉ line) :
    lines (line ++ '\n' :: rest) = dropReturn line :: lines rest := by
  induction line with
  | nil => exact linesBreak rest
  | cons c tail ih =>
      have notBreak : c ≠ '\n' := fun h => noBreak (h ▸ List.mem_cons_self)
      have tailOf := ih (fun h => noBreak (List.mem_cons_of_mem _ h))
      cases tail with
      | nil =>
          by_cases isReturn : c = '\r'
          · subst isReturn
            exact linesReturnBreak rest
          · rw [List.cons_append, linesOther notBreak (fun h => absurd h isReturn), tailOf]
            simp [dropReturn, isReturn]
      | cons d more =>
          have next : d ≠ '\n' := fun h => noBreak (h ▸ List.mem_cons_of_mem _ List.mem_cons_self)
          rw [List.cons_append, linesOther notBreak (fun _ => by simpa using next), tailOf, dropReturnCons]

theorem linesThrough (front u : List Char) : lines (front ++ '\n' :: u) = lines (front ++ ['\n']) ++ lines u := by
  generalize size : front.length = n
  induction n using Nat.strongRecOn generalizing front with
  | ind n ih =>
      by_cases member : '\n' ∈ front
      · obtain ⟨line, rest, rfl, noBreak⟩ := List.eq_append_cons_of_mem member
        rw [List.append_assoc, List.cons_append, linesOfLine line _ noBreak, List.append_assoc, List.cons_append,
          linesOfLine line _ noBreak, ih rest.length ?_ rest rfl, List.cons_append]
        rw [← size, List.length_append, List.length_cons]
        omega
      · rw [linesOfLine front u member, linesOfLine front [] member]
        rfl

theorem linesOfUnlines {ls : List (List Char)} (noBreak : ∀ line ∈ ls, '\n' ∉ line) :
    lines (unlines ls) = ls.map dropReturn := by
  induction ls with
  | nil => rfl
  | cons line rest ih =>
      have tail := ih (fun l h => noBreak l (List.mem_cons_of_mem _ h))
      rw [unlines, List.flatMap_cons, ← unlines, List.append_assoc, List.singleton_append,
        linesOfLine line _ (noBreak line List.mem_cons_self), tail, List.map_cons]

theorem linesNoBreak (text : List Char) : ∀ line ∈ lines text, '\n' ∉ line := by
  fun_induction lines text with
  | case1 => simp
  | case2 rest ih => simpa using ih
  | case3 rest ih => simpa using ih
  | case4 c rest notBreak notReturn empty ih =>
      intro line member
      rw [List.mem_singleton.mp member, List.mem_singleton]
      exact fun h => notBreak h.symm
  | case5 c rest notBreak notReturn line more found ih =>
      rw [found] at ih
      intro l member
      rcases List.mem_cons.mp member with rfl | below
      · rw [List.mem_cons]
        rintro (h | h)
        · exact notBreak h.symm
        · exact ih line List.mem_cons_self h
      · exact ih l (List.mem_cons_of_mem _ below)

theorem linesEmpty {text : List Char} (h : lines text = []) : text = [] := by
  fun_cases lines text <;> simp_all [lines]

inductive Break (rest : List (List Char)) : List Char → Prop where
  | last (none : rest = []) : Break rest []
  | lineBreak {a t : List Char} (before : a ∈ [[], ['\r']]) (behind : lines t = rest) : Break rest (a ++ '\n' :: t)

theorem linesCons {text line : List Char} {rest : List (List Char)} (h : lines text = line :: rest) :
    ∃ u, text = line ++ u ∧ Break rest u := by
  fun_induction lines text generalizing line with
  | case1 => contradiction
  | case2 more =>
      obtain ⟨rfl, rfl⟩ := List.cons.inj h
      exact ⟨'\n' :: more, rfl, .lineBreak (a := []) (by simp) rfl⟩
  | case3 more =>
      obtain ⟨rfl, rfl⟩ := List.cons.inj h
      exact ⟨'\r' :: '\n' :: more, rfl, .lineBreak (a := ['\r']) (by simp) rfl⟩
  | case4 c more notBreak notReturn empty ih =>
      obtain ⟨rfl, rfl⟩ := List.cons.inj h
      rw [linesEmpty empty]
      exact ⟨[], rfl, .last rfl⟩
  | case5 c more notBreak notReturn line others found ih =>
      obtain ⟨rfl, rfl⟩ := List.cons.inj h
      obtain ⟨u, rfl, ends⟩ := ih found
      exact ⟨u, rfl, ends⟩

theorem unlinesCons (line : List Char) (rest : List (List Char)) :
    unlines (line :: rest) = line ++ '\n' :: unlines rest := by
  simp [unlines]

theorem unlinesAppend (front back : List (List Char)) : unlines (front ++ back) = unlines front ++ unlines back :=
  List.flatMap_append

theorem unlinesLast (ls : List (List Char)) : ∀ c, (unlines ls).getLast? = some c → c = '\n' := by
  induction ls with
  | nil => simp [unlines]
  | cons line rest ih =>
      intro c last
      rw [unlinesCons, List.getLast?_append, List.getLast?_cons, Option.some_or] at last
      cases tail : (unlines rest).getLast? with
      | none => exact (Option.some.inj (by simpa [tail] using last)).symm
      | some d => exact ih c (by simpa [tail] using last)

theorem returnBreakCons {c : Char} {rest : List Char} (other : c = '\r' → rest.head? ≠ some '\n') :
    ['\r', '\n'] <:+: c :: rest ↔ ['\r', '\n'] <:+: rest := by
  rw [List.infix_cons_iff, or_iff_right]
  intro front
  obtain ⟨isReturn, more⟩ := List.cons_prefix_cons.mp front
  obtain ⟨tail, rfl⟩ := more
  exact other isReturn.symm rfl

/-- Only carriage returns of line ends and a missing last line feed are lost. -/
theorem unlinesLines (text : List Char) : unlines (lines text) = text ↔
    ¬ ['\r', '\n'] <:+: text ∧ ∀ c, text.getLast? = some c → c = '\n' := by
  fun_induction lines text with
  | case1 => simp [unlines]
  | case2 rest ih =>
      rw [unlinesCons, List.nil_append, List.cons_inj_right, ih, returnBreakCons (by simp), List.getLast?_cons]
      cases rest.getLast? <;> simp
  | case3 rest ih =>
      have found : ['\r', '\n'] <:+: '\r' :: '\n' :: rest := (List.prefix_append ['\r', '\n'] rest).isInfix
      simp [unlinesCons, found]
  | case4 c rest notBreak notReturn empty ih =>
      rw [linesEmpty empty]
      simpa [unlines] using fun _ h => notBreak h
  | case5 c rest notBreak notReturn line more found ih =>
      have last : rest ≠ [] := fun h => by simp [h, lines] at found
      rw [unlinesCons, List.cons_append, ← unlinesCons, ← found, List.cons_inj_right, ih, List.getLast?_cons,
        returnBreakCons (fun isReturn head => ?_)]
      · cases behind : rest.getLast? with
        | none => exact absurd (List.getLast?_eq_none_iff.mp behind) last
        | some d => simp
      · obtain ⟨tail, rfl⟩ := List.head?_eq_some_iff.mp head
        exact notReturn tail isReturn rfl

end DeclOrder.Text
