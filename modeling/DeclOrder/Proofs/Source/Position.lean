import DeclOrder.Position
import Mathlib.Data.List.Induction

/-! Positions of offsets. Halving the line starts finds the line without a look-up that misses or a difference
that is negative, and in a text of less than `2 ^ 32 - 1` bytes the position of a character is a plain count of
what stands before it. -/
namespace DeclOrder
open Text

/-- The first place from `low` up to `high` that is not `before` the one that is looked for, if those that are
come first. -/
def bisect (before : Nat → Bool) (low high : Nat) : Nat :=
  if low < high then
    let middle := low + (high - low) / 2
    if before middle then bisect before (middle + 1) high else bisect before low middle
  else low
termination_by high - low

theorem bisectFinds {before : Nat → Bool} {place low high : Nat} (above : low ≤ place) (below : place ≤ high)
    (parted : ∀ i < high, before i = decide (i < place)) : bisect before low high = place := by
  fun_induction bisect before low high with
  | case1 low high some middle passed ih =>
      have same := parted middle (by omega)
      rw [passed, eq_comm, decide_eq_true_iff] at same
      exact ih same below parted
  | case2 low high some middle stays ih =>
      have inside : middle < high := by omega
      have same := parted middle inside
      rw [Bool.eq_false_iff.mpr stays, eq_comm, decide_eq_false_iff_not] at same
      exact ih above (by omega) fun i less => parted i (by omega)
  | case3 low high none => omega

theorem takeWhileParts {α : Type} {p : α → Bool} {l : List α} (first : l.Pairwise fun a b => p b = true → p a = true)
    (i : Nat) (less : i < l.length) : l[i]?.any p = decide (i < (l.takeWhile p).length) := by
  induction l generalizing i with
  | nil => exact absurd less (Nat.not_lt_zero i)
  | cons a rest ih =>
      obtain ⟨here, later⟩ := List.pairwise_cons.mp first
      cases i with
      | zero => cases holds : p a <;> simp [holds]
      | succ i =>
          have inside : i < rest.length := Nat.lt_of_succ_lt_succ less
          cases holds : p a with
          | true => simpa [holds] using ih later i inside
          | false =>
              have fails : p rest[i] = false := by
                refine Bool.eq_false_iff.mpr fun found => ?_
                rw [here _ (List.getElem_mem inside) found] at holds
                contradiction
              simp [holds, fails, inside]

namespace LineIndex

def minus? (a b : Nat) : Option Nat := if b ≤ a then some (a - b) else none

/-- The position of an offset, by halving the line starts. Nothing if a look-up misses or a difference is negative. -/
def halved? (index : LineIndex) (offset : Nat) : Option Position := do
  let byte := min offset index.size
  let found := bisect (fun i => index.starts[i]?.any (·.1 ≤ byte)) 0 index.starts.length
  let line ← minus? found 1
  let (start, text) ← index.starts[line]?
  let width ← minus? byte start
  let column := match takeBytes? text width with
    | some between => between.length
    | none => width
  return ⟨(line + 1) % twoTo 32, (column + 1) % twoTo 32, byte⟩

theorem startsBehind {offset : Nat} {text : List Char} : ∀ s ∈ lineStartsFrom offset text, offset < s.1 := by
  induction text generalizing offset with
  | nil => simp [lineStartsFrom]
  | cons c rest ih =>
      have positive := c.utf8Size_pos
      intro s member
      unfold lineStartsFrom at member
      split at member
      · rcases List.mem_cons.mp member with rfl | later
        · exact Nat.lt_succ_self offset
        · exact Nat.lt_of_succ_lt (ih s later)
      · have later := ih s member
        omega

theorem startsAscend (offset : Nat) (text : List Char) : (lineStartsFrom offset text).Pairwise (·.1 < ·.1) := by
  induction text generalizing offset with
  | nil => exact .nil
  | cons c rest ih =>
      unfold lineStartsFrom
      split
      · exact .cons (fun s member => startsBehind s member) (ih _)
      · exact ih _

variable {source front rest : List Char}

theorem indexAscends (source : List Char) : (ofText source).starts.Pairwise (·.1 < ·.1) :=
  .cons (fun s member => startsBehind s member) (startsAscend 0 source)

theorem startsUpTo (source : List Char) (byte : Nat) :
    (ofText source).starts.takeWhile (·.1 ≤ byte) = (0, source) :: (lineStartsFrom 0 source).takeWhile (·.1 ≤ byte) :=
  List.takeWhile_cons_of_pos (by simp)

theorem halvedPosition (source : List Char) (offset : Nat) :
    (ofText source).halved? offset = some ((ofText source).position offset) := by
  unfold halved? position
  have ascend := indexAscends source
  have first := startsUpTo source (min offset (ofText source).size)
  generalize (ofText source).starts = starts at ascend first ⊢
  generalize min offset (ofText source).size = byte at first ⊢
  dsimp only
  have parted := takeWhileParts (p := fun s : Nat × List Char => decide (s.1 ≤ byte))
    (ascend.imp fun {a b} less upTo => decide_eq_true (Nat.le_trans (Nat.le_of_lt less) (of_decide_eq_true upTo)))
  have upTo := List.all_takeWhile (p := fun s : Nat × List Char => decide (s.1 ≤ byte)) (l := starts)
  have front := List.takeWhile_prefix (l := starts) fun s => decide (s.1 ≤ byte)
  generalize starts.takeWhile (·.1 ≤ byte) = before at first parted upTo front ⊢
  obtain ⟨init, last, rfl⟩ : ∃ init last, before = init ++ [last] :=
    ⟨_, _, (List.dropLast_concat_getLast (first ▸ List.cons_ne_nil _ _)).symm⟩
  obtain ⟨rest, rfl⟩ := front
  have inside : last.1 ≤ byte := of_decide_eq_true (List.all_eq_true.mp upTo last (by simp))
  have line : minus? (init ++ [last]).length 1 = some init.length := by simp [minus?]
  have found : (init ++ [last] ++ rest)[init.length]? = some last := by simp
  have width : minus? byte last.1 = some (byte - last.1) := if_pos inside
  rw [bisectFinds (Nat.zero_le _) (List.prefix_append _ rest).length_le parted, line, List.getLast?_concat]
  simp only [bind, Option.bind_some, found, width, List.length_append, List.length_singleton]
  rfl

def lastLine (text : List Char) : List Char := (text.reverse.takeWhile (· ≠ '\n')).reverse

/-- What stands before a position gives it: lines are counted by their breaks, columns by the characters behind the
last one. -/
def behind (front : List Char) : Position := ⟨front.count '\n' + 1, (lastLine front).length + 1, byteSize front⟩

theorem lineFeedSize : '\n'.utf8Size = 1 := by decide

theorem startsWithin {offset : Nat} {text : List Char} : ∀ s ∈ lineStartsFrom offset text, s.1 ≤ offset + byteSize text := by
  induction text generalizing offset with
  | nil => simp [lineStartsFrom]
  | cons c rest ih =>
      intro s member
      rw [byteSizeCons]
      unfold lineStartsFrom at member
      split at member
      · rename_i lineBreak
        have size : c.utf8Size = 1 := by rw [lineBreak, lineFeedSize]
        rcases List.mem_cons.mp member with rfl | later
        · dsimp only
          omega
        · have within := ih s later
          omega
      · have within := ih s member
        omega

theorem startsAppend (offset : Nat) (front rest : List Char) : lineStartsFrom offset (front ++ rest) =
    (lineStartsFrom offset front).map (fun s => (s.1, s.2 ++ rest)) ++ lineStartsFrom (offset + byteSize front) rest := by
  induction front generalizing offset with
  | nil => rfl
  | cons c front ih =>
      rw [List.cons_append, lineStartsFrom, lineStartsFrom, byteSizeCons]
      split
      · rename_i lineBreak
        have size : c.utf8Size = 1 := by rw [lineBreak, lineFeedSize]
        rw [ih, List.map_cons, List.cons_append, size, Nat.add_assoc]
      · rw [ih, Nat.add_assoc]

theorem startsCount (offset : Nat) (text : List Char) : (lineStartsFrom offset text).length = text.count '\n' := by
  induction text generalizing offset with
  | nil => rfl
  | cons c rest ih =>
      unfold lineStartsFrom
      split
      · rename_i lineBreak
        rw [List.length_cons, ih, lineBreak, List.count_cons_self]
      · rename_i other
        rw [ih, List.count_cons_of_ne other]

theorem startsOfFront (front rest : List Char) :
    (ofText (front ++ rest)).starts.takeWhile (·.1 ≤ byteSize front) =
      ((0, front) :: lineStartsFrom 0 front).map fun s => (s.1, s.2 ++ rest) := by
  rw [startsUpTo, List.map_cons, startsAppend, Nat.zero_add, List.takeWhile_append_of_pos ?within]
  · cases later : lineStartsFrom (byteSize front) rest with
    | nil => rw [List.takeWhile_nil, List.append_nil]
    | cons s more =>
        have past := startsBehind s (later ▸ List.mem_cons_self)
        rw [List.takeWhile_cons_of_neg (by simpa using past), List.append_nil]
  case within =>
    intro s member
    obtain ⟨own, among, rfl⟩ := List.mem_map.mp member
    simpa using startsWithin own among

theorem lastLineConcat {c : Char} (front : List Char) (other : c ≠ '\n') : lastLine (front ++ [c]) = lastLine front ++ [c] := by
  simp [lastLine, other]

theorem lastStart (front : List Char) : ∃ before, front = before ++ lastLine front ∧
    ((0, front) :: lineStartsFrom 0 front).getLast? = some (byteSize before, lastLine front) := by
  induction front using List.reverseRecOn with
  | nil => exact ⟨[], rfl, rfl⟩
  | append_singleton front c ih =>
      obtain ⟨before, whole, last⟩ := ih
      rw [startsAppend, Nat.zero_add, ← List.cons_append, ← List.map_cons (f := fun s => (s.1, s.2 ++ [c]))
        (a := (0, front)), List.getLast?_append, List.getLast?_map, last]
      by_cases lineBreak : c = '\n'
      · refine ⟨front ++ [c], by simp [lastLine, lineBreak], ?_⟩
        rw [byteSizeAppend]
        simp [lineStartsFrom, lastLine, lineBreak, byteSize, lineFeedSize]
      · rw [lastLineConcat front lineBreak]
        refine ⟨before, by rw [← List.append_assoc, ← whole], ?_⟩
        simp [lineStartsFrom, lineBreak]

theorem lengthUpToSize (text : List Char) : text.length ≤ byteSize text := by
  induction text with
  | nil => exact Nat.le_refl 0
  | cons c rest ih =>
      have positive := c.utf8Size_pos
      rw [List.length_cons, byteSizeCons]
      omega

theorem positionBehind (small : byteSize (front ++ rest) < twoTo 32 - 1) :
    (ofText (front ++ rest)).position (byteSize front) = behind front := by
  have size : (ofText (front ++ rest)).size = byteSize front + byteSize rest := byteSizeAppend front rest
  obtain ⟨before, whole, last⟩ := lastStart front
  have bytes : byteSize front = byteSize before + byteSize (lastLine front) := by
    rw [← byteSizeAppend, ← whole]
  have taken : takeBytes? (lastLine front ++ rest) (byteSize front - byteSize before) = some (lastLine front) :=
    takeBytesSome.mpr ⟨rest, rfl, by omega⟩
  have length := lengthUpToSize front
  have lines := List.count_le_length (a := '\n') (l := front)
  have columns := congrArg List.length whole
  rw [byteSizeAppend] at small
  rw [List.length_append] at columns
  unfold position
  dsimp only
  rw [size, Nat.min_eq_left (Nat.le_add_right ..), startsOfFront, List.getLast?_map, last]
  simp only [Option.map_some, Option.getD_some, taken, List.length_map, List.length_cons, startsCount]
  rw [Nat.mod_eq_of_lt (by omega), Nat.mod_eq_of_lt (by omega)]
  rfl

def Precedes (p q : Position) : Prop := p.line < q.line ∨ p.line = q.line ∧ p.column < q.column

theorem lastLineAppend {text : List Char} (front : List Char) (unbroken : '\n' ∉ text) :
    lastLine (front ++ text) = lastLine front ++ text := by
  have all : ∀ c ∈ text.reverse, decide (c ≠ '\n') = true := fun c member =>
    decide_eq_true fun same => unbroken (same ▸ List.mem_reverse.mp member)
  rw [lastLine, List.reverse_append, List.takeWhile_append_of_pos all, List.reverse_append, List.reverse_reverse]
  rfl

theorem behindPrecedes {more : List Char} (front : List Char) (nonempty : more ≠ []) :
    Precedes (behind front) (behind (front ++ more)) := by
  unfold Precedes behind
  rw [List.count_append]
  by_cases broken : '\n' ∈ more
  · have breaks := List.count_pos_iff.mpr broken
    exact .inl (by dsimp only; omega)
  · have length := List.length_pos_iff.mpr nonempty
    refine .inr ⟨by rw [List.count_eq_zero.mpr broken, Nat.add_zero], ?_⟩
    rw [lastLineAppend front broken, List.length_append]
    dsimp only
    omega

/-- The position of an offset is the plain count of what stands before it, for every offset that is between two
characters, and later offsets have later positions. Other offsets have one as well, and those past the end that of
the end. -/
theorem positionCounted (small : byteSize source < twoTo 32 - 1) :
    (∀ offset front, takeBytes? source offset = some front →
      (ofText source).position offset = behind front ∧ (behind front).byte = offset) ∧
    (∀ offset, (ofText source).halved? offset = some ((ofText source).position offset) ∧
      (byteSize source ≤ offset → (ofText source).position offset = (ofText source).position (byteSize source))) ∧
    ∀ offset later front further, takeBytes? source offset = some front → takeBytes? source later = some further →
      offset < later → Precedes ((ofText source).position offset) ((ofText source).position later) := by
  have counted (offset : Nat) (front : List Char) (taken : takeBytes? source offset = some front) :
      (ofText source).position offset = behind front ∧ (behind front).byte = offset := by
    obtain ⟨rest, rfl, rfl⟩ := takeBytesSome.mp taken
    exact ⟨positionBehind small, rfl⟩
  refine ⟨counted, fun offset => ⟨halvedPosition source offset, fun past => ?_⟩, ?_⟩
  · unfold position
    rw [show (ofText source).size = byteSize source from rfl, Nat.min_eq_right past, Nat.min_self]
  · intro offset later front further taken takenLater less
    rw [(counted offset front taken).1, (counted later further takenLater).1]
    obtain ⟨rest, rfl, rfl⟩ := takeBytesSome.mp taken
    obtain ⟨others, whole, rfl⟩ := takeBytesSome.mp takenLater
    rcases List.append_eq_append_iff.mp whole with ⟨more, rfl, -⟩ | ⟨more, rfl, -⟩
    · refine behindPrecedes front fun none => ?_
      rw [none, List.append_nil] at less
      exact Nat.lt_irrefl _ less
    · rw [byteSizeAppend] at less
      omega

/-- A character of two bytes stands in the second line, and the offset behind the last line break is that of a
third one without text. -/
theorem positionCountedAccented : byteSize "ab\néx = 1\n".toList < twoTo 32 - 1 ∧
    (ofText "ab\néx = 1\n".toList).position 5 = ⟨2, 2, 5⟩ ∧ (ofText "ab\néx = 1\n".toList).position 11 = ⟨3, 1, 11⟩ ∧
    (ofText "ab\néx = 1\n".toList).position 12 = ⟨3, 1, 11⟩ ∧ Precedes ⟨2, 2, 5⟩ ⟨3, 1, 11⟩ := by
  have small : byteSize "ab\néx = 1\n".toList < twoTo 32 - 1 := by decide +kernel
  obtain ⟨counted, total, precedes⟩ := positionCounted small
  have front : takeBytes? "ab\néx = 1\n".toList 5 = some "ab\né".toList := by decide +kernel
  have whole : takeBytes? "ab\néx = 1\n".toList 11 = some "ab\néx = 1\n".toList := by decide +kernel
  have second : (ofText "ab\néx = 1\n".toList).position 5 = ⟨2, 2, 5⟩ := (counted 5 _ front).1.trans (by decide +kernel)
  have third : (ofText "ab\néx = 1\n".toList).position 11 = ⟨3, 1, 11⟩ := (counted 11 _ whole).1.trans (by decide +kernel)
  have ends : byteSize "ab\néx = 1\n".toList = 11 := by decide +kernel
  refine ⟨small, second, third, ?_, ?_⟩
  · rw [(total 12).2 (by rw [ends]; decide), ends, third]
  · rw [← second, ← third]
    exact precedes 5 11 _ _ front whole (by decide)

end LineIndex
end DeclOrder
