/-! White space in the sense of the Unicode property `White_Space`, and trimming by it.
The grammar has a narrower notion of its own; this one serves lines and whole texts. -/
namespace DeclOrder.Text

def isBlank (c : Char) : Bool :=
  let n := c.val
  (9 ≤ n && n ≤ 13) || n == 32 || n == 0x85 || n == 0xA0 || n == 0x1680 ||
    (0x2000 ≤ n && n ≤ 0x200A) || n == 0x2028 || n == 0x2029 || n == 0x202F || n == 0x205F ||
    n == 0x3000

def trimStart (text : List Char) : List Char := text.dropWhile isBlank

def trimEnd (text : List Char) : List Char :=
  text.foldr (fun c tail => if tail.isEmpty && isBlank c then [] else c :: tail) []

def trim (text : List Char) : List Char := trimEnd (trimStart text)

def allBlank (text : List Char) : Bool := text.all isBlank

theorem allBlankAppend {t u : List Char} : allBlank (t ++ u) = true ↔ allBlank t = true ∧ allBlank u = true := by
  rw [allBlank, List.all_append, Bool.and_eq_true]
  rfl

theorem allBlankCons {c : Char} {text : List Char} : allBlank (c :: text) = true ↔ isBlank c = true ∧ allBlank text = true := by
  rw [allBlank, List.all_cons, Bool.and_eq_true]
  rfl

theorem trimEndCons (c : Char) (text : List Char) :
    trimEnd (c :: text) = if (trimEnd text).isEmpty && isBlank c then [] else c :: trimEnd text := rfl

theorem blankRange {c : Char} (blank : isBlank c = true) : c.toNat ≤ 32 ∨ 133 ≤ c.toNat := by
  simp only [isBlank, Bool.or_eq_true, Bool.and_eq_true, decide_eq_true_eq, beq_iff_eq,
    UInt32.le_iff_toNat_le, ← UInt32.toNat_inj, UInt32.reduceToNat] at blank
  change c.val.toNat ≤ 32 ∨ 133 ≤ c.val.toNat
  omega

theorem solidRange {c : Char} (above : 32 < c.toNat) (below : c.toNat < 133) : isBlank c = false := by
  cases blank : isBlank c with
  | false => rfl
  | true => rcases blankRange blank with h | h <;> omega

theorem trimStartAppendBlank {front : List Char} (blank : allBlank front = true) (text : List Char) :
    trimStart (front ++ text) = trimStart text :=
  List.dropWhile_append_of_pos (List.all_eq_true.mp blank)

theorem trimStartSolid {c : Char} (solid : isBlank c = false) (rest : List Char) :
    trimStart (c :: rest) = c :: rest := List.dropWhile_cons_of_neg (by simp [solid])

theorem trimStartNil {text : List Char} : trimStart text = [] ↔ allBlank text = true := by
  induction text with
  | nil => exact ⟨fun _ => rfl, fun _ => rfl⟩
  | cons c rest ih =>
      rw [trimStart, List.dropWhile_cons, allBlank, List.all_cons, ← allBlank]
      cases isBlank c
      · simp
      · simpa [trimStart] using ih

theorem trimStartSplit (text : List Char) : ∃ front, allBlank front = true ∧ text = front ++ trimStart text :=
  ⟨text.takeWhile isBlank, List.all_takeWhile, List.takeWhile_append_dropWhile.symm⟩

theorem trimStartHead {text rest : List Char} {c : Char} (h : trimStart text = c :: rest) : isBlank c = false := by
  have head := List.head?_dropWhile_not isBlank text
  rw [← trimStart, h] at head
  simpa using head

theorem trimEndNil {text : List Char} : trimEnd text = [] ↔ allBlank text = true := by
  induction text with
  | nil => exact ⟨fun _ => rfl, fun _ => rfl⟩
  | cons c rest ih =>
      rw [trimEndCons, allBlank, List.all_cons, ← allBlank]
      simp only [Bool.and_eq_true]
      rw [← ih]
      cases trimEnd rest <;> cases isBlank c <;> simp

theorem trimEndAppendBlank {tail : List Char} (blank : allBlank tail = true) (text : List Char) :
    trimEnd (text ++ tail) = trimEnd text := by
  induction text with
  | nil => exact trimEndNil.mpr blank
  | cons c rest ih => rw [List.cons_append, trimEndCons, ih, ← trimEndCons]

theorem trimEndAppendSolid {tail : List Char} (solid : allBlank tail = false) (text : List Char) :
    trimEnd (text ++ tail) = text ++ trimEnd tail := by
  induction text with
  | nil => rfl
  | cons c rest ih =>
      have some : trimEnd tail ≠ [] := fun h => by simp [trimEndNil.mp h] at solid
      rw [List.cons_append, trimEndCons, ih]
      simp [some]

theorem trimEndSplit (text : List Char) : ∃ tail, allBlank tail = true ∧ text = trimEnd text ++ tail := by
  induction text with
  | nil => exact ⟨[], rfl, rfl⟩
  | cons c rest ih =>
      obtain ⟨tail, blank, split⟩ := ih
      rw [trimEndCons]
      by_cases cut : ((trimEnd rest).isEmpty && isBlank c) = true
      · obtain ⟨empty, blankHead⟩ := Bool.and_eq_true_iff.mp cut
        have restBlank := trimEndNil.mp (List.isEmpty_iff.mp empty)
        rw [if_pos cut]
        refine ⟨c :: rest, ?_, rfl⟩
        rw [allBlank, List.all_cons, blankHead]
        exact restBlank
      · rw [if_neg cut]
        exact ⟨tail, blank, by rw [List.cons_append, ← split]⟩

theorem trimEndSubset (text : List Char) : trimEnd text ⊆ text := by
  obtain ⟨tail, _, split⟩ := trimEndSplit text
  exact fun c member => split ▸ List.mem_append_left tail member

theorem trimSubset (text : List Char) : trim text ⊆ text :=
  fun _ member => (List.dropWhile_suffix isBlank).subset (trimEndSubset _ member)

theorem trimEndTwice (text : List Char) : trimEnd (trimEnd text) = trimEnd text := by
  obtain ⟨tail, blank, split⟩ := trimEndSplit text
  rw [← trimEndAppendBlank blank (trimEnd text), ← split]

theorem trimEndLast {text : List Char} {c : Char} (h : (trimEnd text).getLast? = some c) : isBlank c = false := by
  obtain ⟨front, split⟩ := List.getLast?_eq_some_iff.mp h
  have again := trimEndTwice text
  rw [split] at again
  by_cases blank : allBlank [c] = true
  · rw [trimEndAppendBlank blank] at again
    obtain ⟨tail, _, whole⟩ := trimEndSplit front
    have length := congrArg List.length again
    have shorter := congrArg List.length whole
    simp only [List.length_append, List.length_singleton] at length shorter
    omega
  · simpa [allBlank] using blank

theorem trimEndHead {c : Char} (solid : isBlank c = false) (rest : List Char) :
    trimEnd (c :: rest) = c :: trimEnd rest := by rw [trimEndCons, solid, Bool.and_false, if_neg Bool.false_ne_true]

theorem trimAppendBlank {tail : List Char} (blank : allBlank tail = true) (text : List Char) :
    trim (text ++ tail) = trim text := by
  unfold trim
  by_cases all : allBlank text = true
  · rw [trimStartAppendBlank all, trimStartNil.mpr blank, trimStartNil.mpr all]
  · obtain ⟨front, frontBlank, split⟩ := trimStartSplit text
    cases h : trimStart text with
    | nil => exact absurd (trimStartNil.mp h) all
    | cons c rest =>
        rw [split, h, List.append_assoc, trimStartAppendBlank frontBlank, List.cons_append,
          trimStartSolid (trimStartHead h), ← List.cons_append, trimEndAppendBlank blank]

theorem trimOfTrimmedEnd {text : List Char} (h : trimEnd text = text) : trim text = trimStart text := by
  obtain ⟨front, _, split⟩ := trimStartSplit text
  cases start : trimStart text with
  | nil => rw [trim, start]; rfl
  | cons c rest =>
      have solid : allBlank (c :: rest) = false := by simp [allBlank, trimStartHead start]
      rw [start] at split
      rw [split, trimEndAppendSolid solid] at h
      rw [trim, start, List.append_cancel_left h]

theorem trimTrimEnd (text : List Char) : trim (trimEnd text) = trim text := by
  obtain ⟨tail, blank, split⟩ := trimEndSplit text
  rw [← trimAppendBlank blank (trimEnd text), ← split]

theorem trimPrependBlank {front : List Char} (blank : allBlank front = true) (text : List Char) :
    trim (front ++ text) = trim text := by rw [trim, trimStartAppendBlank blank, ← trim]

theorem trimNil {text : List Char} : trim text = [] ↔ allBlank text = true := by
  rw [trim, trimEndNil]
  constructor
  · intro blank
    obtain ⟨front, frontBlank, split⟩ := trimStartSplit text
    rw [split, allBlank, List.all_append, Bool.and_eq_true]
    exact ⟨frontBlank, blank⟩
  · intro blank
    rw [trimStartNil.mpr blank]
    rfl

theorem trimHead {text rest : List Char} {c : Char} (h : trim text = c :: rest) : isBlank c = false := by
  cases start : trimStart text with
  | nil => rw [trim, start] at h; contradiction
  | cons d more =>
      have solid := trimStartHead start
      rw [trim, start, trimEndHead solid] at h
      exact (List.cons.inj h).1 ▸ solid

theorem trimTwice (text : List Char) : trim (trim text) = trim text := by
  cases h : trim text with
  | nil => rfl
  | cons c rest =>
      rw [trim, trimStartSolid (trimHead h), ← h]
      exact trimEndTwice _

theorem trimSolid {text : List Char} (some : trim text ≠ []) : allBlank (trim text) = false := by
  rw [← Bool.not_eq_true, ← trimNil, trimTwice]
  exact some

end DeclOrder.Text
