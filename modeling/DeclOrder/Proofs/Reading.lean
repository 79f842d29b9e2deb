import DeclOrder.Text.Digits

/-! What it takes for steps and readers to succeed, and how much of a text they take and leave. -/
namespace DeclOrder

variable {α β ε φ : Type}

theorem bindOk {x : Except ε α} {f : α → Except ε β} {b : β} :
    (x >>= f) = .ok b ↔ ∃ a, x = .ok a ∧ f a = .ok b := by
  cases x <;> simp [bind, Except.bind]

theorem mapErrorOk {x : Except ε α} {f : ε → φ} {a : α} : x.mapError f = .ok a ↔ x = .ok a := by
  cases x with
  | error e => exact ⟨nofun, nofun⟩
  | ok value => exact ⟨fun same => by cases same; rfl, fun same => by cases same; rfl⟩

theorem toOptionOk {x : Except ε α} {a : α} : x.toOption = some a ↔ x = .ok a := by
  cases x <;> simp [Except.toOption]

end DeclOrder

namespace DeclOrder.Text

theorem takeWhileStop {α : Type} {p : α → Bool} {c : α} (stop : p c = false) (front rest : List α) :
    (front ++ c :: rest).takeWhile p = front.takeWhile p := by
  induction front with
  | nil => simp [stop]
  | cons d tail ih => simp [List.takeWhile_cons, ih]

theorem memIntercalate {separator c : Char} {pieces : List (List Char)} (member : c ∈ [separator].intercalate pieces) :
    c = separator ∨ ∃ piece ∈ pieces, c ∈ piece := by
  induction pieces with
  | nil => cases member
  | cons piece rest ih =>
      cases rest with
      | nil => exact .inr ⟨piece, List.mem_cons_self, by simpa using member⟩
      | cons next rest =>
          rw [List.intercalate_cons_cons, List.append_assoc, List.mem_append, List.mem_append, List.mem_singleton] at member
          rcases member with first | between | later
          · exact .inr ⟨piece, List.mem_cons_self, first⟩
          · exact .inl between
          · exact (ih later).imp_right (fun ⟨n, among, found⟩ => ⟨n, List.mem_cons_of_mem _ among, found⟩)

end DeclOrder.Text

namespace DeclOrder.Reader
variable {α β : Type} {r : Reader α} {k : α → Reader β} {t u : List Char}

theorem pureSome {v w : α} : (pure v : Reader α) t = some (w, u) ↔ v = w ∧ t = u := by
  change some (v, t) = some (w, u) ↔ _
  rw [Option.some.injEq, Prod.mk.injEq]

theorem bindSome {v : β} : (r >>= k) t = some (v, u) ↔ ∃ a w, r t = some (a, w) ∧ k a w = some (v, u) := by
  change (r t).bind (fun p => k p.1 p.2) = some (v, u) ↔ _
  rw [Option.bind_eq_some_iff]
  exact ⟨fun ⟨p, read, more⟩ => ⟨p.1, p.2, read, more⟩, fun ⟨a, w, read, more⟩ => ⟨(a, w), read, more⟩⟩

theorem failureSome {v : α} : ¬ (failure : Reader α) t = some (v, u) := by
  intro h
  change none = some (v, u) at h
  contradiction

theorem charSome {c : Char} {x : Unit} : char c t = some (x, u) ↔ t = c :: u := by
  unfold char
  split
  · split
    · rename_i same
      simp [same]
    · rename_i other
      simp [Ne.symm other]
  · simp

theorem charNone {c : Char} (other : t.head? ≠ some c) : char c t = none := by
  refine Option.eq_none_iff_forall_ne_some.mpr fun p found => other ?_
  rw [charSome.mp found, List.head?_cons]

theorem wordSome {w : List Char} {x : Unit} : word w t = some (x, u) ↔ t = w ++ u := by
  unfold word
  split
  · rename_i front
    obtain ⟨rest, rfl⟩ := List.isPrefixOf_iff_prefix.mp front
    simp
  · rename_i other
    refine ⟨fun h => absurd h (by simp), fun h => absurd ?_ other⟩
    exact List.isPrefixOf_iff_prefix.mpr ⟨u, h.symm⟩

theorem skipSome {step : List Char → List Char} {x : Unit} : skip step t = some (x, u) ↔ step t = u := by
  simp [skip]

theorem leftSome {v : List Char} : left t = some (v, u) ↔ t = v ∧ t = u := by
  simp [left]

theorem setSome {s : List Char} {x : Unit} : (set s : Reader Unit) t = some (x, u) ↔ s = u := by
  change some ((), s) = some (x, u) ↔ _
  simp

theorem triedSome {v : Option α} : tried r t = some (v, u) ↔
    (∃ a, v = some a ∧ r t = some (a, u)) ∨ (v = none ∧ t = u ∧ r t = none) := by
  unfold tried
  split <;> rename_i read
  · simp only [read, Option.some.injEq, Prod.mk.injEq]
    constructor
    · rintro ⟨rfl, rfl⟩
      exact .inl ⟨_, rfl, rfl, rfl⟩
    · rintro (⟨a, rfl, rfl, rfl⟩ | ⟨_, _, h⟩)
      · exact ⟨rfl, rfl⟩
      · contradiction
  · simp only [Option.some.injEq, Prod.mk.injEq]
    constructor
    · rintro ⟨rfl, rfl⟩
      exact .inr ⟨rfl, rfl, read⟩
    · rintro (⟨a, _, h⟩ | ⟨rfl, rfl, _⟩)
      · rw [read] at h
        contradiction
      · exact ⟨rfl, rfl⟩

theorem givenSome {r : Reader Unit} {b : Bool} : given r t = some (b, u) ↔
    (b = true ∧ r t = some ((), u)) ∨ (b = false ∧ t = u ∧ r t = none) := by
  unfold given
  simp only [bindSome, pureSome, triedSome]
  constructor
  · rintro ⟨v, w, ⟨a, rfl, read⟩ | ⟨rfl, rfl, read⟩, rfl, rfl⟩
    · exact .inl ⟨rfl, read⟩
    · exact .inr ⟨rfl, rfl, read⟩
  · rintro (⟨rfl, read⟩ | ⟨rfl, rfl, read⟩)
    · exact ⟨some (), u, .inl ⟨(), rfl, read⟩, rfl, rfl⟩
    · exact ⟨none, t, .inr ⟨rfl, rfl, read⟩, rfl, rfl⟩

def Tail (r : Reader α) : Prop := ∀ ⦃t v u⦄, r t = some (v, u) → u <:+ t

def Short (r : Reader α) : Prop := ∀ ⦃t v u⦄, r t = some (v, u) → u <:+ t ∧ u.length < t.length

theorem Short.tail (short : Short r) : Tail r := fun _ _ _ read => (short read).1

theorem tailPure (v : α) : Tail (pure v : Reader α) := by
  intro t w u read
  obtain ⟨_, rfl⟩ := pureSome.mp read
  exact List.suffix_rfl

theorem tailFailure : Tail (failure : Reader α) := fun _ _ _ read => absurd read failureSome

theorem tailBind (tail : Tail r) (more : ∀ a, Tail (k a)) : Tail (r >>= k) := by
  intro t v u read
  obtain ⟨a, w, first, second⟩ := bindSome.mp read
  exact (more a second).trans (tail first)

theorem tailWord (w : List Char) : Tail (word w) := by
  intro t v u read
  rw [wordSome.mp read]
  exact List.suffix_append w u

theorem tailTried (tail : Tail r) : Tail (tried r) := by
  intro t v u read
  rcases triedSome.mp read with ⟨a, _, read⟩ | ⟨_, rfl, _⟩
  · exact tail read
  · exact List.suffix_rfl

theorem tailGiven {r : Reader Unit} (tail : Tail r) : Tail (given r) :=
  tailBind (tailTried tail) fun _ => tailPure _

theorem shortBind (short : Short r) (more : ∀ a, Tail (k a)) : Short (r >>= k) := by
  intro t v u read
  obtain ⟨a, w, first, second⟩ := bindSome.mp read
  have taken := short first
  exact ⟨(more a second).trans taken.1, Nat.lt_of_le_of_lt (more a second).length_le taken.2⟩

theorem shortBehind (tail : Tail r) (more : ∀ a, Short (k a)) : Short (r >>= k) := by
  intro t v u read
  obtain ⟨a, w, first, second⟩ := bindSome.mp read
  have taken := more a second
  exact ⟨taken.1.trans (tail first), Nat.lt_of_lt_of_le taken.2 (tail first).length_le⟩

theorem shortChar (c : Char) : Short (char c) := by
  intro t v u read
  rw [charSome.mp read]
  exact ⟨List.suffix_cons c u, Nat.lt_succ_self _⟩

theorem tailChar (c : Char) : Tail (char c) := (shortChar c).tail

theorem manyUpToCons {c : Char} {bound : List Char} {vs : List α} : manyUpTo r (c :: bound) t = some (vs, u) ↔
    (∃ v w more, r t = some (v, w) ∧ manyUpTo r bound w = some (more, u) ∧ v :: more = vs) ∨
      (r t = none ∧ [] = vs ∧ t = u) := by
  rw [manyUpTo]
  dsimp only
  cases first : r t with
  | none => simp
  | some p =>
      simp only [bindSome, pureSome, Option.some.injEq, reduceCtorEq, false_and, or_false]
      constructor
      · rintro ⟨more, w, second, rfl, rfl⟩
        exact ⟨p.1, p.2, more, rfl, second, rfl⟩
      · rintro ⟨v, w, more, rfl, second, rfl⟩
        exact ⟨more, u, second, rfl, rfl⟩

theorem tailManyUpTo (tail : Tail r) (bound : List Char) : Tail (manyUpTo r bound) := by
  induction bound with
  | nil => exact tailPure _
  | cons c rest ih =>
      intro t v u read
      rcases manyUpToCons.mp read with ⟨v, w, more, first, second, _⟩ | ⟨_, _, rfl⟩
      · exact (ih second).trans (tail first)
      · exact List.suffix_rfl

theorem tailMany (tail : Tail r) : Tail (many r) := fun _ _ _ read => tailManyUpTo tail _ read

theorem tailSeparated (tail : Tail r) : Tail (separated r) := by
  refine tailBind (tailTried tail) fun first => ?_
  cases first with
  | none => exact tailPure _
  | some v => exact tailBind (tailMany (tailBind (tailChar ',') fun _ => tail)) fun _ => tailPure _

inductive Run (r : Reader α) : List Char → List α → List Char → Prop where
  | stop {t : List Char} (fails : r t = none) : Run r t [] t
  | step {t w u : List Char} {v : α} {vs : List α} (reads : r t = some (v, w)) (more : Run r w vs u) :
      Run r t (v :: vs) u

theorem manyUpToRun (short : Short r) {bound : List Char} {vs : List α} (enough : t.length ≤ bound.length)
    (read : manyUpTo r bound t = some (vs, u)) : Run r t vs u := by
  induction bound generalizing t vs with
  | nil =>
      obtain ⟨rfl, rfl⟩ := pureSome.mp read
      refine .stop (Option.eq_none_iff_forall_ne_some.mpr fun p found => ?_)
      have taken : p.2.length < t.length := (short found).2
      exact Nat.not_lt_zero _ (Nat.lt_of_lt_of_le taken enough)
  | cons c rest ih =>
      rcases manyUpToCons.mp read with ⟨v, w, more, first, second, rfl⟩ | ⟨fails, rfl, rfl⟩
      · have taken := (short first).2
        rw [List.length_cons] at enough
        exact .step first (ih (by omega) second)
      · exact .stop fails

theorem manyRun (short : Short r) {vs : List α} (read : many r t = some (vs, u)) : Run r t vs u :=
  manyUpToRun short (Nat.le_refl _) read

theorem manyUpToOfRun {bound : List Char} {vs : List α} (run : Run r t vs u) (enough : vs.length ≤ bound.length) :
    manyUpTo r bound t = some (vs, u) := by
  induction run generalizing bound with
  | stop fails =>
      cases bound with
      | nil => rfl
      | cons c rest => exact manyUpToCons.mpr (.inr ⟨fails, rfl, rfl⟩)
  | step reads more ih =>
      cases bound with
      | nil => exact absurd enough (Nat.not_succ_le_zero _)
      | cons c rest => exact manyUpToCons.mpr (.inl ⟨_, _, _, reads, ih (Nat.le_of_succ_le_succ enough), rfl⟩)

theorem manyOfRun {vs : List α} (run : Run r t vs u) (enough : vs.length ≤ t.length) : many r t = some (vs, u) :=
  manyUpToOfRun run enough

theorem Run.view {q : Reader β} {f : α → β} (reads : ∀ t v u, r t = some (v, u) → q t = some (f v, u))
    (fails : ∀ t, r t = none → q t = none) {vs : List α} (run : Run r t vs u) : Run q t (vs.map f) u := by
  induction run with
  | stop none => exact .stop (fails _ none)
  | step some _ ih => exact .step (reads _ _ _ some) ih

/-! Runs of digits are read as far as they go. -/

open Text

def Undigited (rest : List Char) : Prop := ∀ c ∈ rest.head?, isDigit c = false

theorem digitsTaken {found rest : List Char} (all : ∀ c ∈ found, isDigit c) (some : found ≠ []) (ends : Undigited rest) :
    digits (found ++ rest) = .some (found, rest) := by
  have stopped : rest.takeWhile isDigit = [] ∧ rest.dropWhile isDigit = rest := by
    cases rest with
    | nil => exact ⟨rfl, rfl⟩
    | cons c more =>
        have other : ¬ isDigit c := by simp [ends c rfl]
        exact ⟨List.takeWhile_cons_of_neg other, List.dropWhile_cons_of_neg other⟩
  have taken : (found ++ rest).takeWhile isDigit = found := by
    rw [List.takeWhile_append_of_pos all, stopped.1, List.append_nil]
  have dropped : (found ++ rest).dropWhile isDigit = rest := by
    rw [List.dropWhile_append_of_pos all, stopped.2]
  simp [digits, taken, dropped, some]

end DeclOrder.Reader
