import DeclOrder.Hcl.Template
import DeclOrder.Proofs.Reading
import DeclOrder.Proofs.Hcl.Respacing

/-! Readers of single tokens. Nothing is respaced inside a token, so what they read of respaced texts is
the same. -/
namespace DeclOrder.Hcl
open Text Reader

/-- Reads the same of respaced texts and leaves respaced texts. -/
def Firm {α : Type} (r : Reader α) : Prop := ∀ ⦃t t' : List Char⦄, Respaced t t' →
  (r t = none ∧ r t' = none) ∨ ∃ v u u', r t = some (v, u) ∧ r t' = some (v, u') ∧ Respaced u u'

/-- A character that may stand inside a token. -/
def Inside (c : Char) : Prop := isBlank c = false ∧ c ≠ '='

instance (c : Char) : Decidable (Inside c) := inferInstanceAs (Decidable (_ ∧ _))

def AllInside (text : List Char) : Prop := ∀ c ∈ text, Inside c

instance (text : List Char) : Decidable (AllInside text) :=
  decidable_of_iff (text.all fun c => decide (Inside c)) (by simp [AllInside])

section
variable {α β : Type} {r : Reader α} {k : α → Reader β} {t t' u u' : List Char}

theorem Respaced.inside {c : Char} (inside : Inside c) (h : Respaced (c :: t) t') :
    ∃ w, t' = c :: w ∧ Respaced t w := h.tail inside.1 inside.2

theorem Respaced.head {c d : Char} (inside : Inside c) (h : Respaced (d :: t) (c :: t')) : d = c := by
  obtain ⟨w, same, _⟩ := h.symm.inside inside
  exact (List.cons.inj same).1

theorem firmPure (v : α) : Firm (pure v : Reader α) := fun _ _ h => .inr ⟨v, _, _, rfl, rfl, h⟩

theorem firmFailure : Firm (failure : Reader α) := fun _ _ _ => .inl ⟨rfl, rfl⟩

theorem firmBind (firm : Firm r) (more : ∀ a, Firm (k a)) : Firm (r >>= k) := by
  intro t t' h
  rcases firm h with ⟨fails, fails'⟩ | ⟨v, u, u', reads, reads', rest⟩
  · refine .inl ⟨?_, ?_⟩
    · change (r t).bind _ = none
      rw [fails, Option.bind_none]
    · change (r t').bind _ = none
      rw [fails', Option.bind_none]
  · have left : (r >>= k) t = k v u := by
      change (r t).bind _ = _
      rw [reads, Option.bind_some]
    have right : (r >>= k) t' = k v u' := by
      change (r t').bind _ = _
      rw [reads', Option.bind_some]
    rw [left, right]
    exact more v rest

theorem firmTried (firm : Firm r) : Firm (tried r) := by
  intro t t' h
  rcases firm h with ⟨fails, fails'⟩ | ⟨v, u, u', reads, reads', rest⟩
  · exact .inr ⟨none, t, t', triedSome.mpr (.inr ⟨rfl, rfl, fails⟩), triedSome.mpr (.inr ⟨rfl, rfl, fails'⟩), h⟩
  · exact .inr ⟨some v, u, u', triedSome.mpr (.inl ⟨v, rfl, reads⟩), triedSome.mpr (.inl ⟨v, rfl, reads'⟩), rest⟩

theorem firmGiven {r : Reader Unit} (firm : Firm r) : Firm (given r) :=
  firmBind (firmTried firm) fun _ => firmPure _

theorem firmIf {p : Prop} [Decidable p] {r r' : Reader α} (yes : Firm r) (no : Firm r') : Firm (if p then r else r') := by
  split
  · exact yes
  · exact no

theorem Firm.both (firm : Firm r) (h : Respaced t t') {v v' : α} (reads : r t = some (v, u))
    (reads' : r t' = some (v', u')) : v = v' ∧ Respaced u u' := by
  rcases firm h with ⟨fails, _⟩ | ⟨w, x, x', same, same', rest⟩
  · rw [fails] at reads
    contradiction
  · rw [same] at reads
    rw [same'] at reads'
    cases reads
    cases reads'
    exact ⟨rfl, rest⟩

theorem firmChar {c : Char} (inside : Inside c) : Firm (char c) := by
  intro t t' h
  cases read : char c t with
  | some p =>
      obtain ⟨x, u⟩ := p
      cases charSome.mp read
      obtain ⟨w, rfl, rest⟩ := h.inside inside
      exact .inr ⟨x, u, w, rfl, charSome.mpr rfl, rest⟩
  | none =>
      cases read' : char c t' with
      | none => exact .inl ⟨rfl, rfl⟩
      | some p =>
          obtain ⟨x, u⟩ := p
          cases charSome.mp read'
          obtain ⟨w, rfl, _⟩ := h.symm.inside inside
          rw [charSome (x := x) |>.mpr rfl] at read
          contradiction

theorem wordCons (c : Char) (w : List Char) : word (c :: w) = (char c >>= fun _ => word w) := by
  funext t
  refine Option.ext fun p => ?_
  obtain ⟨x, u⟩ := p
  rw [bindSome, wordSome]
  constructor
  · rintro rfl
    exact ⟨(), w ++ u, charSome.mpr rfl, wordSome.mpr rfl⟩
  · rintro ⟨_, v, first, second⟩
    rw [charSome.mp first, wordSome.mp second]
    rfl

theorem firmWord {w : List Char} (inside : AllInside w) : Firm (word w) := by
  induction w with
  | nil => exact fun _ _ h => .inr ⟨(), _, _, rfl, rfl, h⟩
  | cons c rest ih =>
      rw [wordCons]
      exact firmBind (firmChar (inside c List.mem_cons_self)) fun _ =>
        ih fun d member => inside d (List.mem_cons_of_mem _ member)

theorem Respaced.front (front : List Char) (inside : AllInside front) (h : Respaced (front ++ u) t') :
    ∃ u', t' = front ++ u' ∧ Respaced u u' := by
  induction front generalizing t' with
  | nil => exact ⟨t', rfl, h⟩
  | cons c rest ih =>
      obtain ⟨w, rfl, behind⟩ := h.inside (inside c List.mem_cons_self)
      obtain ⟨u', rfl, last⟩ := ih (fun d member => inside d (List.mem_cons_of_mem _ member)) behind
      exact ⟨u', rfl, last⟩

theorem Respaced.takeWhile {p : Char → Bool} (inside : ∀ c, p c = true → Inside c) (h : Respaced t t') :
    t.takeWhile p = t'.takeWhile p ∧ Respaced (t.dropWhile p) (t'.dropWhile p) := by
  induction t generalizing t' with
  | nil =>
      cases t' with
      | nil => exact ⟨rfl, h⟩
      | cons d w =>
          cases part : p d with
          | false => simpa [part] using h
          | true =>
              obtain ⟨_, same, _⟩ := h.symm.inside (inside d part)
              contradiction
  | cons c w ih =>
      cases part : p c with
      | true =>
          obtain ⟨w', rfl, rest⟩ := h.inside (inside c part)
          obtain ⟨same, behind⟩ := ih rest
          simp [part, same, behind]
      | false =>
          cases t' with
          | nil => simpa [part] using h
          | cons d w' =>
              cases part' : p d with
              | false => simpa [part, part'] using h
              | true =>
                  rw [h.head (inside d part'), part'] at part
                  contradiction

/-- A reader is firm if what it takes may stand inside tokens and what it leaves matters only up to white space. -/
theorem firmOfTaken (taken : ∀ t v u, r t = some (v, u) → ∃ front, AllInside front ∧ t = front ++ u ∧
    ∀ u', Respaced u u' → r (front ++ u') = some (v, u')) : Firm r := by
  intro t t' h
  cases read : r t with
  | some p =>
      obtain ⟨v, u⟩ := p
      obtain ⟨front, inside, rfl, again⟩ := taken t v u read
      obtain ⟨u', rfl, rest⟩ := h.front front inside
      exact .inr ⟨v, u, u', rfl, again u' rest, rest⟩
  | none =>
      cases read' : r t' with
      | none => exact .inl ⟨rfl, rfl⟩
      | some p =>
          obtain ⟨v, u⟩ := p
          obtain ⟨front, inside, rfl, again⟩ := taken t' v u read'
          obtain ⟨u', rfl, rest⟩ := h.symm.front front inside
          rw [again u' rest] at read
          contradiction

theorem digitInside {c : Char} (digit : Text.isDigit c = true) : Inside c := by
  simp only [Text.isDigit, Bool.and_eq_true, decide_eq_true_eq, Char.le_def, UInt32.le_iff_toNat_le] at digit
  have low : 48 ≤ c.toNat := digit.1
  have high : c.toNat ≤ 57 := digit.2
  refine ⟨solidRange (by omega) (by omega), ?_⟩
  rintro rfl
  exact absurd high (by decide)

theorem firmDigits : Firm digits := by
  intro t t' h
  obtain ⟨same, rest⟩ := h.takeWhile fun _ => digitInside
  unfold digits
  dsimp only
  rw [same]
  split
  · exact .inl ⟨rfl, rfl⟩
  · exact .inr ⟨_, _, _, rfl, rfl, rest⟩

end

def blankValues : List Nat :=
  List.range' 9 5 ++ [32, 0x85, 0xA0, 0x1680] ++ List.range' 0x2000 11 ++ [0x2028, 0x2029, 0x202F, 0x205F, 0x3000]

theorem blankValue {c : Char} (blank : isBlank c = true) : c.toNat ∈ blankValues := by
  simp only [isBlank, Bool.or_eq_true, Bool.and_eq_true, decide_eq_true_eq, beq_iff_eq,
    UInt32.le_iff_toNat_le, ← UInt32.toNat_inj, UInt32.reduceToNat] at blank
  change c.val.toNat ∈ blankValues
  simp only [blankValues, List.mem_append, List.mem_range'_1, List.mem_cons, List.not_mem_nil, or_false]
  omega

theorem blankContinuesNothing : ∀ n ∈ blankValues, continuesIdentifier (Char.ofNat n) = false := by decide +kernel

theorem continuesInside {c : Char} (part : continuesIdentifier c = true) : Inside c := by
  refine ⟨?_, ?_⟩
  · cases blank : isBlank c with
    | false => rfl
    | true =>
        have none := blankContinuesNothing c.toNat (blankValue blank)
        rw [Char.ofNat_toNat, part] at none
        contradiction
  · rintro rfl
    revert part
    decide

theorem startsContinues {c : Char} (start : startsIdentifier c = true) : continuesIdentifier c = true := by
  simp only [startsIdentifier, Bool.or_eq_true, beq_iff_eq] at start
  rcases start with rfl | start
  · decide
  · simp [continuesIdentifier, Text.xidStartContinues c start]

theorem identifierSome {t u : List Char} {v : String} : Read.identifier t = some (v, u) ↔
    ∃ c w, t = c :: w ∧ startsIdentifier c = true ∧ String.ofList (c :: w.takeWhile continuesIdentifier) = v ∧
      w.dropWhile continuesIdentifier = u := by
  unfold Read.identifier
  cases t with
  | nil => simp
  | cons c w =>
      dsimp only
      split
      · rename_i start
        constructor
        · intro h
          cases h
          exact ⟨c, w, rfl, start, rfl, rfl⟩
        · rintro ⟨d, x, same, _, rfl, rfl⟩
          obtain ⟨rfl, rfl⟩ := List.cons.inj same
          rfl
      · rename_i other
        constructor
        · intro h
          contradiction
        · rintro ⟨d, x, same, start, _⟩
          rw [← (List.cons.inj same).1] at start
          exact absurd start other

theorem firmIdentifier : Firm Read.identifier := by
  intro t t' h
  cases read : Read.identifier t with
  | some p =>
      obtain ⟨v, u⟩ := p
      obtain ⟨c, w, rfl, start, rfl, rfl⟩ := identifierSome.mp read
      obtain ⟨w', rfl, rest⟩ := h.inside (continuesInside (startsContinues start))
      obtain ⟨same, behind⟩ := rest.takeWhile fun _ => continuesInside
      exact .inr ⟨_, _, _, rfl, identifierSome.mpr ⟨c, w', rfl, start, by rw [same], rfl⟩, behind⟩
  | none =>
      cases read' : Read.identifier t' with
      | none => exact .inl ⟨rfl, rfl⟩
      | some p =>
          obtain ⟨v, u⟩ := p
          obtain ⟨c, w, rfl, start, _, _⟩ := identifierSome.mp read'
          obtain ⟨w', rfl, _⟩ := h.symm.inside (continuesInside (startsContinues start))
          rw [identifierSome.mpr ⟨c, w', rfl, start, rfl, rfl⟩] at read
          contradiction

theorem firmWholeNumber : Firm Read.wholeNumber :=
  firmBind firmDigits fun _ => firmIf (firmPure _) firmFailure

theorem firmFraction : Firm Read.fraction := firmBind (firmChar (by decide)) fun _ => firmDigits

theorem firmPower : Firm Read.power := by
  have sign : Firm (do
      if ← given (char '-') then return (['-'], ← digits)
      let _ ← given (char '+')
      return ([], ← digits) : Reader (List Char × List Char)) := by
    refine firmBind (firmGiven (firmChar (by decide))) fun minus => firmIf ?_ ?_
    · exact firmBind firmDigits fun _ => firmPure _
    · exact firmBind (firmGiven (firmChar (by decide))) fun _ => firmBind firmDigits fun _ => firmPure _
  refine firmBind (firmGiven (firmChar (by decide))) fun small => firmIf ?_ ?_
  · exact sign
  · exact firmBind (firmChar (by decide)) fun _ => sign

theorem firmNumber : Firm Read.number := by
  refine firmBind firmDigits fun whole => firmBind (firmTried firmFraction) fun part =>
    firmBind (firmTried firmPower) fun scale => ?_
  split
  · exact firmIf (firmPure _) firmFailure
  · dsimp only
    split
    · exact firmPure _
    · exact firmFailure

theorem hexInside {c : Char} {n : Nat} (hex : hexValue? c = some n) : Inside c := by
  have range : 48 ≤ c.toNat ∧ c.toNat ≤ 57 ∨ 65 ≤ c.toNat ∧ c.toNat ≤ 102 := by
    simp only [hexValue?, Text.isDigit, Bool.and_eq_true, decide_eq_true_eq, Char.le_def, UInt32.le_iff_toNat_le] at hex
    change _ = _ at hex
    split at hex
    · rename_i digit
      exact .inl digit
    · split at hex
      · rename_i small
        have low : 97 ≤ c.toNat := small.1
        have high : c.toNat ≤ 102 := small.2
        omega
      · split at hex
        · rename_i capital
          have low : 65 ≤ c.toNat := capital.1
          have high : c.toNat ≤ 70 := capital.2
          omega
        · contradiction
  refine ⟨solidRange (by omega) (by omega), ?_⟩
  rintro rfl
  exact absurd range (by decide)

theorem hexRun {text : List Char} {found : List Nat} (hex : text.mapM hexValue? = some found) :
    found.length = text.length ∧ AllInside text := by
  induction text generalizing found with
  | nil =>
      cases hex
      exact ⟨rfl, fun _ member => absurd member List.not_mem_nil⟩
  | cons c rest ih =>
      rw [List.mapM_cons] at hex
      obtain ⟨n, first, more⟩ := Option.bind_eq_some_iff.mp hex
      obtain ⟨ns, second, done⟩ := Option.bind_eq_some_iff.mp more
      cases done
      obtain ⟨length, inside⟩ := ih second
      exact ⟨by simp [length], List.forall_mem_cons.mpr ⟨hexInside first, inside⟩⟩

theorem hexTaken {n : Nat} {t u : List Char} {v : Nat} (read : hexOf n t = some (v, u)) :
    ∃ front, AllInside front ∧ t = front ++ u ∧ ∀ u', hexOf n (front ++ u') = some (v, u') := by
  unfold hexOf at read
  obtain ⟨found, hex, rest⟩ := Option.bind_eq_some_iff.mp read
  split at rest
  · rename_i length
    cases rest
    obtain ⟨same, inside⟩ := hexRun hex
    refine ⟨t.take n, inside, (List.take_append_drop n t).symm, fun u' => ?_⟩
    have size : (t.take n).length = n := same.symm.trans length
    simp only [hexOf, List.take_left' size, List.drop_left' size, hex, bind, Option.bind_some, if_pos length]
  · contradiction

theorem scalarTaken {n : Nat} {t u : List Char} {v : Char} (read : scalarOf n t = some (v, u)) :
    ∃ front, AllInside front ∧ t = front ++ u ∧ ∀ u', scalarOf n (front ++ u') = some (v, u') := by
  obtain ⟨value, w, hex, more⟩ := bindSome.mp read
  obtain ⟨front, inside, rfl, again⟩ := hexTaken hex
  split at more
  · rename_i valid
    obtain ⟨rfl, rfl⟩ := pureSome.mp more
    refine ⟨front, inside, rfl, fun u' => bindSome.mpr ⟨value, u', again u', ?_⟩⟩
    rw [if_pos valid]
    rfl
  · exact absurd more failureSome

theorem escapeTaken {t u : List Char} {v : Char} (read : escape? t = some (v, u)) :
    ∃ front, AllInside front ∧ t = front ++ u ∧ ∀ u', escape? (front ++ u') = some (v, u') := by
  have one (c : Char) (inside : Inside c) (reads : ∀ u', escape? (c :: u') = some (v, u')) :
      ∃ front, AllInside front ∧ c :: u = front ++ u ∧ ∀ u', escape? (front ++ u') = some (v, u') :=
    ⟨[c], fun d member => List.mem_singleton.mp member ▸ inside, rfl, reads⟩
  unfold escape? at read
  split at read
  · cases read; exact one 'n' (by decide) fun _ => rfl
  · cases read; exact one 'r' (by decide) fun _ => rfl
  · cases read; exact one 't' (by decide) fun _ => rfl
  · cases read; exact one 'b' (by decide) fun _ => rfl
  · cases read; exact one 'f' (by decide) fun _ => rfl
  · cases read; exact one '\\' (by decide) fun _ => rfl
  · cases read; exact one '"' (by decide) fun _ => rfl
  · cases read; exact one '/' (by decide) fun _ => rfl
  · obtain ⟨front, inside, rfl, again⟩ := scalarTaken read
    exact ⟨'u' :: front, List.forall_mem_cons.mpr ⟨by decide, inside⟩, rfl, again⟩
  · obtain ⟨front, inside, rfl, again⟩ := scalarTaken read
    exact ⟨'U' :: front, List.forall_mem_cons.mpr ⟨by decide, inside⟩, rfl, again⟩
  · contradiction

theorem firmEscape : Firm escape? := firmOfTaken fun _ _ _ read => by
  obtain ⟨front, inside, whole, again⟩ := escapeTaken read
  exact ⟨front, inside, whole, fun u' _ => again u'⟩

end DeclOrder.Hcl
