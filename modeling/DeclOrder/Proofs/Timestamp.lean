import DeclOrder.Text.Digits
import DeclOrder.Proofs.Reading
import DeclOrder.Timestamp

/-! Representable timestamps are read back from their texts. -/
namespace DeclOrder.Timestamp
open Reader

/-! Digits. -/

theorem digitCharValue {d : Nat} (small : d < 10) : Text.isDigit (Nat.digitChar d) ∧ Text.digitValue (Nat.digitChar d) = d := by
  have all : ∀ d : Fin 10, Text.isDigit (Nat.digitChar d) ∧ Text.digitValue (Nat.digitChar d) = d.val := by decide
  exact all ⟨d, small⟩

theorem digitsOfLength (n value : Nat) : (digitsOf n value).length = n := by
  induction n generalizing value with
  | zero => rfl
  | succ n ih => simp [digitsOf, ih]

theorem digitsOfDigit (n value : Nat) : ∀ c ∈ digitsOf n value, Text.isDigit c := by
  induction n generalizing value with
  | zero => exact fun c member => absurd member List.not_mem_nil
  | succ n ih =>
      intro c member
      rcases List.mem_append.mp member with front | last
      · exact ih _ c front
      · rw [List.mem_singleton.mp last]
        exact (digitCharValue (Nat.mod_lt _ (by decide))).1

theorem tenToSucc (n : Nat) : tenTo (n + 1) = tenTo n * 10 := Nat.pow_succ 10 n

theorem digitsOfValue {n value : Nat} (small : value < tenTo n) : Text.decimalValue (digitsOf n value) = value := by
  induction n generalizing value with
  | zero =>
      have zero : value = 0 := Nat.lt_one_iff.mp small
      rw [zero]
      rfl
  | succ n ih =>
      have front := @ih (value / 10) (by rw [tenToSucc] at small; omega)
      have last := (digitCharValue (Nat.mod_lt value (show 0 < 10 by decide))).2
      rw [Text.decimalValue, digitsOf, List.foldl_append]
      rw [Text.decimalValue] at front
      rw [front, List.foldl_cons, List.foldl_nil, last]
      omega

theorem decimalOfDigits {n value : Nat} (small : value < tenTo n) (rest : List Char) :
    decimalOf n (digitsOf n value ++ rest) = some (value, rest) := by
  have length := digitsOfLength n value
  have taken : (digitsOf n value ++ rest).take n = digitsOf n value := List.take_left' length
  have dropped : (digitsOf n value ++ rest).drop n = rest := List.drop_left' length
  have all : (digitsOf n value).all Text.isDigit = true := List.all_eq_true.mpr (digitsOfDigit n value)
  simp [decimalOf, taken, dropped, length, all, digitsOfValue small]

/-! Fractions of a second. -/

def trimmed (digits : List Char) : List Char := (digits.reverse.dropWhile (· == '0')).reverse

theorem trimmedZeros (digits : List Char) : ∃ zeros, digits = trimmed digits ++ List.replicate zeros '0' := by
  have zeros : ∀ c ∈ digits.reverse.takeWhile (· == '0'), c = '0' := by
    intro c member
    simpa using List.all_eq_true.mp List.all_takeWhile c member
  refine ⟨(digits.reverse.takeWhile (· == '0')).length, ?_⟩
  calc digits
      = (digits.reverse.takeWhile (· == '0') ++ digits.reverse.dropWhile (· == '0')).reverse := by
        rw [List.takeWhile_append_dropWhile, List.reverse_reverse]
    _ = trimmed digits ++ (digits.reverse.takeWhile (· == '0')).reverse := by rw [List.reverse_append, trimmed]
    _ = _ := by
        rw [List.eq_replicate_of_mem zeros, List.reverse_replicate, List.length_replicate]

theorem trimmedFilled {digits : List Char} {n : Nat} (length : digits.length = n) :
    (trimmed digits ++ List.replicate n '0').take n = digits := by
  obtain ⟨zeros, whole⟩ := trimmedZeros digits
  have sizes := congrArg List.length whole
  rw [List.length_append, List.length_replicate] at sizes
  conv => rhs; rw [whole]
  rw [List.take_append, List.take_replicate, List.take_of_length_le (by omega), Nat.min_eq_left (by omega)]
  congr 2
  omega

theorem trimmedMem {digits : List Char} {c : Char} (member : c ∈ trimmed digits) : c ∈ digits := by
  obtain ⟨zeros, whole⟩ := trimmedZeros digits
  rw [whole]
  exact List.mem_append_left _ member

def Unpointed (rest : List Char) : Prop := Undigited rest ∧ rest.head? ≠ some '.'

theorem fractionWritten {nanosecond : Nat} (small : nanosecond < tenTo 9) {rest : List Char} (ends : Unpointed rest) :
    ∃ found, tried Read.fraction (fractionText nanosecond ++ rest) = some (found, rest) ∧ found.getD 0 = nanosecond := by
  by_cases whole : nanosecond = 0
  · subst whole
    refine ⟨none, triedSome.mpr (.inr ⟨rfl, rfl, Option.eq_none_iff_forall_ne_some.mpr fun p found => ?_⟩), rfl⟩
    obtain ⟨_, _, point, _⟩ := bindSome.mp found
    exact ends.2 (congrArg List.head? (charSome.mp point))
  · refine ⟨some nanosecond, triedSome.mpr (.inl ⟨_, rfl, ?_⟩), rfl⟩
    have value := digitsOfValue small
    have start : fractionText nanosecond ++ rest = '.' :: (trimmed (digitsOf 9 nanosecond) ++ rest) := by
      rw [fractionText, if_neg whole]
      rfl
    have some : trimmed (digitsOf 9 nanosecond) ≠ [] := by
      intro none
      have filled := trimmedFilled (digitsOfLength 9 nanosecond)
      rw [none] at filled
      rw [← filled] at value
      exact whole value.symm
    have read := digitsTaken (fun c member => digitsOfDigit 9 nanosecond c (trimmedMem member)) some ends.1
    refine bindSome.mpr ⟨(), _, charSome.mpr start, bindSome.mpr ⟨_, rest, read, pureSome.mpr ⟨?_, rfl⟩⟩⟩
    rw [trimmedFilled (digitsOfLength 9 nanosecond), value]

/-! Offsets. -/

theorem offsetUnpointed (offset : Int) : Unpointed (offsetText offset) := by
  unfold offsetText Unpointed Undigited
  split
  · simp; decide
  · split <;> simp <;> decide

theorem offsetWritten {offset : Int} (day : offset.natAbs < 24 * 60) :
    Read.offset (offsetText offset) = some (offset, []) := by
  unfold offsetText
  by_cases zero : offset = 0
  · rw [if_pos zero, zero]
    rfl
  rw [if_neg zero]
  have two : tenTo 2 = 100 := rfl
  have hours := @decimalOfDigits 2 (offset.natAbs / 60) (by omega) (':' :: digitsOf 2 (offset.natAbs % 60))
  have minutes := @decimalOfDigits 2 (offset.natAbs % 60) (by omega) []
  have inDay : offset.natAbs / 60 ≤ 23 ∧ offset.natAbs % 60 ≤ 59 := by omega
  rw [List.append_nil] at minutes
  by_cases negative : offset < 0
  · rw [if_pos negative]
    have value : -((60 * (offset.natAbs / 60) + offset.natAbs % 60 : Nat) : Int) = offset := by omega
    refine bindSome.mpr ⟨false, _, rfl, bindSome.mpr ⟨true, _, rfl, ?_⟩⟩
    refine bindSome.mpr ⟨_, _, hours, bindSome.mpr ⟨(), _, rfl, bindSome.mpr ⟨_, _, minutes, ?_⟩⟩⟩
    rw [if_pos inDay, if_pos rfl, value]
    rfl
  · rw [if_neg negative]
    have value : 60 * ((offset.natAbs / 60 : Nat) : Int) + (offset.natAbs % 60 : Nat) = offset := by omega
    refine bindSome.mpr ⟨false, _, rfl, bindSome.mpr ⟨false, _, rfl, bindSome.mpr ⟨(), _, rfl, ?_⟩⟩⟩
    refine bindSome.mpr ⟨_, _, hours, bindSome.mpr ⟨(), _, rfl, bindSome.mpr ⟨_, _, minutes, ?_⟩⟩⟩
    rw [if_pos inDay, if_neg Bool.false_ne_true, value]
    rfl

theorem hasTextRepresentable {t : Timestamp} (representable : t.isRepresentable) : t.hasText := by
  simp only [isRepresentable, hasText, Bool.and_eq_true, decide_eq_true_eq] at representable ⊢
  exact ⟨representable.1.1.1.1.1.1.1.1.1, representable.2⟩

theorem settleRepresentable {t : Timestamp} (representable : t.isRepresentable) : settle t = some t := by
  have below : t.second ≠ 60 := by
    simp only [isRepresentable, Bool.and_eq_true, decide_eq_true_eq] at representable
    omega
  simp [settle, below, representable]

theorem readText {t : Timestamp} (representable : t.isRepresentable) : read t.text.toList = some (t, []) := by
  have parts := representable
  simp only [isRepresentable, Bool.and_eq_true, decide_eq_true_eq] at parts
  obtain ⟨⟨⟨⟨⟨⟨⟨⟨⟨year, _⟩, month⟩, _⟩, day⟩, hour⟩, minute⟩, second⟩, nanosecond⟩, offset⟩ := parts
  have two : tenTo 2 = 100 := rfl
  have four : tenTo 4 = 10000 := rfl
  have nine : tenTo 9 = 1000000000 := rfl
  have days : t.day < tenTo 2 := by
    have month31 : daysInMonth t.year t.month ≤ 31 := by
      unfold daysInMonth
      split
      · split <;> decide
      · split <;> decide
    omega
  obtain ⟨found, fraction, value⟩ := @fractionWritten t.nanosecond (by omega) _ (offsetUnpointed t.offset)
  simp only [text, String.toList_ofList, List.append_assoc, List.singleton_append]
  refine bindSome.mpr ⟨_, _, decimalOfDigits (by omega) _, bindSome.mpr ⟨(), _, rfl, ?_⟩⟩
  refine bindSome.mpr ⟨_, _, decimalOfDigits (by omega) _, bindSome.mpr ⟨(), _, rfl, ?_⟩⟩
  refine bindSome.mpr ⟨_, _, decimalOfDigits days _, bindSome.mpr ⟨(), _, rfl, ?_⟩⟩
  refine bindSome.mpr ⟨_, _, decimalOfDigits (by omega) _, bindSome.mpr ⟨(), _, rfl, ?_⟩⟩
  refine bindSome.mpr ⟨_, _, decimalOfDigits (by omega) _, bindSome.mpr ⟨(), _, rfl, ?_⟩⟩
  refine bindSome.mpr ⟨_, _, decimalOfDigits (by omega) _, ?_⟩
  refine bindSome.mpr ⟨found, _, fraction, bindSome.mpr ⟨_, [], offsetWritten offset, ?_⟩⟩
  rw [value, settleRepresentable representable]
  rfl

theorem parseText {t : Timestamp} (representable : t.isRepresentable) : parse? t.text = some t := by
  rw [parse?, readText representable]

end DeclOrder.Timestamp
