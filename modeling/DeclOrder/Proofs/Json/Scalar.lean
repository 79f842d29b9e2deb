import Mathlib.Tactic.SplitIfs
import DeclOrder.Json.Reading
import DeclOrder.Json.Writing
import DeclOrder.Proofs.Reading

/-! Strings and whole numbers are read back from the text that is written for them. -/
namespace DeclOrder.Json
open Reader

/-! Strings. -/

theorem hexDigitValue {d : Nat} (small : d < 16) : Text.hexValue? (hexDigit d) = some d := by
  have all : ∀ d : Fin 16, Text.hexValue? (hexDigit d) = some d.val := by decide
  exact all ⟨d, small⟩

theorem unicodeEscapeControl {n : Nat} (control : n < 32) (rest : List Char) :
    Read.unicodeEscape ('0' :: '0' :: hexDigit (n / 16) :: hexDigit (n % 16) :: rest) = some (Char.ofNat n, rest) := by
  have unit : hexOf 4 ('0' :: '0' :: hexDigit (n / 16) :: hexDigit (n % 16) :: rest) = some (n, rest) := by
    have zero : Text.hexValue? '0' = some 0 := by decide
    have value : 16 * (n / 16) + n % 16 = n := Nat.div_add_mod n 16
    simp [hexOf, zero, hexDigitValue (show n / 16 < 16 by omega), hexDigitValue (Nat.mod_lt n (by decide)), value]
  refine bindSome.mpr ⟨n, rest, unit, ?_⟩
  rw [if_neg (by omega), if_neg (by omega)]
  rfl

theorem stringCharEscaped (c : Char) (rest : List Char) :
    Read.stringChar (escapeChar c ++ rest) = some (c, rest) := by
  unfold escapeChar
  split_ifs with quote slash feed ret tab back form control
  · rw [quote]; rfl
  · rw [slash]; rfl
  · rw [feed]; rfl
  · rw [ret]; rfl
  · rw [tab]; rfl
  · rw [back]; rfl
  · rw [form]; rfl
  · have value := unicodeEscapeControl (n := c.toNat) control rest
    rw [Char.ofNat_toNat] at value
    exact value
  · show Read.stringChar (c :: rest) = _
    unfold Read.stringChar
    split
    · rename_i start
      exact absurd (List.head_eq_of_cons_eq start) quote
    · rename_i start
      exact absurd (List.head_eq_of_cons_eq start) slash
    · rename_i start
      cases start
      rw [if_neg control]
    · contradiction

theorem stringCharsRun (text rest : List Char) :
    Run Read.stringChar (text.flatMap escapeChar ++ '"' :: rest) text ('"' :: rest) := by
  induction text with
  | nil => exact .stop rfl
  | cons c text ih =>
      rw [List.flatMap_cons, List.append_assoc]
      exact .step (stringCharEscaped c _) ih

theorem escapedLength (text : List Char) : text.length ≤ (text.flatMap escapeChar).length := by
  induction text with
  | nil => exact Nat.le_refl 0
  | cons c text ih =>
      have one : 1 ≤ (escapeChar c).length := by
        unfold escapeChar
        split_ifs <;> simp
      rw [List.flatMap_cons, List.length_append, List.length_cons]
      omega

theorem stringWritten (text : String) (rest : List Char) : Read.string (stringText text ++ rest) = some (text, rest) := by
  have start : stringText text ++ rest = '"' :: (text.toList.flatMap escapeChar ++ '"' :: rest) := by
    simp [stringText]
  have enough : text.toList.length ≤ (text.toList.flatMap escapeChar ++ '"' :: rest).length := by
    rw [List.length_append]
    exact Nat.le_add_right_of_le (escapedLength text.toList)
  have found := manyOfRun (stringCharsRun text.toList rest) enough
  refine bindSome.mpr ⟨(), _, charSome.mpr start, bindSome.mpr ⟨text.toList, _, found, ?_⟩⟩
  exact bindSome.mpr ⟨(), rest, charSome.mpr rfl, pureSome.mpr ⟨String.ofList_toList, rfl⟩⟩

/-! Whole numbers. -/

def Stops (rest : List Char) : Prop := rest = [] ∨ ∃ c more, rest = c :: more ∧ (c = ',' ∨ c = '\n')

theorem Stops.undigited {rest : List Char} (stops : Stops rest) : Undigited rest := by
  rcases stops with rfl | ⟨c, more, rfl, rfl | rfl⟩ <;> rintro _ ⟨⟩ <;> rfl

theorem Stops.head {rest : List Char} (stops : Stops rest) {c : Char} (other : c ≠ ',' ∧ c ≠ '\n') :
    rest.head? ≠ some c := by
  rcases stops with rfl | ⟨d, more, rfl, rfl | rfl⟩ <;> simp [other.1.symm, other.2.symm]

theorem isDigitDigits {n : Nat} {c : Char} (member : c ∈ Nat.toDigits 10 n) : Text.isDigit c := by
  have digit := Nat.isDigit_of_mem_toDigits (by decide) (by decide) member
  simpa [Char.isDigit, Text.isDigit, Char.le_def] using digit

theorem digitsWritten (n : Nat) {rest : List Char} (stops : Stops rest) :
    digits (Nat.toDigits 10 n ++ rest) = some (Nat.toDigits 10 n, rest) :=
  digitsTaken (fun _ member => isDigitDigits member) Nat.toDigits_ne_nil stops.undigited

theorem digitsStart (n : Nat) (rest : List Char) : ∃ c more, Nat.toDigits 10 n ++ rest = c :: more ∧ Text.isDigit c := by
  cases found : Nat.toDigits 10 n with
  | nil => exact absurd found Nat.toDigits_ne_nil
  | cons c more => exact ⟨c, more ++ rest, rfl, isDigitDigits (found ▸ List.mem_cons_self)⟩

theorem digitsLead (n : Nat) {more : List Char} (zero : Nat.toDigits 10 n = '0' :: more) : more = [] := by
  induction n using Nat.strongRecOn generalizing more with
  | ind n ih =>
      by_cases small : n < 10
      · rw [Nat.toDigits_of_lt_base small] at zero
        exact (List.tail_eq_of_cons_eq zero).symm
      · rw [Nat.toDigits_of_base_le (by decide) (Nat.not_lt.mp small)] at zero
        obtain ⟨front, same⟩ : ∃ front, Nat.toDigits 10 (n / 10) = '0' :: front := by
          cases found : Nat.toDigits 10 (n / 10) with
          | nil => exact absurd found Nat.toDigits_ne_nil
          | cons c front =>
              rw [found] at zero
              exact ⟨front, by rw [List.head_eq_of_cons_eq zero]⟩
        have value := Nat.ofDigitChars_ten_toDigits (n := n / 10)
        rw [same, ih (n / 10) (by omega) same] at value
        have none : n / 10 = 0 := value.symm
        omega

theorem wholeDigitsWritten (n : Nat) {rest : List Char} (stops : Stops rest) :
    Read.wholeDigits (Nat.toDigits 10 n ++ rest) = some (Nat.toDigits 10 n, rest) := by
  have lead {more : List Char} := @digitsLead n more
  have read := digitsWritten n stops
  generalize Nat.toDigits 10 n = found at lead read ⊢
  refine bindSome.mpr ⟨found, rest, read, ?_⟩
  split
  · rename_i c more
    exact absurd (lead rfl) (List.cons_ne_nil c more)
  · rfl

theorem wholePartFits (cs : List Char) (n : Nat) (fits : Nat.ofDigitChars 10 cs n < Read.significandLimit) :
    Read.wholePart cs (⟨n, 0⟩, true) = (⟨Nat.ofDigitChars 10 cs n, 0⟩, true) := by
  induction cs generalizing n with
  | nil => rfl
  | cons c cs ih =>
      rw [Nat.ofDigitChars_cons] at fits ⊢
      have grows : 10 * n + Text.digitValue c ≤ Nat.ofDigitChars 10 cs (10 * n + Text.digitValue c) := by
        rw [Nat.ofDigitChars_eq_ofDigitChars_zero]
        exact Nat.le_add_right_of_le (Nat.le_mul_of_pos_left _ (Nat.pow_pos (by decide)))
      have fit : Read.fits n c := decide_eq_true (Nat.lt_of_le_of_lt grows fits)
      simp only [Read.wholePart, fit, Bool.and_true, if_true]
      exact ih _ fits

theorem wholePartDigits {n : Nat} (fits : n < Read.significandLimit) :
    Read.wholePart (Nat.toDigits 10 n) (⟨0, 0⟩, true) = (⟨n, 0⟩, true) := by
  have value := Nat.ofDigitChars_ten_toDigits (n := n)
  rw [wholePartFits _ 0 (value.symm ▸ fits), value]

def isExactInteger (n : Int) : Bool := -(twoTo 63 : Int) ≤ n && n < twoTo 64

theorem naturalWritten (negative : Bool) {n : Nat} {rest : List Char} (stops : Stops rest)
    (fits : n < Read.significandLimit) (signed : negative → n ≠ 0 ∧ n ≤ twoTo 63) :
    Read.number ((if negative then ['-'] else []) ++ (Nat.toDigits 10 n ++ rest)) =
      some (.integer (if negative then -(n : Int) else n), rest) := by
  unfold Read.number
  refine bindSome.mpr ⟨negative, Nat.toDigits 10 n ++ rest, ?_, ?_⟩
  · cases negative with
    | true => exact givenSome.mpr (.inl ⟨rfl, rfl⟩)
    | false =>
        obtain ⟨c, more, start, digit⟩ := digitsStart n rest
        refine givenSome.mpr (.inr ⟨rfl, rfl, charNone ?_⟩)
        rintro minus
        rw [if_neg Bool.false_ne_true, List.nil_append, start, List.head?_cons] at minus
        cases minus
        exact absurd digit (by decide)
  refine bindSome.mpr ⟨_, rest, wholeDigitsWritten n stops, ?_⟩
  rw [wholePartDigits fits]
  have noPoint : char '.' rest = none := charNone (stops.head (by decide))
  refine bindSome.mpr ⟨false, rest, givenSome.mpr (.inr ⟨rfl, rfl, noPoint⟩), ?_⟩
  refine bindSome.mpr ⟨none, rest, rfl, ?_⟩
  refine bindSome.mpr ⟨rest, rest, rfl, ?_⟩
  have whole : (!negative || (decide (n ≠ 0) && decide (n ≤ twoTo 63))) = true := by
    cases negative with
    | false => rfl
    | true => simp [signed rfl]
  rcases stops with rfl | ⟨c, more, rfl, rfl | rfl⟩
  all_goals
    simp only [pure_bind, Option.isNone_none, Bool.and_true, whole, if_true]
    rfl

theorem numberWritten {n : Int} (exact : isExactInteger n) {rest : List Char} (stops : Stops rest) :
    Read.number (integerText n ++ rest) = some (.integer n, rest) := by
  obtain ⟨above, below⟩ : -(twoTo 63 : Int) ≤ n ∧ n < twoTo 64 := by simpa [isExactInteger] using exact
  have limits : twoTo 63 < twoTo 64 := by decide
  unfold integerText
  by_cases negative : n < 0
  · have read := naturalWritten true stops (show n.natAbs < twoTo 64 by omega) (fun _ => by omega)
    have value : -(n.natAbs : Int) = n := by omega
    rw [if_pos rfl, if_pos rfl, value] at read
    rw [if_pos negative]
    exact read
  · have read := naturalWritten false stops (show n.natAbs < twoTo 64 by omega) nofun
    have value : (n.natAbs : Int) = n := by omega
    rw [if_neg Bool.false_ne_true, if_neg Bool.false_ne_true, value] at read
    rw [if_neg negative]
    exact read

end DeclOrder.Json
