import DeclOrder.Table

/-! The order of texts is the order of their bytes: UTF-8 puts characters in the order of their code
points, whatever follows them. -/
namespace DeclOrder.ByteOrder

def bytes (text : String) : List UInt8 := text.toList.flatMap String.utf8EncodeChar

theorem digitsLess {m n : Nat} (less : m < n) : m / 64 < n / 64 ∨ m / 64 = n / 64 ∧ m % 64 < n % 64 := by
  omega

theorem encodeLess {c d : Char} (less : c < d) (x y : List UInt8) :
    String.utf8EncodeChar c ++ x < String.utf8EncodeChar d ++ y := by
  have codes : c.val.toNat < d.val.toNat := less
  have bound : d.val.toNat < 0x110000 := by
    rcases d.valid with h | h
    · exact Nat.lt_trans h (by decide)
    · exact h.2
  simp only [String.utf8EncodeChar]
  generalize c.val.toNat = m at codes ⊢
  generalize d.val.toNat = n at codes bound ⊢
  -- Four bytes each is the one case in which all digits of a code point are compared.
  by_cases long : 0xffff < m
  · have third (k : Nat) : k / 4096 = k / 64 / 64 := by omega
    have fourth (k : Nat) : k / 262144 = k / 64 / 64 / 64 := by omega
    rw [if_neg (by omega), if_neg (by omega), if_neg (by omega), if_neg (by omega), if_neg (by omega), if_neg (by omega)]
    simp only [List.cons_append, List.cons_lt_cons_iff, UInt8.lt_iff_toNat_lt, ← UInt8.toNat_inj,
      UInt8.toNat_ofNat', third, fourth]
    rcases digitsLess codes with high | ⟨same, low⟩
    · rcases digitsLess high with higher | ⟨same, low⟩
      · rcases digitsLess higher with highest | ⟨same, low⟩ <;> omega
      · omega
    · omega
  · repeat' split
    all_goals
      simp only [List.cons_append, List.cons_lt_cons_iff, UInt8.lt_iff_toNat_lt, ← UInt8.toNat_inj,
        UInt8.toNat_ofNat']
      omega

theorem encodeNonempty (c : Char) (rest : List UInt8) : [] < String.utf8EncodeChar c ++ rest := by
  cases encoded : String.utf8EncodeChar c with
  | nil => exact absurd encoded String.utf8EncodeChar_ne_nil
  | cons b more => simp

theorem encodeMonotone {t u : List Char} (less : t < u) :
    t.flatMap String.utf8EncodeChar < u.flatMap String.utf8EncodeChar := by
  induction t generalizing u with
  | nil =>
      cases u with
      | nil => exact absurd less (List.not_lt_nil _)
      | cons d u => exact encodeNonempty d _
  | cons c t ih =>
      cases u with
      | nil => exact absurd less (List.not_lt_nil _)
      | cons d u =>
          rw [List.flatMap_cons, List.flatMap_cons]
          rcases List.cons_lt_cons_iff.mp less with first | ⟨rfl, rest⟩
          · exact encodeLess first _ _
          · exact List.append_left_lt (ih rest)

theorem bytesLess {a b : String} : bytes a < bytes b ↔ a < b := by
  refine ⟨fun less => ?_, encodeMonotone⟩
  apply String.not_le.mp
  intro upTo
  by_cases same : a = b
  · exact List.lt_irrefl _ (same ▸ less)
  · have turned : b < a := String.not_le.mp (fun back => same (String.le_antisymm back upTo))
    exact List.lt_asymm less (encodeMonotone turned)

theorem bytesUpTo {a b : String} : bytes a ≤ bytes b ↔ a ≤ b := by
  rw [← List.not_lt, bytesLess, String.not_lt]

end DeclOrder.ByteOrder
