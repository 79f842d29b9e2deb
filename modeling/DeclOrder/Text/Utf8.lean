import DeclOrder.Text.Bytes

/-! The bytes of a text in UTF-8. A byte below 128 is a character of its own, whatever stands around it; the
bytes of every other character are at least 128. -/
namespace DeclOrder.Text

def utf8 (text : List Char) : List UInt8 := text.flatMap String.utf8EncodeChar

theorem utf8Cons (c : Char) (rest : List Char) : utf8 (c :: rest) = String.utf8EncodeChar c ++ utf8 rest :=
  List.flatMap_cons

theorem utf8Append (front rest : List Char) : utf8 (front ++ rest) = utf8 front ++ utf8 rest := List.flatMap_append

theorem utf8Length (text : List Char) : (utf8 text).length = byteSize text := by
  induction text with
  | nil => rfl
  | cons c rest ih => rw [utf8Cons, List.length_append, String.length_utf8EncodeChar, ih, byteSizeCons]

def leadByte (c : Char) : UInt8 := (String.utf8EncodeChar c).head String.utf8EncodeChar_ne_nil

theorem encodeSingle {c : Char} (single : c.utf8Size = 1) : String.utf8EncodeChar c = [c.toUInt8] := by
  rw [String.utf8EncodeChar_eq_singleton single, Char.toUInt8_val]

theorem leadByteSingle {c : Char} (single : c.utf8Size = 1) : leadByte c = c.toUInt8 := by
  simp [leadByte, encodeSingle single]

theorem singleIff {c : Char} : c.utf8Size = 1 ↔ c.toNat < 128 := by
  rw [Char.utf8Size_eq_one_iff, UInt32.le_iff_toNat_le]
  exact Nat.lt_succ_iff.symm

theorem encodeWide {c : Char} (wide : c.utf8Size ≠ 1) : ∀ b ∈ String.utf8EncodeChar c, 128 ≤ b := by
  have above : ¬ c.val.toNat ≤ 0x7f := fun low => wide (singleIff.mpr (Nat.lt_succ_of_le low))
  intro b member
  simp only [String.utf8EncodeChar, if_neg above] at member
  split at member
  all_goals try split at member
  all_goals
    simp only [List.mem_cons, List.not_mem_nil, or_false] at member
    rcases member with rfl | rfl | rfl | rfl
    all_goals simp only [UInt8.le_iff_toNat_le, UInt8.toNat_ofNat', UInt8.reduceToNat]
    all_goals omega

theorem encodeLead (c : Char) : ∃ tail, String.utf8EncodeChar c = leadByte c :: tail :=
  ⟨_, (List.cons_head_tail String.utf8EncodeChar_ne_nil).symm⟩

theorem leadByteMember (c : Char) : leadByte c ∈ String.utf8EncodeChar c := List.head_mem _

theorem asciiByte {c : Char} (ascii : c.toNat < 128) : c.toUInt8.toNat = c.toNat := by
  rw [Char.toUInt8, UInt32.toNat_toUInt8]
  exact Nat.mod_eq_of_lt (Nat.lt_trans ascii (by decide))

theorem highByte {b : UInt8} (high : 128 ≤ b) {c : Char} (ascii : c.toNat < 128) : b ≠ c.toUInt8 := by
  rintro rfl
  rw [UInt8.le_iff_toNat_le, asciiByte ascii] at high
  exact absurd ascii (Nat.not_lt.mpr high)

theorem leadByteIff {c d : Char} (ascii : d.toNat < 128) : leadByte c = d.toUInt8 ↔ c = d := by
  constructor
  · intro same
    by_cases single : c.utf8Size = 1
    · rw [leadByteSingle single, ← UInt8.toNat_inj, asciiByte (singleIff.mp single), asciiByte ascii] at same
      exact Char.toNat_inj.mp same
    · exact absurd same (highByte (encodeWide single _ (leadByteMember c)) ascii)
  · rintro rfl
    exact leadByteSingle (singleIff.mpr ascii)

section
variable (front rest : List Char) (c : Char)

theorem byteBehind (offset : Nat) : (utf8 (front ++ rest))[byteSize front + offset]? = (utf8 rest)[offset]? := by
  rw [utf8Append, List.getElem?_append_right (by rw [utf8Length]; omega), utf8Length, Nat.add_sub_cancel_left]

theorem leadByteAt : (utf8 (front ++ c :: rest))[byteSize front]? = some (leadByte c) := by
  obtain ⟨tail, encoded⟩ := encodeLead c
  rw [← Nat.add_zero (byteSize front), byteBehind, utf8Cons, encoded]
  rfl

theorem leadByteNext (single : c.utf8Size = 1) :
    (utf8 (front ++ c :: rest))[byteSize front + 1]? = rest.head?.map leadByte := by
  rw [byteBehind, utf8Cons, encodeSingle single, List.singleton_append, List.getElem?_cons_succ]
  cases rest with
  | nil => rfl
  | cons d more => exact leadByteAt [] more d

theorem highByteAt {offset : Nat} (positive : 0 < offset) (inside : offset < c.utf8Size) :
    ∃ b, (utf8 (front ++ c :: rest))[byteSize front + offset]? = some b ∧ 128 ≤ b := by
  have bound : offset < (String.utf8EncodeChar c).length := by rwa [String.length_utf8EncodeChar]
  refine ⟨(String.utf8EncodeChar c)[offset], ?_, encodeWide (by omega) _ (List.getElem_mem bound)⟩
  rw [byteBehind, utf8Cons, List.getElem?_append_left bound, List.getElem?_eq_getElem bound]

end

theorem utf8ByteSizeOfList (text : List Char) : (String.ofList text).utf8ByteSize = byteSize text := by
  rw [← utf8Length, ← String.size_toByteArray, String.toByteArray_ofList, List.utf8Encode, List.size_toByteArray, utf8]

/-- A text can be cut at the offsets that are positions of it, in bounds and not within a character. -/
theorem cutIff {text : List Char} {offset : Nat} :
    (∃ rest, dropBytes? text offset = some rest) ↔ (String.Pos.Raw.mk offset).IsValid (String.ofList text) := by
  simp only [dropBytesSome, String.Pos.Raw.isValid_ofList, utf8ByteSizeOfList]
  constructor
  · rintro ⟨rest, front, rfl, size⟩
    exact ⟨front.length, by rw [List.take_left]; exact size.symm⟩
  · rintro ⟨count, size⟩
    exact ⟨text.drop count, text.take count, (List.take_append_drop count text).symm, size.symm⟩

end DeclOrder.Text
