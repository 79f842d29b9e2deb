/-! Byte offsets into the UTF-8 form of a text. A slice exists when both ends lie on character
boundaries, in order and within the text. -/
namespace DeclOrder.Text

def byteSize (text : List Char) : Nat := text.foldl (fun n c => n + c.utf8Size) 0

theorem foldByteSize (n : Nat) (text : List Char) :
    text.foldl (fun n c => n + c.utf8Size) n = n + byteSize text := by
  induction text generalizing n with
  | nil => rfl
  | cons c rest ih => rw [byteSize, List.foldl_cons, List.foldl_cons, ih, ih (0 + _)]; omega

theorem byteSizeCons (c : Char) (rest : List Char) : byteSize (c :: rest) = c.utf8Size + byteSize rest := by
  rw [byteSize, List.foldl_cons, foldByteSize]; omega

def dropBytes? : List Char → Nat → Option (List Char)
  | text, 0 => some text
  | [], _ + 1 => none
  | c :: rest, n + 1 => if c.utf8Size ≤ n + 1 then dropBytes? rest (n + 1 - c.utf8Size) else none

def takeBytes? : List Char → Nat → Option (List Char)
  | _, 0 => some []
  | [], _ + 1 => none
  | c :: rest, n + 1 =>
      if c.utf8Size ≤ n + 1 then (takeBytes? rest (n + 1 - c.utf8Size)).map (c :: ·) else none

def slice? (text : List Char) (start stop : Nat) : Option (List Char) :=
  if start ≤ stop then (dropBytes? text start).bind (takeBytes? · (stop - start)) else none

theorem byteSizeAppend (t u : List Char) : byteSize (t ++ u) = byteSize t + byteSize u := by
  rw [byteSize, List.foldl_append, foldByteSize]
  rfl

theorem byteSizeZero {text : List Char} (zero : byteSize text = 0) : text = [] := by
  cases text with
  | nil => rfl
  | cons c rest =>
      have positive := c.utf8Size_pos
      rw [byteSizeCons] at zero
      omega

theorem dropBytesSome {text rest : List Char} {n : Nat} :
    dropBytes? text n = some rest ↔ ∃ front, text = front ++ rest ∧ byteSize front = n := by
  induction text generalizing n with
  | nil =>
      cases n with
      | zero => exact ⟨fun h => ⟨[], by simpa [dropBytes?] using h, rfl⟩, fun ⟨front, h, _⟩ => by simp_all [dropBytes?]⟩
      | succ n => exact ⟨fun h => by simp [dropBytes?] at h, fun ⟨front, h, size⟩ => by simp_all [byteSize]⟩
  | cons c text ih =>
      cases n with
      | zero =>
          refine ⟨fun h => ⟨[], by simpa [dropBytes?] using h, rfl⟩, fun ⟨front, h, size⟩ => ?_⟩
          rw [byteSizeZero size] at h
          exact congrArg some h
      | succ n =>
          rw [dropBytes?]
          constructor
          · intro h
            split at h
            · rename_i fits
              obtain ⟨front, rfl, size⟩ := ih.mp h
              exact ⟨c :: front, rfl, by rw [byteSizeCons]; omega⟩
            · exact absurd h (by simp)
          · rintro ⟨front, h, size⟩
            cases front with
            | nil => simp [byteSize] at size
            | cons d front =>
                obtain ⟨rfl, rfl⟩ := List.cons.inj h
                rw [byteSizeCons] at size
                rw [if_pos (by omega)]
                exact ih.mpr ⟨front, rfl, by omega⟩

theorem takeBytesSome {text taken : List Char} {n : Nat} :
    takeBytes? text n = some taken ↔ ∃ rest, text = taken ++ rest ∧ byteSize taken = n := by
  induction text generalizing n taken with
  | nil =>
      cases n with
      | zero => exact ⟨fun h => ⟨[], by simp_all [takeBytes?, byteSize]⟩, fun ⟨rest, h, _⟩ => by simp_all [takeBytes?]⟩
      | succ n => exact ⟨fun h => by simp [takeBytes?] at h, fun ⟨rest, h, size⟩ => by simp_all [byteSize]⟩
  | cons c text ih =>
      cases n with
      | zero =>
          refine ⟨fun h => ⟨c :: text, by simp_all [takeBytes?, byteSize]⟩, fun ⟨rest, h, size⟩ => ?_⟩
          rw [byteSizeZero size]
          rfl
      | succ n =>
          rw [takeBytes?]
          constructor
          · intro h
            split at h
            · rename_i fits
              obtain ⟨more, found, rfl⟩ := Option.map_eq_some_iff.mp h
              obtain ⟨rest, rfl, size⟩ := ih.mp found
              exact ⟨rest, rfl, by rw [byteSizeCons]; omega⟩
            · exact absurd h (by simp)
          · rintro ⟨rest, h, size⟩
            cases taken with
            | nil => simp [byteSize] at size
            | cons d taken =>
                obtain ⟨rfl, rfl⟩ := List.cons.inj h
                rw [byteSizeCons] at size
                rw [if_pos (by omega), ih.mpr ⟨rest, rfl, by omega⟩]
                rfl

theorem sliceSome {text found : List Char} {start stop : Nat} : slice? text start stop = some found ↔
    ∃ front rest, text = front ++ found ++ rest ∧ byteSize front = start ∧ byteSize (front ++ found) = stop := by
  rw [slice?]
  constructor
  · intro h
    split at h
    · obtain ⟨behind, dropped, taken⟩ := Option.bind_eq_some_iff.mp h
      obtain ⟨front, rfl, size⟩ := dropBytesSome.mp dropped
      obtain ⟨rest, rfl, length⟩ := takeBytesSome.mp taken
      exact ⟨front, rest, by simp, size, by rw [byteSizeAppend]; omega⟩
    · exact absurd h (by simp)
  · rintro ⟨front, rest, rfl, rfl, rfl⟩
    rw [byteSizeAppend, if_pos (Nat.le_add_right ..), List.append_assoc, dropBytesSome.mpr ⟨front, rfl, rfl⟩,
      Nat.add_sub_cancel_left]
    exact takeBytesSome.mpr ⟨rest, rfl, rfl⟩

end DeclOrder.Text
