import DeclOrder.Proofs.Layout.Scan

/-! What an attribute looks like to the layout: a key, blanks, an equals sign that is none of `==` and
`=>`, and a value. Any spelling with the same key and value is the same line. -/
namespace DeclOrder.Layout
open Scan

inductive Key : List Char → Prop where
  | name {c tail} (start : isMarkerStart c = true) (parts : ∀ d ∈ tail, isMarkerPart d = true) : Key (c :: tail)
  | quoted {name} (plain : ∀ c ∈ name, c ≠ '"' ∧ c ≠ '\\') (noMark : hasMark name = false) :
      Key ('"' :: (name ++ ['"']))

theorem leadingIdentifierCons (c : Char) (rest : List Char) : leadingIdentifier (c :: rest) =
    if isMarkerStart c then c :: rest.takeWhile isMarkerPart else [] := rfl

theorem leadingIdentifierPrefix (text : List Char) : leadingIdentifier text <+: text := by
  cases text with
  | nil => exact List.prefix_rfl
  | cons c rest =>
      rw [leadingIdentifierCons]
      split
      · exact List.cons_prefix_cons.mpr ⟨rfl, List.takeWhile_prefix isMarkerPart⟩
      · exact List.nil_prefix

theorem leadingIdentifierKey {text : List Char} (some : leadingIdentifier text ≠ []) : Key (leadingIdentifier text) := by
  cases text with
  | nil => exact absurd rfl some
  | cons c rest =>
      rw [leadingIdentifierCons] at some ⊢
      split
      · rename_i start
        exact .name start (fun d h => List.all_eq_true.mp List.all_takeWhile d h)
      · rename_i notStart
        exact absurd (if_neg notStart) some

theorem leadingKeySource {text key rest : List Char} (h : leadingKey? text = some (key, rest)) :
    Key key ∧ text = key ++ rest := by
  unfold leadingKey? at h
  split at h
  · rename_i inside
    dsimp only at h
    split at h
    · rename_i more closed
      split at h
      · contradiction
      · rename_i noMark
        cases h
        refine ⟨.quoted (fun c member => ?_) (by simpa using noMark), ?_⟩
        · simpa using List.all_eq_true.mp List.all_takeWhile c member
        · have whole := List.takeWhile_append_dropWhile (p := fun c => c != '"' && c != '\\') (l := inside)
          rw [closed] at whole
          rw [List.cons_append, List.cons_append, List.append_assoc, List.singleton_append, whole]
    · contradiction
  · dsimp only at h
    split at h
    · contradiction
    · rename_i some
      cases h
      exact ⟨leadingIdentifierKey (by simpa using some),
        (List.prefix_iff_eq_append.mp (leadingIdentifierPrefix text)).symm⟩

theorem leadingKeyComplete {key : List Char} (isKey : Key key) {c : Char} (stop : isMarkerPart c = false)
    (rest : List Char) : leadingKey? (key ++ c :: rest) = some (key, c :: rest) := by
  cases isKey with
  | @name d tail start parts =>
      have notQuote : d ≠ '"' := fun h => by rw [h] at start; revert start; decide
      have found : leadingIdentifier (d :: (tail ++ c :: rest)) = d :: tail := by
        rw [leadingIdentifierCons, if_pos start, takeWhileAll parts stop]
      rw [List.cons_append]
      unfold leadingKey?
      split
      · rename_i h
        exact absurd (List.cons.inj h).1 notQuote
      · simp only [found]
        simp
  | @quoted name plain noMark =>
      have p : ∀ c ∈ name, (c != '"' && c != '\\') = true := fun c h => by simpa using plain c h
      have taken : (name ++ '"' :: c :: rest).takeWhile (fun c => c != '"' && c != '\\') = name :=
        takeWhileAll p (by decide) (c :: rest)
      have dropped : (name ++ '"' :: c :: rest).dropWhile (fun c => c != '"' && c != '\\') = '"' :: c :: rest := by
        rw [List.dropWhile_append_of_pos p]; rfl
      rw [List.cons_append, List.append_assoc, List.singleton_append]
      simp only [leadingKey?, taken, dropped, noMark]
      rfl

theorem throughKey {s : Scan} (code : s.InCode) {key : List Char} (isKey : Key key) (rest : List Char) :
    s.through (key ++ rest) = s.through rest := by
  cases isKey with
  | @name c tail start parts =>
      refine throughPlain code (fun d member => ?_) rest
      rcases List.mem_cons.mp member with rfl | below
      · exact markerPartPlain (by simp [isMarkerPart, start])
      · exact markerPartPlain (parts d below)
  | quoted plain noMark =>
      rw [List.cons_append, List.append_assoc, List.singleton_append, ← List.cons_append]
      exact throughQuoted code plain noMark rest

theorem keyHead {key : List Char} (isKey : Key key) :
    ∃ c tail, key = c :: tail ∧ Text.isBlank c = false ∧ isCloser c = false := by
  cases isKey with
  | @name c tail start parts =>
      refine ⟨c, tail, rfl, markerPartSolid (by simp [isMarkerPart, start]), ?_⟩
      have plain := markerPartPlain (c := c) (by simp [isMarkerPart, start])
      simp only [special, List.mem_cons, not_or] at plain
      simp [isCloser, plain]
  | @quoted name => exact ⟨'"', _, rfl, by decide, by decide⟩

theorem keySolid {key : List Char} (isKey : Key key) : Text.allBlank key = false := by
  obtain ⟨c, tail, rfl, solid, _⟩ := keyHead isKey
  simp [Text.allBlank, solid]

def Assigns (rest : List Char) : Prop := ∀ c, rest.head? = some c → c ≠ '=' ∧ c ≠ '>'

theorem splitAttributeSource {text key value : List Char} (h : splitAttribute? text = some (key, value)) :
    ∃ gap rest, Key key ∧ Text.allBlank gap = true ∧ Assigns rest ∧ value = Text.trim rest ∧
      text = key ++ (gap ++ '=' :: rest) := by
  simp only [splitAttribute?, bind, Option.bind_eq_some_iff] at h
  obtain ⟨⟨found, behind⟩, leading, matched⟩ := h
  obtain ⟨isKey, whole⟩ := leadingKeySource leading
  obtain ⟨gap, blank, split⟩ := Text.trimStartSplit behind
  dsimp only at matched
  split at matched
  · contradiction
  · contradiction
  · rename_i rest notEqual notArrow equals
    cases matched
    refine ⟨gap, rest, isKey, blank, fun c head => ?_, rfl, ?_⟩
    · obtain ⟨tail, rfl⟩ := List.head?_eq_some_iff.mp head
      exact ⟨fun e => notEqual tail (by rw [e]), fun e => notArrow tail (by rw [e])⟩
    · rw [whole, ← equals, ← split]
  · contradiction

theorem splitAttributeComplete {key gap rest : List Char} (isKey : Key key) (blank : Text.allBlank gap = true)
    (assigns : Assigns rest) : splitAttribute? (key ++ (gap ++ '=' :: rest)) = some (key, Text.trim rest) := by
  have leading : leadingKey? (key ++ (gap ++ '=' :: rest)) = some (key, gap ++ '=' :: rest) := by
    cases gap with
    | nil => exact leadingKeyComplete isKey (by decide) rest
    | cons c tail =>
        have solid : isMarkerPart c = false := by
          cases part : isMarkerPart c with
          | false => rfl
          | true => simp [Text.allBlank, markerPartSolid part] at blank
        exact leadingKeyComplete isKey solid (tail ++ '=' :: rest)
  simp only [splitAttribute?, leading, bind, Option.bind_some, Text.trimStartAppendBlank blank,
    Text.trimStartSolid (c := '=') (by decide)]
  split
  · rename_i h
    exact absurd rfl (assigns '=' (by simp_all)).1
  · rename_i h
    exact absurd rfl (assigns '>' (by simp_all)).2
  · rename_i h
    rw [(List.cons.inj h).2]
  · rename_i other
    exact absurd rfl (other rest)

theorem throughAttribute {s : Scan} (code : s.InCode) {key gap : List Char} (isKey : Key key)
    (blank : Text.allBlank gap = true) (rest : List Char) :
    s.through (key ++ (gap ++ '=' :: rest)) = s.through (Text.trimStart rest) := by
  have equals : Plain ['='] := by decide
  have past := throughPlain code equals rest
  rw [throughKey code isKey, throughBlank code blank, throughTrimStart code, ← past]
  rfl

def attributeLine (s : Scan) (key value : List Char) : Line × Scan :=
  let after := s.through value
  if after.openings.length == s.openings.length && !after.literal then (.attribute s.depth key value, after)
  else (.code s.depth (key ++ [' ', '=', ' '] ++ value), after)

theorem codeLineAttribute {s : Scan} (code : s.InCode) {key gap rest value : List Char} (isKey : Key key)
    (blank : Text.allBlank gap = true) (assigns : Assigns rest) (start : Text.trimStart rest = value)
    (whole : Text.trim rest = value) : codeLine s (key ++ (gap ++ '=' :: rest)) = attributeLine s key value := by
  obtain ⟨c, tail, shape, _, notCloser⟩ := keyHead isKey
  have noClosers : (key ++ (gap ++ '=' :: rest)).takeWhile isCloser = [] := by
    rw [shape, List.cons_append, List.takeWhile_cons_of_neg (by simp [notCloser])]
  have after := throughAttribute code isKey blank rest
  rw [start] at after
  have split := splitAttributeComplete isKey blank assigns
  rw [whole] at split
  simp only [codeLine, attributeLine, noClosers, after, split, List.length_nil, Nat.sub_zero]
  split <;> rfl

end DeclOrder.Layout
