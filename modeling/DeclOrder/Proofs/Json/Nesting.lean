import DeclOrder.Proofs.Json.Scalar

/-! Arrays and objects are read back from the lines that are written for them, and with them whole
values. Objects come back with their fields in order. -/
namespace DeclOrder.Json
open Reader

/-! Lists between brackets. -/

def Opens (text : List Char) : Prop :=
  ∃ c more, text = c :: more ∧ Read.isSpace c = false ∧ c ≠ ']' ∧ c ≠ '}'

inductive Written {α : Type} (item : Reader α) : List (List Char) → List α → Prop where
  | nil : Written item [] []
  | cons {text : List Char} {value : α} {texts : List (List Char)} {values : List α} (opens : Opens text)
      (reads : ∀ rest, Stops rest → item (text ++ rest) = some (value, rest)) (more : Written item texts values) :
      Written item (text :: texts) (value :: values)

def behind (level : Nat) (close : List Char) : List (List Char) → List Char
  | [] => newLine level ++ close
  | text :: more => ',' :: newLine (level + 1) ++ text ++ behind level close more

theorem behindStops (level : Nat) (close : List Char) (texts : List (List Char)) : Stops (behind level close texts) := by
  cases texts with
  | nil => exact .inr ⟨'\n', _, rfl, .inr rfl⟩
  | cons text more => exact .inr ⟨',', _, rfl, .inl rfl⟩

theorem joinedBehind (level : Nat) (close text : List Char) (texts : List (List Char)) :
    joined (',' :: newLine (level + 1)) (text :: texts) ++ newLine level ++ close = text ++ behind level close texts := by
  induction texts generalizing text with
  | nil => simp [joined, behind]
  | cons next more ih => simp [joined, behind, ← ih next]

theorem spacesSolid {text : List Char} (solid : ∀ c ∈ text.head?, Read.isSpace c = false) :
    Read.spaces text = some ((), text) := by
  rw [Read.spaces, skip]
  cases text with
  | nil => rfl
  | cons c more => rw [List.dropWhile_cons_of_neg (by simp [solid c rfl])]

theorem spacesNewLine (level : Nat) {text : List Char} (solid : ∀ c ∈ text.head?, Read.isSpace c = false) :
    Read.spaces (newLine level ++ text) = some ((), text) := by
  have blank : ∀ c ∈ newLine level, Read.isSpace c = true := by
    intro c member
    rcases List.mem_cons.mp member with rfl | member
    · rfl
    · rw [List.eq_of_mem_replicate member]; rfl
  rw [← spacesSolid solid, Read.spaces, skip, skip, List.dropWhile_append_of_pos blank]

theorem Opens.solid {text : List Char} (opens : Opens text) (rest : List Char) :
    ∀ c ∈ (text ++ rest).head?, Read.isSpace c = false := by
  obtain ⟨c, more, rfl, solid, _⟩ := opens
  rintro _ ⟨⟩
  exact solid

theorem Opens.notClosing {text : List Char} (opens : Opens text) (rest : List Char) {close : Char}
    (bracket : close = ']' ∨ close = '}') : given (char close) (text ++ rest) = some (false, text ++ rest) := by
  obtain ⟨c, more, rfl, _, notSquare, notBrace⟩ := opens
  refine givenSome.mpr (.inr ⟨rfl, rfl, charNone ?_⟩)
  rcases bracket with rfl | rfl <;> simp [notSquare, notBrace]

def further {α : Type} (item : Reader α) : Reader α := do
  char ','
  Read.spaces
  let value ← item
  Read.spaces
  return value

def next (level : Nat) (close : List Char) (texts : List (List Char)) : List Char :=
  if texts.isEmpty then close else behind level close texts

theorem spacesBehind (level : Nat) {close : List Char} (solid : ∀ c ∈ close.head?, Read.isSpace c = false)
    (texts : List (List Char)) : Read.spaces (behind level close texts) = some ((), next level close texts) := by
  cases texts with
  | nil => exact spacesNewLine level solid
  | cons text more => rfl

theorem furtherRun {α : Type} {item : Reader α} {texts : List (List Char)} {values : List α}
    (written : Written item texts values) (level : Nat) {close : Char} (bracket : close = ']' ∨ close = '}')
    (rest : List Char) : Run (further item) (next level (close :: rest) texts) values (close :: rest) := by
  have solid : ∀ c ∈ (close :: rest).head?, Read.isSpace c = false := by
    rcases bracket with rfl | rfl <;> rintro _ ⟨⟩ <;> rfl
  induction written with
  | nil =>
      refine .stop (Option.eq_none_iff_forall_ne_some.mpr fun p found => ?_)
      obtain ⟨_, _, comma, _⟩ := bindSome.mp found
      rcases bracket with rfl | rfl <;> exact absurd (charSome.mp comma) (by simp [next])
  | @cons text value texts values opens reads more ih =>
      refine .step (w := next level (close :: rest) texts) ?_ ih
      refine bindSome.mpr ⟨(), newLine (level + 1) ++ (text ++ behind level (close :: rest) texts), ?_, ?_⟩
      · exact charSome.mpr (by simp [next, behind])
      refine bindSome.mpr ⟨(), _, spacesNewLine _ (opens.solid _), ?_⟩
      refine bindSome.mpr ⟨value, _, reads _ (behindStops ..), ?_⟩
      exact bindSome.mpr ⟨(), _, spacesBehind level solid texts, rfl⟩

theorem nextLength {α : Type} {item : Reader α} {texts : List (List Char)} {values : List α}
    (written : Written item texts values) (level : Nat) (close : List Char) :
    values.length ≤ (next level close texts).length := by
  have enough : values.length ≤ (behind level close texts).length := by
    induction written with
    | nil => exact Nat.zero_le _
    | cons _ _ _ ih =>
        simp only [behind, List.length_cons, List.length_append]
        omega
  cases written with
  | nil => exact Nat.zero_le _
  | cons => exact enough

theorem listedWritten {α : Type} {item : Reader α} {texts : List (List Char)} {values : List α}
    (written : Written item texts values) (level : Nat) (opening : Char) {close : Char}
    (bracket : close = ']' ∨ close = '}') (rest : List Char) : ∃ inside, bracketed opening close level texts ++ rest = opening :: inside ∧
      Read.listed item close inside = some (values, rest) := by
  cases written with
  | nil =>
      refine ⟨close :: rest, rfl, bindSome.mpr ⟨(), close :: rest, ?_, bindSome.mpr ⟨true, rest, ?_, rfl⟩⟩⟩
      · rcases bracket with rfl | rfl <;> rfl
      · exact givenSome.mpr (.inl ⟨rfl, charSome.mpr rfl⟩)
  | @cons text value texts values opens reads more =>
      refine ⟨newLine (level + 1) ++ (text ++ behind level (close :: rest) texts), ?_, ?_⟩
      · rw [← joinedBehind]
        simp [bracketed]
      have solid : ∀ c ∈ (close :: rest).head?, Read.isSpace c = false := by
        rcases bracket with rfl | rfl <;> rintro _ ⟨⟩ <;> rfl
      refine bindSome.mpr ⟨(), _, spacesNewLine _ (opens.solid _), ?_⟩
      refine bindSome.mpr ⟨false, _, opens.notClosing _ bracket, ?_⟩
      refine bindSome.mpr ⟨value, _, reads _ (behindStops ..), ?_⟩
      refine bindSome.mpr ⟨(), _, spacesBehind level solid texts, ?_⟩
      refine bindSome.mpr ⟨values, _, manyOfRun (furtherRun more level bracket rest) (nextLength more ..), ?_⟩
      exact bindSome.mpr ⟨(), rest, charSome.mpr rfl, rfl⟩

/-! Values. -/

mutual

/-- Whether the text of a value says it without loss: integers in 64 bits, and no other numbers. -/
def isExact : Json → Bool
  | .integer n => isExactInteger n
  | .float _ => false
  | .array items => areExact items
  | .object fields => fieldsExact fields
  | _ => true

def areExact : List Json → Bool
  | [] => true
  | item :: rest => isExact item && areExact rest

def fieldsExact : List (String × Json) → Bool
  | [] => true
  | (_, value) :: rest => isExact value && fieldsExact rest

end

mutual

def depth : Json → Nat
  | .array items => itemsDepth items + 1
  | .object fields => fieldsDepth fields + 1
  | _ => 0

def itemsDepth : List Json → Nat
  | [] => 0
  | item :: rest => max (depth item) (itemsDepth rest)

def fieldsDepth : List (String × Json) → Nat
  | [] => 0
  | (_, value) :: rest => max (depth value) (fieldsDepth rest)

end

mutual

def settled : Json → Json
  | .array items => .array (settledItems items)
  | .object fields => .object (sortFields (settledFields fields))
  | value => value

def settledItems : List Json → List Json
  | [] => []
  | item :: rest => settled item :: settledItems rest

def settledFields : List (String × Json) → List (String × Json)
  | [] => []
  | (key, value) :: rest => (key, settled value) :: settledFields rest

end

theorem valueAtom (d : Nat) {text : List Char} (notArray : text.head? ≠ some '[') (notObject : text.head? ≠ some '{') :
    Read.value d text = Read.atom text := by
  cases d with
  | zero => rfl
  | succ d =>
      unfold Read.value
      simp only [bind, StateT.bind, left, Option.bind_some]
      split
      · exact absurd rfl notArray
      · exact absurd rfl notObject
      · rfl

def startsNumber (c : Char) : Bool := Text.isDigit c || c == '-'

theorem integerStart (n : Int) : ∃ c more, integerText n = c :: more ∧ startsNumber c := by
  unfold integerText
  split
  · exact ⟨'-', _, rfl, rfl⟩
  · obtain ⟨c, more, start, digit⟩ := digitsStart n.natAbs []
    rw [List.append_nil] at start
    exact ⟨c, more, start, by simp [startsNumber, digit]⟩

theorem startsNumberOther {c : Char} (number : startsNumber c) {d : Char} (other : startsNumber d = false) : c ≠ d := by
  rintro rfl
  exact absurd number (by simp [other])

theorem integerAtom {n : Int} (exact : isExactInteger n) {rest : List Char} (stops : Stops rest) :
    Read.atom (integerText n ++ rest) = some (.integer n, rest) := by
  obtain ⟨c, more, start, number⟩ := integerStart n
  have read := numberWritten exact stops
  rw [start, List.cons_append] at read ⊢
  generalize whole : c :: (more ++ rest) = text at read ⊢
  refine bindSome.mpr ⟨_, _, rfl, ?_⟩
  split
  iterate 4
    · exact absurd (List.head_eq_of_cons_eq whole) (startsNumberOther number rfl)
  · exact read

theorem laidOutOpens {v : Json} (exact : isExact v) (level : Nat) : Opens (laidOut level v) := by
  have literal {c : Char} (more : List Char) (solid : Read.isSpace c = false ∧ c ≠ ']' ∧ c ≠ '}') : Opens (c :: more) :=
    ⟨c, more, rfl, solid⟩
  cases v with
  | null => exact literal _ (by decide)
  | bool b => cases b <;> exact literal _ (by decide)
  | integer n =>
      obtain ⟨c, more, start, number⟩ := integerStart n
      refine ⟨c, more, start, ?_, startsNumberOther number rfl, startsNumberOther number rfl⟩
      simp [Read.isSpace, startsNumberOther number (d := ' ') rfl, startsNumberOther number (d := '\n') rfl,
        startsNumberOther number (d := '\t') rfl, startsNumberOther number (d := '\r') rfl]
  | float => contradiction
  | string text => exact literal _ (by decide)
  | array items =>
      unfold laidOut bracketed
      split <;> exact literal _ (by decide)
  | object fields =>
      unfold laidOut bracketed
      split <;> exact literal _ (by decide)

theorem atomWritten {v : Json} (flat : depth v = 0) (exact : isExact v) (d level : Nat) {rest : List Char}
    (stops : Stops rest) : Read.value d (laidOut level v ++ rest) = some (settled v, rest) := by
  cases v with
  | null => exact valueAtom d (by simp [laidOut]) (by simp [laidOut])
  | bool b => cases b <;> exact valueAtom d (by simp [laidOut]) (by simp [laidOut])
  | integer n =>
      obtain ⟨c, more, start, number⟩ := integerStart n
      have lead : (integerText n ++ rest).head? = some c := by rw [start]; rfl
      refine (valueAtom d ?_ ?_).trans (integerAtom exact stops)
      · rw [laidOut, lead]
        exact fun same => startsNumberOther number rfl (Option.some.inj same)
      · rw [laidOut, lead]
        exact fun same => startsNumberOther number rfl (Option.some.inj same)
  | float => contradiction
  | string text =>
      refine (valueAtom d (by simp [laidOut, stringText]) (by simp [laidOut, stringText])).trans ?_
      exact bindSome.mpr ⟨_, _, rfl, bindSome.mpr ⟨text, rest, stringWritten text rest, rfl⟩⟩
  | array | object => contradiction

mutual

theorem valueWritten : (v : Json) → isExact v → {d : Nat} → depth v ≤ d → (level : Nat) → {rest : List Char} →
    Stops rest → Read.value d (laidOut level v ++ rest) = some (settled v, rest)
  | .array items, exact, d + 1, shallow, level, rest, _ => by
      have each := itemsWritten items exact (Nat.le_of_succ_le_succ shallow) (level + 1)
      obtain ⟨inside, start, read⟩ := listedWritten each level '[' (.inl rfl) rest
      rw [laidOut, start]
      exact bindSome.mpr ⟨_, _, rfl, bindSome.mpr ⟨(), inside, rfl, bindSome.mpr ⟨_, _, read, rfl⟩⟩⟩
  | .object fields, exact, d + 1, shallow, level, rest, _ => by
      have each := fieldsWritten fields exact (Nat.le_of_succ_le_succ shallow) (level + 1)
      obtain ⟨inside, start, read⟩ := listedWritten each level '{' (.inr rfl) rest
      rw [laidOut, start]
      exact bindSome.mpr ⟨_, _, rfl, bindSome.mpr ⟨(), inside, rfl, bindSome.mpr ⟨_, _, read, rfl⟩⟩⟩
  | .null, exact, d, _, level, _, stops => atomWritten rfl exact d level stops
  | .bool _, exact, d, _, level, _, stops => atomWritten rfl exact d level stops
  | .integer _, exact, d, _, level, _, stops => atomWritten rfl exact d level stops
  | .float _, exact, d, _, level, _, stops => atomWritten rfl exact d level stops
  | .string _, exact, d, _, level, _, stops => atomWritten rfl exact d level stops

theorem itemsWritten : (items : List Json) → areExact items → {d : Nat} → itemsDepth items ≤ d → (level : Nat) →
    Written (Read.value d) (laidOutItems level items) (settledItems items)
  | [], _, _, _, _ => .nil
  | item :: rest, exact, d, shallow, level => by
      obtain ⟨here, others⟩ := Bool.and_eq_true_iff.mp exact
      obtain ⟨low, lower⟩ := Nat.max_le.mp shallow
      exact .cons (laidOutOpens here level) (fun _ stops => valueWritten item here low level stops)
        (itemsWritten rest others lower level)

theorem fieldsWritten : (fields : List (String × Json)) → fieldsExact fields → {d : Nat} → fieldsDepth fields ≤ d →
    (level : Nat) → Written (Read.field (Read.value d)) (laidOutFields level fields) (settledFields fields)
  | [], _, _, _, _ => .nil
  | (key, value) :: rest, exact, d, shallow, level => by
      obtain ⟨here, others⟩ := Bool.and_eq_true_iff.mp exact
      obtain ⟨low, lower⟩ := Nat.max_le.mp shallow
      refine .cons ⟨'"', _, rfl, by decide⟩ (fun text stops => ?_) (fieldsWritten rest others lower level)
      have read := valueWritten value here low level stops
      have kept := spacesSolid ((laidOutOpens here level).solid text)
      have split : (stringText key ++ ':' :: ' ' :: laidOut level value) ++ text =
          stringText key ++ ':' :: ' ' :: (laidOut level value ++ text) := by simp
      rw [split]
      refine bindSome.mpr ⟨key, _, stringWritten key _, bindSome.mpr ⟨(), _, rfl, bindSome.mpr ⟨(), _, rfl, ?_⟩⟩⟩
      exact bindSome.mpr ⟨(), _, kept, bindSome.mpr ⟨_, _, read, rfl⟩⟩

end

theorem parseWritten {v : Json} (exact : isExact v) {d : Nat} (shallow : depth v ≤ d) :
    parse? (pretty v) d = some (settled v) := by
  have kept := spacesSolid ((laidOutOpens exact 0).solid [])
  have read := valueWritten v exact shallow 0 (.inl rfl)
  rw [List.append_nil] at kept read
  have whole : (do Read.spaces; Read.value d : Reader Json) (laidOut 0 v) = some (settled v, []) :=
    bindSome.mpr ⟨(), _, kept, read⟩
  rw [parse?, pretty, String.toList_ofList, whole]
  rfl

end DeclOrder.Json
