import DeclOrder.Proofs.Reading
import DeclOrder.View.Annotation
import Std.Data.String.ToNat

/-! Annotations are single lines that can be read back. Escapes leave no separator in what they stand
for, and the percent sign that starts them is itself escaped, so one reader gets from every line what
was put there, whatever the texts hold. -/
namespace DeclOrder.View.Annotation

/-! Reading. -/

structure Note where
  severity : Severity
  path : Option String
  line : Option Nat
  column : Option Nat
  title : Option String
  text : String
  deriving DecidableEq, Repr

def escaped? : Char → Char → Option Char
  | '2', '5' => some '%'
  | '0', 'D' => some '\r'
  | '0', 'A' => some '\n'
  | '3', 'A' => some ':'
  | '2', 'C' => some ','
  | _, _ => none

/-- Escapes undone, each once, from left to right. -/
def unescape : List Char → List Char
  | '%' :: a :: b :: rest => match escaped? a b with
      | some c => c :: unescape rest
      | none => '%' :: unescape (a :: b :: rest)
  | c :: rest => c :: unescape rest
  | [] => []

def cut? : List Char → Option (List Char × List Char)
  | ':' :: ':' :: rest => some ([], rest)
  | c :: rest => (cut? rest).map (fun (front, back) => (c :: front, back))
  | [] => none

def fieldOf (text : List Char) : String × String :=
  (String.ofList (text.takeWhile (· != '=')), String.ofList (unescape ((text.dropWhile (· != '=')).drop 1)))

def noteOf (severity : Severity) (fields : List (String × String)) (text : List Char) : Note where
  severity := severity
  path := fields.lookup "file"
  line := (fields.lookup "line").bind (·.toNat?)
  column := (fields.lookup "col").bind (·.toNat?)
  title := fields.lookup "title"
  text := String.ofList (unescape text)

def readLine : List Char → Option Note
  | ':' :: ':' :: rest => do
      let (front, text) ← cut? rest
      let severity ← Severity.ofText? (String.ofList (front.takeWhile (· != ' ')))
      let fields := (((front.dropWhile (· != ' ')).drop 1).splitOn ',').map fieldOf
      return noteOf severity fields text
  | _ => none

def read? (line : String) : Option Note := readLine line.toList

def Note.ofItem (item : Item) : Note where
  severity := item.severity
  path := item.place.map (·.path)
  line := item.place.bind (·.line)
  column := item.place.bind (·.column)
  title := some (item.checkId.getD unnamedCheck)
  text := "[" ++ item.checkId.getD unnamedCheck ++ ":" ++ item.code ++ "] " ++ item.message

def Note.ofError (e : ErrorItem) : Note where
  severity := .error
  path := e.path
  line := none
  column := none
  title := none
  text := "[" ++ e.rule ++ "] " ++ e.message

/-! Escapes. -/

theorem unescapeOther {c : Char} (plain : c ≠ '%') (rest : List Char) : unescape (c :: rest) = c :: unescape rest := by
  rw [unescape]
  exact fun a b more percent _ => plain percent

theorem unescapeDataChar (c : Char) (rest : List Char) : unescape (escapeDataChar c ++ rest) = c :: unescape rest := by
  unfold escapeDataChar
  split
  · rename_i percent
    rw [percent]
    rfl
  · rename_i plain
    split
    · rename_i carriageReturn
      rw [carriageReturn]
      rfl
    · split
      · rename_i lineFeed
        rw [lineFeed]
        rfl
      · exact unescapeOther plain rest

theorem unescapePropertyChar (c : Char) (rest : List Char) :
    unescape (escapePropertyChar c ++ rest) = c :: unescape rest := by
  unfold escapePropertyChar
  split
  · rename_i colon
    rw [colon]
    rfl
  · split
    · rename_i comma
      rw [comma]
      rfl
    · exact unescapeDataChar c rest

theorem unescapeAll {escape : Char → List Char} (undone : ∀ c rest, unescape (escape c ++ rest) = c :: unescape rest)
    (text : List Char) : unescape (text.flatMap escape) = text := by
  induction text with
  | nil => rfl
  | cons c text ih => rw [List.flatMap_cons, undone, ih]

theorem unescapeData (text : String) : unescape (escapeData text).toList = text.toList := by
  rw [escapeData, String.toList_ofList, unescapeAll unescapeDataChar]

theorem unescapeProperty (text : String) : unescape (escapeProperty text).toList = text.toList := by
  rw [escapeProperty, String.toList_ofList, unescapeAll unescapePropertyChar]

theorem unescapePlain {text : List Char} (plain : '%' ∉ text) : unescape text = text := by
  induction text with
  | nil => rfl
  | cons c text ih =>
      rw [List.mem_cons, not_or] at plain
      rw [unescapeOther (Ne.symm plain.1), ih plain.2]

def replace (c : Char) (piece text : List Char) : List Char := text.flatMap (fun d => if d = c then piece else [d])

/-- Escapes of one character after another are right in this order: the percent sign comes first. -/
theorem escapeDataChain (text : String) : (escapeData text).toList =
    replace '\n' ['%', '0', 'A'] (replace '\r' ['%', '0', 'D'] (replace '%' ['%', '2', '5'] text.toList)) := by
  simp only [escapeData, String.toList_ofList, replace, List.flatMap_assoc]
  congr 1
  funext c
  unfold escapeDataChar
  split
  · rfl
  · split
    · subst_vars
      rfl
    · simp_all

theorem escapePropertyChain (text : String) : (escapeProperty text).toList =
    replace ',' ['%', '2', 'C'] (replace ':' ['%', '3', 'A'] (escapeData text).toList) := by
  simp only [escapeProperty, escapeData, String.toList_ofList, replace, List.flatMap_assoc]
  congr 1
  funext c
  unfold escapePropertyChar escapeDataChar
  split
  · subst_vars
    rfl
  · split
    · subst_vars
      rfl
    · split
      · rfl
      · split
        · rfl
        · split
          · rfl
          · simp_all

/-! What no text brings in. -/

def Free (characters text : List Char) : Prop := ∀ c ∈ text, c ∉ characters

instance (characters text : List Char) : Decidable (Free characters text) :=
  List.decidableBAll (fun c => c ∉ characters) text

def breaks : List Char := ['\r', '\n']

def separators : List Char := [':', ',', '\r', '\n']

section
variable {characters : List Char}

theorem freeAppend {text more : List Char} :
    Free characters (text ++ more) ↔ Free characters text ∧ Free characters more := List.forall_mem_append

theorem freeFlatMap {escape : Char → List Char} (free : ∀ c, Free characters (escape c)) (text : List Char) :
    Free characters (text.flatMap escape) := by
  intro d member
  obtain ⟨c, -, inside⟩ := List.mem_flatMap.mp member
  exact free c d inside

theorem freeIntercalate {separator : Char} (other : separator ∉ characters) {pieces : List (List Char)}
    (free : ∀ piece ∈ pieces, Free characters piece) : Free characters ([separator].intercalate pieces) := by
  intro c member
  rcases Text.memIntercalate member with rfl | ⟨piece, among, inside⟩
  · exact other
  · exact free piece among c inside

end

theorem separatorsBreaks {text : List Char} (free : Free separators text) : Free breaks text :=
  fun c member broken => free c member (by simp_all [breaks, separators])

theorem dataCharFree (c : Char) : Free breaks (escapeDataChar c) := by
  unfold escapeDataChar
  split
  · decide
  · split
    · decide
    · split
      · decide
      · simp_all [Free, breaks]

theorem propertyCharFree (c : Char) : Free separators (escapePropertyChar c) := by
  unfold escapePropertyChar
  split
  · decide
  · split
    · decide
    · unfold escapeDataChar
      split
      · decide
      · split
        · decide
        · split
          · decide
          · simp_all [Free, separators]

theorem escapeDataFree (text : String) : Free breaks (escapeData text).toList := by
  rw [escapeData, String.toList_ofList]
  exact freeFlatMap dataCharFree text.toList

theorem escapePropertyFree (text : String) : Free separators (escapeProperty text).toList := by
  rw [escapeProperty, String.toList_ofList]
  exact freeFlatMap propertyCharFree text.toList

/-! One annotation. -/

def lineOf (severity : Severity) (properties : List String) (text : String) : List Char :=
  ':' :: ':' :: (severity.text.toList ++
    (if properties = [] then [] else ' ' :: [','].intercalate (properties.map String.toList)) ++
    ':' :: ':' :: (escapeData text).toList)

theorem ofItemLine (item : Item) : (ofItem item).toList = lineOf item.severity (properties item) (Note.ofItem item).text := by
  have some : properties item ≠ [] := by simp [properties]
  simp [ofItem, lineOf, some, Note.ofItem, String.toList_intercalate]

theorem ofErrorLine (e : ErrorItem) : (ofError e).toList =
    lineOf .error (e.path.elim [] (fun p => ["file=" ++ escapeProperty p])) (Note.ofError e).text := by
  cases path : e.path with
  | none => simp [ofError, lineOf, path, Note.ofError, Severity.text]
  | some p => simp [ofError, lineOf, path, Note.ofError, Severity.text]

theorem cutFront {front : List Char} (plain : ':' ∉ front) (rest : List Char) :
    cut? (front ++ ':' :: ':' :: rest) = some (front, rest) := by
  induction front with
  | nil => rfl
  | cons c front ih =>
      rw [List.mem_cons, not_or] at plain
      rw [List.cons_append, cut?, ih plain.2]
      · rfl
      · exact fun more same _ => plain.1 same.symm

theorem passesOther {text : List Char} {c : Char} (absent : c ∉ text) : ∀ d ∈ text, (d != c) = true :=
  fun _ member => bne_iff_ne.mpr (fun same => absent (same ▸ member))

theorem fieldRead {name : String} (plain : '=' ∉ name.toList) (value : List Char) :
    fieldOf (name.toList ++ '=' :: value) = (name, String.ofList (unescape value)) := by
  have passes := passesOther plain
  have taken : (name.toList ++ '=' :: value).takeWhile (· != '=') = name.toList := by
    rw [List.takeWhile_append_of_pos passes, List.takeWhile_cons_of_neg (by decide), List.append_nil]
  have dropped : (name.toList ++ '=' :: value).dropWhile (· != '=') = '=' :: value := by
    rw [List.dropWhile_append_of_pos passes, List.dropWhile_cons_of_neg (by decide)]
  rw [fieldOf, taken, dropped, String.ofList_toList]
  rfl

theorem severityRead (s : Severity) : Severity.ofText? s.text = some s := by
  cases s <;> rfl

theorem severityPlain (s : Severity) : ' ' ∉ s.text.toList ∧ ':' ∉ s.text.toList := by
  cases s <;> decide

theorem headRead (severity : Severity) {behind : List Char} (edge : behind.head?.all (· == ' ')) (plain : ':' ∉ behind)
    (text : List Char) : readLine (':' :: ':' :: (severity.text.toList ++ behind ++ ':' :: ':' :: text)) =
      some (noteOf severity (((behind.drop 1).splitOn ',').map fieldOf) text) := by
  obtain ⟨spaceless, colonless⟩ := severityPlain severity
  have solid := passesOther spaceless
  have cut := cutFront (fun member => (List.mem_append.mp member).elim colonless plain) text
  have stopped : behind.takeWhile (· != ' ') = [] ∧ behind.dropWhile (· != ' ') = behind := by
    cases behind with
    | nil => exact ⟨rfl, rfl⟩
    | cons c rest =>
        obtain rfl : c = ' ' := by simpa using edge
        exact ⟨rfl, rfl⟩
  have taken : (severity.text.toList ++ behind).takeWhile (· != ' ') = severity.text.toList := by
    rw [List.takeWhile_append_of_pos solid, stopped.1, List.append_nil]
  have dropped : (severity.text.toList ++ behind).dropWhile (· != ' ') = behind := by
    rw [List.dropWhile_append_of_pos solid, stopped.2]
  simp only [readLine, cut, taken, dropped, String.ofList_toList, severityRead, bind, Option.bind]
  rfl

theorem lineRead (severity : Severity) {properties : List String}
    (free : ∀ p ∈ properties, Free separators p.toList) (text : String) : readLine (lineOf severity properties text) =
      some (noteOf severity (properties.map (fieldOf ·.toList)) (escapeData text).toList) := by
  have colonless : ':' ∉ [','].intercalate (properties.map String.toList) := by
    intro member
    rcases Text.memIntercalate member with comma | ⟨piece, among, inside⟩
    · exact absurd comma (by decide)
    · obtain ⟨p, given, rfl⟩ := List.mem_map.mp among
      exact free p given ':' inside (by decide)
  have commaless : ∀ piece ∈ properties.map String.toList, ',' ∉ piece := by
    rintro _ among inside
    obtain ⟨p, given, rfl⟩ := List.mem_map.mp among
    exact free p given ',' inside (by decide)
  by_cases none : properties = []
  · subst none
    exact @headRead severity [] rfl List.not_mem_nil (escapeData text).toList
  · have read := @headRead severity (' ' :: [','].intercalate (properties.map String.toList)) rfl
      (by simpa using colonless) (escapeData text).toList
    rw [List.drop_one, List.tail_cons, List.splitOn_intercalate ',' commaless (by simpa using none), List.map_map] at read
    rw [lineOf, if_neg none]
    exact read

/-! What the properties say. -/

def fieldsOf (item : Item) : List (String × String) :=
  item.place.elim [] (fun p =>
    [("file", p.path)] ++ p.line.elim [] (fun n => [("line", toString n)]) ++
      p.column.elim [] (fun n => [("col", toString n)])) ++
  [("title", item.checkId.getD unnamedCheck)]

theorem numberDigits (n : Nat) : ∀ c ∈ (toString n).toList, c.isDigit = true := by
  intro c member
  have same : (toString n).toList = Nat.toDigits 10 n := Nat.toList_repr
  rw [same] at member
  exact Nat.isDigit_of_mem_toDigits (by decide) (by decide) member

theorem numberFree (n : Nat) : Free separators (toString n).toList := by
  have other : separators.all (!·.isDigit) = true := by decide
  intro c member separates
  exact absurd (numberDigits n c member) (by simpa using List.all_eq_true.mp other c separates)

theorem numberPlain (n : Nat) : unescape (toString n).toList = (toString n).toList :=
  unescapePlain (fun member => absurd (numberDigits n '%' member) (by decide))

theorem propertyRead {label name value text : String} (labelled : label.toList = name.toList ++ ['='])
    (plain : '=' ∉ name.toList) (undone : unescape value.toList = text.toList) :
    fieldOf (label ++ value).toList = (name, text) := by
  rw [String.toList_append, labelled, List.append_assoc, List.singleton_append, fieldRead plain, undone, String.ofList_toList]

theorem fileRead (path : String) : fieldOf ("file=" ++ escapeProperty path).toList = ("file", path) :=
  propertyRead rfl (by decide) (unescapeProperty path)

theorem propertiesRead (item : Item) : (properties item).map (fieldOf ·.toList) = fieldsOf item := by
  have line (n : Nat) : fieldOf ("line=" ++ toString n).toList = ("line", toString n) :=
    propertyRead rfl (by decide) (numberPlain n)
  have column (n : Nat) : fieldOf ("col=" ++ toString n).toList = ("col", toString n) :=
    propertyRead rfl (by decide) (numberPlain n)
  have title (check : String) : fieldOf ("title=" ++ escapeProperty check).toList = ("title", check) :=
    propertyRead rfl (by decide) (unescapeProperty check)
  rw [properties, fieldsOf, List.map_append, List.map_singleton, title]
  rcases item.place with _ | ⟨path, _ | atLine, _ | atColumn⟩ <;>
    simp only [Option.elim, List.map_append, List.map_cons, List.map_nil, fileRead, line, column]

theorem labelFree {label value : String} (named : Free separators label.toList) (free : Free separators value.toList) :
    Free separators (label ++ value).toList := by
  rw [String.toList_append]
  exact freeAppend.mpr ⟨named, free⟩

theorem fileFree (path : String) : Free separators ("file=" ++ escapeProperty path).toList :=
  labelFree (by decide) (escapePropertyFree path)

theorem propertiesFree (item : Item) : ∀ p ∈ properties item, Free separators p.toList := by
  have line (n : Nat) : Free separators ("line=" ++ toString n).toList := labelFree (by decide) (numberFree n)
  have column (n : Nat) : Free separators ("col=" ++ toString n).toList := labelFree (by decide) (numberFree n)
  have title (check : String) : Free separators ("title=" ++ escapeProperty check).toList :=
    labelFree (by decide) (escapePropertyFree check)
  rw [properties, List.forall_mem_append, List.forall_mem_singleton]
  refine ⟨?_, title _⟩
  rcases item.place with _ | ⟨path, _ | atLine, _ | atColumn⟩ <;>
    simp only [Option.elim, List.forall_mem_append, List.forall_mem_cons, List.not_mem_nil, fileFree, line, column,
      false_implies, implies_true, and_self]

theorem lineUnbroken (severity : Severity) {properties : List String} (free : ∀ p ∈ properties, Free separators p.toList)
    (text : String) : Free breaks (lineOf severity properties text) := by
  have start : Free breaks severity.text.toList := by cases severity <;> decide
  have colons : Free breaks [':', ':'] := by decide
  have middle : Free breaks (if properties = [] then [] else ' ' :: [','].intercalate (properties.map String.toList)) := by
    split
    · decide
    · refine (@freeAppend breaks [' '] _).mpr ⟨by decide, freeIntercalate (by decide) (fun piece among => ?_)⟩
      obtain ⟨p, given, rfl⟩ := List.mem_map.mp among
      exact separatorsBreaks (free p given)
  exact freeAppend.mpr ⟨colons, freeAppend.mpr ⟨freeAppend.mpr ⟨start, middle⟩, freeAppend.mpr ⟨colons, escapeDataFree text⟩⟩⟩

/-! All annotations of a sheet. -/

theorem notedText (text : String) : String.ofList (unescape (escapeData text).toList) = text := by
  rw [unescapeData, String.ofList_toList]

theorem readItem (item : Item) : read? (ofItem item) = some (Note.ofItem item) := by
  rw [read?, ofItemLine, lineRead _ (propertiesFree item), propertiesRead, noteOf, notedText]
  refine congrArg some ?_
  obtain ⟨severity, check, code, message, _ | ⟨path, _ | line, _ | column⟩, help, url⟩ := item <;>
    simp [Note.ofItem, fieldsOf, Table.lookupCons]

theorem errorFree (e : ErrorItem) :
    ∀ p ∈ e.path.elim [] (fun p => ["file=" ++ escapeProperty p]), Free separators p.toList := by
  cases e.path with
  | none => exact List.forall_mem_nil _
  | some path => exact List.forall_mem_singleton.mpr (fileFree path)

theorem readError (e : ErrorItem) : read? (ofError e) = some (Note.ofError e) := by
  rw [read?, ofErrorLine, lineRead _ (errorFree e), noteOf, notedText]
  refine congrArg some ?_
  obtain ⟨rule, _ | path, message⟩ := e
  · rfl
  · rw [Option.elim, List.map_singleton, fileRead]
    simp [Note.ofError]

theorem ofItemUnbroken (item : Item) : Free breaks (ofItem item).toList :=
  ofItemLine item ▸ lineUnbroken item.severity (propertiesFree item) _

theorem ofErrorUnbroken (e : ErrorItem) : Free breaks (ofError e).toList :=
  ofErrorLine e ▸ lineUnbroken .error (errorFree e) _

/-- The annotations of a sheet are one line for each finding and then for each error, and what any of
them says is read from the line. Under a limit the first of them are shown. -/
theorem annotationsRead (s : Sheet) (limit : Nat) :
    (all s).map read? = s.items.map (some ∘ Note.ofItem) ++ s.errors.map (some ∘ Note.ofError) ∧
    (∀ line ∈ all s, '\r' ∉ line.toList ∧ '\n' ∉ line.toList) ∧
    render s limit <+: all s ∧
    (render s limit).length = min limit (s.items.length + s.errors.length) := by
  have unbroken : ∀ line ∈ all s, Free breaks line.toList := by
    intro line member
    rcases List.mem_append.mp member with among | among
    · obtain ⟨item, -, rfl⟩ := List.mem_map.mp among
      exact ofItemUnbroken item
    · obtain ⟨e, -, rfl⟩ := List.mem_map.mp among
      exact ofErrorUnbroken e
  have items : s.items.map (read? ∘ ofItem) = s.items.map (some ∘ Note.ofItem) :=
    List.map_congr_left fun item _ => readItem item
  have errors : s.errors.map (read? ∘ ofError) = s.errors.map (some ∘ Note.ofError) :=
    List.map_congr_left fun e _ => readError e
  refine ⟨?_, fun line member => ?_, List.take_prefix limit (all s), ?_⟩
  · rw [all, List.map_append, List.map_map, List.map_map, items, errors]
  · exact ⟨fun inside => unbroken line member _ inside (by decide),
      fun inside => unbroken line member _ inside (by decide)⟩
  · rw [render, List.length_take, all, List.length_append, List.length_map, List.length_map]

end DeclOrder.View.Annotation
