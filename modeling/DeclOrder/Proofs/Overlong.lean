import DeclOrder.Proofs.Layout.Meaning
import DeclOrder.Proofs.Rejoining

/-! Files that a check panics on: their outputs are out of order, and a key in one of them is too long to be
padded. -/
namespace DeclOrder.OutputOrder

/-- A file whose outputs are a document in the recommended order, but one that cannot be laid out. -/
inductive Overlong : SourceFile → Prop where
  | moved {path source blocks entries arranged} (collected : Collected source blocks entries)
      (order : Arranged entries arranged) (moved : arranged ≠ entries)
      (document : (Hcl.parse? (recommended arranged)).isNone = false) (wide : ¬ Layout.Narrow (recommended arranged)) :
      Overlong ⟨path, .parsed source blocks⟩

theorem checkPanics {file : SourceFile} : checkFile canonicalFormatter file = none ↔ Overlong file := by
  constructor
  · intro silent
    have checked := checkedComplete canonicalFormatter file
    rw [silent] at checked
    cases checked with
    | panicked collected order moved nothing =>
        obtain ⟨document, wide⟩ := canonicalFormatterNone.mp nothing
        exact .moved collected order moved document wide
  · rintro ⟨collected, order, moved, document, wide⟩
    exact checkedSound (.panicked collected order moved (canonicalFormatterNone.mpr ⟨document, wide⟩))

end DeclOrder.OutputOrder

namespace DeclOrder.Hcl
open Reader Read

/-! A block with one attribute, whatever its key. -/

def IsName (key : List Char) : Prop :=
  ∃ c ks, key = c :: ks ∧ startsIdentifier c = true ∧ ks.all continuesIdentifier = true

theorem identifierRead {key rest : List Char} {d : Char} (name : IsName key) (stops : continuesIdentifier d = false) :
    identifier (key ++ d :: rest) = some (String.ofList key, d :: rest) := by
  obtain ⟨c, ks, rfl, start, parts⟩ := name
  have all := List.all_eq_true.mp parts
  refine identifierSome.mpr ⟨c, ks ++ d :: rest, rfl, start, ?_, ?_⟩
  · rw [List.takeWhile_append_of_pos all, List.takeWhile_cons_of_neg (by simp [stops]), List.append_nil]
  · rw [List.dropWhile_append_of_pos all, List.dropWhile_cons_of_neg (by simp [stops])]

def outputTail (letter : Char) (body : List Char) : List Char :=
  ' ' :: '"' :: letter :: '"' :: ' ' :: '\x7b' :: '\n' :: body

def outputText (letter : Char) (body : List Char) : List Char := ['o', 'u', 't', 'p', 'u', 't'] ++ outputTail letter body

def outputBlock (letter : Char) (items : Body) : Structure := .block "output" [.quoted (String.ofList [letter])] items

theorem outputReads {letter : Char} (few : letter ∈ ['a', 'b']) {body bound : List Char} {items : List Placed}
    (read : bodyUpTo bound body = some (items, ['}'])) :
    placedItem (bodyUpTo bound) (outputText letter body) = some (outputBlock letter (items.map Placed.item), []) := by
  have header : identifier (outputText letter body) = some ("output", outputTail letter body) :=
    identifierRead ⟨'o', _, rfl, by decide, by decide⟩ (by decide)
  have labels : many placedLabel (outputTail letter body) = some ([(.quoted (String.ofList [letter]), ' ' :: '\x7b' :: '\n' :: body)],
      ' ' :: '\x7b' :: '\n' :: body) := by
    simp only [List.mem_cons, List.not_mem_nil, or_false] at few
    rw [outputTail]
    rcases few with rfl | rfl <;> rfl
  have held : blockBody (bodyUpTo bound) ('\x7b' :: '\n' :: body) = some (items.map Placed.item, []) :=
    bindSome.mpr ⟨(), _, rfl, bindSome.mpr ⟨true, body, rfl, bindSome.mpr ⟨items, _, read, rfl⟩⟩⟩
  have places : ∃ q, placed (bodyUpTo bound) (outputText letter body) = some (q, []) ∧
      q.item = outputBlock letter (items.map Placed.item) :=
    ⟨_, bindSome.mpr ⟨_, _, rfl, bindSome.mpr ⟨_, _, header, bindSome.mpr ⟨_, _, rfl, bindSome.mpr ⟨(), _, rfl,
      bindSome.mpr ⟨_, _, rfl, bindSome.mpr ⟨(), _, rfl, bindSome.mpr ⟨_, _, labels, bindSome.mpr ⟨(), _, rfl,
        bindSome.mpr ⟨_, _, held, rfl⟩⟩⟩⟩⟩⟩⟩⟩⟩, rfl⟩
  obtain ⟨q, read, same⟩ := places
  exact bindSome.mpr ⟨q, [], read, same ▸ rfl⟩

theorem outputFree {letter : Char} (few : letter ∈ ['a', 'b']) {body : List Char} {items : List Placed}
    (read : bodyUpTo (outputText letter body) body = some (items, ['}'])) (filled : bodyFilled (items.map Placed.item) = true) :
    Freestanding (outputText letter body) (outputBlock letter (items.map Placed.item)) := by
  obtain ⟨text, whole, free⟩ := blockFreestanding (Nat.le_succ _) filled (outputReads few read)
  rw [List.append_nil] at whole
  exact whole ▸ free

def assignedBody (key : List Char) : List Char := key ++ [' ', '=', ' ', '1', '\n', '}']

theorem assignedBodyReads {key : List Char} (name : IsName key) (c : Char) (bound : List Char) :
    ∃ p, bodyUpTo (c :: bound) (assignedBody key) = some ([p], ['}']) ∧
      p.item = .attribute (String.ofList key) (.number "1") := by
  have spaces : space (assignedBody key) = some ((), assignedBody key) := by
    obtain ⟨c, ks, rfl, start, -⟩ := name
    exact skipSome.mpr (identifierStays start)
  let p : Placed :=
    ⟨.attribute (String.ofList key) (.number "1"), assignedBody key, [' ', '=', ' ', '1', '\n', '}'], ['\n', '}']⟩
  have reads : placed (bodyUpTo bound) (assignedBody key) = some (p, ['\n', '}']) :=
    bindSome.mpr ⟨_, _, rfl, bindSome.mpr ⟨_, _, identifierRead name (by decide), rfl⟩⟩
  have run : Run (entry (bodyUpTo bound)) (assignedBody key) [p] ['}'] := .step (bindSome.mpr ⟨_, _, reads, rfl⟩) (.stop rfl)
  have enough : [p].length ≤ (assignedBody key).length := by simp [assignedBody]
  have distinct : distinctAttributes [p] = true := by
    unfold distinctAttributes
    exact decide_eq_true (List.pairwise_singleton _ _)
  refine ⟨p, bindSome.mpr ⟨_, _, spaces, bindSome.mpr ⟨_, _, manyOfRun run enough, ?_⟩⟩, rfl⟩
  rw [if_pos distinct]
  rfl

def assignedText (key : List Char) : List Char := outputText 'b' (assignedBody key)

def assignedBlock (key : List Char) : Structure := outputBlock 'b' [.attribute (String.ofList key) (.number "1")]

def emptyText : List Char := outputText 'a' ['}']

theorem assignedFree {key : List Char} (name : IsName key) : Freestanding (assignedText key) (assignedBlock key) := by
  obtain ⟨p, read, item⟩ := assignedBodyReads name 'o' (['u', 't', 'p', 'u', 't'] ++ outputTail 'b' (assignedBody key))
  have free : Freestanding (outputText 'b' (assignedBody key)) (outputBlock 'b' ([p].map Placed.item)) :=
    outputFree (by decide) read (by rw [List.map_singleton, item]; rfl)
  rw [List.map_singleton, item] at free
  exact free

def emptyBlock : Structure := outputBlock 'a' []

theorem emptyFree : Freestanding emptyText emptyBlock := by
  have read : bodyUpTo emptyText ['}'] = some ([], ['}']) := by rfl
  exact outputFree (by decide) read rfl

end DeclOrder.Hcl

namespace DeclOrder.OutputOrder
open Hcl (assignedText emptyText assignedBlock emptyBlock blankLine IsName)

def turnedText (key : List Char) : List Char := blankLine.intercalate [assignedText key, emptyText]

theorem endsInBrace {text : List Char} {item : Hcl.Structure} (free : Hcl.Freestanding text item) : Text.trimEnd text = text := by
  obtain ⟨x, rfl, -⟩ := free
  rw [Text.trimEndAppendSolid (by decide)]
  rfl

theorem saidStands {source text : List Char} {b : Block} {kind name : String} {labels : List String}
    (reads : said source b = (kind, name :: labels, some text)) : Stands source b ⟨name, b.header, text⟩ := by
  have labelled : b.labels = name :: labels := congrArg (·.2.1) reads
  exact ⟨by rw [labelled]; rfl, rfl, coversSlice.mp (congrArg (·.2.2) reads)⟩

theorem turnedParsed {key : List Char} (name : IsName key) (path : RepoPath) : ∃ blocks b a,
    Source.parse? path (turnedText key) = some ⟨path, .parsed (turnedText key) blocks⟩ ∧
    Collected (turnedText key) blocks [⟨"b", b, assignedText key⟩, ⟨"a", a, emptyText⟩] := by
  obtain ⟨items, parsed, stood⟩ : ∃ items, Hcl.parsePlaced? (turnedText key) = some items ∧
      List.Forall₂ (fun p placed => Hcl.Stood (turnedText key) p.1 p.2 placed)
        [(assignedText key, assignedBlock key), (emptyText, emptyBlock)] items := by
    have document := @Hcl.parseFreestanding [] (.inl rfl) [(assignedText key, assignedBlock key), (emptyText, emptyBlock)]
      (List.forall_mem_cons.mpr ⟨Hcl.assignedFree name, List.forall_mem_singleton.mpr Hcl.emptyFree⟩)
      (List.forall_mem_cons.mpr ⟨rfl, List.forall_mem_singleton.mpr rfl⟩)
    rw [List.append_nil] at document
    exact document
  obtain _ | ⟨first, _ | ⟨second, _ | _⟩⟩ := stood
  obtain ⟨x, foundX, readsX⟩ := blockStood first path
  obtain ⟨y, foundY, readsY⟩ := blockStood second path
  refine ⟨[x, y], x.header, y.header, ?_, ?_⟩
  · rw [Source.parse?, parsed, Option.map_some, List.filterMap_cons, foundX, List.filterMap_cons, foundY]
    rfl
  · exact .tracked (congrArg (·.1) readsX) (saidStands readsX) (.tracked (congrArg (·.1) readsY) (saidStands readsY) .nil)

theorem turnedRecommended {key : List Char} (name : IsName key) (b a : SourceRange) :
    recommended [⟨"a", a, emptyText⟩, ⟨"b", b, assignedText key⟩] = blankLine.intercalate [emptyText, assignedText key] := by
  rw [recommended, List.map_cons, List.map_singleton, endsInBrace Hcl.emptyFree, endsInBrace (Hcl.assignedFree name)]
  rfl

theorem turnedArranged (key : List Char) (b a : SourceRange) : Arranged [⟨"b", b, assignedText key⟩, ⟨"a", a, emptyText⟩]
    [⟨"a", a, emptyText⟩, ⟨"b", b, assignedText key⟩] :=
  arrangedTurned (show ByteOrder.bytes "a" ≤ ByteOrder.bytes "b" by decide) (by simp)

theorem turnedSuggested {key formatted : List Char} (name : IsName key) (path : RepoPath)
    (accepted : canonicalFormatter (blankLine.intercalate [emptyText, assignedText key]) = some (.ok formatted)) :
    ∃ s, checkFile canonicalFormatter (Source.ofText path (turnedText key)) = some (.ok (some s)) := by
  obtain ⟨blocks, b, a, parsed, collected⟩ := turnedParsed name path
  rw [Source.ofText, parsed, Option.getD_some]
  have moved : [⟨"a", a, emptyText⟩, ⟨"b", b, assignedText key⟩] ≠ [⟨"b", b, assignedText key⟩, (⟨"a", a, emptyText⟩ : Entry)] :=
    fun same => absurd (congrArg (List.map Entry.name) same) (by simp)
  rw [← turnedRecommended name b a] at accepted
  exact ⟨_, checkedSound (.suggested collected (turnedArranged key b a) moved accepted)⟩

theorem turnedOverlong {key : List Char} (name : IsName key) (isKey : Layout.Key key) (noBreak : '\n' ∉ key)
    (long : Layout.widthLimit < key.length) (path : RepoPath) : Overlong (Source.ofText path (turnedText key)) := by
  obtain ⟨blocks, b, a, parsed, collected⟩ := turnedParsed name path
  have text := turnedRecommended name b a
  rw [Source.ofText, parsed, Option.getD_some]
  refine .moved collected (turnedArranged key b a) (fun same => ?_) ?_ ?_
  · exact absurd (congrArg (List.map Entry.name) same) (by simp)
  · obtain ⟨items, document, -⟩ := @Hcl.parseFreestanding [] (.inl rfl)
      [(emptyText, emptyBlock), (assignedText key, assignedBlock key)]
      (List.forall_mem_cons.mpr ⟨Hcl.emptyFree, List.forall_mem_singleton.mpr (Hcl.assignedFree name)⟩)
      (List.forall_mem_cons.mpr ⟨rfl, List.forall_mem_singleton.mpr rfl⟩)
    rw [List.append_nil] at document
    rw [text, Hcl.parse?]
    exact document ▸ rfl
  · rw [text]
    intro narrow
    have split := Text.linesThrough (emptyText ++ (blankLine ++ ['o', 'u', 't', 'p', 'u', 't', ' ', '"', 'b', '"', ' ', '\x7b']))
      (key ++ " = 1".toList ++ '\n' :: ['}'])
    rw [Layout.linesKey noBreak] at split
    have whole : blankLine.intercalate [emptyText, assignedText key] =
        (emptyText ++ (blankLine ++ ['o', 'u', 't', 'p', 'u', 't', ' ', '"', 'b', '"', ' ', '\x7b'])) ++
          '\n' :: (key ++ " = 1".toList ++ '\n' :: ['}']) := by
      simp only [List.intercalate_cons_cons, List.intercalate_singleton, assignedText, Hcl.outputText, Hcl.outputTail,
        Hcl.assignedBody, List.append_assoc, List.cons_append, List.nil_append]
      rfl
    rw [whole] at narrow
    exact absurd (Layout.narrowKey isKey split (by decide +kernel) narrow) (Nat.not_le.mpr long)

theorem lettersOverlong {n : Nat} (long : Layout.widthLimit ≤ n) (path : RepoPath) :
    Overlong (Source.ofText path (turnedText (List.replicate (n + 1) 'a'))) := by
  have name : IsName (List.replicate (n + 1) 'a') :=
    ⟨'a', _, List.replicate_succ, by decide, List.all_eq_true.mpr fun c member => List.eq_of_mem_replicate member ▸ by decide⟩
  refine turnedOverlong name (Layout.lettersKey n) (Layout.lettersNoBreak (n + 1)) ?_ path
  rw [List.length_replicate]
  exact Nat.lt_succ_of_le long

end DeclOrder.OutputOrder
