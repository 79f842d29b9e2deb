import DeclOrder.Proofs.Reading
import DeclOrder.Proofs.OutputOrder

/-! What a recommendation depends on: the names and the texts of the tracked blocks, and of their order only
how the blocks of one name follow each other. -/
namespace DeclOrder.OutputOrder

abbrev Reading := Option String × Option (List Char)

abbrev Named := String × List Char

def readings (source : List Char) (blocks : List Block) : List Reading :=
  (tracked blocks).map (fun b => (b.name?, b.range.slice? source))

/-- The same blocks in another order, those of one name as they followed each other. -/
structure Rearranged (l m : List Reading) : Prop where
  perm : l.Perm m
  ties : ∀ name, l.filter (·.1 == name) = m.filter (·.1 == name)

abbrev Shown := List String × List String × List Char

def shown (result : Option (Except CheckError (Option Suggestion))) : Option (Option (Option Shown)) :=
  result.map (·.toOption.map (·.map (fun s => (s.declared, s.expected, s.formatted))))

def named? : Reading → Option Named
  | (some name, some text) => some (name, text)
  | _ => none

def Entry.named (e : Entry) : Named := (e.name, e.text)

def namedInOrder (p q : Named) : Bool := decide (p.1 ≤ q.1)

def recommend (format : Formatter) (blocks : List Named) : Option (Option (Option Shown)) :=
  let arranged := blocks.mergeSort namedInOrder
  if arranged = blocks then some (some none)
  else (format (['\n', '\n'].intercalate (arranged.map (fun p => Text.trimEnd p.2)))).map
    (·.toOption.map (fun formatted => some (blocks.map (·.1), arranged.map (·.1), formatted)))

theorem readingsTracked {source : List Char} {b : Block} (kind : b.kind = trackedKind) (blocks : List Block) :
    readings source (b :: blocks) = (b.name?, b.range.slice? source) :: readings source blocks := by
  rw [readings, tracked, List.filter_cons_of_pos (by simpa using kind)]
  rfl

theorem readingsOther {source : List Char} {b : Block} (kind : b.kind ≠ trackedKind) (blocks : List Block) :
    readings source (b :: blocks) = readings source blocks := by
  rw [readings, tracked, List.filter_cons_of_neg (by simpa using kind)]
  rfl

theorem entryNamed (path : RepoPath) (source : List Char) (b : Block) :
    (entryOf path source b).toOption.map Entry.named = named? (b.name?, b.range.slice? source) := by
  unfold entryOf
  cases b.name? with
  | none => rfl
  | some name => cases b.range.slice? source <;> rfl

theorem collectReadings (path : RepoPath) (source : List Char) (blocks : List Block) :
    (collect path source blocks).toOption.map (·.map Entry.named) = (readings source blocks).mapM named? := by
  induction blocks with
  | nil => rfl
  | cons b blocks ih =>
      by_cases kind : b.kind = trackedKind
      · rw [collectTracked kind, readingsTracked kind, List.mapM_cons, ← ih, ← entryNamed path]
        cases entryOf path source b with
        | error e => rfl
        | ok e => cases collect path source blocks <;> rfl
      · rw [collectOther kind, readingsOther kind, ih]

theorem sortedNamed (entries : List Entry) :
    (sorted entries).map Entry.named = (entries.map Entry.named).mergeSort namedInOrder :=
  List.map_mergeSort (fun _ _ _ _ => rfl)

theorem entriesShown (format : Formatter) (path : RepoPath) (entries : List Entry) :
    shown (checkEntries format path entries) = recommend format (entries.map Entry.named) := by
  unfold recommend
  rw [← sortedNamed]
  by_cases still : sorted entries = entries
  · rw [checkSorted still, still]
    exact (if_pos rfl).symm
  · have moved : (sorted entries).map Entry.named ≠ entries.map Entry.named := by
      intro same
      have names := congrArg (List.map Prod.fst) same
      rw [List.map_map, List.map_map] at names
      exact still (namesMove names)
    cases entries with
    | nil => exact (still List.mergeSort_nil).elim
    | cons first rest =>
        have texts : ((sorted (first :: rest)).map Entry.named).map (fun p => Text.trimEnd p.2) =
            (sorted (first :: rest)).map (fun e => Text.trimEnd e.text) := List.map_map
        rw [checkUnsorted still]
        dsimp only
        rw [if_neg moved, texts, ← recommended]
        cases format (recommended (sorted (first :: rest))) with
        | none => rfl
        | some answer => cases answer with
            | error cause => rfl
            | ok formatted => simp [shown, Except.toOption, Entry.named]

theorem checkShown (format : Formatter) (path : RepoPath) (source : List Char) (blocks : List Block) :
    shown (checkFile format ⟨path, .parsed source blocks⟩) =
      ((readings source blocks).mapM named?).elim (some none) (recommend format) := by
  rw [← collectReadings path, checkFile]
  dsimp only
  cases collect path source blocks with
  | error e => rfl
  | ok entries => exact entriesShown format path entries

def readingOf (p : Named) : Reading := (some p.1, some p.2)

theorem namedReadings {l : List Reading} {named : List Named}
    (all : l.mapM named? = some named) : l = named.map readingOf := by
  induction l generalizing named with
  | nil => cases all; rfl
  | cons r rest ih =>
      rw [List.mapM_cons] at all
      simp only [bind, Option.bind_eq_some_iff] at all
      obtain ⟨p, read, others, found, last⟩ := all
      cases last
      obtain ⟨name, text⟩ := r
      cases name with
      | none => contradiction
      | some name =>
          cases text with
          | none => contradiction
          | some text =>
              cases read
              rw [List.map_cons, ← ih found]
              rfl

theorem namedTrans (a b c : Named) (ab : namedInOrder a b) (bc : namedInOrder b c) : namedInOrder a c := by
  simp only [namedInOrder, decide_eq_true_eq] at *
  exact String.le_trans ab bc

theorem namedTotal (a b : Named) : namedInOrder a b || namedInOrder b a := by
  simpa [namedInOrder] using String.le_total a.1 b.1

theorem namedTied (x p : Named) : StableSort.tied namedInOrder x p = (p.1 == x.1) := by
  rw [Bool.eq_iff_iff]
  simp only [StableSort.tied, namedInOrder, Bool.and_eq_true, decide_eq_true_eq, beq_iff_eq]
  exact ⟨fun h => String.le_antisymm h.2 h.1, fun h => h ▸ ⟨String.le_refl _, String.le_refl _⟩⟩

theorem arrangedAlike {l m : List Named}
    (rearranged : Rearranged (l.map readingOf) (m.map readingOf)) :
    l.mergeSort namedInOrder = m.mergeSort namedInOrder := by
  have named (n : List Named) (name : String) :
      (n.map readingOf).filter (·.1 == some name) = (n.filter (·.1 == name)).map readingOf := List.filter_map
  have injective (p q : Named) (same : readingOf p = readingOf q) : p = q :=
    Prod.ext (Option.some.inj (congrArg Prod.fst same)) (Option.some.inj (congrArg Prod.snd same))
  -- A stable sort is settled by the order of the blocks that tie, and these are the blocks of one name.
  refine StableSort.sortAlike namedTrans namedTotal (fun x => ?_)
  have ties := rearranged.ties (some x.1)
  rw [named, named] at ties
  rw [funext (namedTied x)]
  exact (List.map_inj_right injective).mp ties

theorem recommendSome {format : Formatter} {blocks : List Named} {declared expected : List String}
    {formatted : List Char} (made : recommend format blocks = some (some (some (declared, expected, formatted)))) :
    expected = (blocks.mergeSort namedInOrder).map (·.1) ∧
      format (['\n', '\n'].intercalate ((blocks.mergeSort namedInOrder).map (fun p => Text.trimEnd p.2))) =
        some (.ok formatted) := by
  unfold recommend at made
  dsimp only at made
  split at made
  · cases made
  · obtain ⟨answer, accepted, parts⟩ := Option.map_eq_some_iff.mp made
    obtain ⟨text, same, parts⟩ := Option.map_eq_some_iff.mp parts
    cases parts
    exact ⟨rfl, by rw [accepted, toOptionOk.mp same]⟩

theorem suggestedReadings {format : Formatter} {path : RepoPath} {source : List Char} {blocks : List Block} {s : Suggestion}
    (suggested : checkFile format ⟨path, .parsed source blocks⟩ = some (.ok (some s))) :
    ∃ named, (readings source blocks).mapM named? = some named ∧
      recommend format named = some (some (some (s.declared, s.expected, s.formatted))) := by
  have made := checkShown format path source blocks
  rw [suggested] at made
  cases all : (readings source blocks).mapM named? with
  | none =>
      rw [all] at made
      cases made
  | some named =>
      rw [all] at made
      exact ⟨named, rfl, made.symm⟩

/-- Files with the same tracked blocks, those of one name in the same order, get one recommendation, and nothing
of a file but the names and the texts of its tracked blocks has a part in it. -/
theorem sameBlocksSameOrder (format : Formatter) :
    (∀ path path' source source' blocks blocks' s s',
      checkFile format ⟨path, .parsed source blocks⟩ = some (.ok (some s)) →
      checkFile format ⟨path', .parsed source' blocks'⟩ = some (.ok (some s')) →
      Rearranged (readings source blocks) (readings source' blocks') →
      s.expected = s'.expected ∧ s.formatted = s'.formatted) ∧
    (∀ path path' source source' blocks blocks', readings source blocks = readings source' blocks' →
      shown (checkFile format ⟨path, .parsed source blocks⟩) =
        shown (checkFile format ⟨path', .parsed source' blocks'⟩)) := by
  constructor
  · intro path path' source source' blocks blocks' s s' suggested suggested' rearranged
    obtain ⟨named, all, made⟩ := suggestedReadings suggested
    obtain ⟨named', all', made'⟩ := suggestedReadings suggested'
    rw [namedReadings all, namedReadings all'] at rearranged
    obtain ⟨expected, accepted⟩ := recommendSome made
    obtain ⟨expected', accepted'⟩ := recommendSome made'
    rw [arrangedAlike rearranged] at expected accepted
    exact ⟨expected.trans expected'.symm, Except.ok.inj (Option.some.inj (accepted.symm.trans accepted'))⟩
  · intro path path' source source' blocks blocks' same
    rw [checkShown, checkShown, same]

theorem tiesAmong {α β : Type} [BEq β] [LawfulBEq β] {key : α → β} {l m : List α} (perm : l.Perm m)
    (among : ∀ a ∈ l, l.filter (key · == key a) = m.filter (key · == key a)) (k : β) :
    l.filter (key · == k) = m.filter (key · == k) := by
  by_cases occurs : ∃ a ∈ l, key a = k
  · obtain ⟨a, member, rfl⟩ := occurs
    exact among a member
  · have none {n : List α} (within : ∀ a ∈ n, a ∈ l) : n.filter (key · == k) = [] :=
      List.filter_eq_nil_iff.mpr (fun a member same => occurs ⟨a, within a member, beq_iff_eq.mp same⟩)
    rw [none (fun _ member => member), none (fun _ member => perm.mem_iff.mpr member)]

def smallBlock (kind name : String) (start : Nat) : Block := ⟨kind, [name], turnedRange "main.tf" start, turnedRange "main.tf" start⟩

def doubleBlocks : List Block :=
  [smallBlock trackedKind "z" 0, smallBlock trackedKind "d" 1, smallBlock trackedKind "d" 2]

def mixedBlocks : List Block :=
  [smallBlock trackedKind "d" 0, smallBlock "resource" "r" 1, smallBlock trackedKind "z" 2, smallBlock trackedKind "d" 3]

def spreadBlocks : List Block :=
  [smallBlock trackedKind "d" 1, smallBlock trackedKind "z" 3, smallBlock trackedKind "d" 5]

theorem sameBlocksSameOrderMixed : ∃ s s',
    checkFile keeping ⟨⟨"main.tf"⟩, .parsed ['z', 'x', 'y'] doubleBlocks⟩ = some (.ok (some s)) ∧
    checkFile keeping ⟨⟨"main.tf"⟩, .parsed ['x', 'r', 'z', 'y'] mixedBlocks⟩ = some (.ok (some s')) ∧
    Rearranged (readings ['z', 'x', 'y'] doubleBlocks) (readings ['x', 'r', 'z', 'y'] mixedBlocks) ∧
    s.declared ≠ s'.declared ∧ (s.expected = s'.expected ∧ s.formatted = s'.formatted) ∧
    readings ['x', 'r', 'z', 'y'] mixedBlocks = readings ['#', 'x', '#', 'z', '#', 'y'] spreadBlocks ∧
    shown (checkFile keeping ⟨⟨"main.tf"⟩, .parsed ['x', 'r', 'z', 'y'] mixedBlocks⟩) =
      shown (checkFile keeping ⟨⟨"main.tf"⟩, .parsed ['#', 'x', '#', 'z', '#', 'y'] spreadBlocks⟩) := by
  have double : checkFile keeping ⟨⟨"main.tf"⟩, .parsed ['z', 'x', 'y'] doubleBlocks⟩ = some (.ok (some ⟨turnedRange "main.tf" 0,
      ["z", "d", "d"], ["d", "d", "z"], ['x', '\n', '\n', 'y', '\n', '\n', 'z']⟩)) := by
    let z : Entry := ⟨"z", turnedRange "main.tf" 0, ['z']⟩
    let d : Entry := ⟨"d", turnedRange "main.tf" 1, ['x']⟩
    let d' : Entry := ⟨"d", turnedRange "main.tf" 2, ['y']⟩
    have order : Arranged [z, d, d'] [d, d', z] := ⟨by decide, by decide, tiesAmong (by decide) (by decide)⟩
    have collected : collect ⟨"main.tf"⟩ ['z', 'x', 'y'] doubleBlocks = .ok [z, d, d'] := rfl
    exact checkedSound (.suggested (collectOk.mp collected) order (by decide) rfl)
  have mixed : checkFile keeping ⟨⟨"main.tf"⟩, .parsed ['x', 'r', 'z', 'y'] mixedBlocks⟩ = some (.ok (some ⟨turnedRange "main.tf" 0,
      ["d", "z", "d"], ["d", "d", "z"], ['x', '\n', '\n', 'y', '\n', '\n', 'z']⟩)) := by
    let d : Entry := ⟨"d", turnedRange "main.tf" 0, ['x']⟩
    let z : Entry := ⟨"z", turnedRange "main.tf" 2, ['z']⟩
    let d' : Entry := ⟨"d", turnedRange "main.tf" 3, ['y']⟩
    have order : Arranged [d, z, d'] [d, d', z] := ⟨by decide, by decide, tiesAmong (by decide) (by decide)⟩
    have collected : collect ⟨"main.tf"⟩ ['x', 'r', 'z', 'y'] mixedBlocks = .ok [d, z, d'] := rfl
    exact checkedSound (.suggested (collectOk.mp collected) order (by decide) rfl)
  have rearranged : Rearranged (readings ['z', 'x', 'y'] doubleBlocks) (readings ['x', 'r', 'z', 'y'] mixedBlocks) := by
    have swapped : (readings ['z', 'x', 'y'] doubleBlocks).Perm (readings ['x', 'r', 'z', 'y'] mixedBlocks) := .swap ..
    exact ⟨swapped, tiesAmong swapped (by decide)⟩
  have same : readings ['x', 'r', 'z', 'y'] mixedBlocks = readings ['#', 'x', '#', 'z', '#', 'y'] spreadBlocks := by decide
  exact ⟨_, _, double, mixed, rearranged, by decide, (sameBlocksSameOrder keeping).1 _ _ _ _ _ _ _ _ double mixed rearranged,
    same, (sameBlocksSameOrder keeping).2 _ _ _ _ _ _ same⟩

end DeclOrder.OutputOrder
