import DeclOrder.Proofs.ByteOrder
import DeclOrder.Proofs.StableSort
import DeclOrder.Rule.OutputOrder

/-! What the check of one file yields, as a relation. The first tracked block that is broken decides the
error. Otherwise the one arrangement of the blocks that is by name and keeps equal names in their order
decides between nothing and a suggestion, and every part of the suggestion is read off it. Only a
formatter that panics leaves a file without an answer. -/
namespace DeclOrder.OutputOrder

/-- What a range covers: a text between two character boundaries of the source. -/
def Covers (source : List Char) (range : SourceRange) (text : List Char) : Prop :=
  ∃ front rest, source = front ++ text ++ rest ∧ Text.byteSize front = range.start.byte ∧
    Text.byteSize (front ++ text) = range.stop.byte

theorem coversSlice {source : List Char} {range : SourceRange} {text : List Char} :
    range.slice? source = some text ↔ Covers source range text := Text.sliceSome

def tracked (blocks : List Block) : List Block := blocks.filter (·.kind = trackedKind)

structure Stands (source : List Char) (block : Block) (entry : Entry) : Prop where
  name : block.labels.head? = some entry.name
  header : entry.header = block.header
  text : Covers source block.range entry.text

inductive Broken (path : RepoPath) (source : List Char) (block : Block) : CheckError → Prop where
  | unlabelled (none : block.labels = []) :
      Broken path source block (.missingLabel path block.kind block.header.start.line)
  | outside {name} (label : block.labels.head? = some name) (uncovered : ∀ text, ¬ Covers source block.range text) :
      Broken path source block (.read path (outsideReason block name))

inductive Collected (source : List Char) : List Block → List Entry → Prop where
  | nil : Collected source [] []
  | other {b blocks entries} (kind : b.kind ≠ trackedKind) (rest : Collected source blocks entries) :
      Collected source (b :: blocks) entries
  | tracked {b blocks e entries} (kind : b.kind = trackedKind) (stands : Stands source b e)
      (rest : Collected source blocks entries) : Collected source (b :: blocks) (e :: entries)

theorem entryStands {path source block entry} :
    entryOf path source block = .ok entry ↔ Stands source block entry := by
  unfold entryOf Block.name?
  cases label : block.labels.head? with
  | none => exact ⟨fun h => by simp at h, fun h => by simp [h.name] at label⟩
  | some name =>
      cases slice : block.range.slice? source with
      | none =>
          refine ⟨fun h => by simp at h, fun h => ?_⟩
          rw [coversSlice.mpr h.text] at slice
          cases slice
      | some text =>
          constructor
          · intro h
            cases h
            exact ⟨label, rfl, coversSlice.mp slice⟩
          · intro h
            obtain ⟨entryName, header, entryText⟩ := entry
            obtain rfl : name = entryName := Option.some.inj (label.symm.trans h.name)
            obtain rfl : header = block.header := h.header
            obtain rfl : text = entryText := Option.some.inj (slice.symm.trans (coversSlice.mpr h.text))
            rfl

theorem entryBroken {path source block e} :
    entryOf path source block = .error e ↔ Broken path source block e := by
  unfold entryOf Block.name?
  cases label : block.labels.head? with
  | none =>
      have none : block.labels = [] := List.head?_eq_none_iff.mp label
      constructor
      · intro h
        cases h
        exact .unlabelled none
      · intro h
        cases h with
        | unlabelled => rfl
        | outside found => simp [found] at label
  | some name =>
      cases slice : block.range.slice? source with
      | none =>
          constructor
          · intro h
            cases h
            exact .outside label (fun text covers => by simp [coversSlice.mpr covers] at slice)
          · intro h
            cases h with
            | unlabelled none => simp [none] at label
            | outside found =>
                obtain rfl := Option.some.inj (label.symm.trans found)
                rfl
      | some text =>
          refine ⟨fun h => by simp at h, fun h => ?_⟩
          cases h with
          | unlabelled none => simp [none] at label
          | outside _ uncovered => exact (uncovered text (coversSlice.mp slice)).elim

theorem collectOther {path source b blocks} (kind : b.kind ≠ trackedKind) :
    collect path source (b :: blocks) = collect path source blocks := if_neg kind

theorem collectTracked {path source b blocks} (kind : b.kind = trackedKind) :
    collect path source (b :: blocks) =
      (entryOf path source b).bind (fun e => (collect path source blocks).map (e :: ·)) := by
  rw [collect, if_pos kind]
  cases entryOf path source b with
  | error e => rfl
  | ok e => cases collect path source blocks <;> rfl

theorem collectOk {path source blocks entries} :
    collect path source blocks = .ok entries ↔ Collected source blocks entries := by
  constructor
  · intro h
    induction blocks generalizing entries with
    | nil => cases h; exact .nil
    | cons b blocks ih =>
        by_cases kind : b.kind = trackedKind
        · rw [collectTracked kind] at h
          cases first : entryOf path source b with
          | error e => simp [first, Except.bind] at h
          | ok e =>
              cases others : collect path source blocks with
              | error e => simp [first, others, Except.bind, Except.map] at h
              | ok rest =>
                  simp only [first, others, Except.bind, Except.map, Except.ok.injEq] at h
                  subst h
                  exact .tracked kind (entryStands.mp first) (ih others)
        · exact .other kind (ih ((collectOther kind).symm.trans h))
  · intro h
    induction h with
    | nil => rfl
    | other kind rest ih => rw [collectOther kind, ih]
    | tracked kind stands rest ih => rw [collectTracked kind, entryStands.mpr stands, ih]; rfl

theorem collectBehind {path source before entries} (sound : Collected source before entries) (blocks : List Block) :
    collect path source (before ++ blocks) = (collect path source blocks).map (entries ++ ·) := by
  induction sound with
  | nil => cases h : collect path source blocks <;> simp [h, Except.map]
  | other kind rest ih => rw [List.cons_append, collectOther kind, ih]
  | tracked kind stands rest ih =>
      rw [List.cons_append, collectTracked kind, entryStands.mpr stands, ih]
      cases collect path source blocks <;> rfl

theorem collectError {path source blocks e} : collect path source blocks = .error e ↔
    ∃ before bad after entries, blocks = before ++ bad :: after ∧ Collected source before entries ∧
      bad.kind = trackedKind ∧ Broken path source bad e := by
  constructor
  · intro h
    induction blocks with
    | nil => cases h
    | cons b blocks ih =>
        by_cases kind : b.kind = trackedKind
        · rw [collectTracked kind] at h
          cases first : entryOf path source b with
          | error cause =>
              simp only [first, Except.bind, Except.error.injEq] at h
              subst h
              exact ⟨[], b, blocks, [], rfl, .nil, kind, entryBroken.mp first⟩
          | ok entry =>
              cases others : collect path source blocks with
              | ok rest => simp [first, others, Except.bind, Except.map] at h
              | error cause =>
                  simp only [first, others, Except.bind, Except.map, Except.error.injEq] at h
                  subst h
                  obtain ⟨before, bad, after, entries, rfl, sound, tracked, broken⟩ := ih others
                  exact ⟨b :: before, bad, after, entry :: entries, rfl,
                    .tracked kind (entryStands.mp first) sound, tracked, broken⟩
        · obtain ⟨before, bad, after, entries, rfl, sound, tracked, broken⟩ := ih ((collectOther kind).symm.trans h)
          exact ⟨b :: before, bad, after, entries, rfl, .other kind sound, tracked, broken⟩
  · rintro ⟨before, bad, after, entries, rfl, sound, kind, broken⟩
    rw [collectBehind sound, collectTracked kind, entryBroken.mpr broken]
    rfl

/-- The entries by the bytes of their names, those of one name in their order. -/
structure Arranged (entries arranged : List Entry) : Prop where
  perm : arranged.Perm entries
  byName : arranged.Pairwise (fun a b => ByteOrder.bytes a.name ≤ ByteOrder.bytes b.name)
  ties : ∀ name, arranged.filter (·.name == name) = entries.filter (·.name == name)

theorem inOrderBytes {a b : Entry} : inOrder a b = true ↔ ByteOrder.bytes a.name ≤ ByteOrder.bytes b.name := by
  rw [ByteOrder.bytesUpTo, inOrder, decide_eq_true_eq]

theorem inOrderTrans (a b c : Entry) (ab : inOrder a b) (bc : inOrder b c) : inOrder a c := by
  simp only [inOrder, decide_eq_true_eq] at *
  exact String.le_trans ab bc

theorem inOrderTotal (a b : Entry) : inOrder a b || inOrder b a := by
  simpa [inOrder] using String.le_total a.name b.name

theorem tiedName (x e : Entry) : StableSort.tied inOrder x e = (e.name == x.name) := by
  rw [Bool.eq_iff_iff]
  simp only [StableSort.tied, inOrder, Bool.and_eq_true, decide_eq_true_eq, beq_iff_eq]
  exact ⟨fun h => String.le_antisymm h.2 h.1, fun h => h ▸ ⟨String.le_refl _, String.le_refl _⟩⟩

theorem arrangedIff {entries arranged : List Entry} : Arranged entries arranged ↔ arranged = sorted entries := by
  constructor
  · intro h
    refine StableSort.sortedUnique inOrderTotal (h.byName.imp inOrderBytes.mpr)
      (List.pairwise_mergeSort inOrderTrans inOrderTotal entries) (fun x => ?_)
    rw [sorted, StableSort.filterTied inOrderTrans inOrderTotal, funext (tiedName x)]
    exact h.ties x.name
  · rintro rfl
    refine ⟨List.mergeSort_perm _ _, ?_, fun name => ?_⟩
    · exact (List.pairwise_mergeSort inOrderTrans inOrderTotal entries).imp inOrderBytes.mp
    · have kept := StableSort.filterTied inOrderTrans inOrderTotal entries
        ⟨name, ⟨⟨""⟩, ⟨0, 0, 0⟩, ⟨0, 0, 0⟩⟩, []⟩
      rwa [funext (tiedName _)] at kept

theorem isSortedCons (a b : Entry) (rest : List Entry) :
    isSorted (a :: b :: rest) = (inOrder a b && isSorted (b :: rest)) := rfl

theorem isSortedPairwise {entries : List Entry} : isSorted entries = true ↔ entries.Pairwise (inOrder · ·) := by
  induction entries with
  | nil => simp [isSorted]
  | cons a rest ih =>
      cases rest with
      | nil => simp [isSorted]
      | cons b rest =>
          rw [isSortedCons, Bool.and_eq_true, ih, List.pairwise_cons (a := a)]
          refine and_congr_left (fun ordered => ⟨fun first e member => ?_, fun all => all b List.mem_cons_self⟩)
          rcases List.mem_cons.mp member with rfl | later
          · exact first
          · exact inOrderTrans a b e first ((List.pairwise_cons.mp ordered).1 e later)

theorem isSortedIff {entries : List Entry} : isSorted entries = true ↔ sorted entries = entries := by
  rw [isSortedPairwise]
  refine ⟨List.mergeSort_of_pairwise, fun h => ?_⟩
  rw [← h]
  exact List.pairwise_mergeSort inOrderTrans inOrderTotal entries

theorem namesMove {entries : List Entry} (names : (sorted entries).map (·.name) = entries.map (·.name)) :
    sorted entries = entries := by
  have byName : ((sorted entries).map (·.name)).Pairwise (· ≤ ·) := by
    rw [List.pairwise_map]
    exact (List.pairwise_mergeSort inOrderTrans inOrderTotal entries).imp (by simp [inOrder])
  rw [names, List.pairwise_map] at byName
  exact List.mergeSort_of_pairwise (byName.imp (by simp [inOrder]))

def recommended (entries : List Entry) : List Char :=
  ['\n', '\n'].intercalate (entries.map (fun e => Text.trimEnd e.text))

theorem joinedRecommended (entries : List Entry) : joined entries = recommended entries := by
  induction entries with
  | nil => rfl
  | cons e rest ih =>
      cases rest with
      | nil => simp [joined, recommended, List.intercalate]
      | cons next rest =>
          rw [joined, ih]
          · simp [recommended, List.intercalate]
          · simp

/-- The check of a file. -/
inductive Checked (format : Formatter) : SourceFile → Option (Except CheckError (Option Suggestion)) → Prop where
  | unavailable {path reason} : Checked format ⟨path, .unavailable reason⟩ (some (.error (.read path reason)))
  | broken {path source before bad after entries e} (sound : Collected source before entries)
      (kind : bad.kind = trackedKind) (cause : Broken path source bad e) :
      Checked format ⟨path, .parsed source (before ++ bad :: after)⟩ (some (.error e))
  | settled {path source blocks entries} (collected : Collected source blocks entries)
      (order : Arranged entries entries) : Checked format ⟨path, .parsed source blocks⟩ (some (.ok none))
  | refused {path source blocks entries arranged cause} (collected : Collected source blocks entries)
      (order : Arranged entries arranged) (moved : arranged ≠ entries)
      (rejected : format (recommended arranged) = some (.error cause)) :
      Checked format ⟨path, .parsed source blocks⟩ (some (.error (.format path cause)))
  | suggested {path source blocks first rest arranged formatted} (collected : Collected source blocks (first :: rest))
      (order : Arranged (first :: rest) arranged) (moved : arranged ≠ first :: rest)
      (accepted : format (recommended arranged) = some (.ok formatted)) :
      Checked format ⟨path, .parsed source blocks⟩
        (some (.ok (some ⟨first.header, (first :: rest).map (·.name), arranged.map (·.name), formatted⟩)))
  | panicked {path source blocks entries arranged} (collected : Collected source blocks entries)
      (order : Arranged entries arranged) (moved : arranged ≠ entries)
      (silent : format (recommended arranged) = none) : Checked format ⟨path, .parsed source blocks⟩ none

theorem checkCollected {format : Formatter} {path source blocks entries}
    (collected : Collected source blocks entries) :
    checkFile format ⟨path, .parsed source blocks⟩ = checkEntries format path entries := by
  simp only [checkFile, collectOk.mpr collected]

theorem checkSorted {format : Formatter} {path entries} (order : sorted entries = entries) :
    checkEntries format path entries = some (.ok none) := by
  cases entries with
  | nil => rfl
  | cons first rest => exact if_pos (isSortedIff.mpr order)

theorem checkUnsorted {format : Formatter} {path first rest} (moved : sorted (first :: rest) ≠ first :: rest) :
    checkEntries format path (first :: rest) =
      match format (recommended (sorted (first :: rest))) with
      | none => none
      | some (.error cause) => some (.error (.format path cause))
      | some (.ok formatted) => some (.ok (some ⟨first.header, (first :: rest).map (·.name),
          (sorted (first :: rest)).map (·.name), formatted⟩)) := by
  rw [← joinedRecommended, checkEntries, if_neg (fun order => moved (isSortedIff.mp order))]
  cases format (joined (sorted (first :: rest))) with
  | none => rfl
  | some answer => cases answer <;> rfl

theorem checkedSound {format : Formatter} {file result} (h : Checked format file result) :
    checkFile format file = result := by
  cases h with
  | unavailable => rfl
  | @broken path source before bad after entries e sound kind cause =>
      have failed : collect path source (before ++ bad :: after) = .error e :=
        collectError.mpr ⟨before, bad, after, entries, rfl, sound, kind, cause⟩
      simp only [checkFile, failed]
  | settled collected order => rw [checkCollected collected, checkSorted (arrangedIff.mp order).symm]
  | @refused _ _ _ entries _ _ collected order moved rejected =>
      obtain rfl := arrangedIff.mp order
      cases entries with
      | nil => exact (moved List.mergeSort_nil).elim
      | cons first rest => rw [checkCollected collected, checkUnsorted moved, rejected]
  | suggested collected order moved accepted =>
      obtain rfl := arrangedIff.mp order
      rw [checkCollected collected, checkUnsorted moved, accepted]
  | @panicked _ _ _ entries _ collected order moved silent =>
      obtain rfl := arrangedIff.mp order
      cases entries with
      | nil => exact (moved List.mergeSort_nil).elim
      | cons first rest => rw [checkCollected collected, checkUnsorted moved, silent]

theorem checkedComplete (format : Formatter) (file : SourceFile) : Checked format file (checkFile format file) := by
  obtain ⟨path, content⟩ := file
  cases content with
  | unavailable reason => exact .unavailable
  | parsed source blocks =>
      cases collected : collect path source blocks with
      | error e =>
          obtain ⟨before, bad, after, entries, rfl, sound, kind, cause⟩ := collectError.mp collected
          have checked : Checked format ⟨path, .parsed source (before ++ bad :: after)⟩ (some (.error e)) :=
            .broken sound kind cause
          rwa [checkedSound checked]
      | ok entries =>
          have found := collectOk.mp collected
          have order : Arranged entries (sorted entries) := arrangedIff.mpr rfl
          rw [checkCollected found]
          by_cases still : sorted entries = entries
          · rw [checkSorted still]
            rw [still] at order
            exact .settled found order
          · cases entries with
            | nil => exact (still List.mergeSort_nil).elim
            | cons first rest =>
                rw [checkUnsorted still]
                cases accepted : format (recommended (sorted (first :: rest))) with
                | none => exact .panicked found order still accepted
                | some answer => cases answer with
                    | error cause => exact .refused found order still accepted
                    | ok formatted => exact .suggested found order still accepted

theorem collectedFrom {source blocks entries} (collected : Collected source blocks entries) {e : Entry}
    (member : e ∈ entries) : ∃ b ∈ blocks, e.header = b.header := by
  induction collected with
  | nil => cases member
  | other kind rest ih =>
      obtain ⟨b, inside, header⟩ := ih member
      exact ⟨b, List.mem_cons_of_mem _ inside, header⟩
  | tracked kind stands rest ih =>
      rcases List.mem_cons.mp member with rfl | later
      · exact ⟨_, List.mem_cons_self, stands.header⟩
      · obtain ⟨b, inside, header⟩ := ih later
        exact ⟨b, List.mem_cons_of_mem _ inside, header⟩

theorem anchorHeader {format : Formatter} {file : SourceFile} {s : Suggestion}
    (suggested : checkFile format file = some (.ok (some s))) : ∃ b ∈ file.blocks, s.anchor = b.header := by
  have checked := checkedComplete format file
  rw [suggested] at checked
  cases checked with
  | suggested collected order moved accepted => exact collectedFrom collected List.mem_cons_self

theorem formatterPanics {format : Formatter} {file : SourceFile} (silent : checkFile format file = none) :
    ∃ text, format text = none := by
  have checked := checkedComplete format file
  rw [silent] at checked
  cases checked with
  | panicked collected order moved refused => exact ⟨_, refused⟩

theorem checkAllCons {format : Formatter} {file : SourceFile} {rest : List SourceFile} {outcome : Outcome} :
    checkAll format (file :: rest) = some outcome ↔ ∃ found others, checkFile format file = some found ∧
      checkAll format rest = some others ∧ add others found = outcome := by
  simp only [checkAll, bind, Option.bind_eq_some_iff, pure, Option.some_inj]
  exact ⟨fun ⟨found, first, others, rest, same⟩ => ⟨found, others, first, rest, same⟩,
    fun ⟨found, others, first, rest, same⟩ => ⟨found, first, others, rest, same⟩⟩

theorem emissionSuggested {format : Formatter} {files : List SourceFile} {outcome : Outcome} {e : Emitted}
    (checked : checkAll format files = some outcome) (member : e ∈ outcome.issues) :
    ∃ file ∈ files, ∃ s, checkFile format file = some (.ok (some s)) ∧ e = emit s := by
  induction files generalizing outcome with
  | nil =>
      cases checked
      cases member
  | cons file rest ih =>
      obtain ⟨found, others, first, among, rfl⟩ := checkAllCons.mp checked
      have later (member : e ∈ others.issues) :
          ∃ file' ∈ file :: rest, ∃ s, checkFile format file' = some (.ok (some s)) ∧ e = emit s := by
        obtain ⟨other, inside, suggested⟩ := ih among member
        exact ⟨other, List.mem_cons_of_mem _ inside, suggested⟩
      rcases found with cause | _ | s
      · exact later member
      · exact later member
      · rcases List.mem_cons.mp member with rfl | inside
        · exact ⟨file, List.mem_cons_self, s, first, rfl⟩
        · exact later inside

theorem failurePath {format : Formatter} {file : SourceFile} {e : CheckError}
    (failed : checkFile format file = some (.error e)) : e.path = file.path := by
  have checked := checkedComplete format file
  rw [failed] at checked
  cases checked with
  | unavailable => rfl
  | broken sound kind cause => cases cause <;> rfl
  | refused collected order moved rejected => rfl

theorem arrangedAlone {entries : List Entry} (few : entries.length ≤ 1) : Arranged entries entries := by
  refine ⟨.refl _, ?_, fun _ => rfl⟩
  match entries, few with
  | [], _ => exact .nil
  | [e], _ => exact List.pairwise_singleton _ e

/-- A file is checked as `Checked` says, with a formatter that panics too. The arrangement that decides is
there for all entries and is the only one; one entry is its own arrangement; entries that it moves have
their names moved; and where nothing is moved no formatter is asked. -/
theorem fileChecked (format : Formatter) :
    (∀ file result, checkFile format file = result ↔ Checked format file result) ∧
    (∀ entries, ∃ arranged, Arranged entries arranged ∧ ∀ other, Arranged entries other → other = arranged) ∧
    (∀ entries, entries.length ≤ 1 → Arranged entries entries) ∧
    (∀ entries arranged, Arranged entries arranged → arranged ≠ entries →
      arranged.map (·.name) ≠ entries.map (·.name)) ∧
    (∀ file, checkFile format file = some (.ok none) → ∀ other, checkFile other file = some (.ok none)) := by
  refine ⟨fun file result => ⟨fun h => h ▸ checkedComplete format file, checkedSound⟩, fun entries => ?_,
    fun entries => arrangedAlone, fun entries arranged order moved names => ?_, fun file settled other => ?_⟩
  · exact ⟨sorted entries, arrangedIff.mpr rfl, fun other => arrangedIff.mp⟩
  · obtain rfl := arrangedIff.mp order
    exact moved (namesMove names)
  · have checked := checkedComplete format file
    rw [settled] at checked
    cases checked with
    | settled collected order => exact checkedSound (.settled collected order)

theorem arrangedTurned {a b : Entry} (before : ByteOrder.bytes a.name ≤ ByteOrder.bytes b.name) (differ : a.name ≠ b.name) :
    Arranged [b, a] [a, b] where
  perm := .swap b a []
  byName := List.pairwise_pair.mpr before
  ties name := by
    by_cases isA : a.name = name
    · subst isA
      simp [differ.symm]
    · simp [List.filter_cons, isA]

def turnedRange (path : String) (start : Nat) : SourceRange :=
  ⟨⟨path⟩, ⟨1, start + 1, start⟩, ⟨1, start + 2, start + 1⟩⟩

def turnedFile (path : String) : SourceFile :=
  ⟨⟨path⟩, .parsed ['y', 'x'] [⟨trackedKind, ["b"], turnedRange path 0, turnedRange path 0⟩,
    ⟨trackedKind, ["a"], turnedRange path 1, turnedRange path 1⟩]⟩

def turnedAround (path : String) : Suggestion := ⟨turnedRange path 0, ["b", "a"], ["a", "b"], ['x', '\n', '\n', 'y']⟩

def keeping : Formatter := fun text => some (.ok text)

theorem turnedChecked (path : String) : Checked keeping (turnedFile path) (some (.ok (some (turnedAround path)))) := by
  let b : Entry := ⟨"b", turnedRange path 0, ['y']⟩
  let a : Entry := ⟨"a", turnedRange path 1, ['x']⟩
  have collected : Collected ['y', 'x'] (turnedFile path).blocks [b, a] :=
    .tracked rfl ⟨rfl, rfl, [], ['x'], rfl, rfl, rfl⟩ (.tracked rfl ⟨rfl, rfl, ['y'], [], rfl, rfl, rfl⟩ .nil)
  have order : Arranged [b, a] [a, b] :=
    arrangedTurned (show ByteOrder.bytes "a" ≤ ByteOrder.bytes "b" by decide) (by simp [a, b])
  have moved : [a, b] ≠ [b, a] := fun same => absurd (congrArg (List.map Entry.name) same) (by simp [a, b])
  exact .suggested collected order moved rfl

theorem fileCheckedTurned : checkFile keeping (turnedFile "main.tf") = some (.ok (some (turnedAround "main.tf"))) :=
  ((fileChecked keeping).1 (turnedFile "main.tf") _).mpr (turnedChecked "main.tf")

end DeclOrder.OutputOrder
