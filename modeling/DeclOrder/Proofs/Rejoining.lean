import DeclOrder.Proofs.Source.Ranges

/-! What the texts of the tracked blocks say once they stand behind each other. They are the same blocks
again, unless a heredoc in one of them has no text: where such a one ends depends on what follows. -/
namespace DeclOrder.OutputOrder
open Hcl (Placed Label Structure Stood Freestanding Final blankLine)

def said (source : List Char) (b : Block) : String × List String × Option (List Char) :=
  (b.kind, b.labels, b.range.slice? source)

def byName (a b : Block) : Bool := decide (a.labels.headD "" ≤ b.labels.headD "")

/-- Whether every heredoc in a tracked block has a text. -/
def trackedFilled : Structure → Bool
  | .attribute .. => true
  | .block kind _ items => kind != trackedKind || Hcl.bodyFilled items

def heredocsFilled (source : List Char) : Bool := ((Hcl.parse? source).getD []).all trackedFilled

section
variable {path : RepoPath} {source whole text : List Char} {blocks : List Block} {b : Block} {p : Placed}

def entryAt (source : List Char) (b : Block) : Entry :=
  ⟨b.labels.headD "", b.header, (b.range.slice? source).getD []⟩

theorem blockStood {kind : String} {labels : List Label} {items : Hcl.Body}
    (stood : Stood whole text (.block kind labels items) p) (path : RepoPath) :
    ∃ b, Source.blockOf? (.ofText whole) path p = some b ∧
      said whole b = (kind, labels.map Label.text, some text) := by
  have covers := Source.placesCover path (stood.start ▸ stood.inside)
  rw [Source.blockOf?, stood.item]
  refine ⟨_, rfl, ?_⟩
  rw [said, stood.start, coversSlice.mpr covers]

theorem trackedEntries {entries : List Entry} (collected : Collected source blocks entries) :
    entries = (tracked blocks).map (entryAt source) := by
  induction collected with
  | nil => rfl
  | @other b blocks entries kind _ ih => rw [ih, tracked, tracked, List.filter_cons_of_neg (by simpa using kind)]
  | @tracked b blocks e entries kind stands _ ih =>
      rw [ih, tracked, tracked, List.filter_cons_of_pos (by simpa using kind), List.map_cons]
      have name : b.labels.headD "" = e.name := by rw [List.headD_eq_head?_getD, stands.name]; rfl
      have text : (b.range.slice? source).getD [] = e.text := by rw [coversSlice.mpr stands.text]; rfl
      rw [entryAt, name, text, ← stands.header]

theorem collectedTracked
    (each : ∀ b ∈ tracked blocks, b.labels ≠ [] ∧ (b.range.slice? source).isSome = true) :
    Collected source blocks ((tracked blocks).map (entryAt source)) := by
  induction blocks with
  | nil => exact .nil
  | cons b blocks ih =>
      by_cases kind : b.kind = trackedKind
      · rw [tracked, List.filter_cons_of_pos (by simpa using kind)] at each ⊢
        obtain ⟨labelled, sliced⟩ := each b List.mem_cons_self
        refine .tracked kind ⟨?_, rfl, ?_⟩ (ih fun b member => each b (List.mem_cons_of_mem _ member))
        · obtain ⟨name, rest, same⟩ := List.exists_cons_of_ne_nil labelled
          rw [entryAt, same]
          rfl
        · obtain ⟨text, found⟩ := Option.isSome_iff_exists.mp sliced
          rw [entryAt, found]
          exact coversSlice.mp found
      · rw [tracked, List.filter_cons_of_neg (by simpa using kind)] at each ⊢
        exact .other kind (ih each)

theorem sortedEntries (source : List Char) (blocks : List Block) :
    sorted (blocks.map (entryAt source)) = (blocks.mergeSort byName).map (entryAt source) :=
  (List.map_mergeSort (r := byName) (s := inOrder) (f := entryAt source) fun _ _ _ _ => rfl).symm

structure Severed (source : List Char) (b : Block) (q : List Char × Structure) : Prop where
  free : Freestanding q.1 q.2
  reads : ∃ labels items, q.2 = .block b.kind labels items ∧ said source b = (b.kind, labels.map Label.text, some q.1)

theorem trackedSevered (parsed : Source.parse? path source = some ⟨path, .parsed source blocks⟩)
    (filled : heredocsFilled source = true) (member : b ∈ tracked blocks) : ∃ q, Severed source b q := by
  obtain ⟨items, places, same⟩ := Source.parseSome.mp parsed
  cases same
  obtain ⟨inside, kind⟩ := List.mem_filter.mp member
  obtain ⟨p, within, found⟩ := List.mem_filterMap.mp inside
  have whole : trackedFilled p.item = true := by
    rw [heredocsFilled, Hcl.parse?, places] at filled
    exact List.all_eq_true.mp filled _ (List.mem_map_of_mem within)
  match isBlock : p.item with
  | .attribute name value =>
      rw [Source.blockOf?, isBlock] at found
      contradiction
  | .block block labels body =>
      have named : b.kind = block := by
        rw [Source.blockOf?, isBlock] at found
        cases found
        rfl
      have texts : Hcl.bodyFilled body = true := by
        rw [isBlock, trackedFilled, ← named, of_decide_eq_true kind, bne_self_eq_false, Bool.false_or] at whole
        exact whole
      obtain ⟨text, stood, free⟩ := Hcl.parsedFreestanding places within isBlock texts
      rw [isBlock] at stood free
      obtain ⟨b', found', same⟩ := blockStood stood path
      obtain rfl : b' = b := Option.some.inj (found'.symm.trans found)
      exact ⟨(text, .block block labels body), free, labels, body, by rw [named], by rw [named, same]⟩

theorem choices {α β : Type} {R : α → β → Prop} {as : List α} (each : ∀ a ∈ as, ∃ b, R a b) : ∃ bs, List.Forall₂ R as bs := by
  induction as with
  | nil => exact ⟨[], .nil⟩
  | cons a rest ih =>
      obtain ⟨b, here⟩ := each a List.mem_cons_self
      obtain ⟨bs, more⟩ := ih fun a member => each a (List.mem_cons_of_mem _ member)
      exact ⟨b :: bs, .cons here more⟩

variable {moved : List Block} {texts : List (List Char × Structure)} {items : List Placed}

theorem Severed.slice {q : List Char × Structure} (severed : Severed source b q) : b.range.slice? source = some q.1 := by
  obtain ⟨labels, items, _, same⟩ := severed.reads
  exact congrArg (·.2.2) same

theorem severedFree (severed : List.Forall₂ (Severed source) moved texts) :
    ∀ q ∈ texts, Freestanding q.1 q.2 ∧ q.2.attributeName? = none := by
  induction severed with
  | nil => exact fun _ member => absurd member List.not_mem_nil
  | cons here _ ih =>
      refine List.forall_mem_cons.mpr ⟨⟨here.free, ?_⟩, ih⟩
      obtain ⟨_, _, isBlock, _⟩ := here.reads
      rw [isBlock]
      rfl

theorem severedTexts (severed : List.Forall₂ (Severed source) moved texts) :
    recommended (moved.map (entryAt source)) = blankLine.intercalate (texts.map Prod.fst) := by
  have each : (moved.map (entryAt source)).map (fun e => Text.trimEnd e.text) = texts.map Prod.fst := by
    induction severed with
    | nil => rfl
    | @cons b q _ _ here _ ih =>
        obtain ⟨x, whole, _⟩ := here.free
        have trimmed : Text.trimEnd q.1 = q.1 := by
          rw [whole, Text.trimEndAppendSolid (by decide)]
          rfl
        rw [List.map_cons, List.map_cons, List.map_cons, ih, entryAt, here.slice, Option.getD_some, trimmed]
  rw [recommended, each]
  rfl

theorem severedBlocks (severed : List.Forall₂ (Severed source) moved texts)
    (stood : List.Forall₂ (fun q placed => Stood whole q.1 q.2 placed) texts items) (path : RepoPath) :
    (items.filterMap (Source.blockOf? (.ofText whole) path)).map (said whole) = moved.map (said source) := by
  induction severed generalizing items with
  | nil =>
      cases stood
      rfl
  | @cons b q _ _ here _ ih =>
      cases stood with
      | cons place more =>
          obtain ⟨labels, body, isBlock, same⟩ := here.reads
          rw [isBlock] at place
          obtain ⟨b', found, again⟩ := blockStood place path
          rw [List.filterMap_cons, found, List.map_cons, List.map_cons, ih more, again, same]

theorem byNameTrans (a b c : Block) (ab : byName a b) (bc : byName b c) : byName a c := by
  simp only [byName, decide_eq_true_eq] at *
  exact String.le_trans ab bc

theorem byNameTotal (a b : Block) : byName a b || byName b a := by
  simpa [byName] using String.le_total (a.labels.headD "") (b.labels.headD "")

theorem settledBlocks {again : List Block} (same : again.map (said whole) = moved.map (said source))
    (order : moved.Pairwise (byName · ·)) (each : ∀ b ∈ moved, b.labels ≠ [] ∧ (b.range.slice? source).isSome = true)
    (format : Formatter) : checkFile format ⟨path, .parsed whole again⟩ = some (.ok none) := by
  have collected : Collected whole again ((tracked again).map (entryAt whole)) := by
    refine collectedTracked fun b member => ?_
    have inside : said whole b ∈ moved.map (said source) := same ▸ List.mem_map_of_mem (List.mem_filter.mp member).1
    obtain ⟨b', within, saying⟩ := List.mem_map.mp inside
    have labels : b'.labels = b.labels := congrArg (·.2.1) saying
    have slices : b'.range.slice? source = b.range.slice? whole := congrArg (·.2.2) saying
    rw [← labels, ← slices]
    exact each b' within
  have labels : again.map (·.labels) = moved.map (·.labels) := by
    have both := congrArg (List.map (·.2.1)) same
    rwa [List.map_map, List.map_map] at both
  have ordered : again.Pairwise (byName · ·) := by
    have names : (again.map (·.labels)).Pairwise (fun l m => decide (l.headD "" ≤ m.headD "") = true) := by
      rw [labels, List.pairwise_map]
      exact order
    rwa [List.pairwise_map] at names
  have settled : (tracked again).mergeSort byName = tracked again := List.mergeSort_of_pairwise (ordered.filter _)
  rw [checkCollected collected, checkSorted]
  rw [sortedEntries, settled]

theorem handedOver {entries : List Entry} {format : Formatter} {s : Suggestion} (collected : Collected source blocks entries)
    (suggested : checkFile format ⟨path, .parsed source blocks⟩ = some (.ok (some s))) :
    format (joined (sorted entries)) = some (.ok s.formatted) := by
  have checked := checkedComplete format ⟨path, .parsed source blocks⟩
  rw [suggested] at checked
  cases checked with
  | @suggested _ _ _ first rest arranged formatted collected' order moved accepted =>
      obtain rfl : entries = first :: rest := (trackedEntries collected).trans (trackedEntries collected').symm
      rw [joinedRecommended, ← arrangedIff.mp order]
      exact accepted

end

/-- If every heredoc in the tracked blocks of a document has a text, then these blocks behind each other are a
document again. It says what they said, in the order of their names, and a check of it finds nothing to move. -/
theorem rejoined {path : RepoPath} {source : List Char} {blocks : List Block}
    (parsed : Source.parse? path source = some ⟨path, .parsed source blocks⟩)
    (labelled : ∀ b ∈ tracked blocks, b.labels ≠ []) (filled : heredocsFilled source = true) :
    ∃ entries, collect path source blocks = .ok entries ∧
      (∀ format s, checkFile format ⟨path, .parsed source blocks⟩ = some (.ok (some s)) →
        format (joined (sorted entries)) = some (.ok s.formatted)) ∧
      ∀ ending, Final ending → ∃ again,
        Source.parse? path (joined (sorted entries) ++ ending) = some ⟨path, .parsed (joined (sorted entries) ++ ending) again⟩ ∧
        again.map (said (joined (sorted entries) ++ ending)) = ((tracked blocks).mergeSort byName).map (said source) ∧
        ∀ format, checkFile format (Source.ofText path (joined (sorted entries) ++ ending)) = some (.ok none) := by
  have severed (b : Block) (member : b ∈ tracked blocks) : ∃ q, Severed source b q := trackedSevered parsed filled member
  have each (b : Block) (member : b ∈ tracked blocks) : b.labels ≠ [] ∧ (b.range.slice? source).isSome = true := by
    obtain ⟨q, cut⟩ := severed b member
    exact ⟨labelled b member, cut.slice ▸ rfl⟩
  have collected := collectedTracked each
  refine ⟨_, collectOk.mpr collected, fun format s => handedOver collected, fun ending final => ?_⟩
  obtain ⟨texts, cut⟩ := choices fun b member => severed b (List.mem_mergeSort.mp member : b ∈ tracked blocks)
  have document : joined (sorted ((tracked blocks).map (entryAt source))) = blankLine.intercalate (texts.map Prod.fst) := by
    rw [sortedEntries, joinedRecommended, severedTexts cut]
  rw [document]
  obtain ⟨items, places, stood⟩ := Hcl.parseFreestanding final (fun q member => (severedFree cut q member).1)
    fun q member => (severedFree cut q member).2
  generalize blankLine.intercalate (texts.map Prod.fst) ++ ending = whole at places stood
  have file : Source.parse? path whole =
      some ⟨path, .parsed whole (items.filterMap (Source.blockOf? (.ofText whole) path))⟩ := by
    rw [Source.parse?, places]
    rfl
  have same := severedBlocks cut stood path
  refine ⟨_, file, same, fun format => ?_⟩
  rw [Source.ofText, file, Option.getD_some]
  refine settledBlocks same (List.pairwise_mergeSort byNameTrans byNameTotal _) (fun b member => ?_) format
  exact each b (List.mem_mergeSort.mp member)

def turnedHeredocs : List Char :=
  "output \"b\" \x7b\n  value = <<EOT\nx\nEOT\n\x7d\noutput \"a\" \x7b\n  value = <<EOT\ny\nEOT\n\x7d\n".toList

def turnedBlocks : List Block :=
  [⟨trackedKind, ["b"], ⟨⟨"outputs.tf"⟩, ⟨1, 1, 0⟩, ⟨5, 2, 36⟩⟩, ⟨⟨"outputs.tf"⟩, ⟨1, 1, 0⟩, ⟨1, 11, 10⟩⟩⟩,
    ⟨trackedKind, ["a"], ⟨⟨"outputs.tf"⟩, ⟨6, 1, 37⟩, ⟨10, 2, 73⟩⟩, ⟨⟨"outputs.tf"⟩, ⟨6, 1, 37⟩, ⟨6, 11, 47⟩⟩⟩]

theorem rejoinedHeredocs : ∃ entries again, collect ⟨"outputs.tf"⟩ turnedHeredocs turnedBlocks = .ok entries ∧
    Source.parse? ⟨"outputs.tf"⟩ (joined (sorted entries)) = some ⟨⟨"outputs.tf"⟩, .parsed (joined (sorted entries)) again⟩ ∧
    again.map (·.labels) = [["a"], ["b"]] := by
  have parsed : Source.parse? ⟨"outputs.tf"⟩ turnedHeredocs = some ⟨⟨"outputs.tf"⟩, .parsed turnedHeredocs turnedBlocks⟩ := by
    decide +kernel
  obtain ⟨entries, collected, _, document⟩ := rejoined parsed (by decide) (by decide +kernel)
  obtain ⟨again, file, same, _⟩ := document [] (.inl rfl)
  rw [List.append_nil] at file same
  have labels := congrArg (List.map (·.2.1)) same
  rw [List.map_map, List.map_map] at labels
  have order : (tracked turnedBlocks).mergeSort byName = turnedBlocks.reverse := by
    simp [tracked, turnedBlocks, byName, List.mergeSort]
  rw [order] at labels
  exact ⟨entries, again, collected, file, labels⟩

def heredocBlocks : List Entry :=
  [⟨"b", ⟨⟨"outputs.tf"⟩, ⟨1, 1, 0⟩, ⟨1, 11, 10⟩⟩, "output \"b\" \x7b\n  value = <<EOT\nx\nEOT\n\x7d".toList⟩,
    ⟨"a", ⟨⟨"outputs.tf"⟩, ⟨6, 1, 37⟩, ⟨6, 11, 47⟩⟩, "output \"a\" \x7b\n  value = <<EOT\nEOT\n\x7d".toList⟩]

/-- The empty heredoc ends right behind its opening only because its marker does not come again. In
front of the other block it goes on into that one. -/
theorem rejoinedSwallowed :
    let source := "output \"b\" \x7b\n  value = <<EOT\nx\nEOT\n\x7d\noutput \"a\" \x7b\n  value = <<EOT\nEOT\n\x7d\n".toList
    let path : RepoPath := ⟨"outputs.tf"⟩
    ∃ blocks entries, Source.parse? path source = some ⟨path, .parsed source blocks⟩ ∧
      blocks.map (·.labels) = [["b"], ["a"]] ∧ collect path source blocks = .ok entries ∧ isSorted entries = false ∧
      (Source.parse? path (joined (sorted entries))).map (fun file => file.blocks.map (·.labels)) = some [["a"]] := by
  intro source path
  have sortedBlocks : sorted heredocBlocks = heredocBlocks.reverse :=
    (arrangedIff.mp (arrangedTurned (show ByteOrder.bytes "a" ≤ ByteOrder.bytes "b" by decide) (by simp))).symm
  refine ⟨[⟨trackedKind, ["b"], ⟨path, ⟨1, 1, 0⟩, ⟨5, 2, 36⟩⟩, ⟨path, ⟨1, 1, 0⟩, ⟨1, 11, 10⟩⟩⟩,
    ⟨trackedKind, ["a"], ⟨path, ⟨6, 1, 37⟩, ⟨9, 2, 71⟩⟩, ⟨path, ⟨6, 1, 37⟩, ⟨6, 11, 47⟩⟩⟩], heredocBlocks, ?_, rfl, ?_, ?_, ?_⟩
  · decide +kernel
  · exact collectOk.mpr (.tracked rfl ⟨rfl, rfl, coversSlice.mp (by decide +kernel)⟩
      (.tracked rfl ⟨rfl, rfl, coversSlice.mp (by decide +kernel)⟩ .nil))
  · simp [isSorted, inOrder, heredocBlocks]
  · rw [sortedBlocks]
    decide +kernel

end DeclOrder.OutputOrder
