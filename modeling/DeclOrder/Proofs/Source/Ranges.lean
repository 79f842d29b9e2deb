import DeclOrder.Proofs.Hcl.Cut.Block
import DeclOrder.Proofs.Hcl.Label
import DeclOrder.Proofs.OutputOrder

/-! Where the blocks of a file stand in its text. Each place is kept as the text that is left there, so a
block ends where the text of a later one is still to come, and every range has whole characters. -/
namespace DeclOrder.Source
open Text Reader Hcl Hcl.Read OutputOrder

variable {path : RepoPath} {source t u bound : List Char} {blocks : List Block} {b : Block} {p : Placed} {format : Formatter}

theorem parseSome {file : SourceFile} : parse? path source = some file ↔ ∃ items, parsePlaced? source = some items ∧
    file = ⟨path, .parsed source (items.filterMap (blockOf? (.ofText source) path))⟩ := by
  rw [parse?, Option.map_eq_some_iff]
  exact exists_congr fun items => and_congr_right fun _ => eq_comm

def byteAt (source rest : List Char) : Nat := ((LineIndex.ofText source).position ((LineIndex.ofText source).offsetOf rest)).byte

theorem byteAtRest {rest : List Char} (inside : rest <:+ source) : byteAt source rest + byteSize rest = byteSize source := by
  obtain ⟨front, rfl⟩ := inside
  rw [byteAt, LineIndex.offsetOf, LineIndex.position, LineIndex.ofText, byteSizeAppend]
  dsimp only
  omega

theorem byteAtSuffix {rest later : List Char} (inside : rest <:+ source) (behind : later <:+ rest) :
    byteAt source rest ≤ byteAt source later := by
  have here := byteAtRest inside
  have there := byteAtRest (behind.trans inside)
  obtain ⟨front, rfl⟩ := behind
  rw [byteSizeAppend] at here
  omega

theorem placesCover (path : RepoPath) {text rest : List Char} (inside : text ++ rest <:+ source) :
    Covers source ((LineIndex.ofText source).range path ((LineIndex.ofText source).offsetOf (text ++ rest))
      ((LineIndex.ofText source).offsetOf rest)) text := by
  have here := byteAtRest inside
  have there := byteAtRest ((List.suffix_append text rest).trans inside)
  obtain ⟨front, split⟩ := inside
  have size : byteSize source = byteSize front + byteSize (text ++ rest) := by rw [← split, byteSizeAppend]
  have both : byteSize source = byteSize (front ++ text) + byteSize rest := by
    rw [← split, ← List.append_assoc, byteSizeAppend]
  refine ⟨front, rest, by rw [← split, List.append_assoc], ?_, ?_⟩
  · change byteSize front = byteAt source (text ++ rest)
    omega
  · change byteSize (front ++ text) = byteAt source rest
    omega

/-- The text of a header: the kind of the block, and then its labels if it has any. -/
structure Headed (kind : String) (labels : List String) (head : List Char) : Prop where
  nonempty : kind.toList ≠ []
  begins : kind.toList <+: head
  bare : labels = [] → head = kind.toList
  labelled : ∀ label, labels.getLast? = some label →
    ∃ between token, head = kind.toList ++ between ++ token ∧ Token label token

theorem labelsHeaded {kind : String} {labels : List (Label × List Char)} (some : kind.toList ≠ [])
    (run : Run placedLabel t labels u) :
    ∃ behind, t = behind ++ u ∧ Headed kind ((labels.map Prod.fst).map Label.text) (kind.toList ++ behind) := by
  obtain ⟨behind, rfl⟩ := runTail shortPlacedLabel.tail run
  refine ⟨behind, rfl, some, List.prefix_append _ _, fun none => ?_, fun label found => ?_⟩
  · obtain rfl : labels = [] := List.map_eq_nil_iff.mp (List.map_eq_nil_iff.mp none)
    have same := labelsNone run
    simp_all
  · rw [List.getLast?_map, List.getLast?_map, Option.map_map] at found
    obtain ⟨last, isLast, rfl⟩ := Option.map_eq_some_iff.mp found
    obtain ⟨between, token, same, written⟩ := labelsLast run last isLast
    exact ⟨between, token, by rw [List.append_cancel_right same, List.append_assoc], written⟩

theorem placedHeaded {kind : String} {labels : List Label} {items : Body}
    (read : placed (bodyUpTo bound) t = some (p, u)) (isBlock : p.item = .block kind labels items) :
    ∃ head held, t = head ++ (held ++ u) ∧ p.start = t ∧ p.header = held ++ u ∧ p.stop = u ∧
      Headed kind (labels.map Label.text) head ∧ ['}'] <:+ held := by
  have parsed := placedReads read
  rw [isBlock] at parsed
  cases parsed with
  | @block _ w x _ labels _ header noEquals names reads =>
      have places := placedBlock header noEquals names reads
      rw [read, Option.some.injEq, Prod.mk.injEq] at places
      have run := manyRun shortPlacedLabel names
      -- With labels or without, the header ends where no further label was read.
      rw [labelsHeader run] at places
      obtain ⟨whole, _, some⟩ := identifierToken header
      obtain ⟨behind, rfl, headed⟩ := labelsHeaded some run
      obtain ⟨v, brace, body⟩ := blockBodyIff.mp reads
      obtain ⟨gap, left⟩ := (skipStopped .withinLine x).2
      obtain ⟨mid, rfl⟩ := tailHeldItems (tailBodyItems bound) body
      have held : x = gap ++ '{' :: mid ++ ['}'] ++ u := by
        rw [brace] at left
        rw [← left]
        simp
      rw [places.1]
      refine ⟨kind.toList ++ behind, gap ++ '{' :: mid ++ ['}'], ?_, rfl, held, rfl, headed, List.suffix_append _ _⟩
      rw [whole, ← held, List.append_assoc]

structure Spans (source : List Char) (b : Block) (head whole : List Char) : Prop where
  range : b.range.slice? source = some whole
  header : b.header.slice? source = some head
  starts : b.header.start = b.range.start
  nonempty : b.header.start.byte < b.header.stop.byte
  inside : b.header.stop.byte ≤ b.range.stop.byte
  headed : Headed b.kind b.labels head
  closed : ['}'] <:+ whole

theorem blockOfBytes (found : blockOf? (.ofText source) path p = some b) :
    b.range.start.byte = byteAt source p.start ∧ b.range.stop.byte = byteAt source p.stop := by
  unfold blockOf? at found
  split at found
  · contradiction
  · cases found
    exact ⟨rfl, rfl⟩

theorem placedSpans (read : placed (bodyUpTo bound) t = some (p, u)) (inside : t <:+ source)
    (found : blockOf? (.ofText source) path p = some b) : ∃ head whole, Spans source b head whole := by
  unfold blockOf? at found
  split at found
  · contradiction
  · rename_i kind labels items isBlock
    cases found
    obtain ⟨head, held, rfl, starts, headers, stops, headed, closed⟩ := placedHeaded read isBlock
    have behind : held ++ u <:+ source := (List.suffix_append head _).trans inside
    -- Offsets are told apart by the sizes of what is left behind them.
    have start := byteAtRest inside
    have header := byteAtRest behind
    have size := byteSizeAppend head (held ++ u)
    have positive : byteSize head ≠ 0 := fun zero => headed.nonempty
      (List.prefix_nil.mp (byteSizeZero zero ▸ headed.begins))
    refine ⟨head, head ++ held, ?_, ?_, rfl, ?_, ?_, headed, closed.trans (List.suffix_append head held)⟩
    · rw [starts, stops, ← List.append_assoc]
      exact coversSlice.mpr (placesCover path (by rwa [List.append_assoc]))
    · rw [starts, headers]
      exact coversSlice.mpr (placesCover path inside)
    · change byteAt source p.start < byteAt source p.header
      rw [starts, headers]
      omega
    · change byteAt source p.header ≤ byteAt source p.stop
      rw [headers, stops]
      exact byteAtSuffix behind (List.suffix_append held u)

theorem coveredChecked (covered : ∀ b ∈ blocks, ∃ text, Covers source b.range text) (named : RepoPath) (reason : String) :
    checkFile format ⟨path, .parsed source blocks⟩ ≠ some (.error (.read named reason)) := by
  intro failed
  have checked := checkedComplete format ⟨path, .parsed source blocks⟩
  rw [failed] at checked
  cases checked with
  | @broken _ _ before bad after _ _ _ _ cause =>
      obtain ⟨text, covers⟩ := covered bad (by simp)
      cases cause with
      | outside _ uncovered => exact uncovered text covers

/-- The blocks of a file stand one behind the other in its text, each with its header in front, so a check of the
file never misses the text of one. -/
theorem blockRanges {file : SourceFile} (parsed : parse? path source = some file) :
    ∃ blocks, file = ⟨path, .parsed source blocks⟩ ∧
      blocks.Pairwise (fun a b => a.range.stop.byte ≤ b.range.start.byte) ∧
      (∀ b ∈ blocks, ∃ head whole, Spans source b head whole) ∧
      ∀ format named reason, checkFile format file ≠ some (.error (.read named reason)) := by
  obtain ⟨items, places, rfl⟩ := parseSome.mp parsed
  -- Attributes between the blocks are left out, which keeps the order of the others.
  obtain ⟨ordered, each⟩ := parsedOrdered places
  have spans : ∀ b ∈ items.filterMap (blockOf? (.ofText source) path), ∃ head whole, Spans source b head whole := by
    intro b member
    obtain ⟨p, among, found⟩ := List.mem_filterMap.mp member
    obtain ⟨inside, bound, _, read⟩ := each p among
    exact placedSpans read inside found
  refine ⟨_, rfl, ?_, spans, fun format named reason => coveredChecked (fun b member => ?_) named reason⟩
  · rw [List.pairwise_filterMap]
    refine ordered.imp_of_mem fun {p q} first _ behind a isA b isB => ?_
    obtain ⟨inside, bound, _, read⟩ := each p first
    have taken : p.stop <:+ p.start := (shortPlaced (tailBodyUpTo bound) read).1
    rw [(blockOfBytes isA).2, (blockOfBytes isB).1]
    exact byteAtSuffix (taken.trans inside) behind
  · obtain ⟨head, whole, spans⟩ := spans b member
    exact ⟨whole, coversSlice.mp spans.range⟩

def accentedText : List Char := "# é\noutput \"ü\" \x7b\n\x7d\nlocals \x7b \x7d".toList

def accentedBlocks : List Block :=
  [⟨"output", ["ü"], ⟨⟨"a.tf"⟩, ⟨2, 1, 5⟩, ⟨3, 2, 20⟩⟩, ⟨⟨"a.tf"⟩, ⟨2, 1, 5⟩, ⟨2, 11, 16⟩⟩⟩,
    ⟨"locals", [], ⟨⟨"a.tf"⟩, ⟨4, 1, 21⟩, ⟨4, 11, 31⟩⟩, ⟨⟨"a.tf"⟩, ⟨4, 1, 21⟩, ⟨4, 7, 27⟩⟩⟩]

theorem blockRangesAccented :
    parse? ⟨"a.tf"⟩ accentedText = some ⟨⟨"a.tf"⟩, .parsed accentedText accentedBlocks⟩ ∧
    (∀ b ∈ accentedBlocks, ∃ head whole, Spans accentedText b head whole) ∧
    accentedBlocks.map (·.header.slice? accentedText) = [some "output \"ü\"".toList, some "locals".toList] ∧
    ∀ format reason, checkFile format ⟨⟨"a.tf"⟩, .parsed accentedText accentedBlocks⟩ ≠
      some (.error (.read ⟨"a.tf"⟩ reason)) := by
  have parsed : parse? ⟨"a.tf"⟩ accentedText = some ⟨⟨"a.tf"⟩, .parsed accentedText accentedBlocks⟩ := by decide +kernel
  obtain ⟨blocks, same, _, spans, checked⟩ := blockRanges parsed
  cases same
  exact ⟨parsed, spans, by decide +kernel, fun format reason => checked format ⟨"a.tf"⟩ reason⟩

end DeclOrder.Source
