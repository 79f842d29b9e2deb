import DeclOrder.Proofs.Layout.Idempotence
import DeclOrder.Proofs.OutputOrder

/-! Texts with one blank line between them are laid out one by one. The blank line ends every run of
attributes, and where a text leaves nothing open the next one starts as if it stood alone. -/
namespace DeclOrder.Layout
open Text
open OutputOrder (Entry Suggestion Collected checkFile recommended sorted)

structure Bounded (text : List Char) : Prop where
  some : text ≠ []
  ends : Ends isBlank text

theorem boundedIff {text : List Char} : Bounded text ↔
    text.head?.any (!isBlank ·) = true ∧ text.getLast?.any (!isBlank ·) = true := by
  constructor
  · rintro ⟨some, head, last⟩
    rw [List.head?_eq_some_head some, List.getLast?_eq_some_getLast some] at *
    simp [head, last]
  · rintro ⟨head, last⟩
    refine ⟨?_, fun c found => ?_, fun c found => ?_⟩
    · rintro rfl
      contradiction
    · simpa [found] using head
    · simpa [found] using last

instance (text : List Char) : Decidable (Bounded text) := decidable_of_iff' _ boundedIff

/-- Behind the text the scan is where it started. -/
def Closes (text : List Char) : Prop := scanFrom .start (lines text) = .start

instance (text : List Char) : Decidable (Closes text) :=
  inferInstanceAs (Decidable (scanFrom .start (lines text) = .start))

theorem linesFirst {c : Char} (solid : isBlank c = false) (rest : List Char) :
    ∃ line more, lines (c :: rest) = (c :: line) :: more := by
  have other (d : Char) (blank : isBlank d = true) : c ≠ d := by
    rintro rfl
    rw [blank] at solid
    contradiction
  rw [linesOther (other '\n' (by decide)) (fun isReturn => absurd isReturn (other '\r' (by decide)))]
  cases lines rest with
  | nil => exact ⟨[], [], rfl⟩
  | cons line more => exact ⟨line, more, rfl⟩

theorem lastBehind {line a t : List Char}
    (last : ∀ c, (line ++ (a ++ '\n' :: t)).getLast? = some c → isBlank c = false) :
    t ≠ [] ∧ ∀ c, t.getLast? = some c → isBlank c = false := by
  have behind (c : Char) (h : t.getLast? = some c) : isBlank c = false := by
    refine last c ?_
    rw [List.getLast?_append, List.getLast?_append, List.getLast?_cons, h]
    rfl
  refine ⟨?_, behind⟩
  rintro rfl
  exact absurd (last '\n' (by simp)) (by decide)

theorem linesLast {text : List Char} (some : text ≠ []) (last : ∀ c, text.getLast? = .some c → isBlank c = false) :
    ∃ line, (lines text).getLast? = .some line ∧ allBlank line = false := by
  generalize split : lines text = raws
  induction raws generalizing text with
  | nil => exact absurd (linesEmpty split) some
  | cons line rest ih =>
      obtain ⟨u, rfl, ends⟩ := linesCons split
      cases ends with
      | last none =>
          subst none
          rw [List.append_nil] at some last
          refine ⟨line, rfl, Bool.eq_false_iff.mpr (fun blank => ?_)⟩
          have solid := last _ (List.getLast?_eq_some_getLast some)
          rw [List.all_eq_true.mp blank _ (List.getLast_mem some)] at solid
          contradiction
      | lineBreak before behind =>
          obtain ⟨more, solid⟩ := lastBehind last
          obtain ⟨line', found, notBlank⟩ := ih more solid behind
          refine ⟨line', ?_, notBlank⟩
          rw [List.getLast?_cons, found]
          rfl

theorem linesBehind {front : List Char} (some : front ≠ []) (last : ∀ c, front.getLast? = .some c → isBlank c = false)
    (back : List Char) : lines (front ++ '\n' :: back) = lines front ++ lines back := by
  -- The induction is on the lines of the front text; only its last line meets the further line break.
  generalize split : lines front = raws
  induction raws generalizing front with
  | nil => exact absurd (linesEmpty split) some
  | cons line rest ih =>
      have noBreak := linesNoBreak front line (split ▸ List.mem_cons_self)
      obtain ⟨u, rfl, ends⟩ := linesCons split
      cases ends with
      | last none =>
          subst none
          rw [List.append_nil] at last ⊢
          have kept : dropReturn line = line := dropReturnIff.mpr (fun isReturn => by
            have solid := last '\r' isReturn
            contradiction)
          rw [linesOfLine line back noBreak, kept]
          rfl
      | @lineBreak a t before behind =>
          obtain ⟨more, solid⟩ := lastBehind last
          have inLine : '\n' ∉ line ++ a := by
            simp only [List.mem_cons, List.not_mem_nil, or_false] at before
            rcases before with rfl | rfl <;> simp [noBreak]
          rw [← List.append_assoc, linesOfLine (line ++ a) t inLine] at split
          rw [← List.append_assoc, List.append_assoc (line ++ a), List.cons_append,
            linesOfLine (line ++ a) _ inLine, ih more solid behind, (List.cons.inj split).1]
          rfl

theorem boundedLines {text : List Char} (bounded : Bounded text) : Ends allBlank (lines text) := by
  constructor
  · intro line head
    cases text with
    | nil => exact absurd rfl bounded.some
    | cons c rest =>
        have solid := bounded.ends.head c rfl
        obtain ⟨tail, more, found⟩ := linesFirst solid rest
        rw [found] at head
        cases head
        rw [allBlank, List.all_cons, solid, Bool.false_and]
  · intro line last
    obtain ⟨line', found, solid⟩ := linesLast bounded.some bounded.ends.last
    rw [found] at last
    cases last
    exact solid

theorem laidOutBounded {text : List Char} (bounded : Bounded text) :
    laidOut text = unlines (laidFrom none (ofText text)) := by
  have ends : Ends Line.isBlank (ofText text) := endsMap (linesFromIsBlank .start _) (boundedLines bounded)
  rw [laidOutKept, keptLines, dropEndsStops ends]

theorem boundedJoined {front back : List Char} (before : Bounded front) (behind : Bounded back) (between : List Char) :
    Bounded (front ++ (between ++ back)) := by
  refine ⟨fun h => before.some (List.append_eq_nil_iff.mp h).1, endsAppend before.ends before.some _, fun c last => ?_⟩
  have found := List.getLast?_eq_some_getLast behind.some
  rw [List.getLast?_append, List.getLast?_append, found] at last
  exact behind.ends.last c (found.trans last)

theorem textsBlankBetween (front back : List Line) :
    laidFrom none (front ++ .blank :: back) = laidFrom none front ++ [] :: laidFrom none back := by
  have idle : ∀ depth, runWidth depth (.blank :: back) = 0 := fun _ => rfl
  obtain ⟨after, texts⟩ := textsBehind idle front none
  exact texts

theorem ofTextJoined {front back : List Char} (before : Bounded front) (closes : Closes front) :
    ofText (front ++ '\n' :: '\n' :: back) = ofText front ++ .blank :: ofText back := by
  rw [ofText, linesBehind before.some before.ends.last, linesBreak, linesFromAppend, closes, linesFromCons,
    lineOfBlank rfl rfl]
  rfl

/-- The layout of a text that leaves nothing open does not reach over a blank line behind it. -/
theorem laidOutJoined {front back : List Char} (before : Bounded front) (closes : Closes front)
    (behind : Bounded back) : laidOut (front ++ ['\n', '\n'] ++ back) = laidOut front ++ ['\n'] ++ laidOut back := by
  rw [List.append_assoc, List.append_assoc, laidOutBounded (boundedJoined before behind ['\n', '\n']),
    laidOutBounded before, laidOutBounded behind]
  rw [List.cons_append, List.cons_append, List.nil_append, ofTextJoined before closes, textsBlankBetween,
    unlinesAppend, unlinesCons]
  rfl

theorem narrowJoined {front back : List Char} (before : Bounded front) (closes : Closes front) :
    Narrow (front ++ '\n' :: '\n' :: back) ↔ Narrow front ∧ Narrow back := by
  rw [Narrow, ofTextJoined before closes, List.forall_mem_append, List.forall_mem_cons]
  exact and_congr_right fun _ => and_iff_right (Nat.zero_le _)

theorem canonicalJoined {front back : List Char} (before : Bounded front) (closes : Closes front) (behind : Bounded back) :
    canonical (front ++ ['\n', '\n'] ++ back) = do return (← canonical front) ++ ['\n'] ++ (← canonical back) := by
  have split : Narrow (front ++ ['\n', '\n'] ++ back) ↔ Narrow front ∧ Narrow back := by
    rw [List.append_assoc]
    exact narrowJoined before closes
  by_cases both : Narrow front ∧ Narrow back
  · rw [canonicalNarrow (split.mpr both), canonicalNarrow both.1, canonicalNarrow both.2,
      laidOutJoined before closes behind]
    rfl
  · rw [canonicalNone.mpr (mt split.mp both)]
    by_cases narrow : Narrow front
    · rw [canonicalNarrow narrow, canonicalNone.mpr (fun behind => both ⟨narrow, behind⟩)]
      rfl
    · rw [canonicalNone.mpr narrow]
      rfl

theorem boundedAll {first : List Char} {rest : List (List Char)} (all : ∀ t ∈ first :: rest, Bounded t) :
    Bounded (['\n', '\n'].intercalate (first :: rest)) := by
  induction rest generalizing first with
  | nil =>
      rw [List.intercalate_singleton]
      exact all first List.mem_cons_self
  | cons next rest ih =>
      rw [List.intercalate_cons_cons, List.append_assoc]
      exact boundedJoined (all first List.mem_cons_self) (ih (fun t member => all t (List.mem_cons_of_mem _ member))) _

def laidOutAlone (texts : List (List Char)) : Option (List Char) := do
  return ['\n'].intercalate (← texts.mapM canonical)

theorem laidOutAloneCons (first next : List Char) (rest : List (List Char)) : laidOutAlone (first :: next :: rest) =
    do return (← canonical first) ++ ['\n'] ++ (← laidOutAlone (next :: rest)) := by
  simp only [laidOutAlone, List.mapM_cons, bind_assoc, pure_bind, List.intercalate_cons_cons]

theorem canonicalAll {texts : List (List Char)} (all : ∀ t ∈ texts, Bounded t ∧ Closes t) :
    canonical (['\n', '\n'].intercalate texts) = laidOutAlone texts := by
  induction texts with
  | nil => rfl
  | cons first rest ih =>
      obtain ⟨here, others⟩ := List.forall_mem_cons.mp all
      cases rest with
      | nil =>
          rw [List.intercalate_singleton, laidOutAlone, List.mapM_cons, List.mapM_nil]
          cases canonical first with
          | none => rfl
          | some laid => exact congrArg some (List.intercalate_singleton ..).symm
      | cons next rest =>
          have bounded := boundedAll (fun t member => (others t member).1)
          rw [List.intercalate_cons_cons, canonicalJoined here.1 here.2 bounded, ih others, laidOutAloneCons]

theorem suggestedLayout {path : RepoPath} {source : List Char} {blocks : List Block} {entries : List Entry}
    {s : Suggestion} (collected : Collected source blocks entries)
    (suggested : checkFile canonicalFormatter ⟨path, .parsed source blocks⟩ = some (.ok (some s))) :
    canonical (recommended (sorted entries)) = some s.formatted := by
  have checked := OutputOrder.checkedComplete canonicalFormatter ⟨path, .parsed source blocks⟩
  rw [suggested] at checked
  cases checked with
  | suggested again order moved accepted =>
      have first : OutputOrder.collect path source blocks = .ok entries := OutputOrder.collectOk.mpr collected
      rw [OutputOrder.collectOk.mpr again] at first
      rw [OutputOrder.arrangedIff.mp order, Except.ok.inj first] at accepted
      exact (canonicalFormatterOk.mp accepted).2.2

/-- What stands behind a blank line has no part in the layout of what stands in front of it, so blocks are laid
out one by one, in a suggestion too: each block as if it stood alone. There is a layout of all of them exactly
if each of them has one. -/
theorem blocksLaidOutAlone :
    (∀ front back, Bounded front → Bounded back → Closes front →
      canonical (front ++ ['\n', '\n'] ++ back) = do return (← canonical front) ++ ['\n'] ++ (← canonical back)) ∧
    (∀ texts, (∀ t ∈ texts, Bounded t ∧ Closes t) →
      canonical (['\n', '\n'].intercalate texts) = laidOutAlone texts) ∧
    (∀ path source blocks entries s, Collected source blocks entries →
      (∀ e ∈ entries, Bounded (trimEnd e.text) ∧ Closes (trimEnd e.text)) →
      checkFile canonicalFormatter ⟨path, .parsed source blocks⟩ = some (.ok (some s)) →
      laidOutAlone ((sorted entries).map (fun e => trimEnd e.text)) = some s.formatted) := by
  refine ⟨fun front back before behind closes => canonicalJoined before closes behind, fun texts => canonicalAll,
    fun path source blocks entries s collected all suggested => ?_⟩
  have texts : ∀ t ∈ (sorted entries).map (fun e => trimEnd e.text), Bounded t ∧ Closes t := by
    intro t member
    obtain ⟨e, inside, rfl⟩ := List.mem_map.mp member
    exact all e (List.mem_mergeSort.mp inside)
  rw [← canonicalAll texts, ← recommended, suggestedLayout collected suggested]

def heredocBlock : List Char := "output \"b\" \x7b\nv=<<E\n x\nE\nlong=1\n\x7d".toList

def tightBlock : List Char := "output \"a\" \x7b\nw=2\n\x7d".toList

def tightBlocks : List Block :=
  [⟨OutputOrder.trackedKind, ["b"], ⟨⟨"outputs.tf"⟩, ⟨1, 1, 0⟩, ⟨6, 2, 32⟩⟩,
      ⟨⟨"outputs.tf"⟩, ⟨1, 1, 0⟩, ⟨1, 11, 10⟩⟩⟩,
    ⟨OutputOrder.trackedKind, ["a"], ⟨⟨"outputs.tf"⟩, ⟨7, 1, 33⟩, ⟨9, 2, 51⟩⟩,
      ⟨⟨"outputs.tf"⟩, ⟨7, 1, 33⟩, ⟨7, 11, 43⟩⟩⟩]

def heredocEntry : Entry := ⟨"b", ⟨⟨"outputs.tf"⟩, ⟨1, 1, 0⟩, ⟨1, 11, 10⟩⟩, heredocBlock⟩

def tightEntry : Entry := ⟨"a", ⟨⟨"outputs.tf"⟩, ⟨7, 1, 33⟩, ⟨7, 11, 43⟩⟩, tightBlock⟩

theorem tightCollected : Collected (heredocBlock ++ '\n' :: tightBlock) tightBlocks [heredocEntry, tightEntry] :=
  .tracked rfl ⟨rfl, rfl, OutputOrder.coversSlice.mp (by decide +kernel)⟩
    (.tracked rfl ⟨rfl, rfl, OutputOrder.coversSlice.mp (by decide +kernel)⟩ .nil)

theorem tightTurned : sorted [heredocEntry, tightEntry] = [tightEntry, heredocEntry] :=
  (OutputOrder.arrangedIff.mp (OutputOrder.arrangedTurned (by decide) (by decide))).symm

theorem tightSuggested : ∃ s, checkFile canonicalFormatter
    ⟨⟨"outputs.tf"⟩, .parsed (heredocBlock ++ '\n' :: tightBlock) tightBlocks⟩ = some (.ok (some s)) := by
  have moved : sorted [heredocEntry, tightEntry] ≠ [heredocEntry, tightEntry] := by
    rw [tightTurned]
    decide
  have accepted : canonicalFormatter (recommended (sorted [heredocEntry, tightEntry])) =
      some (.ok (laidOut (recommended [tightEntry, heredocEntry]))) := by
    rw [tightTurned]
    exact canonicalFormatterOk.mpr ⟨by decide +kernel, by decide +kernel, by decide +kernel⟩
  exact ⟨_, OutputOrder.checkedSound (.suggested tightCollected (OutputOrder.arrangedIff.mpr rfl) moved accepted)⟩

theorem blocksLaidOutAloneTight :
    (Bounded heredocBlock ∧ Closes heredocBlock) ∧ (Bounded tightBlock ∧ Closes tightBlock) ∧
    canonical (heredocBlock ++ ['\n', '\n'] ++ tightBlock) =
      (do return (← canonical heredocBlock) ++ ['\n'] ++ (← canonical tightBlock)) ∧
    canonical (['\n', '\n'].intercalate [tightBlock, heredocBlock]) = laidOutAlone [tightBlock, heredocBlock] ∧
    ∃ s, checkFile canonicalFormatter
        ⟨⟨"outputs.tf"⟩, .parsed (heredocBlock ++ '\n' :: tightBlock) tightBlocks⟩ = some (.ok (some s)) ∧
      laidOutAlone [tightBlock, heredocBlock] = some s.formatted := by
  have blocks : ∀ t ∈ [tightBlock, heredocBlock], Bounded t ∧ Closes t := by decide
  have front := blocks heredocBlock (by simp)
  have back := blocks tightBlock (by simp)
  have texts : ∀ e ∈ [heredocEntry, tightEntry], Bounded (trimEnd e.text) ∧ Closes (trimEnd e.text) := by decide
  have ended : [tightEntry, heredocEntry].map (fun e => trimEnd e.text) = [tightBlock, heredocBlock] := by decide
  obtain ⟨s, suggested⟩ := tightSuggested
  have laid := blocksLaidOutAlone.2.2 _ _ _ _ _ tightCollected texts suggested
  rw [tightTurned, ended] at laid
  exact ⟨front, back, blocksLaidOutAlone.1 _ _ front.1 back.1 front.2, blocksLaidOutAlone.2.1 _ blocks, s, suggested, laid⟩

end DeclOrder.Layout
