import DeclOrder.Check
import DeclOrder.Proofs.Calendar
import DeclOrder.Proofs.Loading.Files
import DeclOrder.Proofs.OutputOrder
import DeclOrder.Proofs.Report.RoundTrip
import DeclOrder.Proofs.Truncation

/-! Reports that a check makes can be stored: positions and counts are cut to 32 bits, and the data of a
finding are texts. -/
namespace DeclOrder

theorem wordBelow {n : Nat} (below : n < twoTo 32) : isWord 32 n = true := by
  simp only [isWord, Bool.and_eq_true, decide_eq_true_eq]
  omega

theorem narrowWord (n : Nat) : isWord 32 (n % twoTo 32 : Nat) = true := wordBelow (Nat.mod_lt n (by decide))

theorem rangeFits (index : LineIndex) (path : RepoPath) (start stop : Nat) :
    (index.range path start stop).location.Fits where
  line _ same := Option.mem_some.mp same ▸ narrowWord _
  column _ same := Option.mem_some.mp same ▸ narrowWord _
  endLine _ same := Option.mem_some.mp same ▸ narrowWord _
  endColumn _ same := Option.mem_some.mp same ▸ narrowWord _

def Module.Measured (m : Module) : Prop := ∀ file ∈ m.fileList, ∀ b ∈ file.blocks, b.header.location.Fits

namespace Source

theorem blockFits {index : LineIndex} {path : RepoPath} {placed : Hcl.Placed} {b : Block}
    (made : blockOf? index path placed = some b) : b.header.location.Fits := by
  unfold blockOf? at made
  split at made
  · cases made
  · cases made
    exact rangeFits index path _ _

theorem ofTextFits (path : RepoPath) (text : List Char) : ∀ b ∈ (ofText path text).blocks, b.header.location.Fits := by
  intro b member
  unfold ofText parse? at member
  cases parsed : Hcl.parsePlaced? text with
  | none =>
      rw [parsed] at member
      cases member
  | some items =>
      rw [parsed] at member
      obtain ⟨placed, -, made⟩ := List.mem_filterMap.mp member
      exact blockFits made

theorem fileOnFits (d : Disk) (root : String) (path : RepoPath) :
    ∀ b ∈ (fileOn d root path).blocks, b.header.location.Fits := by
  unfold fileOn
  cases (d.read (placeOf root path)).bind textOf with
  | error e => exact List.forall_mem_nil _
  | ok text => exact ofTextFits path text.toList

theorem moduleFits {d : Disk} {root : String} {m : Module} (loaded : moduleOn d root = some m) : m.Measured := by
  unfold moduleOn at loaded
  split at loaded
  · cases loaded
    intro file member
    obtain ⟨path, -, rfl⟩ := (memLoaded (discoverDistinct _)).mp member
    exact fileOnFits d root path
  · cases loaded

end Source

namespace Report
open OutputOrder (Suggestion)

theorem textsOrdered (texts : List String) : Json.isOrdered (.strings texts) := by
  show Json.areOrdered (texts.map .string)
  induction texts with
  | nil => rfl
  | cons text rest ih => exact ih

theorem textsWritable (texts : List String) : Json.Writable 1 (.strings texts) :=
  Json.arrayWritable fun text _ => Json.stringWritable 0 text

theorem suggestionPlain (s : Suggestion) : (OutputOrder.issueOf s).data.Plain := by
  have slots : Json.Writable 2 (.object (Json.filled [("declared", some (.strings s.declared)),
      ("expected", some (.strings s.expected)), ("file", some (.string s.anchor.path.text))])) := by
    refine Json.filledWritable ?_
    simp only [List.forall_mem_cons]
    exact ⟨Json.setWritable (textsWritable _), Json.setWritable (textsWritable _),
      Json.setWritable (Json.stringWritable 1 _), List.forall_mem_nil _⟩
  refine ⟨slots.exact, ?_, Nat.le_trans slots.shallow (by decide)⟩
  have keys : Ascending [("declared", Json.strings s.declared), ("expected", .strings s.expected),
      ("file", .string s.anchor.path.text)] :=
    List.pairwise_map.mp (show ["declared", "expected", "file"].Pairwise (· < ·) by decide)
  show (decide (Ascending _) && (Json.isOrdered _ && (Json.isOrdered _ && _))) = true
  rw [textsOrdered, textsOrdered, decide_eq_true keys]
  rfl

theorem findingStorable {m : Module} (measured : m.Measured) {policy : Policy} {format : Formatter} {r : DomainReport}
    (done : Evaluation.evaluate m policy (allRules format) = some r) {f : Finding} (member : f ∈ r.findings) :
    (∀ l ∈ f.location, l.Fits) ∧ f.data.Plain := by
  obtain ⟨rule, registered, outcome, ran, e, reported, levels, rfl⟩ := Evaluation.findingMade done member
  obtain rfl := List.mem_singleton.mp registered
  obtain ⟨file, among, s, checked, rfl⟩ := OutputOrder.emissionSuggested ran reported
  obtain ⟨b, inside, header⟩ := OutputOrder.anchorHeader checked
  refine ⟨fun l place => ?_, suggestionPlain s⟩
  obtain rfl := Option.mem_some.mp place
  show s.anchor.location.Fits
  rw [header]
  exact measured file (List.mem_filter.mp among).1 b inside

theorem Storable.written {r : Report} (storable : r.Storable) : r.written = .ok r.serialize := by
  rw [Report.written, Timestamp.hasTextRepresentable storable.startedAt, Timestamp.hasTextRepresentable storable.finishedAt]
  rfl

theorem checkStorable {m : Module} (measured : m.Measured) {policy : Policy} {r : DomainReport}
    (done : Check.evaluated policy m = some r) {started finished : Timestamp} (first : started.isRepresentable)
    (last : finished.isRepresentable) : (ofDomain started finished r).Storable where
  schema := rfl
  startedAt := first
  finishedAt := last
  places _ member := (findingStorable measured done member).1
  data _ member := (findingStorable measured done member).2
  summary := ⟨narrowWord _, narrowWord _, narrowWord _, narrowWord _⟩

theorem runtimeStorable {now : Timestamp} (representable : now.isRepresentable) (message : String) :
    (runtimeError now message).Storable where
  schema := rfl
  startedAt := representable
  finishedAt := representable
  places f member := by
    obtain rfl := List.mem_singleton.mp member
    exact nofun
  data f member := by
    obtain rfl := List.mem_singleton.mp member
    exact ⟨rfl, rfl, Nat.zero_le 100⟩
  summary := ⟨@wordBelow 0 (by decide), @wordBelow 0 (by decide), @wordBelow 1 (by decide), @wordBelow 1 (by decide)⟩

end Report
end DeclOrder
