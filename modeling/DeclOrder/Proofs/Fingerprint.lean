import DeclOrder.Proofs.Truncation
import Mathlib.Tactic.ByContra

/-! What a fingerprint tells. The text behind it is four fields with bars between them, and the fields
are not escaped: a bar in one of them can be taken for one between them. -/
namespace DeclOrder.Fingerprint
open Evaluation

structure Fields where
  rule : String
  code : String
  path : String
  block : String
  deriving DecidableEq, Repr

namespace Fields

def text (f : Fields) : String := identity f.rule f.code f.path f.block

def fingerprint (f : Fields) : String := ofBlock f.rule f.code f.path f.block

def ofEmitted (e : Emitted) : Fields := ⟨e.rule, e.issue.code, e.issue.range.path.text, e.issue.subject⟩

/-- The fields in front of the last bar have none. -/
def Separated (f : Fields) : Prop := '|' ∉ f.rule.toList ∧ '|' ∉ f.code.toList ∧ '|' ∉ f.path.toList

instance (f : Fields) : Decidable f.Separated := inferInstanceAs (Decidable (_ ∧ _ ∧ _))

/-- No field has a bar. -/
def Plain (f : Fields) : Prop := f.Separated ∧ '|' ∉ f.block.toList

instance (f : Fields) : Decidable f.Plain := inferInstanceAs (Decidable (_ ∧ _))

theorem textList (f : Fields) :
    f.text.toList = f.rule.toList ++ '|' :: (f.code.toList ++ '|' :: (f.path.toList ++ '|' :: f.block.toList)) := by
  simp [text, identity]

theorem fingerprintText (f : Fields) : f.fingerprint = Digest.sha256 (f.text.toList.flatMap String.utf8EncodeChar) := rfl

end Fields

/-! Fields read off the text. -/

theorem cutAtBar {front front' back back' : List Char} (plain : '|' ∉ front) (plain' : '|' ∉ front')
    (same : front ++ '|' :: back = front' ++ '|' :: back') : front = front' ∧ back = back' := by
  induction front generalizing front' with
  | nil => cases front' with
      | nil => exact ⟨rfl, (List.cons.inj same).2⟩
      | cons c rest => exact (plain' ((List.cons.inj same).1 ▸ List.mem_cons_self)).elim
  | cons c rest ih => cases front' with
      | nil => exact (plain ((List.cons.inj same).1 ▸ List.mem_cons_self)).elim
      | cons c' rest' =>
          obtain ⟨head, tail⟩ := List.cons.inj same
          obtain ⟨fronts, backs⟩ := ih (fun member => plain (List.mem_cons_of_mem _ member))
            (fun member => plain' (List.mem_cons_of_mem _ member)) tail
          exact ⟨by rw [head, fronts], backs⟩

theorem separatedFields {f g : Fields} (separated : f.Separated) (separated' : g.Separated) (same : f.text = g.text) :
    f = g := by
  obtain ⟨rule, code, path⟩ := separated
  obtain ⟨rule', code', path'⟩ := separated'
  have texts := congrArg String.toList same
  rw [Fields.textList, Fields.textList] at texts
  obtain ⟨rules, texts⟩ := cutAtBar rule rule' texts
  obtain ⟨codes, texts⟩ := cutAtBar code code' texts
  obtain ⟨paths, blocks⟩ := cutAtBar path path' texts
  rw [String.toList_inj] at rules codes paths blocks
  cases f
  cases g
  simp_all

/-! Which texts tell their fields. -/

theorem barsOfText (f : Fields) : f.text.toList.count '|' =
    f.rule.toList.count '|' + f.code.toList.count '|' + f.path.toList.count '|' + f.block.toList.count '|' + 3 := by
  rw [Fields.textList]
  simp only [List.count_append, List.count_cons_self]
  omega

theorem plainBars {f : Fields} : f.Plain ↔ f.text.toList.count '|' = 3 := by
  rw [Fields.Plain, Fields.Separated, barsOfText]
  simp only [← List.count_eq_zero]
  omega

theorem barSplit {text : String} (member : '|' ∈ text.toList) : ∃ front back : String, text = front ++ "|" ++ back := by
  obtain ⟨front, back, parts⟩ := List.mem_iff_append.mp member
  refine ⟨String.ofList front, String.ofList back, String.toList_inj.mp ?_⟩
  simp [parts]

theorem frontShorter (front back : String) : front ≠ front ++ "|" ++ back := by
  intro same
  have lengths := congrArg String.length same
  simp only [String.length_append] at lengths
  have bar : "|".length = 1 := rfl
  omega

theorem barTaken {f : Fields} (barred : ¬ f.Plain) : ∃ g : Fields, g.text = f.text ∧ g ≠ f := by
  obtain ⟨rule, code, path, block⟩ := f
  simp only [Fields.Plain, Fields.Separated, not_and_or, not_not] at barred
  rcases barred with (inRule | inCode | inPath) | inBlock
  · obtain ⟨front, back, rfl⟩ := barSplit inRule
    refine ⟨⟨front, back, code, path ++ "|" ++ block⟩, ?_, fun same => frontShorter front back (congrArg Fields.rule same)⟩
    simp only [Fields.text, identity, String.append_assoc]
  · obtain ⟨front, back, rfl⟩ := barSplit inCode
    refine ⟨⟨rule, front, back, path ++ "|" ++ block⟩, ?_, fun same => frontShorter front back (congrArg Fields.code same)⟩
    simp only [Fields.text, identity, String.append_assoc]
  · obtain ⟨front, back, rfl⟩ := barSplit inPath
    refine ⟨⟨rule, code, front, back ++ "|" ++ block⟩, ?_, fun same => frontShorter front back (congrArg Fields.path same)⟩
    simp only [Fields.text, identity, String.append_assoc]
  · obtain ⟨front, back, rfl⟩ := barSplit inBlock
    refine ⟨⟨rule, code, path ++ "|" ++ front, back⟩, ?_, fun same => frontShorter path front (congrArg Fields.path same).symm⟩
    simp only [Fields.text, identity, String.append_assoc]

theorem textTold (f : Fields) : (∀ g : Fields, g.text = f.text → g = f) ↔ f.Plain := by
  constructor
  · intro told
    by_contra barred
    obtain ⟨g, same, other⟩ := barTaken barred
    exact other (told g same)
  · intro plain g same
    have plain' : g.Plain := plainBars.mpr (by rw [same]; exact plainBars.mp plain)
    exact separatedFields plain'.1 plain.1 same

/-! Findings of runs. -/

/-- A finding of a run is made of what a rule reports, and these fields are of that. -/
def Identifies (m : Module) (policy : Policy) (rules : List Rule) (finding : Finding) (f : Fields) : Prop :=
  ∃ rule ∈ rules, ∃ outcome, rule.check m (ignoreSet policy).1.ignores = some outcome ∧
    ∃ e ∈ outcome.issues, ∃ levels, findingOf levels e = finding ∧ Fields.ofEmitted e = f

theorem findingIdentified {m : Module} {policy : Policy} {rules : List Rule} {r : DomainReport}
    (done : evaluate m policy rules = some r) {finding : Finding} (member : finding ∈ r.findings) :
    ∃ f, Identifies m policy rules finding f := by
  obtain ⟨rule, registered, outcome, checked, e, reported, levels, made⟩ := findingMade done member
  exact ⟨_, rule, registered, outcome, checked, e, reported, levels, made, rfl⟩

theorem identifiesFields {m : Module} {policy : Policy} {rules : List Rule} {finding : Finding} {f : Fields}
    (identifies : Identifies m policy rules finding f) :
    finding.checkId = f.rule ∧ finding.code = f.code ∧ finding.location.map (·.path.text) = some f.path ∧
      finding.fingerprint = some f.fingerprint := by
  obtain ⟨rule, -, outcome, -, e, -, levels, rfl, rfl⟩ := identifies
  exact ⟨rfl, rfl, rfl, rfl⟩

/-- Different fields have different texts as long as only the blocks' names have bars. Findings of any
runs are then told by their fingerprints, where the digest tells the texts. -/
theorem fingerprintsTell {f g : Fields} (separated : f.Separated) (separated' : g.Separated) :
    (f ≠ g → f.text ≠ g.text) ∧
    ∀ {m m' : Module} {policy policy' : Policy} {rules rules' : List Rule} {finding finding' : Finding},
      Identifies m policy rules finding f → Identifies m' policy' rules' finding' g →
      (f.text ≠ g.text → f.fingerprint ≠ g.fingerprint) → finding.fingerprint = finding'.fingerprint →
        finding.checkId = finding'.checkId ∧ finding.code = finding'.code ∧
          finding.location.map (·.path.text) = finding'.location.map (·.path.text) ∧ f.block = g.block := by
  have told : f ≠ g → f.text ≠ g.text := fun other same => other (separatedFields separated separated' same)
  refine ⟨told, fun identifies identifies' collisionless same => ?_⟩
  obtain ⟨rule, code, path, print⟩ := identifiesFields identifies
  obtain ⟨rule', code', path', print'⟩ := identifiesFields identifies'
  have fields : f = g := by
    by_contra other
    rw [print, print'] at same
    exact collisionless (told other) (Option.some.inj same)
  subst fields
  exact ⟨rule.trans rule'.symm, code.trans code'.symm, path.trans path'.symm, rfl⟩

def unsorted (path block : String) : Fields := ⟨OutputOrder.ruleName, OutputOrder.unsortedCode, path, block⟩

def emittedAt (block : String) : Emitted :=
  ⟨OutputOrder.ruleName, OutputOrder.link, OutputOrder.unsortedCode, block, "message",
    ⟨⟨"a.tf"⟩, ⟨1, 1, 0⟩, ⟨1, 11, 10⟩⟩, none, .null⟩

def warningsAt (blocks : List String) : Rule := constantRule OutputOrder.ruleName .warning (blocks.map emittedAt)

theorem barredBlockTold :
    (unsorted "a.tf" "x").Separated ∧ (unsorted "a.tf" "b.tf|x").Separated ∧
    (unsorted "a.tf" "x").text ≠ (unsorted "a.tf" "b.tf|x").text ∧
    (findingOf .empty (emittedAt "x")).fingerprint ≠ (findingOf .empty (emittedAt "b.tf|x")).fingerprint := by
  have separated : (unsorted "a.tf" "x").Separated := by decide
  have separated' : (unsorted "a.tf" "b.tf|x").Separated := by decide
  have told := fingerprintsTell separated separated'
  have plain : Identifies .empty .default [warningsAt ["x", "b.tf|x"]] (findingOf .empty (emittedAt "x"))
      (unsorted "a.tf" "x") :=
    ⟨_, List.mem_cons_self, _, rfl, emittedAt "x", List.mem_cons_self, _, rfl, rfl⟩
  have barred : Identifies .empty .default [warningsAt ["x", "b.tf|x"]] (findingOf .empty (emittedAt "b.tf|x"))
      (unsorted "a.tf" "b.tf|x") :=
    ⟨_, List.mem_cons_self, _, rfl, emittedAt "b.tf|x", List.mem_cons_of_mem _ List.mem_cons_self, _, rfl, rfl⟩
  have digests : (unsorted "a.tf" "x").fingerprint ≠ (unsorted "a.tf" "b.tf|x").fingerprint := by decide +kernel
  refine ⟨separated, separated', told.1 (by decide), fun same => ?_⟩
  exact absurd (told.2 plain barred (fun _ => digests) same).2.2.2 (by decide)

/-- The bar of a block's name next to a path, and the bar of another path, stand in the same place. -/
theorem barMisread : unsorted "a.tf" "b.tf|x" ≠ unsorted "a.tf|b.tf" "x" ∧
    (unsorted "a.tf" "b.tf|x").text = (unsorted "a.tf|b.tf" "x").text ∧
    (unsorted "a.tf" "b.tf|x").fingerprint = (unsorted "a.tf|b.tf" "x").fingerprint := by
  have same : (unsorted "a.tf" "b.tf|x").text = (unsorted "a.tf|b.tf" "x").text := by decide
  refine ⟨by decide, same, ?_⟩
  rw [Fields.fingerprintText, Fields.fingerprintText, same]

end DeclOrder.Fingerprint
