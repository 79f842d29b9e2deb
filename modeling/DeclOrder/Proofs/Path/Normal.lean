import DeclOrder.Proofs.Path.Below
import DeclOrder.Source.Module

/-! The normal form of paths, which is what the files of a module are told by. A text has that form exactly when
it is left as it is, and spellings of one path, with either separator and with `./` in front any number of times,
have one form. -/
namespace DeclOrder.Path

/-- Not empty, without backslashes, and without `./` in front. -/
structure Normal (text : List Char) : Prop where
  nonempty : text ≠ []
  plain : '\\' ∉ text
  bare : ¬ ['.', '/'] <+: text

variable {text p q : List Char}

theorem normalIff : Normal text ↔ text ≠ [] ∧ '\\' ∉ text ∧ ¬ ['.', '/'] <+: text :=
  ⟨fun normal => ⟨normal.nonempty, normal.plain, normal.bare⟩, fun ⟨nonempty, plain, bare⟩ => ⟨nonempty, plain, bare⟩⟩

instance : Decidable (Normal text) := decidable_of_iff _ normalIff.symm

def heres (n : Nat) : List Char := (List.replicate n ['.', '/']).flatten

theorem heresSucc (n : Nat) (text : List Char) : heres (n + 1) ++ text = '.' :: '/' :: (heres n ++ text) := by
  simp [heres, List.replicate_succ]

theorem dropHeres (n : Nat) (text : List Char) : dropHere (heres n ++ text) = dropHere text := by
  induction n with
  | zero => rfl
  | succ n ih => rw [heresSucc, dropHere, ih]

theorem dropHereFront (text : List Char) : ∃ n, text = heres n ++ dropHere text := by
  fun_induction dropHere text with
  | case1 rest ih =>
      obtain ⟨n, same⟩ := ih
      exact ⟨n + 1, by rw [heresSucc, ← same]⟩
  | case2 text => exact ⟨0, rfl⟩

theorem dropHereBare (text : List Char) : ¬ ['.', '/'] <+: dropHere text := by
  fun_induction dropHere text with
  | case1 rest ih => exact ih
  | case2 text other =>
      rintro ⟨rest, rfl⟩
      exact other rest rfl

theorem dropHereStays (bare : ¬ ['.', '/'] <+: text) : dropHere text = text := by
  fun_cases dropHere text with
  | case1 rest => exact absurd (List.prefix_append ['.', '/'] rest) bare
  | case2 => rfl

theorem normalizeBare (text : List Char) : ¬ ['.', '/'] <+: normalize text := by
  unfold normalize
  split
  · decide
  · exact dropHereBare _

theorem normalizeNormal (text : List Char) : Normal (normalize text) :=
  ⟨normalizeNonempty text, normalizePlain text, normalizeBare text⟩

theorem normalizeStays (normal : Normal text) : normalize text = text := by
  unfold normalize
  rw [slashedPlain normal.plain, dropHereStays normal.bare]
  split
  · exact absurd rfl normal.nonempty
  · rfl

theorem normalizeIff : normalize text = text ↔ Normal text :=
  ⟨fun same => same ▸ normalizeNormal text, normalizeStays⟩

/-- Spellings of one path. They differ in the separators and in how often `./` is in front. -/
def Respelled (p q : List Char) : Prop := ∃ m n rest, slashed p = heres m ++ rest ∧ slashed q = heres n ++ rest

theorem respelledNormalize (respelled : Respelled p q) : normalize p = normalize q := by
  obtain ⟨m, n, rest, front, other⟩ := respelled
  unfold normalize
  rw [front, other, dropHeres, dropHeres]

end DeclOrder.Path

namespace DeclOrder.RepoPath
open DeclOrder.Path

theorem ofStringText (p : String) : (ofString p).text.toList = normalize p.toList := String.toList_ofList

theorem ofStringStays {p : String} : (ofString p).text = p ↔ Normal p.toList := by
  rw [← String.toList_inj, ofStringText, normalizeIff]

/-- A path stands for itself, also one as seen from a root, and nothing but a text in normal form does. In a module
a file is found by any spelling of its path. -/
theorem normalForm :
    (∀ p, Normal (ofString p).text.toList ∧ ofString (ofString p).text = ofString p ∧
      ((ofString p).text = p ↔ Normal p.toList)) ∧
    (∀ root p, Normal (relativeTo root p).text.toList ∧ ofString (relativeTo root p).text = relativeTo root p ∧
      ((relativeTo root p).text.toList = relative root.toList p.toList ↔ Normal (relative root.toList p.toList))) ∧
    ∀ p q, Respelled p.toList q.toList → ofString p = ofString q ∧ ∀ (m : Module) (content : Content),
      (m.insert ⟨ofString p, content⟩).find? (ofString q) = some ⟨ofString p, content⟩ := by
  have normal (p : String) : Normal (ofString p).text.toList := by
    rw [ofStringText]
    exact normalizeNormal _
  have again (p : String) : ofString (ofString p).text = ofString p := RepoPath.ext (ofStringStays.mpr (normal p))
  refine ⟨fun p => ⟨normal p, again p, ofStringStays⟩, fun root p => ⟨normal _, again _, ?_⟩, fun p q respelled => ?_⟩
  · rw [relativeTo, ofStringText, String.toList_ofList, normalizeIff]
  · have same : ofString p = ofString q := by rw [ofString, ofString, respelledNormalize respelled]
    refine ⟨same, fun m content => ?_⟩
    rw [Module.findInsert, if_pos same.symm]

theorem normalFormRespelled : Respelled "././a\\b.tf".toList "a/b.tf".toList ∧ ofString "././a\\b.tf" = ofString "a/b.tf" := by
  have respelled : Respelled "././a\\b.tf".toList "a/b.tf".toList := ⟨2, 0, "a/b.tf".toList, by decide +kernel⟩
  exact ⟨respelled, (normalForm.2.2 _ _ respelled).1⟩

end DeclOrder.RepoPath
