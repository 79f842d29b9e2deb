import DeclOrder.Source.Module
import Mathlib.Data.List.Nodup

/-! Modules that grow and shrink. What a module holds for a path is what the last change that concerned
the path left there, so modules with the same last changes are equal. -/
namespace DeclOrder.Module

inductive Change where
  | insert (file : SourceFile)
  | remove (path : RepoPath)

def Change.path : Change → RepoPath
  | .insert file => file.path
  | .remove path => path

def Change.file? : Change → Option SourceFile
  | .insert file => some file
  | .remove _ => none

def Change.apply (m : Module) : Change → Module
  | .insert file => m.insert file
  | .remove path => m.remove path

def after (m : Module) (changes : List Change) : Module := changes.foldl Change.apply m

def lastFile? (changes : List Change) (path : RepoPath) : Option SourceFile :=
  (changes.reverse.find? (·.path == path)).bind Change.file?

theorem findApply (m : Module) (c : Change) (path : RepoPath) :
    (c.apply m).find? path = if path = c.path then c.file? else m.find? path := by
  cases c with
  | insert file => exact findInsert m file path
  | remove removed => exact findRemove m removed path

theorem findAfter (m : Module) (changes : List Change) (path : RepoPath) :
    (m.after changes).find? path = match changes.reverse.find? (·.path == path) with
      | some c => c.file?
      | none => m.find? path := by
  induction changes generalizing m with
  | nil => rfl
  | cons c rest ih =>
      rw [after, List.foldl_cons, ← after, ih, List.reverse_cons, List.find?_append]
      cases rest.reverse.find? (·.path == path) with
      | some later => rfl
      | none =>
          by_cases here : path = c.path
          · simp [findApply, here]
          · simp [findApply, here, Ne.symm here]

theorem findLast (changes : List Change) (path : RepoPath) :
    (empty.after changes).find? path = lastFile? changes path := by
  rw [findAfter, lastFile?]
  cases changes.reverse.find? (·.path == path) <;> rfl

theorem afterSame {changes others : List Change} (same : ∀ path, lastFile? changes path = lastFile? others path) :
    empty.after changes = empty.after others :=
  findUnique (fun path => by rw [findLast, findLast, same])

theorem ofFilesAfter (files : List SourceFile) : ofFiles files = empty.after (files.map .insert) := by
  rw [ofFiles, after, List.foldl_map]
  rfl

theorem memOfFiles {files : List SourceFile} (distinct : (files.map (·.path)).Nodup) {file : SourceFile} :
    file ∈ (ofFiles files).fileList ↔ file ∈ files := by
  rw [memFiles, ofFilesAfter, findLast, lastFile?]
  constructor
  · intro found
    obtain ⟨c, last, left⟩ := Option.bind_eq_some_iff.mp found
    obtain ⟨g, member, rfl⟩ := List.mem_map.mp (List.mem_reverse.mp (List.mem_of_find?_eq_some last))
    cases left
    exact member
  · intro member
    have change : Change.insert file ∈ (files.map Change.insert).reverse :=
      List.mem_reverse.mpr (List.mem_map.mpr ⟨file, member, rfl⟩)
    cases last : (files.map Change.insert).reverse.find? (·.path == file.path) with
    | none => exact absurd (beq_self_eq_true file.path) (List.find?_eq_none.mp last _ change)
    | some c =>
        obtain ⟨g, among, rfl⟩ := List.mem_map.mp (List.mem_reverse.mp (List.mem_of_find?_eq_some last))
        have here := List.find?_some last
        have same : g.path = file.path := beq_iff_eq.mp here
        rw [List.inj_on_of_nodup_map distinct among member same]
        rfl

end DeclOrder.Module
