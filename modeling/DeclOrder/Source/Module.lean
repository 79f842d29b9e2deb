import DeclOrder.Source.File
import DeclOrder.Table

/-! The files of a module, in the order of their paths. -/
namespace DeclOrder

structure Module where
  files : Table SourceFile
  keyed : ∀ e ∈ files.entries, e.1 = e.2.path.text

namespace Module

def empty : Module := ⟨.empty, by simp [Table.empty]⟩

def insert (m : Module) (file : SourceFile) : Module where
  files := m.files.insert file.path.text file
  keyed e member := by
    rcases Table.memPut member with rfl | old
    · rfl
    · exact m.keyed e old

def remove (m : Module) (path : RepoPath) : Module where
  files := m.files.erase path.text
  keyed e member := m.keyed e (List.mem_filter.mp member |>.1)

def find? (m : Module) (path : RepoPath) : Option SourceFile := m.files.find? path.text

def ofFiles (files : List SourceFile) : Module := files.foldl insert empty

def fileList (m : Module) : List SourceFile := m.files.values

def blocksScanned (m : Module) : Nat := m.fileList.foldr (fun file n => file.blocks.length + n) 0

theorem findInsert (m : Module) (file : SourceFile) (path : RepoPath) :
    (m.insert file).find? path = if path = file.path then some file else m.find? path := by
  show (m.files.insert file.path.text file).find? path.text = _
  rw [Table.findInsert]
  simp only [← RepoPath.ext_iff]
  rfl

theorem findRemove (m : Module) (removed path : RepoPath) :
    (m.remove removed).find? path = if path = removed then none else m.find? path := by
  show (m.files.erase removed.text).find? path.text = _
  rw [Table.findErase]
  simp only [← RepoPath.ext_iff]
  rfl

theorem foundPath {m : Module} {path : RepoPath} {file : SourceFile} (found : m.find? path = some file) :
    file.path = path :=
  RepoPath.ext (m.keyed _ (Table.memFind.mpr found)).symm

theorem memFiles {m : Module} {file : SourceFile} : file ∈ m.fileList ↔ m.find? file.path = some file := by
  constructor
  · intro member
    obtain ⟨⟨key, _⟩, entry, rfl⟩ := List.mem_map.mp member
    have same := m.keyed _ entry
    simp only at same
    subst same
    exact Table.memFind.mp entry
  · intro found
    exact List.mem_map.mpr ⟨_, Table.memFind.mpr found, rfl⟩

theorem filesAscending (m : Module) : m.fileList.Pairwise (fun a b => a.path.text < b.path.text) := by
  rw [fileList, Table.values, List.pairwise_map]
  refine List.Pairwise.imp_of_mem (fun {a b} left right lt => ?_) m.files.ascending
  rwa [← m.keyed a left, ← m.keyed b right]

theorem pathsDistinct (m : Module) : (m.fileList.map (·.path)).Nodup := by
  have texts : ((m.fileList.map (·.path)).map RepoPath.text).Nodup := by
    rw [List.map_map]
    exact Table.ascendingKeys m.filesAscending
  exact List.Pairwise.of_map RepoPath.text (fun a b differ same => differ (congrArg _ same)) texts

theorem findUnique {m n : Module} (same : ∀ path, m.find? path = n.find? path) : m = n := by
  have files : m.files = n.files := Table.findUnique (fun key => same ⟨key⟩)
  cases m; cases n
  cases files
  rfl

end Module
end DeclOrder
