import DeclOrder.Proofs.History

/-! Two modules in one. When they share no path, each of them can be read off the union again. -/
namespace DeclOrder.Module

def has (m : Module) (path : RepoPath) : Bool := (m.find? path).isSome

/-- The files of both modules; of two files with one path that of the second module. -/
def union (m n : Module) : Module := m.after (n.fileList.map .insert)

def Apart (m n : Module) : Prop := ∀ path, m.has path = true → n.has path = true → False

theorem Apart.symm {m n : Module} (apart : Apart m n) : Apart n m := fun path left right => apart path right left

theorem hasFile {m : Module} {file : SourceFile} (member : file ∈ m.fileList) : m.has file.path = true := by
  rw [has, memFiles.mp member]
  rfl

theorem apartFiles {m n : Module} (fresh : ∀ file ∈ m.fileList, n.has file.path = false) : Apart m n := by
  intro path left right
  obtain ⟨file, found⟩ := Option.isSome_iff_exists.mp left
  have here := foundPath found
  subst here
  rw [fresh file (memFiles.mpr found)] at right
  cases right

theorem findUnion (m n : Module) (path : RepoPath) : (m.union n).find? path = (n.find? path).or (m.find? path) := by
  rw [union, findAfter]
  cases found : (n.fileList.map Change.insert).reverse.find? (·.path == path) with
  | some c =>
      obtain ⟨file, member, rfl⟩ := List.mem_map.mp (List.mem_reverse.mp (List.mem_of_find?_eq_some found))
      have here := List.find?_some found
      obtain rfl : file.path = path := beq_iff_eq.mp here
      rw [memFiles.mp member]
      rfl
  | none =>
      have absent : n.find? path = none := by
        cases there : n.find? path with
        | none => rfl
        | some file =>
            have here := foundPath there
            subst here
            have member : file ∈ n.fileList := memFiles.mpr there
            simpa [Change.path] using List.find?_eq_none.mp found (.insert file) (by simpa using member)
      rw [absent]
      rfl

theorem memUnion {m n : Module} (apart : Apart m n) {file : SourceFile} :
    file ∈ (m.union n).fileList ↔ file ∈ m.fileList ∨ file ∈ n.fileList := by
  rw [memFiles, memFiles, memFiles, findUnion]
  cases left : m.find? file.path with
  | none => simp
  | some a =>
      cases right : n.find? file.path with
      | none => simp
      | some b => exact (apart file.path (by simp [has, left]) (by simp [has, right])).elim

theorem unionLeft {m n : Module} (apart : Apart m n) : (m.union n).fileList.filter (m.has ·.path) = m.fileList := by
  refine Table.ascendingUnique ((m.union n).filesAscending.sublist List.filter_sublist) m.filesAscending (fun file => ?_)
  rw [List.mem_filter, memUnion apart]
  constructor
  · rintro ⟨left | right, inside⟩
    · exact left
    · exact (apart file.path inside (hasFile right)).elim
  · exact fun left => ⟨.inl left, hasFile left⟩

theorem unionComm {m n : Module} (apart : Apart m n) : m.union n = n.union m := by
  refine findUnique (fun path => ?_)
  rw [findUnion, findUnion]
  cases left : m.find? path with
  | none => simp
  | some a =>
      cases right : n.find? path with
      | none => simp
      | some b => exact (apart path (by simp [has, left]) (by simp [has, right])).elim

theorem unionPerm {m n : Module} (apart : Apart m n) : (m.union n).fileList.Perm (m.fileList ++ n.fileList) := by
  have distinct (k : Module) : k.fileList.Nodup :=
    List.Pairwise.of_map (·.path) (fun a b differ same => differ (congrArg _ same)) k.pathsDistinct
  have both : (m.fileList ++ n.fileList).Nodup :=
    List.nodup_append.mpr ⟨distinct m, distinct n, fun a left b right same =>
      apart a.path (hasFile left) (same ▸ hasFile right)⟩
  exact (List.perm_ext_iff_of_nodup (distinct _) both).mpr (fun file => by rw [memUnion apart, List.mem_append])

end DeclOrder.Module
