import DeclOrder.Proofs.Disk.Following
import DeclOrder.Proofs.Reading

/-! What stands at a place of a tree: a file or a directory, whatever is below it. Steps see no more of
a tree than that, and a file or an empty directory that is put somewhere changes its own place only. -/
namespace DeclOrder.Tree
variable {α : Type}

inductive Kind (α : Type) where
  | file (content : α)
  | directory
  deriving DecidableEq, Repr

def kind : Tree α → Kind α
  | .file content => .file content
  | .directory _ => .directory

def look (t : Tree α) (names : List String) : Option (Kind α) := (t.find? names).map kind

theorem lookCons (t : Tree α) (name : String) (names : List String) :
    t.look (name :: names) = (t.child? name).bind (look · names) := by
  rw [look, find?, Option.map_bind]
  rfl

theorem kindDirectory {t : Tree α} (directory : t.kind = .directory) : ∃ entries, t = .directory entries := by
  cases t with
  | file content => cases directory
  | directory entries => exact ⟨entries, rfl⟩

theorem findFile {t : Tree α} {names : List String} {content : α} :
    t.find? names = some (.file content) ↔ t.look names = some (.file content) := by
  rw [look]
  cases t.find? names with
  | none => exact ⟨nofun, nofun⟩
  | some u => cases u <;> simp [kind]

theorem findDirectory {t : Tree α} {names : List String} :
    (∃ entries, t.find? names = some (.directory entries)) ↔ t.look names = some .directory := by
  rw [look]
  cases t.find? names with
  | none => exact ⟨nofun, nofun⟩
  | some u => cases u <;> simp [kind]

theorem lookBelow {t : Tree α} {names : List String} {entries : List (String × Tree α)}
    (found : t.find? names = some (.directory entries)) (name : String) :
    t.look (names ++ [name]) = (entries.lookup name).map kind := by
  rw [look, findAppend, found]
  show ((entries.lookup name).bind (find? [])).map kind = _
  cases entries.lookup name <;> rfl

theorem lookParent {t : Tree α} {names : List String} {name : String} (present : (t.look (names ++ [name])).isSome) :
    t.look names = some .directory := by
  rw [look, findAppend] at present
  rw [look]
  cases found : t.find? names with
  | none =>
      rw [found] at present
      cases present
  | some u =>
      cases u with
      | file content =>
          rw [found] at present
          cases present
      | directory entries => rfl

theorem lookDropLast {t : Tree α} {names : List String} (directory : t.look names = some .directory) :
    t.look names.dropLast = some .directory := by
  rcases List.eq_nil_or_concat names with rfl | ⟨front, last, rfl⟩
  · exact directory
  · rw [List.concat_eq_append, List.dropLast_concat]
    rw [List.concat_eq_append] at directory
    exact lookParent (by rw [directory]; rfl)

theorem lookLeaf {leaf : Tree α} (leafless : leaf.entries = []) (name : String) (names : List String) :
    leaf.look (name :: names) = none := by
  rw [lookCons, child?, leafless]
  rfl

theorem lookLeafPut {leaf : Tree α} (leafless : leaf.entries = []) {entries : List (String × Tree α)} {name : String}
    (free : (directory entries).look [name] ≠ some .directory) (others : List String) :
    (put leaf [name] (directory entries)).look others =
      if others = [name] then some leaf.kind else (directory entries).look others := by
  cases others with
  | nil => rfl
  | cons k more =>
      rw [lookCons, lookCons]
      show ((alter name (fun _ => leaf) entries).lookup k).bind _ = if _ then _ else (entries.lookup k).bind _
      rw [lookupAlter]
      by_cases here : k = name
      · subst here
        rw [if_pos rfl]
        cases more with
        | nil =>
            rw [if_pos rfl]
            rfl
        | cons m more =>
            rw [if_neg (by simp)]
            show leaf.look (m :: more) = _
            rw [lookLeaf leafless]
            rw [lookCons] at free
            cases child : entries.lookup k with
            | none => rfl
            | some u =>
                cases u with
                | file content => rfl
                | directory below => exact (free (by rw [child?, Tree.entries, child]; rfl)).elim
      · rw [if_neg here, if_neg (by simp [here])]

theorem lookPut {leaf : Tree α} (leafless : leaf.entries = []) {names : List String} {name : String} {t : Tree α}
    (parent : t.look names = some .directory) (free : t.look (names ++ [name]) ≠ some .directory) (others : List String) :
    (put leaf (names ++ [name]) t).look others = if others = names ++ [name] then some leaf.kind else t.look others := by
  induction names generalizing t others with
  | nil =>
      obtain ⟨entries, rfl⟩ := kindDirectory (Option.some.inj parent)
      exact lookLeafPut leafless free others
  | cons n names ih =>
      rw [lookCons] at parent
      obtain ⟨u, child, inside⟩ := Option.bind_eq_some_iff.mp parent
      cases t with
      | file content => cases child
      | directory entries =>
          rw [List.cons_append, lookCons, child] at free
          cases others with
          | nil => rfl
          | cons k more =>
              rw [List.cons_append, lookCons, lookCons]
              show ((alter n _ entries).lookup k).bind _ = if _ then _ else (entries.lookup k).bind _
              rw [lookupAlter]
              by_cases here : k = n
              · subst here
                have entry : entries.lookup k = some u := child
                rw [if_pos rfl, entry]
                show (put leaf (names ++ [name]) u).look more = if _ then _ else u.look more
                rw [ih inside free]
                simp only [List.cons.injEq, true_and]
              · rw [if_neg here, if_neg (by simp [here])]

/-! Growth. -/

/-- What stood somewhere still stands there: directories as directories, files as files. -/
structure Grown (t u : Tree α) : Prop where
  directories : ∀ names, t.look names = some .directory → u.look names = some .directory
  files : ∀ names content, t.look names = some (.file content) → ∃ held, u.look names = some (.file held)

theorem Grown.refl (t : Tree α) : Grown t t := ⟨fun _ => id, fun _ content held => ⟨content, held⟩⟩

theorem Grown.trans {t u v : Tree α} (first : Grown t u) (second : Grown u v) : Grown t v where
  directories names directory := second.directories names (first.directories names directory)
  files names content held := by
    obtain ⟨other, held⟩ := first.files names content held
    exact second.files names other held

theorem Grown.present {t u : Tree α} (grown : Grown t u) {names : List String} (present : (t.look names).isSome) :
    (u.look names).isSome := by
  obtain ⟨kind, here⟩ := Option.isSome_iff_exists.mp present
  cases kind with
  | file content =>
      obtain ⟨held, there⟩ := grown.files names content here
      exact Option.isSome_iff_exists.mpr ⟨_, there⟩
  | directory => exact Option.isSome_iff_exists.mpr ⟨_, grown.directories names here⟩

def SameFiles (t u : Tree α) : Prop := ∀ names content, u.look names = some (.file content) ↔ t.look names = some (.file content)

theorem SameFiles.refl (t : Tree α) : SameFiles t t := fun _ _ => Iff.rfl

theorem SameFiles.trans {t u v : Tree α} (first : SameFiles t u) (second : SameFiles u v) : SameFiles t v :=
  fun names content => (second names content).trans (first names content)

section Put
variable {t : Tree α} {names : List String} {name : String}

theorem fileGrown (content : α) (parent : t.look names = some .directory)
    (free : t.look (names ++ [name]) ≠ some .directory) : Grown t (put (.file content) (names ++ [name]) t) := by
  constructor
  · intro others directory
    have elsewhere : others ≠ names ++ [name] := fun here => free (here ▸ directory)
    rw [lookPut rfl parent free, if_neg elsewhere, directory]
  · intro others old held
    rw [lookPut rfl parent free]
    split
    · exact ⟨content, rfl⟩
    · exact ⟨old, held⟩

variable (parent : t.look names = some .directory) (absent : t.look (names ++ [name]) = none)
include parent absent

theorem lookDirectory (others : List String) : (put (.directory []) (names ++ [name]) t).look others =
    if others = names ++ [name] then some .directory else t.look others :=
  lookPut rfl parent (by rw [absent]; exact nofun) others

theorem directoryGrown : Grown t (put (.directory []) (names ++ [name]) t) := by
  constructor
  · intro others directory
    rw [lookDirectory parent absent]
    split
    · rfl
    · exact directory
  · intro others content held
    have elsewhere : others ≠ names ++ [name] := by
      rintro rfl
      rw [absent] at held
      cases held
    rw [lookDirectory parent absent, if_neg elsewhere]
    exact ⟨content, held⟩

theorem directorySame : SameFiles t (put (.directory []) (names ++ [name]) t) := by
  intro others content
  rw [lookDirectory parent absent]
  split
  · rename_i same
    rw [same, absent]
    exact ⟨nofun, nofun⟩
  · exact Iff.rfl

end Put
end DeclOrder.Tree

namespace DeclOrder.Disk
open DeclOrder.Path (Step)
open DeclOrder.Tree (Grown)

variable {top other : Tree ByteArray}

/-! Steps. -/

def lead (names : List String) : Step → List String
  | .here => names
  | .up => names.dropLast
  | .down name => names ++ [name]

theorem advanceOk {names next : List String} {step : Step} : advance top names step = .ok next ↔
    next = lead names step ∧ top.look names = some .directory ∧ (top.look next).isSome := by
  unfold advance
  cases found : top.find? names with
  | none =>
      have absent : top.look names = none := by rw [Tree.look, found]; rfl
      rw [absent]
      exact ⟨nofun, fun leads => nomatch leads.2.1⟩
  | some u =>
      cases u with
      | file content =>
          have held : top.look names = some (.file content) := by rw [Tree.look, found]; rfl
          rw [held]
          exact ⟨nofun, fun leads => nomatch leads.2.1⟩
      | directory entries =>
          have directory : top.look names = some .directory := by rw [Tree.look, found]; rfl
          rw [directory]
          cases step with
          | here =>
              refine ⟨fun leads => ?_, fun leads => congrArg Except.ok leads.1.symm⟩
              obtain rfl := Except.ok.inj leads
              exact ⟨rfl, rfl, by rw [directory]; rfl⟩
          | up =>
              refine ⟨fun leads => ?_, fun leads => congrArg Except.ok leads.1.symm⟩
              obtain rfl := Except.ok.inj leads
              exact ⟨rfl, rfl, by rw [Tree.lookDropLast directory]; rfl⟩
          | down name =>
              have there : (entries.lookup name).isSome = (top.look (names ++ [name])).isSome := by
                rw [Tree.lookBelow found, Option.isSome_map]
              show (if (entries.lookup name).isSome then _ else _) = _ ↔ _
              rw [there]
              constructor
              · intro leads
                split at leads
                · rename_i present
                  obtain rfl := Except.ok.inj leads
                  exact ⟨rfl, rfl, present⟩
                · cases leads
              · rintro ⟨rfl, -, present⟩
                exact if_pos present

theorem advanceGrown (grown : Grown top other) {names next : List String} {step : Step}
    (leads : advance top names step = .ok next) : advance other names step = .ok next := by
  rw [advanceOk] at leads ⊢
  obtain ⟨where_, directory, present⟩ := leads
  exact ⟨where_, grown.directories names directory, grown.present present⟩

theorem followConsOk {step : Step} {steps : List Step} {names next : List String} :
    follow top (step :: steps) names = .ok next ↔
      ∃ between, advance top names step = .ok between ∧ follow top steps between = .ok next := by
  rw [followCons]
  exact bindOk

theorem followGrown (grown : Grown top other) {steps : List Step} {names next : List String}
    (leads : follow top steps names = .ok next) : follow other steps names = .ok next := by
  induction steps generalizing names with
  | nil => exact leads
  | cons step steps ih =>
      obtain ⟨between, first, rest⟩ := followConsOk.mp leads
      exact followConsOk.mpr ⟨between, advanceGrown grown first, ih rest⟩

theorem followLead {steps : List Step} {names next : List String} (leads : follow top steps names = .ok next) :
    next = steps.foldl lead names := by
  induction steps generalizing names with
  | nil => exact (Except.ok.inj leads).symm
  | cons step steps ih =>
      obtain ⟨between, first, rest⟩ := followConsOk.mp leads
      rw [ih rest, (advanceOk.mp first).1, List.foldl_cons]

end DeclOrder.Disk
