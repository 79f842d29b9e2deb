import DeclOrder.Disk.Tree
import DeclOrder.Proofs.Path.Joined
import DeclOrder.Table

/-! Trees by their look-ups: what a listing of files holds, what a change of one file leaves as it is,
and trees that differ only in what their files hold. -/
namespace DeclOrder.Tree
variable {α β : Type}

/-- Every directory has distinct names, and names that an entry can have. -/
def Sound (t : Tree α) : Prop :=
  ∀ names entries, t.find? names = some (.directory entries) →
    (entries.map Prod.fst).Nodup ∧ ∀ n ∈ entries.map Prod.fst, Path.Legal n

/-- Trees with the same entries. What the files hold may differ. -/
def Alike (t u : Tree α) : Prop := t.map (fun _ => ()) = u.map (fun _ => ())

theorem findAppend (t : Tree α) (names more : List String) :
    t.find? (names ++ more) = (t.find? names).bind (find? more) := by
  induction names generalizing t with
  | nil => rfl
  | cons name names ih =>
      simp only [List.cons_append, find?]
      cases t.child? name with
      | none => rfl
      | some u => exact ih u

theorem Sound.below {t u : Tree α} (sound : t.Sound) {names : List String} (found : t.find? names = some u) :
    u.Sound := by
  intro more entries inside
  exact sound (names ++ more) entries (by rw [findAppend, found]; exact inside)

theorem Sound.child {t u : Tree α} (sound : t.Sound) {name : String} (found : t.child? name = some u) : u.Sound := by
  have single : t.find? [name] = some u := by
    rw [find?, found]
    rfl
  exact sound.below single

theorem soundFile (content : α) : (Tree.file content).Sound := by
  intro names entries found
  cases names <;> cases found

theorem soundDirectory {entries : List (String × Tree α)} (distinct : (entries.map Prod.fst).Nodup)
    (legal : ∀ n ∈ entries.map Prod.fst, Path.Legal n) (each : ∀ e ∈ entries, e.2.Sound) :
    (Tree.directory entries).Sound := by
  intro names others found
  cases names with
  | nil =>
      cases found
      exact ⟨distinct, legal⟩
  | cons name rest =>
      obtain ⟨child, here, inside⟩ := Option.bind_eq_some_iff.mp found
      exact each _ ((Table.lookupMem distinct).mp here) rest others inside

theorem legalNames {t u : Tree α} (sound : t.Sound) {names : List String} (found : t.find? names = some u) :
    ∀ n ∈ names, Path.Legal n := by
  induction names generalizing t with
  | nil => simp
  | cons name names ih =>
      cases t with
      | file content => cases found
      | directory entries =>
          obtain ⟨child, here, inside⟩ := Option.bind_eq_some_iff.mp found
          have entry := (Table.lookupMem (sound [] entries rfl).1).mp here
          intro n member
          rcases List.mem_cons.mp member with rfl | later
          · exact (sound [] entries rfl).2 _ (List.mem_map.mpr ⟨_, entry, rfl⟩)
          · exact ih (sound.child here) inside n later

section Files
variable {keep : String → Bool}

theorem memFilesOf {entries : List (String × Tree α)} {names : List String} {content : α} :
    (names, content) ∈ filesOf keep entries ↔
      ∃ name rest t, names = name :: rest ∧ (name, t) ∈ entries ∧ keep name = true ∧ (rest, content) ∈ files keep t := by
  induction entries with
  | nil => simp [filesOf]
  | cons e entries ih =>
      obtain ⟨first, u⟩ := e
      rw [filesOf, List.mem_append, ih]
      constructor
      · rintro (member | ⟨name, rest, t, same, among, kept, inside⟩)
        · split at member
          · rename_i kept
            obtain ⟨⟨rest, _⟩, inside, same⟩ := List.mem_map.mp member
            cases same
            exact ⟨first, rest, u, rfl, List.mem_cons_self, kept, inside⟩
          · cases member
        · exact ⟨name, rest, t, same, List.mem_cons_of_mem _ among, kept, inside⟩
      · rintro ⟨name, rest, t, same, among, kept, inside⟩
        rcases List.mem_cons.mp among with here | later
        · cases here
          rw [if_pos kept, same]
          exact .inl (List.mem_map.mpr ⟨(rest, content), inside, rfl⟩)
        · exact .inr ⟨name, rest, t, same, later, kept, inside⟩

theorem memFiles {t : Tree α} (sound : t.Sound) {names : List String} {content : α} :
    (names, content) ∈ t.files keep ↔ t.find? names = some (.file content) ∧ ∀ n ∈ names, keep n = true := by
  induction names generalizing t with
  | nil =>
      cases t with
      | file held =>
          simp only [files, find?, List.mem_singleton, Prod.mk.injEq, true_and, Option.some.injEq, Tree.file.injEq]
          exact ⟨fun same => ⟨same.symm, List.forall_mem_nil _⟩, fun both => both.1.symm⟩
      | directory entries => simp [files, find?, memFilesOf]
  | cons name names ih =>
      cases t with
      | file held => simp [files, find?, child?, Tree.entries]
      | directory entries =>
          have entry {u : Tree α} : (name, u) ∈ entries ↔ child? (.directory entries) name = some u :=
            (Table.lookupMem (sound [] entries rfl).1).symm
          rw [files, memFilesOf, find?, Option.bind_eq_some_iff, List.forall_mem_cons]
          constructor
          · rintro ⟨_, _, u, same, among, kept, inside⟩
            cases same
            have child := entry.mp among
            obtain ⟨found, all⟩ := (ih (sound.child child)).mp inside
            exact ⟨⟨u, child, found⟩, kept, all⟩
          · rintro ⟨⟨u, child, found⟩, kept, all⟩
            exact ⟨name, names, u, rfl, entry.mpr child, kept, (ih (sound.child child)).mpr ⟨found, all⟩⟩

end Files

section Contents
variable (f : α → β)

theorem childMap (t : Tree α) (name : String) : (t.map f).child? name = (t.child? name).map (map f) := by
  cases t with
  | file content => rfl
  | directory entries =>
      show (mapEntries f entries).lookup name = (entries.lookup name).map (map f)
      induction entries with
      | nil => rfl
      | cons e entries ih =>
          obtain ⟨other, t⟩ := e
          rw [mapEntries, Table.lookupCons, Table.lookupCons]
          split
          · rfl
          · exact ih

theorem findMap (t : Tree α) (names : List String) : (t.map f).find? names = (t.find? names).map (map f) := by
  induction names generalizing t with
  | nil => rfl
  | cons name names ih =>
      simp only [find?, childMap]
      cases t.child? name with
      | none => rfl
      | some u => exact ih u

theorem namesMap (entries : List (String × Tree α)) : (mapEntries f entries).map Prod.fst = entries.map Prod.fst := by
  induction entries with
  | nil => rfl
  | cons e entries ih => exact congrArg (e.1 :: ·) ih

theorem soundMap {t : Tree α} : (t.map f).Sound ↔ t.Sound := by
  constructor
  · intro sound names entries found
    have mapped := sound names (mapEntries f entries) (by rw [findMap, found]; rfl)
    rwa [namesMap] at mapped
  · intro sound names mapped found
    rw [findMap] at found
    obtain ⟨u, stands, same⟩ := Option.map_eq_some_iff.mp found
    cases u with
    | file content => cases same
    | directory entries =>
        cases same
        rw [namesMap]
        exact sound names entries stands

end Contents

section Alike
variable {t u : Tree α} (alike : Alike t u)
include alike

theorem alikeFind (names : List String) :
    (t.find? names).map (map (fun _ => ())) = (u.find? names).map (map (fun _ => ())) := by
  rw [← findMap, ← findMap, alike]

theorem alikeCases (names : List String) :
    (t.find? names = none ∧ u.find? names = none) ∨
      (∃ old new, t.find? names = some (.file old) ∧ u.find? names = some (.file new)) ∨
      ∃ entries others, t.find? names = some (.directory entries) ∧ u.find? names = some (.directory others) ∧
        ∀ name, (entries.lookup name).isSome = (others.lookup name).isSome := by
  have same := alikeFind alike names
  cases left : t.find? names with
  | none =>
      rw [left] at same
      exact .inl ⟨rfl, Option.map_eq_none_iff.mp same.symm⟩
  | some v =>
      rw [left] at same
      obtain ⟨w, right, same⟩ := Option.map_eq_some_iff.mp same.symm
      rw [right]
      cases v with
      | file old =>
          cases w with
          | file new => exact .inr (.inl ⟨old, new, rfl, rfl⟩)
          | directory others => cases same
      | directory entries =>
          cases w with
          | file new => cases same
          | directory others =>
              refine .inr (.inr ⟨entries, others, rfl, rfl, fun name => ?_⟩)
              have child := congrArg (fun t => (t.child? name).isSome) same
              simp only [childMap, Option.isSome_map] at child
              exact child.symm

theorem Alike.sound (sound : u.Sound) : t.Sound := by
  rw [← soundMap (fun _ => ()), alike, soundMap]
  exact sound

end Alike

theorem lookupAlter {name : String} {change : Option (Tree α) → Tree α} {entries : List (String × Tree α)} {k : String} :
    (alter name change entries).lookup k = if k = name then some (change (entries.lookup name)) else entries.lookup k := by
  induction entries with
  | nil => exact Table.lookupCons name (change none) [] k
  | cons e rest ih =>
      obtain ⟨n, t⟩ := e
      rw [alter]
      split
      · rename_i same
        subst same
        rw [Table.lookupCons, Table.lookupCons, Table.lookupCons, if_pos rfl]
        split <;> rfl
      · rename_i differ
        rw [Table.lookupCons, Table.lookupCons, Table.lookupCons, ih, if_neg (Ne.symm differ)]
        by_cases here : k = n
        · rw [if_pos here, if_pos here, if_neg (here ▸ differ)]
        · rw [if_neg here, if_neg here]

theorem mapAlter (f : α → β) {name : String} {change : Option (Tree α) → Tree α} {entries : List (String × Tree α)}
    {u : Tree α} (found : entries.lookup name = some u) (same : (change (some u)).map f = u.map f) :
    mapEntries f (alter name change entries) = mapEntries f entries := by
  induction entries with
  | nil => cases found
  | cons e rest ih =>
      obtain ⟨n, t⟩ := e
      rw [Table.lookupCons] at found
      rw [alter]
      split
      · rename_i here
        rw [if_pos here.symm] at found
        cases found
        rw [mapEntries, mapEntries, same]
      · rename_i differ
        rw [if_neg (Ne.symm differ)] at found
        rw [mapEntries, mapEntries, ih found]

theorem putAlike {t : Tree α} {names : List String} {old : α} (new : α) (found : t.find? names = some (.file old)) :
    Alike (put (.file new) names t) t := by
  induction names generalizing t with
  | nil =>
      cases found
      rfl
  | cons name names ih =>
      obtain ⟨u, child, inside⟩ := Option.bind_eq_some_iff.mp found
      cases t with
      | file content => cases child
      | directory entries => exact congrArg Tree.directory (mapAlter _ child (ih inside))

theorem findPut (leaf : Tree α) (names : List String) (t : Tree α) : (put leaf names t).find? names = some leaf := by
  induction names generalizing t with
  | nil => rfl
  | cons name names ih =>
      show ((alter name _ t.entries).lookup name).bind (find? names) = some leaf
      rw [lookupAlter, if_pos rfl]
      exact ih _

theorem fileElsewhere {t : Tree α} {names others : List String} {old held : α} (new : α)
    (found : t.find? names = some (.file old)) (differ : others ≠ names) :
    (put (.file new) names t).find? others = some (.file held) ↔ t.find? others = some (.file held) := by
  induction names generalizing t others with
  | nil =>
      cases found
      cases others with
      | nil => exact (differ rfl).elim
      | cons k others => exact Iff.rfl
  | cons name names ih =>
      obtain ⟨u, child, inside⟩ := Option.bind_eq_some_iff.mp found
      cases t with
      | file content => cases child
      | directory entries =>
          cases others with
          | nil => simp [put, find?]
          | cons k others =>
              show ((alter name _ entries).lookup k).bind (find? others) = _ ↔ (entries.lookup k).bind (find? others) = _
              rw [lookupAlter]
              split
              · rename_i here
                subst here
                have lookup : entries.lookup k = some u := child
                rw [lookup]
                exact ih inside (fun same => differ (congrArg (k :: ·) same))
              · exact Iff.rfl

end DeclOrder.Tree
