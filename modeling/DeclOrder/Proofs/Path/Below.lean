import DeclOrder.Proofs.Path.Joined
import DeclOrder.Proofs.Path.Walk

/-! The paths of what stands below a root: as a walk from the root meets it, and as it is seen from there. -/
namespace DeclOrder.Path

def below (root : String) (names : List String) : String :=
  names.foldl (fun place name => String.ofList (join place.toList name.toList)) root

theorem nameEdge {text : List Char} (nonempty : text ≠ []) (notHere : text ≠ ['.']) (slashless : '/' ∉ text) :
    ∃ c rest, text = c :: rest ∧ c ≠ '/' ∧ ∀ tail, c = '.' → isSegmentStart (rest ++ tail) = false := by
  cases text with
  | nil => exact (nonempty rfl).elim
  | cons c rest =>
      refine ⟨c, rest, rfl, fun same => slashless (same ▸ List.mem_cons_self), fun tail dot => ?_⟩
      cases rest with
      | nil => exact (notHere (by rw [dot])).elim
      | cons d rest =>
          have plain : d ≠ '/' := fun same => slashless (same ▸ List.mem_cons_of_mem _ List.mem_cons_self)
          unfold isSegmentStart
          split <;> simp_all

theorem dropEmptyName {name : String} (legal : Legal name) (tail : List Char) :
    dropEmptySegments (name.toList ++ tail) = name.toList ++ tail := by
  obtain ⟨c, rest, same, plain, edge⟩ := nameEdge legal.nonempty legal.notHere legal.slashless
  rw [same, List.cons_append]
  exact dropEmptyKept plain (edge tail)

theorem dropEmptyEndKept {c : Char} {rest : List Char} (plain : c ≠ '/') (notHere : c = '.' → isSegmentStart rest = false)
    (n : Nat) : dropEmptyEnd.go n (c :: rest) = c :: rest := by
  cases n with
  | zero => rfl
  | succ n =>
      unfold dropEmptyEnd.go
      split
      · simp_all
      · simp_all [isSegmentStart]
      · simp_all [isSegmentStart]
      · rfl

theorem dropEmptyEndName {name : String} (legal : Legal name) (front : List Char) :
    dropEmptyEnd (front ++ name.toList) = front ++ name.toList := by
  have nonempty : name.toList.reverse ≠ [] := fun none => legal.nonempty (List.reverse_eq_nil_iff.mp none)
  have notHere : name.toList.reverse ≠ ['.'] := fun here => legal.notHere (List.reverse_eq_iff.mp here)
  obtain ⟨c, rest, same, plain, edge⟩ :=
    nameEdge nonempty notHere (fun slash => legal.slashless (List.mem_reverse.mp slash))
  have whole : (front ++ name.toList).reverse = c :: (rest ++ front.reverse) := by
    rw [List.reverse_append, same, List.cons_append]
  unfold dropEmptyEnd
  rw [whole, dropEmptyEndKept plain (edge _), ← whole, List.reverse_reverse]

theorem joinedFirst (name : String) (rest : List String) : ∃ tail, joined (name :: rest) = name.toList ++ tail := by
  cases rest with
  | nil => exact ⟨[], by simp [joinedSingle]⟩
  | cons next rest => exact ⟨_, joinedCons name next rest⟩

theorem joinedLast {names : List String} (nonempty : names ≠ []) :
    ∃ front, joined names = front ++ (names.getLast nonempty).toList := by
  induction names with
  | nil => exact (nonempty rfl).elim
  | cons name rest ih =>
      cases rest with
      | nil => exact ⟨[], by simp [joinedSingle]⟩
      | cons next rest =>
          obtain ⟨front, same⟩ := ih (List.cons_ne_nil next rest)
          refine ⟨name.toList ++ '/' :: front, ?_⟩
          rw [joinedCons, same, List.getLast_cons (List.cons_ne_nil next rest), List.append_assoc, List.cons_append]

section Names
variable {names : List String} (nonempty : names ≠ []) (legal : ∀ n ∈ names, Legal n)
include nonempty legal

theorem dropEmptyJoined : dropEmptySegments (joined names) = joined names := by
  cases names with
  | nil => exact (nonempty rfl).elim
  | cons name rest =>
      obtain ⟨tail, same⟩ := joinedFirst name rest
      rw [same, dropEmptyName (legal name List.mem_cons_self)]

theorem dropEmptyEndJoined : dropEmptyEnd (joined names) = joined names := by
  obtain ⟨front, same⟩ := joinedLast nonempty
  rw [same, dropEmptyEndName (legal _ (List.getLast_mem nonempty))]

theorem joinedNonempty : joined names ≠ [] := by
  obtain ⟨front, same⟩ := joinedLast nonempty
  intro none
  exact (legal _ (List.getLast_mem nonempty)).nonempty (List.append_eq_nil_iff.mp (same.symm.trans none)).2

theorem joinedRelative : isAbsolute (joined names) = false := by
  cases names with
  | nil => exact (nonempty rfl).elim
  | cons name rest =>
      obtain ⟨tail, same⟩ := joinedFirst name rest
      have first := legal name List.mem_cons_self
      obtain ⟨c, others, chars, plain, -⟩ := nameEdge first.nonempty first.notHere first.slashless
      rw [same, chars]
      simpa [isAbsolute] using plain

theorem joinedEnd : (joined names).getLast? ≠ some '/' := by
  obtain ⟨front, same⟩ := joinedLast nonempty
  have last := legal _ (List.getLast_mem nonempty)
  rw [same, List.getLast?_append_of_ne_nil _ last.nonempty]
  exact fun slash => last.slashless (List.mem_of_getLast? slash)

theorem stepsJoined : steps (joined names) = names.map .down := by
  unfold steps
  rw [segmentsJoined nonempty (fun n member => (legal n member).slashless),
    if_neg (by simpa using joinedEnd nonempty legal), List.append_nil, List.filterMap_map]
  calc names.filterMap (stepOf? ∘ String.toList)
      _ = names.filterMap (some ∘ Step.down) := List.filterMap_congr (fun n member => stepLegal (legal n member))
      _ = names.map .down := congrFun List.filterMap_eq_map names

end Names

def seam (root : List Char) : List Char := if root.isEmpty || root.getLast? == some '/' then [] else ['/']

theorem seamEither (root : List Char) : seam root = [] ∨ seam root = ['/'] := by
  unfold seam
  split
  · exact .inl rfl
  · exact .inr rfl

theorem joinSeam (root : List Char) {path : List Char} (relative : isAbsolute path = false) :
    join root path = root ++ (seam root ++ path) := by
  unfold join seam
  rw [if_neg (by simp [relative])]
  split <;> rfl

theorem seamMeets (root path : List Char) : Meets root (seam root ++ path) := by
  unfold seam
  split
  · rename_i ends
    rcases Bool.or_eq_true_iff.mp ends with none | slash
    · exact .inl (List.isEmpty_iff.mp none)
    · exact .inr (.inl (beq_iff_eq.mp slash))
  · exact .inr (.inr rfl)

theorem seamName {name : String} (legal : Legal name) (front : List Char) : seam (front ++ name.toList) = ['/'] := by
  have last : (front ++ name.toList).getLast? ≠ some '/' := by
    rw [List.getLast?_append_of_ne_nil _ legal.nonempty]
    exact fun slash => legal.slashless (List.mem_of_getLast? slash)
  unfold seam
  refine if_neg (fun ends => ?_)
  rcases Bool.or_eq_true_iff.mp ends with none | slash
  · exact legal.nonempty (List.append_eq_nil_iff.mp (List.isEmpty_iff.mp none)).2
  · exact last (beq_iff_eq.mp slash)

theorem dropEmptySeam (root path : List Char) : dropEmptySegments (seam root ++ path) = dropEmptySegments path := by
  unfold seam
  split <;> rfl

theorem belowJoined (root : String) {names : List String} (nonempty : names ≠ []) (legal : ∀ n ∈ names, Legal n) :
    (below root names).toList = join root.toList (joined names) := by
  induction names generalizing root with
  | nil => exact (nonempty rfl).elim
  | cons name rest ih =>
      have first := legal name List.mem_cons_self
      cases rest with
      | nil => simp [below, joinedSingle]
      | cons next rest =>
          have more := List.cons_ne_nil next rest
          have later : ∀ n ∈ next :: rest, Legal n := fun n member => legal n (List.mem_cons_of_mem _ member)
          have path := joinedRelative more later
          have whole := joinedRelative nonempty legal
          have short : join root.toList name.toList = root.toList ++ seam root.toList ++ name.toList := by
            have relative := joinedRelative (List.cons_ne_nil name []) (by simpa using first)
            rw [joinSeam _ (joinedSingle name ▸ relative), List.append_assoc]
          calc (below (String.ofList (join root.toList name.toList)) (next :: rest)).toList
              _ = join (join root.toList name.toList) (joined (next :: rest)) := by rw [ih _ more later, String.toList_ofList]
              _ = root.toList ++ seam root.toList ++ name.toList ++ ('/' :: joined (next :: rest)) := by
                rw [short, joinSeam _ path, seamName first]; rfl
              _ = join root.toList (joined (name :: next :: rest)) := by
                rw [joinSeam _ whole, joinedCons, List.append_assoc, List.append_assoc]

theorem relativeBelow {root : String} (present : root ≠ "") {names : List String} (nonempty : names ≠ [])
    (legal : ∀ n ∈ names, Legal n) : RepoPath.relativeTo root (below root names) = .ofString ("/".intercalate names) := by
  have inside : relative root.toList (below root names).toList = joined names := by
    rw [belowJoined root nonempty legal, joinSeam _ (joinedRelative nonempty legal),
      relativeAppend (fun none => present (String.toList_eq_nil_iff.mp none)) (seamMeets ..), dropEmptySeam,
      dropEmptyJoined nonempty legal, dropEmptyEndJoined nonempty legal]
  rw [RepoPath.relativeTo, inside, joined, String.ofList_toList]

theorem dropHerePlain {text : List Char} (visible : text.head? ≠ some '.') : dropHere text = text := by
  unfold dropHere
  split
  · simp at visible
  · rfl

theorem slashedPlain {text : List Char} (plain : '\\' ∉ text) : slashed text = text := by
  refine (List.map_congr_left fun c member => if_neg ?_).trans (List.map_id _)
  rintro rfl
  exact plain member

theorem ofNames {names : List String} (nonempty : names ≠ []) (legal : ∀ n ∈ names, Legal n)
    (visible : ∀ n ∈ names, n.toList.head? ≠ some '.') (plain : ∀ n ∈ names, '\\' ∉ n.toList) :
    RepoPath.ofString ("/".intercalate names) = ⟨"/".intercalate names⟩ := by
  have slashes : slashed (joined names) = joined names := by
    refine slashedPlain fun member => ?_
    rcases memJoined member with slash | ⟨n, among, found⟩
    · exact absurd slash (by decide)
    · exact plain n among found
  have here : dropHere (joined names) = joined names := by
    refine dropHerePlain ?_
    cases names with
    | nil => exact (nonempty rfl).elim
    | cons name rest =>
        obtain ⟨tail, same⟩ := joinedFirst name rest
        rw [same, List.head?_append_of_ne_nil _ (legal name List.mem_cons_self).nonempty]
        exact visible name List.mem_cons_self
  have path : normalize (joined names) = joined names := by
    unfold normalize
    rw [slashes, here]
    split
    · rename_i none
      exact (joinedNonempty nonempty legal none).elim
    · rfl
  rw [RepoPath.ofString, ← joined, path, joined, String.ofList_toList]

theorem dropHereSuffix (text : List Char) : dropHere text <:+ text := by
  fun_induction dropHere text with
  | case1 rest ih => exact ih.trans ((List.suffix_cons ..).trans (List.suffix_cons ..))
  | case2 text => exact List.suffix_rfl

theorem normalizeNonempty (text : List Char) : normalize text ≠ [] := by
  unfold normalize
  split
  · simp
  · assumption

theorem normalizePlain (text : List Char) : '\\' ∉ normalize text := by
  have slashes : '\\' ∉ slashed text := by
    intro member
    obtain ⟨c, -, same⟩ := List.mem_map.mp member
    split at same
    · cases same
    · contradiction
  unfold normalize
  split
  · decide
  · exact fun member => slashes ((dropHereSuffix _).mem member)

end DeclOrder.Path
