import DeclOrder.Disk.Basic
import DeclOrder.Proofs.Disk.Tree
import DeclOrder.Proofs.Path.Below

/-! Where paths lead: a path that is joined to a root leads on from where the root leads. -/
namespace DeclOrder.Disk
open DeclOrder.Path (Step)

def atRest (home : List String) (top : Tree ByteArray) : Disk := ⟨home, top, fun _ => 0, fun _ => by decide⟩

variable {top other : Tree ByteArray}

theorem followAppend (first second : List Step) (names : List String) :
    follow top (first ++ second) names = (follow top first names).bind (follow top second) :=
  List.foldlM_append

theorem followCons (step : Step) (steps : List Step) (names : List String) :
    follow top (step :: steps) names = (advance top names step).bind (follow top steps) := List.foldlM_cons

theorem advanceHere {names next : List String} (leads : advance top names .here = .ok next) : next = names := by
  unfold advance at leads
  split at leads <;> cases leads
  rfl

theorem advanceDown {names : List String} {name : String} {t : Tree ByteArray}
    (stands : top.find? (names ++ [name]) = some t) : advance top names (.down name) = .ok (names ++ [name]) := by
  rw [Tree.findAppend] at stands
  obtain ⟨u, here, below⟩ := Option.bind_eq_some_iff.mp stands
  obtain ⟨v, child, -⟩ := Option.bind_eq_some_iff.mp below
  cases u with
  | file content => cases child
  | directory entries =>
      have entry : entries.lookup name = some v := child
      simp [advance, here, entry]

theorem advanceAlike (alike : Tree.Alike top other) (names : List String) (step : Step) :
    advance top names step = advance other names step := by
  rcases Tree.alikeCases alike names with ⟨left, right⟩ | ⟨old, new, left, right⟩ | ⟨entries, others, left, right, same⟩
  · rw [advance, left, advance, right]
  · rw [advance, left, advance, right]
  · rw [advance, left, advance, right]
    cases step with
    | here => rfl
    | up => rfl
    | down name => simp only [same name]

theorem followHere {front steps : List Step} {names base : List String} (either : steps = front ∨ steps = front ++ [.here])
    (leads : follow top steps names = .ok base) : follow top front names = .ok base := by
  rcases either with rfl | rfl
  · exact leads
  · rw [followAppend] at leads
    cases before : follow top front names with
    | error e =>
        rw [before] at leads
        cases leads
    | ok between =>
        rw [before] at leads
        have last : advance top between .here = .ok base := by simpa [follow, Except.bind] using leads
        rw [advanceHere last]

theorem followNames {base names : List String} {t : Tree ByteArray} (stands : top.find? (base ++ names) = some t) :
    follow top (names.map .down) base = .ok (base ++ names) := by
  induction names generalizing base with
  | nil => simp [follow, pure, Except.pure]
  | cons name names ih =>
      rw [List.append_cons] at stands ⊢
      obtain ⟨u, first, -⟩ := Option.bind_eq_some_iff.mp (Tree.findAppend .. ▸ stands)
      rw [List.map_cons, followCons, advanceDown first]
      exact ih stands

theorem followAlike (alike : Tree.Alike top other) (steps : List Step) (names : List String) :
    follow top steps names = follow other steps names := by
  have each : advance top = advance other := funext (fun at' => funext (fun step => advanceAlike alike at' step))
  rw [follow, each, follow]

/-- The steps to what is joined to a root, from those to the root. A slash at the end of the root is a
step of its own only as long as nothing follows. -/
theorem stepsSeam {text path : List Char} (relative : Path.isAbsolute path = false) (nonempty : path ≠ [])
    {between : List Char} (either : between = [] ∨ between = ['/']) (meets : Path.Meets text (between ++ path)) :
    ∃ front, (Path.steps text = front ∨ Path.steps text = front ++ [.here]) ∧
      Path.steps (text ++ (between ++ path)) = front ++ Path.steps path := by
  have behind (front : List Char) :
      Path.steps (front ++ '/' :: path) = (Path.segments front).filterMap Path.stepOf? ++ Path.steps path := by
    unfold Path.steps
    rw [Path.segmentsSlash, List.filterMap_append, List.append_assoc, List.append_cons,
      List.getLast?_append_of_ne_nil _ nonempty]
  rcases either with rfl | rfl
  · rcases meets with none | slash | slash
    · subst none
      exact ⟨[], .inl rfl, rfl⟩
    · obtain ⟨front, rfl⟩ := List.getLast?_eq_some_iff.mp slash
      refine ⟨(Path.segments front).filterMap Path.stepOf?, .inr ?_, ?_⟩
      · unfold Path.steps
        rw [Path.segmentsSlash, List.filterMap_append, slash, if_pos (beq_self_eq_true _)]
        exact congrArg (· ++ [Step.here]) (List.append_nil _)
      · rw [List.append_assoc]
        exact behind front
    · exact absurd (beq_iff_eq.mpr slash) (Bool.eq_false_iff.mp relative)
  · refine ⟨(Path.segments text).filterMap Path.stepOf?, ?_, behind text⟩
    unfold Path.steps
    split
    · exact .inr rfl
    · exact .inl (List.append_nil _)

variable {d : Disk} {root : String} {path : List Char}

theorem stepsToList {text : List Char} (present : text ≠ []) :
    d.stepsTo (String.ofList text) = .ok (if Path.isAbsolute text then [] else d.home, Path.steps text) := by
  have some : (String.ofList text).isEmpty = false := by
    refine Bool.eq_false_iff.mpr (fun none => present ?_)
    rw [← String.toList_ofList (l := text), String.isEmpty_iff.mp none]
    rfl
  rw [stepsTo, some, String.toList_ofList]
  rfl

theorem stepsToJoin {from_ : List String} {steps : List Step} (relative : Path.isAbsolute path = false)
    (nonempty : path ≠ []) (found : d.stepsTo root = .ok (from_, steps)) :
    ∃ front, (steps = front ∨ steps = front ++ [.here]) ∧
      d.stepsTo (String.ofList (Path.join root.toList path)) = .ok (from_, front ++ Path.steps path) := by
  have present : root.toList ≠ [] := by
    intro none
    rw [String.toList_eq_nil_iff.mp none] at found
    cases found
  have same : Path.isAbsolute (root.toList ++ (Path.seam root.toList ++ path)) = Path.isAbsolute root.toList := by
    rw [Path.isAbsolute, List.head?_append_of_ne_nil _ present]
    rfl
  rw [← String.ofList_toList (s := root), stepsToList present] at found
  cases found
  obtain ⟨front, before, after⟩ :=
    stepsSeam relative nonempty (Path.seamEither root.toList) (Path.seamMeets root.toList path)
  exact ⟨front, before, by rw [Path.joinSeam _ relative, stepsToList (by simp [present]), same, after]⟩

theorem resolveJoin {base : List String} (relative : Path.isAbsolute path = false) (nonempty : path ≠ [])
    (start : d.resolve root = .ok base) :
    d.resolve (String.ofList (Path.join root.toList path)) = follow d.top (Path.steps path) base := by
  unfold resolve at start ⊢
  cases found : d.stepsTo root with
  | error e =>
      rw [found] at start
      cases start
  | ok taken =>
      rw [found] at start
      obtain ⟨front, either, joined⟩ := stepsToJoin relative nonempty found
      rw [joined]
      show follow d.top (front ++ Path.steps path) taken.1 = _
      rw [followAppend, followHere either start]
      rfl

theorem advanceKeeps {names next : List String} {step : Step} {keep : String → Prop} {n : Nat}
    (leads : advance top names step = .ok next) (kept : ∀ name ∈ names.drop n, keep name)
    (own : ∀ name, step = .down name → keep name) : ∀ name ∈ next.drop n, keep name := by
  unfold advance at leads
  split at leads
  · cases leads
  · cases leads
  · cases step with
    | here =>
        cases leads
        exact kept
    | up =>
        cases leads
        intro name member
        rw [List.dropLast_eq_take, List.drop_take] at member
        exact kept name (List.mem_of_mem_take member)
    | down added =>
        dsimp only at leads
        split at leads
        · cases leads
          intro name member
          rw [List.drop_append] at member
          rcases List.mem_append.mp member with old | new
          · exact kept name old
          · have same := List.mem_singleton.mp (List.mem_of_mem_drop new)
            exact own name (by rw [same])
        · cases leads

theorem followKeeps {names next : List String} {steps : List Step} {keep : String → Prop} {n : Nat}
    (leads : follow top steps names = .ok next) (kept : ∀ name ∈ names.drop n, keep name)
    (own : ∀ name, .down name ∈ steps → keep name) : ∀ name ∈ next.drop n, keep name := by
  -- The names within the first n are free to change; those behind them come from the steps.
  induction steps generalizing names with
  | nil =>
      cases leads
      exact kept
  | cons step steps ih =>
      rw [followCons] at leads
      cases moved : advance top names step with
      | error e =>
          rw [moved] at leads
          cases leads
      | ok between =>
          rw [moved] at leads
          have first : ∀ name ∈ between.drop n, keep name :=
            advanceKeeps moved kept (fun name same => own name (same ▸ List.mem_cons_self))
          exact ih leads first (fun name later => own name (List.mem_cons_of_mem _ later))

theorem joinKeeps {base next : List String} {c : Char} (nonempty : path ≠ []) (start : d.resolve root = .ok base)
    (leads : d.resolve (String.ofList (Path.join root.toList path)) = .ok next) (foreign : c ∉ path) :
    ∀ name ∈ next.drop base.length, c ∉ name.toList := by
  have own : ∀ name, .down name ∈ Path.steps path → c ∉ name.toList :=
    fun name member found => foreign (Path.memSteps member found)
  cases absolute : Path.isAbsolute path with
  | false =>
      rw [resolveJoin absolute nonempty start] at leads
      exact followKeeps leads (by simp) own
  | true =>
      rw [Path.join, if_pos absolute, resolve, stepsToList nonempty, if_pos absolute] at leads
      exact followKeeps leads (by simp) own

theorem resolveAlike (alike : Tree.Alike top d.top) (path : String) : { d with top }.resolve path = d.resolve path := by
  have steps : { d with top }.stepsTo path = d.stepsTo path := rfl
  unfold resolve
  rw [steps]
  cases d.stepsTo path with
  | error e => rfl
  | ok taken => exact followAlike alike taken.2 taken.1

theorem readPut {names : List String} {old : ByteArray} (new : ByteArray) {path : String}
    (found : d.top.find? names = some (.file old)) (elsewhere : d.resolve path ≠ .ok names) :
    { d with top := .put (.file new) names d.top }.read path = d.read path := by
  have alike := Tree.putAlike new found
  unfold read
  rw [resolveAlike alike]
  cases leads : d.resolve path with
  | error e => rfl
  | ok others =>
      have differ : others ≠ names := fun same => elsewhere (same ▸ leads)
      simp only [bind, Except.bind]
      rcases Tree.alikeCases alike others with ⟨left, right⟩ | ⟨one, other, left, right⟩ | ⟨_, _, left, right, -⟩
      · rw [left, right]
      · rw [left, right]
        have same := (Tree.fileElsewhere new found differ).mp left
        rw [right] at same
        cases same
        rfl
      · rw [left, right]

end DeclOrder.Disk
