import DeclOrder.Path.Location
import DeclOrder.Proofs.Reading

/-! Names put together with slashes: they can be read off the text again, and one after the other they
are the steps that it takes. -/
namespace DeclOrder.Path

/-- A name that an entry of a directory can have. -/
structure Legal (name : String) : Prop where
  nonempty : name.toList ≠ []
  notHere : name.toList ≠ ['.']
  notUp : name.toList ≠ ['.', '.']
  slashless : '/' ∉ name.toList

instance (name : String) : Decidable (Legal name) :=
  decidable_of_iff (name.toList ≠ [] ∧ name.toList ≠ ['.'] ∧ name.toList ≠ ['.', '.'] ∧ '/' ∉ name.toList)
    ⟨fun ⟨nonempty, notHere, notUp, slashless⟩ => ⟨nonempty, notHere, notUp, slashless⟩,
      fun ⟨nonempty, notHere, notUp, slashless⟩ => ⟨nonempty, notHere, notUp, slashless⟩⟩

def joined (names : List String) : List Char := ("/".intercalate names).toList

theorem joinedSingle (name : String) : joined [name] = name.toList := by
  simp [joined]

theorem joinedCons (name next : String) (rest : List String) :
    joined (name :: next :: rest) = name.toList ++ '/' :: joined (next :: rest) := by
  simp [joined, String.toList_intercalate]

theorem segmentsNonempty (text : List Char) : segments text ≠ [] := by
  cases text with
  | nil => simp [segments]
  | cons c rest =>
      unfold segments
      split
      · simp
      · split <;> simp

theorem segmentsSlash (text rest : List Char) :
    segments (text ++ '/' :: rest) = segments text ++ segments rest := by
  induction text with
  | nil => rfl
  | cons c text ih =>
      rw [List.cons_append, segments, segments, ih]
      split
      · rfl
      · cases found : segments text with
        | nil => exact (segmentsNonempty text found).elim
        | cons first others => rfl

theorem segmentsName {text : List Char} (slashless : '/' ∉ text) : segments text = [text] := by
  induction text with
  | nil => rfl
  | cons c text ih =>
      have plain : isSlash c = false := beq_eq_false_iff_ne.mpr (fun same => slashless (same ▸ List.mem_cons_self))
      rw [segments, ih (fun member => slashless (List.mem_cons_of_mem _ member)), plain]
      rfl

theorem segmentsJoined {names : List String} (nonempty : names ≠ []) (slashless : ∀ n ∈ names, '/' ∉ n.toList) :
    segments (joined names) = names.map String.toList := by
  induction names with
  | nil => exact (nonempty rfl).elim
  | cons name rest ih =>
      have first := segmentsName (slashless name List.mem_cons_self)
      cases rest with
      | nil => rw [joinedSingle, first]; rfl
      | cons next rest =>
          have later := ih (by simp) (fun n member => slashless n (List.mem_cons_of_mem _ member))
          rw [joinedCons, segmentsSlash, first, later]
          rfl

theorem memJoined {names : List String} {c : Char} (member : c ∈ joined names) :
    c = '/' ∨ ∃ n ∈ names, c ∈ n.toList := by
  rw [joined, String.toList_intercalate] at member
  refine (Text.memIntercalate member).imp_right (fun ⟨piece, among, found⟩ => ?_)
  obtain ⟨n, inside, rfl⟩ := List.mem_map.mp among
  exact ⟨n, inside, found⟩

theorem joinedInjective {names others : List String} (left : names ≠ []) (right : others ≠ [])
    (slashless : ∀ n ∈ names, '/' ∉ n.toList) (slashless' : ∀ n ∈ others, '/' ∉ n.toList)
    (same : joined names = joined others) : names = others := by
  have segmentsSame := congrArg segments same
  rw [segmentsJoined left slashless, segmentsJoined right slashless'] at segmentsSame
  exact (List.map_inj_right (fun _ _ => String.toList_inj.mp)).mp segmentsSame

theorem memSegments {path segment : List Char} {c : Char} (member : segment ∈ segments path) (found : c ∈ segment) :
    c ∈ path := by
  induction path generalizing segment with
  | nil => simp_all [segments]
  | cons d path ih =>
      unfold segments at member
      split at member
      · rcases List.mem_cons.mp member with rfl | member
        · cases found
        · exact List.mem_cons_of_mem _ (ih member found)
      · cases first : segments path with
        | nil => exact (segmentsNonempty path first).elim
        | cons name others =>
            rw [first] at member
            rcases List.mem_cons.mp member with rfl | member
            · rcases List.mem_cons.mp found with rfl | found
              · exact List.mem_cons_self
              · exact List.mem_cons_of_mem _ (ih (first ▸ List.mem_cons_self) found)
            · exact List.mem_cons_of_mem _ (ih (first ▸ List.mem_cons_of_mem _ member) found)

theorem stepName {segment : List Char} {name : String} (step : stepOf? segment = some (.down name)) :
    name.toList = segment := by
  unfold stepOf? at step
  repeat' split at step
  all_goals cases step
  exact String.toList_ofList

theorem memSteps {path : List Char} {name : String} {c : Char} (member : .down name ∈ steps path)
    (found : c ∈ name.toList) : c ∈ path := by
  rcases List.mem_append.mp member with step | trailing
  · obtain ⟨segment, among, step⟩ := List.mem_filterMap.mp step
    exact memSegments among (stepName step ▸ found)
  · split at trailing <;> simp at trailing

theorem stepLegal {name : String} (legal : Legal name) : stepOf? name.toList = some (.down name) := by
  simp [stepOf?, legal.nonempty, legal.notHere, legal.notUp]

end DeclOrder.Path
