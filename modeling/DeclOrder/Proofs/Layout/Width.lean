import DeclOrder.Layout.Canonical

/-! Which texts have a canonical layout: those whose keys are no longer than a text can be padded. Theirs
is the layout that they would have if there were no limit on padding. -/
namespace DeclOrder.Layout

/-! The layout without the limit. -/

def padded (width : Nat) (text : List Char) : List Char := text ++ List.replicate (width - text.length) ' '

def paddedText (depth width : Nat) (key value : List Char) : List Char :=
  Text.trimEnd (indent depth ++ padded width key ++ [' ', '=', ' '] ++ value)

def laidFrom (run : Run) : List Line → List (List Char)
  | [] => []
  | .blank :: rest => [] :: laidFrom none rest
  | .literal text :: rest => text :: laidFrom none rest
  | .code depth text :: rest => (indent depth ++ text) :: laidFrom none rest
  | .attribute depth key value :: rest =>
      let width := widthIn run depth (.attribute depth key value :: rest)
      paddedText depth width key value :: laidFrom (some (depth, width)) rest

def laidOut (text : List Char) : List Char := Text.unlines (dropBlankEnds (laidFrom none (ofText text)))

/-! The limit. -/

def Line.keyLength : Line → Nat
  | .attribute _ key _ => key.length
  | _ => 0

/-- No key is longer than a text can be padded. -/
def Narrow (text : List Char) : Prop := ∀ line ∈ ofText text, line.keyLength ≤ widthLimit

instance (text : List Char) : Decidable (Narrow text) :=
  inferInstanceAs (Decidable (∀ line ∈ ofText text, line.keyLength ≤ widthLimit))

/-- A run that is open is wide enough for the keys that belong to it, and not too wide. -/
def Fits (run : Run) (lines : List Line) : Prop :=
  ∀ depth width, run = some (depth, width) → runWidth depth lines ≤ width ∧ width ≤ widthLimit

theorem padIff {width : Nat} {text out : List Char} :
    pad width text = some out ↔ width ≤ widthLimit ∧ padded width text = out := by
  unfold pad
  split
  · rename_i within
    exact ⟨fun same => ⟨within, Option.some.inj same⟩, fun same => congrArg some same.2⟩
  · rename_i beyond
    exact ⟨nofun, fun within => absurd within.1 beyond⟩

theorem attributeTextIff {depth width : Nat} {key value out : List Char} :
    attributeText depth width key value = some out ↔ width ≤ widthLimit ∧ paddedText depth width key value = out := by
  simp only [attributeText, bind, Option.bind_eq_some_iff, padIff, pure, Option.some_inj]
  constructor
  · rintro ⟨_, ⟨within, rfl⟩, rfl⟩
    exact ⟨within, rfl⟩
  · rintro ⟨within, rfl⟩
    exact ⟨_, ⟨within, rfl⟩, rfl⟩

theorem runWidthBound {lines : List Line} {bound : Nat} (all : ∀ line ∈ lines, line.keyLength ≤ bound) (depth : Nat) :
    runWidth depth lines ≤ bound := by
  induction lines with
  | nil => exact Nat.zero_le _
  | cons line rest ih =>
      obtain ⟨here, others⟩ := List.forall_mem_cons.mp all
      cases line with
      | blank | literal | code => exact Nat.zero_le _
      | «attribute» d key value =>
          rw [runWidth]
          split
          · exact Nat.max_le.mpr ⟨here, ih others⟩
          · exact Nat.zero_le _

theorem widthInCovers {run : Run} {depth : Nat} {key value : List Char} {rest : List Line}
    (fits : Fits run (.attribute depth key value :: rest)) :
    max key.length (runWidth depth rest) ≤ widthIn run depth (.attribute depth key value :: rest) := by
  have own : runWidth depth (.attribute depth key value :: rest) = max key.length (runWidth depth rest) := if_pos rfl
  cases run with
  | none => exact Nat.le_of_eq own.symm
  | some found =>
      obtain ⟨d, width⟩ := found
      rw [← own, widthIn]
      split
      · rename_i same
        subst same
        exact (fits d width rfl).1
      · exact Nat.le_refl _

theorem widthInBound {run : Run} {lines : List Line} (fits : Fits run lines)
    (all : ∀ line ∈ lines, line.keyLength ≤ widthLimit) (depth : Nat) : widthIn run depth lines ≤ widthLimit := by
  cases run with
  | none => exact runWidthBound all depth
  | some found =>
      obtain ⟨d, width⟩ := found
      rw [widthIn]
      split
      · exact (fits d width rfl).2
      · exact runWidthBound all depth

theorem fitsNone (lines : List Line) : Fits none lines := nofun

theorem textsFromIff {run : Run} {lines : List Line} (fits : Fits run lines) {texts : List (List Char)} :
    textsFrom run lines = some texts ↔ (∀ line ∈ lines, line.keyLength ≤ widthLimit) ∧ laidFrom run lines = texts := by
  induction lines generalizing run texts with
  | nil => simp [textsFrom, laidFrom]
  | cons line rest ih =>
      rw [List.forall_mem_cons]
      cases line with
      | blank | literal | code =>
          have short : 0 ≤ widthLimit := Nat.zero_le _
          simp only [textsFrom, laidFrom, bind, Option.bind_eq_some_iff, ih (fitsNone rest), pure, Option.some_inj,
            Line.keyLength, short, true_and]
          constructor
          · rintro ⟨_, ⟨others, rfl⟩, rfl⟩
            exact ⟨others, rfl⟩
          · rintro ⟨others, rfl⟩
            exact ⟨_, ⟨others, rfl⟩, rfl⟩
      | «attribute» depth key value =>
          -- The width of a run is settled at its first attribute, and all of its keys have to be within the limit there.
          have covers := widthInCovers fits
          have bound := fun all => widthInBound fits all depth
          simp only [textsFrom, laidFrom, bind, Option.bind_eq_some_iff, attributeTextIff, pure, Option.some_inj]
          generalize widthIn run depth (.attribute depth key value :: rest) = width at covers bound ⊢
          have open' (within : width ≤ widthLimit) : Fits (some (depth, width)) rest := by
            rintro d w ⟨⟩
            exact ⟨Nat.le_trans (Nat.le_max_right _ _) covers, within⟩
          constructor
          · rintro ⟨_, ⟨within, rfl⟩, others, found, rfl⟩
            obtain ⟨all, rfl⟩ := (ih (open' within)).mp found
            exact ⟨⟨Nat.le_trans (Nat.le_trans (Nat.le_max_left _ _) covers) within, all⟩, rfl⟩
          · rintro ⟨⟨here, all⟩, rfl⟩
            have within := bound (List.forall_mem_cons.mpr ⟨here, all⟩)
            exact ⟨_, ⟨within, rfl⟩, _, (ih (open' within)).mpr ⟨all, rfl⟩, rfl⟩

theorem canonicalIff {text out : List Char} : canonical text = some out ↔ Narrow text ∧ laidOut text = out := by
  simp only [canonical, render, bind, Option.bind_eq_some_iff, textsFromIff (fitsNone _), pure, Option.some_inj]
  constructor
  · rintro ⟨_, ⟨narrow, rfl⟩, rfl⟩
    exact ⟨narrow, rfl⟩
  · rintro ⟨narrow, rfl⟩
    exact ⟨_, ⟨narrow, rfl⟩, rfl⟩

theorem canonicalNone {text : List Char} : canonical text = none ↔ ¬ Narrow text := by
  rw [Option.eq_none_iff_forall_ne_some]
  exact ⟨fun none narrow => none _ (canonicalIff.mpr ⟨narrow, rfl⟩), fun wide out same => wide (canonicalIff.mp same).1⟩

theorem canonicalNarrow {text : List Char} (narrow : Narrow text) : canonical text = some (laidOut text) :=
  canonicalIff.mpr ⟨narrow, rfl⟩

end DeclOrder.Layout
