import DeclOrder.Text.Blank

/-! Texts that differ in white space only, and only where tokens cannot tell: around line breaks, and
around an equals sign that is none of `==` and `=>`. -/
namespace DeclOrder.Hcl
open Text

def InLine (c : Char) : Prop := isBlank c = true ∧ c ≠ '\n'

def Within (b : List Char) : Prop := ∀ c ∈ b, InLine c

def Alone (t : List Char) : Prop := t.head? ≠ some '=' ∧ t.head? ≠ some '>'

/-- The characters that an equals sign behind them makes another token of. -/
def joining : List Char := ['<', '>', '!', '=']

def Joint (c : Char) (t t' : List Char) : Prop :=
  c ∈ joining → ((t.head? = some '=' ↔ t'.head? = some '=') ∧ (t.head? = some '>' ↔ t'.head? = some '>'))

inductive Respaced : List Char → List Char → Prop where
  | blank {t t' : List Char} (all : allBlank t = true) (all' : allBlank t' = true) : Respaced t t'
  | same {c : Char} {t t' : List Char} (notBreak : c ≠ '\n') (joint : Joint c t t') (rest : Respaced t t') :
      Respaced (c :: t) (c :: t')
  | lineBreak {a a' b b' t t' : List Char} (before : Within a) (before' : Within a') (behind : Within b)
      (behind' : Within b') (rest : Respaced t t') : Respaced (a ++ '\n' :: (b ++ t)) (a' ++ '\n' :: (b' ++ t'))
  | equals {a a' b b' t t' : List Char} (before : Within a) (before' : Within a') (behind : Within b)
      (behind' : Within b') (alone : Alone (b ++ t)) (alone' : Alone (b' ++ t')) (rest : Respaced t t') :
      Respaced (a ++ '=' :: (b ++ t)) (a' ++ '=' :: (b' ++ t'))

/-- Respaced but for white space that both texts may start with. -/
def Loose (t t' : List Char) : Prop :=
  ∃ b b' u u', Within b ∧ Within b' ∧ t = b ++ u ∧ t' = b' ++ u' ∧ Respaced u u'

variable {c : Char} {t t' u u' : List Char}

theorem withinNil : Within [] := fun _ member => absurd member List.not_mem_nil

theorem withinCons {b : List Char} : Within (c :: b) ↔ InLine c ∧ Within b := List.forall_mem_cons

theorem withinAllBlank {b : List Char} (within : Within b) : allBlank b = true :=
  List.all_eq_true.mpr fun c member => (within c member).1

theorem notInLine (solid : isBlank c = false) : ¬ InLine c := by
  rintro ⟨blank, _⟩
  rw [solid] at blank
  contradiction

theorem Joint.symm (joint : Joint c t t') : Joint c t' t := fun member =>
  ⟨(joint member).1.symm, (joint member).2.symm⟩

theorem Respaced.symm (h : Respaced t t') : Respaced t' t := by
  induction h with
  | blank all all' => exact .blank all' all
  | same notBreak joint _ ih => exact .same notBreak joint.symm ih
  | lineBreak before before' behind behind' _ ih => exact .lineBreak before' before behind' behind ih
  | equals before before' behind behind' alone alone' _ ih =>
      exact .equals before' before behind' behind alone' alone ih

theorem Loose.symm (h : Loose t t') : Loose t' t := by
  obtain ⟨b, b', u, u', within, within', rfl, rfl, rest⟩ := h
  exact ⟨b', b, u', u, within', within, rfl, rfl, rest.symm⟩

theorem Respaced.loose (h : Respaced t t') : Loose t t' := ⟨[], [], t, t', withinNil, withinNil, rfl, rfl, h⟩

theorem Loose.consLeft (inLine : InLine c) (h : Loose t t') : Loose (c :: t) t' := by
  obtain ⟨b, b', u, u', within, within', rfl, rfl, rest⟩ := h
  exact ⟨c :: b, b', u, u', withinCons.mpr ⟨inLine, within⟩, within', rfl, rfl, rest⟩

theorem Loose.consRight (inLine : InLine c) (h : Loose t t') : Loose t (c :: t') := (h.symm.consLeft inLine).symm

inductive Place : List Char → List Char → Prop where
  | blank {t t' : List Char} (all : allBlank t = true) (all' : allBlank t' = true) : Place t t'
  | left {c : Char} {t t' : List Char} (inLine : InLine c) (rest : Loose t t') : Place (c :: t) t'
  | right {c : Char} {t t' : List Char} (inLine : InLine c) (rest : Loose t t') : Place t (c :: t')
  | lineBreak {t t' : List Char} (rest : Loose t t') : Place ('\n' :: t) ('\n' :: t')
  | solid {c : Char} {t t' : List Char} (solid : isBlank c = false) (tight : Respaced (c :: t) (c :: t'))
      (rest : Loose t t') : Place (c :: t) (c :: t')

theorem Respaced.place (h : Respaced t t') : Place t t' := by
  cases h with
  | blank all all' => exact .blank all all'
  | @same c t t' notBreak joint rest =>
      cases blank : isBlank c with
      | true => exact .left ⟨blank, notBreak⟩ (rest.loose.consRight ⟨blank, notBreak⟩)
      | false => exact .solid blank (.same notBreak joint rest) rest.loose
  | @lineBreak a a' b b' t t' before before' behind behind' rest =>
      cases a with
      | cons c a =>
          obtain ⟨inLine, before⟩ := withinCons.mp before
          exact .left inLine (Respaced.lineBreak before before' behind behind' rest).loose
      | nil =>
          cases a' with
          | cons c a' =>
              obtain ⟨inLine, before'⟩ := withinCons.mp before'
              exact .right inLine (Respaced.lineBreak before before' behind behind' rest).loose
          | nil => exact .lineBreak ⟨b, b', t, t', behind, behind', rfl, rfl, rest⟩
  | @equals a a' b b' t t' before before' behind behind' alone alone' rest =>
      cases a with
      | cons c a =>
          obtain ⟨inLine, before⟩ := withinCons.mp before
          exact .left inLine (Respaced.equals before before' behind behind' alone alone' rest).loose
      | nil =>
          cases a' with
          | cons c a' =>
              obtain ⟨inLine, before'⟩ := withinCons.mp before'
              exact .right inLine (Respaced.equals before before' behind behind' alone alone' rest).loose
          | nil =>
              exact .solid (by decide) (.equals withinNil withinNil behind behind' alone alone' rest)
                ⟨b, b', t, t', behind, behind', rfl, rfl, rest⟩

theorem Loose.place (h : Loose t t') : Place t t' := by
  obtain ⟨b, b', u, u', within, within', rfl, rfl, rest⟩ := h
  cases b with
  | cons c b =>
      obtain ⟨inLine, within⟩ := withinCons.mp within
      exact .left inLine ⟨b, b', u, u', within, within', rfl, rfl, rest⟩
  | nil =>
      cases b' with
      | cons c b' =>
          obtain ⟨inLine, within'⟩ := withinCons.mp within'
          exact .right inLine ⟨[], b', u, u', within, within', rfl, rfl, rest⟩
      | nil => exact rest.place

theorem looseInduction {motive : List Char → List Char → Prop}
    (step : ∀ t t', (∀ u u', u.length + u'.length < t.length + t'.length → Loose u u' → motive u u') →
      Place t t' → motive t t') {t t' : List Char} (h : Loose t t') : motive t t' := by
  generalize size : t.length + t'.length = n
  induction n using Nat.strongRecOn generalizing t t' with
  | ind n ih => exact step t t' (fun u u' less loose => ih _ (by omega) loose rfl) h.place

theorem Loose.tailLeft (inLine : InLine c) (h : Loose (c :: t) t') : Loose t t' := by
  induction t' with
  | nil =>
      cases h.place with
      | blank all all' => exact (Respaced.blank (allBlankCons.mp all).2 all').loose
      | left _ rest => exact rest
  | cons d more ih =>
      cases h.place with
      | blank all all' => exact (Respaced.blank (allBlankCons.mp all).2 all').loose
      | left _ rest => exact rest
      | right inLineToo rest => exact (ih rest).consRight inLineToo
      | lineBreak => exact absurd rfl inLine.2
      | solid solid => exact absurd inLine (notInLine solid)

theorem Loose.tailRight (inLine : InLine c) (h : Loose t (c :: t')) : Loose t t' := (h.symm.tailLeft inLine).symm

theorem Loose.dropLeft {b : List Char} (within : Within b) (h : Loose (b ++ t) t') : Loose t t' := by
  induction b with
  | nil => exact h
  | cons c b ih => exact ih (withinCons.mp within).2 (h.tailLeft (withinCons.mp within).1)

theorem looseSolid (solid : isBlank c = false) (h : Loose (c :: t) t') :
    ∃ b w, Within b ∧ t' = b ++ c :: w ∧ Respaced (c :: t) (c :: w) ∧ Loose t w := by
  induction t' with
  | nil =>
      cases h.place with
      | blank all => simp [allBlankCons, solid] at all
      | left inLine => exact absurd inLine (notInLine solid)
  | cons d more ih =>
      cases h.place with
      | blank all => simp [allBlankCons, solid] at all
      | left inLine => exact absurd inLine (notInLine solid)
      | right inLine rest =>
          obtain ⟨b, w, within, rfl, tight, loose⟩ := ih rest
          exact ⟨d :: b, w, withinCons.mpr ⟨inLine, within⟩, rfl, tight, loose⟩
      | lineBreak => contradiction
      | solid _ tight rest => exact ⟨[], more, withinNil, rfl, tight, rest⟩

theorem looseBreak (h : Loose ('\n' :: t) t') : (∃ b w, Within b ∧ t' = b ++ '\n' :: w ∧ Loose t w) ∨
    (allBlank t = true ∧ allBlank t' = true) := by
  induction t' with
  | nil =>
      cases h.place with
      | blank all all' => exact .inr ⟨(allBlankCons.mp all).2, all'⟩
      | left inLine => exact absurd rfl inLine.2
  | cons d more ih =>
      cases h.place with
      | blank all all' => exact .inr ⟨(allBlankCons.mp all).2, all'⟩
      | left inLine => exact absurd rfl inLine.2
      | right inLine rest =>
          rcases ih rest with ⟨b, w, within, rfl, loose⟩ | ⟨all, all'⟩
          · exact .inl ⟨d :: b, w, withinCons.mpr ⟨inLine, within⟩, rfl, loose⟩
          · exact .inr ⟨all, allBlankCons.mpr ⟨inLine.1, all'⟩⟩
      | lineBreak rest => exact .inl ⟨[], more, withinNil, rfl, rest⟩
      | solid => contradiction

theorem Respaced.tail (solid : isBlank c = false) (notEquals : c ≠ '=') (h : Respaced (c :: t) t') :
    ∃ w, t' = c :: w ∧ Respaced t w := by
  generalize whole : c :: t = s at h
  cases h with
  | blank all => simp [← whole, allBlankCons, solid] at all
  | same _ _ rest =>
      obtain ⟨rfl, rfl⟩ := List.cons.inj whole
      exact ⟨_, rfl, rest⟩
  | @lineBreak a _ _ _ _ _ before =>
      cases a with
      | nil =>
          rw [(List.cons.inj whole).1] at solid
          contradiction
      | cons d a =>
          rw [(List.cons.inj whole).1] at solid
          exact absurd (withinCons.mp before).1 (notInLine solid)
  | @equals a _ _ _ _ _ before =>
      cases a with
      | nil => exact absurd (List.cons.inj whole).1 notEquals
      | cons d a =>
          rw [(List.cons.inj whole).1] at solid
          exact absurd (withinCons.mp before).1 (notInLine solid)

theorem Respaced.tailLoose (solid : isBlank c = false) (h : Respaced (c :: t) (c :: t')) : Loose t t' := by
  cases h.place with
  | blank all => simp [allBlankCons, solid] at all
  | left inLine => exact absurd inLine (notInLine solid)
  | right inLine => exact absurd inLine (notInLine solid)
  | lineBreak => contradiction
  | solid _ _ rest => exact rest

theorem looseTight {d : Char} (solid : isBlank c = false) (solid' : isBlank d = false) (h : Loose (c :: t) (d :: t')) :
    Respaced (c :: t) (d :: t') := by
  obtain ⟨b, w, within, same, tight, _⟩ := looseSolid solid h
  cases b with
  | nil =>
      rw [same]
      exact tight
  | cons e b =>
      rw [(List.cons.inj same).1] at solid'
      exact absurd (withinCons.mp within).1 (notInLine solid')

end DeclOrder.Hcl
