import DeclOrder.Proofs.Hcl.Alike

/-! Readers with white space and comments around them. An expression may end where it could have gone on
with an accessor. Then no token that may follow an expression comes next. -/
namespace DeclOrder.Hcl
open Text Reader Read

/-- Stands at no token that may follow an expression. -/
inductive Held : Extent → List Char → Prop where
  | stuck {e : Extent} {t : List Char} (stuck : Stuck e t) : Held e t
  | bracket {e : Extent} {t : List Char} : Held e ('[' :: t)
  | dot {e : Extent} {t : List Char} (alone : t.head? ≠ some '.') : Held e ('.' :: t)

/-- Stands at no such token once trivia are skipped. -/
def Blocked (e : Extent) (t : List Char) : Prop := Held e (skipTrivia e t)

variable {e : Extent} {c : Char} {t : List Char}

theorem heldStays (held : Held e t) : skipTrivia e t = t := by
  cases held with
  | stuck stuck => exact skipStop (stuckStays stuck)
  | bracket => exact skipStop (triviumOther (by decide))
  | dot => exact skipStop (triviumOther (by decide))

theorem stuckBlocked (stuck : Stuck e t) : Blocked e t := by
  rw [Blocked, heldStays (.stuck stuck)]
  exact .stuck stuck

theorem heldBlocked (held : Held e t) : Blocked e t := by
  rw [Blocked, heldStays held]
  exact held

theorem stuckHead (solid : isBlank c = false) (other : c ∉ ['#', '/']) : ¬ Stuck e (c :: t) := by
  intro stuck
  cases stuck with
  | foreign blank =>
      rw [solid] at blank
      contradiction
  | loneReturn => contradiction
  | hash => simp at other
  | slashes => simp at other

theorem skipTight {w w' y y' : List Char} (solid : isBlank c = false) (other : c ∉ ['#', '/']) (start : Loose w w')
    (here : skipTrivia e w = c :: y) (here' : skipTrivia e w' = c :: y') : Respaced (c :: y) (c :: y') := by
  rcases skipReady (e := e) start with tight | stuck | stuck
  · rwa [here, here'] at tight
  · rw [here] at stuck
    exact absurd stuck (stuckHead solid other)
  · rw [here'] at stuck
    exact absurd stuck (stuckHead solid other)

theorem heldHead (solid : isBlank c = false) (other : c ∉ ['#', '/', '[', '.']) : ¬ Held e (c :: t) := by
  intro held
  simp only [List.mem_cons, List.not_mem_nil, or_false, not_or] at other
  cases held with
  | stuck stuck => exact stuckHead solid (by simp [other.1, other.2.1]) stuck
  | bracket => exact other.2.2.1 rfl
  | dot => exact other.2.2.2 rfl

theorem heldLineBreak : ¬ Held e ('\n' :: t) := by
  intro held
  cases held with
  | stuck stuck =>
      cases stuck with
      | foreign _ foreign => simp at foreign

theorem heldNil : ¬ Held e [] := by
  intro held
  cases held with
  | stuck stuck => cases stuck

theorem heldDots : ¬ Held e ('.' :: '.' :: t) := by
  intro held
  cases held with
  | stuck stuck => exact stuckHead (by decide) (by decide) stuck
  | dot alone => exact alone rfl

section
variable {α β : Type} {r : Reader α} {k : Unit → Reader β} {B : List Char → Prop}

theorem leadsSkip (more : Leads (Held e) (k ()) B) : Leads (Blocked e) (trivia e >>= k) B :=
  leadsBind (leadsTrivia fun _ => id) fun _ => more

theorem heldSkip (more : Leads (Held e) (k ()) B) : Leads (Held e) (trivia e >>= k) B := fun _ _ _ held read =>
  leadsSkip more (heldBlocked held) read

theorem heldChar (solid : isBlank c = false) (other : c ∉ ['#', '/', '[', '.']) : Leads (Held e) (char c) never :=
  refusesChar fun _ => heldHead solid other

def startsToken : List Char → Bool
  | c :: _ => !isBlank c && c ∉ ['#', '/', '[', '.']
  | [] => false

theorem heldToken {w : List Char} (token : startsToken w = true) : ¬ Held e (w ++ t) := by
  cases w with
  | nil => contradiction
  | cons c rest =>
      simp only [startsToken, Bool.and_eq_true, Bool.not_eq_true', decide_eq_true_eq] at token
      exact heldHead token.1 token.2

theorem heldKeyword {w : String} (token : startsToken w.toList = true) : Leads (Held e) (keyword w) never :=
  refusesWord fun _ => heldToken token

theorem stuckOnly (more : Leads (Held e) r B) : Leads (Stuck e) r B := fun _ _ _ stuck read => more (.stuck stuck) read

end

section
variable {ι α β : Type} {A : ι → ι → Prop} {P Q : List Char → List Char → Prop} {told : α → List String}
  {tells : β → List String} {B : List Char → Prop} {ρ : ι → Reader α} {κ : ι → Unit → Reader β}

theorem Alike.skip (e : Extent) (more : Alike A Respaced Q tells B (fun i => κ i ()))
    (refuses : ∀ i, Member A i → Leads (Stuck e) (κ i ()) B) : Alike A Loose Q tells B (fun i => trivia e >>= κ i) :=
  (alikeTrivia e).behind (fun _ => more) fun i member _ => refuses i member

theorem Alike.spaced (h : Alike A Respaced Respaced told (Blocked .acrossLines) ρ)
    (refuses : ∀ i, Member A i → Leads (Stuck .acrossLines) (ρ i) never) :
    Alike A Loose Respaced told (Held .acrossLines) (fun i => Read.spaced (ρ i)) := by
  have behind (v : α) : Alike A Loose Respaced told (Held .acrossLines) (fun _ => (do space; return v : Reader α)) :=
    .skip .acrossLines (alikePure v fun _ _ => id) fun _ _ => leadsPure _ fun _ => .stuck
  refine .skip .acrossLines ?_ fun i member => refusesBind (refuses i member)
  refine h.bind [] (fun v => (behind v).given fun _ _ => Respaced.loose) ?_ ?_
  · exact fun _ _ v => startsBind fun _ => startsPure List.prefix_rfl
  · exact fun _ _ v => leadsSkip (leadsPure _ fun _ => id)

theorem Alike.marked (h : Alike A Respaced Respaced told (Blocked .acrossLines) ρ)
    (refuses : ∀ i, Member A i → Leads (Stuck .acrossLines) (ρ i) never) :
    Alike A Respaced Respaced (fun p => told p.2) never (fun i => Read.marked (ρ i)) := by
  refine .token (firmGiven (firmChar (by decide))) fun before => ?_
  refine ((h.spaced refuses).given fun _ _ => Respaced.loose).bind [] (fun v => ?_) ?_ ?_
  · exact .token (firmGiven (firmChar (by decide))) fun after => .token (firmChar (by decide)) fun _ =>
      alikePure _ fun _ _ => id
  · exact fun _ _ v => startsBind fun _ => startsBind fun _ => startsPure List.prefix_rfl
  · exact fun _ _ v => leadsBind (leadsGiven (heldChar (by decide) (by decide))) fun _ =>
      refusesBind (heldChar (by decide) (by decide))

end

end DeclOrder.Hcl
