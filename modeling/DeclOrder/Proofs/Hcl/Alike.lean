import DeclOrder.Proofs.Hcl.Tail

/-! What two readings of respaced texts have in common. They give the same, or what they give says
different things, or one of them stops where nothing can follow. -/
namespace DeclOrder.Hcl
open Text Reader

def Differ (l l' : List String) : Prop := ¬ l <+: l' ∧ ¬ l' <+: l

section
variable {l l' m m' : List String}

theorem Differ.symm (h : Differ l l') : Differ l' l := ⟨h.2, h.1⟩

theorem Differ.ne (h : Differ l l') : l ≠ l' := fun same => h.1 (same ▸ List.prefix_rfl)

theorem Differ.extend (h : Differ l l') (more : l <+: m) (more' : l' <+: m') : Differ m m' := by
  constructor
  · intro front
    exact (List.prefix_or_prefix_of_prefix (more.trans front) more').elim h.1 h.2
  · intro front
    exact (List.prefix_or_prefix_of_prefix more (more'.trans front)).elim h.1 h.2

theorem Differ.behind (front : List String) (h : Differ l l') : Differ (front ++ l) (front ++ l') :=
  ⟨fun start => h.1 ((List.prefix_append_right_inj front).mp start),
    fun start => h.2 ((List.prefix_append_right_inj front).mp start)⟩

theorem differFirst {s s' : String} (other : s ≠ s') : Differ (s :: l) (s' :: l') :=
  ⟨fun front => other (List.cons_prefix_cons.mp front).1, fun front => other (List.cons_prefix_cons.mp front).1.symm⟩

end

/-- How two readings end. `Q` relates what they leave, and `B` bars what can follow. -/
inductive Outcome {α : Type} (Q : List Char → List Char → Prop) (told : α → List String) (B : List Char → Prop) :
    α → α → List Char → List Char → Prop where
  | same {v : α} {u u' : List Char} (rest : Q u u') : Outcome Q told B v v u u'
  | differ {v v' : α} {u u' : List Char} (texts : Differ (told v) (told v')) : Outcome Q told B v v' u u'
  | left {v v' : α} {u u' : List Char} (barred : B u) : Outcome Q told B v v' u u'
  | right {v v' : α} {u u' : List Char} (barred : B u') : Outcome Q told B v v' u u'

/-- Readers that depend on an environment read alike in environments that `A` relates and on texts that
`P` relates. -/
def Alike {ι α : Type} (A : ι → ι → Prop) (P Q : List Char → List Char → Prop) (told : α → List String)
    (B : List Char → Prop) (r : ι → Reader α) : Prop :=
  ∀ ⦃i i' : ι⦄, A i i' → ∀ ⦃t t' : List Char⦄, P t t' → ∀ ⦃v v' : α⦄ ⦃u u' : List Char⦄,
    r i t = some (v, u) → r i' t' = some (v', u') → Outcome Q told B v v' u u'

def Member {ι : Type} (A : ι → ι → Prop) (i : ι) : Prop := ∃ j, A i j ∨ A j i

def silent {α : Type} : α → List String := fun _ => []

def never : List Char → Prop := fun _ => False

/-- From a text that is barred by `B` a reader leaves one that is barred by `B'`. -/
def Leads {α : Type} (B : List Char → Prop) (r : Reader α) (B' : List Char → Prop) : Prop :=
  ∀ ⦃t : List Char⦄ ⦃v : α⦄ ⦃u : List Char⦄, B t → r t = some (v, u) → B' u

def Starts {α : Type} (front : List String) (told : α → List String) (r : Reader α) : Prop :=
  ∀ ⦃t : List Char⦄ ⦃v : α⦄ ⦃u : List Char⦄, r t = some (v, u) → front <+: told v

section
variable {α β : Type} {r : Reader α} {k : α → Reader β} {B B' B'' : List Char → Prop} {front : List String}
  {told : α → List String} {tells : β → List String}

theorem leadsPure (v : α) (bars : ∀ t, B t → B' t) : Leads B (pure v : Reader α) B' := by
  intro t w u barred read
  rw [← (pureSome.mp read).2]
  exact bars t barred

theorem leadsBind (first : Leads B r B') (more : ∀ a, Leads B' (k a) B'') : Leads B (r >>= k) B'' := by
  intro t v u barred read
  obtain ⟨a, w, reads, read⟩ := bindSome.mp read
  exact more a (first barred reads) read

theorem leadsNever : Leads never r B := fun _ _ _ barred => absurd barred id

theorem refusesBind (first : Leads B r never) : Leads B (r >>= k) B' := leadsBind first fun _ => leadsNever

theorem refusesChar {c : Char} (other : ∀ rest, ¬ B (c :: rest)) : Leads B (char c) never := by
  intro t v u barred read
  rw [charSome.mp read] at barred
  exact other u barred

theorem refusesWord {w : List Char} (other : ∀ rest, ¬ B (w ++ rest)) : Leads B (word w) never := by
  intro t v u barred read
  rw [wordSome.mp read] at barred
  exact other u barred

theorem leadsTried (first : Leads B r never) : Leads B (tried r) B := by
  intro t v u barred read
  rcases triedSome.mp read with ⟨a, _, reads⟩ | ⟨_, rfl, _⟩
  · exact absurd (first barred reads) id
  · exact barred

theorem leadsGiven {r : Reader Unit} (first : Leads B r never) : Leads B (given r) B :=
  leadsBind (leadsTried first) fun _ => leadsPure _ fun _ => id

theorem leadsMany (first : Leads B r never) : Leads B (many r) B := by
  intro t v u barred read
  have none : r t = none := Option.eq_none_iff_forall_ne_some.mpr fun _ reads => first barred reads
  cases t with
  | nil => rwa [(pureSome.mp read).2] at barred
  | cons c rest =>
      rcases manyUpToCons.mp read with ⟨_, _, _, reads, _⟩ | ⟨_, _, rfl⟩
      · rw [none] at reads
        contradiction
      · exact barred

theorem leadsTrivia {e : Extent} (skips : ∀ t, B t → B' (skipTrivia e t)) : Leads B (Read.trivia e) B' := by
  intro t v u barred read
  rw [← skipSome.mp read]
  exact skips t barred

theorem startsPure {v : α} (start : front <+: told v) : Starts front told (pure v : Reader α) := by
  intro t w u read
  rw [← (pureSome.mp read).1]
  exact start

theorem startsBind (more : ∀ a, Starts front tells (k a)) : Starts front tells (r >>= k) := by
  intro t v u read
  obtain ⟨a, w, _, read⟩ := bindSome.mp read
  exact more a read

end

section
variable {ι α β : Type} {A : ι → ι → Prop} {P P' Q Q' Q₁ : List Char → List Char → Prop} {told told' : α → List String}
  {tells : β → List String} {B B' B₁ : List Char → Prop} {ρ : ι → Reader α} {κ : ι → α → Reader β}

theorem Outcome.or {v v' : α} {u u' : List Char} (h : Outcome Q told B v v' u u') :
    (v = v' ∧ Q u u') ∨ Differ (told v) (told v') ∨ B u ∨ B u' := by
  cases h with
  | same rest => exact .inl ⟨rfl, rest⟩
  | differ texts => exact .inr (.inl texts)
  | left barred => exact .inr (.inr (.inl barred))
  | right barred => exact .inr (.inr (.inr barred))

theorem Alike.given (h : Alike A P Q told B ρ) (closer : ∀ t t', P' t t' → P t t') : Alike A P' Q told B ρ :=
  fun _ _ akin t t' start => h akin (closer t t' start)

theorem Alike.barred (h : Alike A P Q told B ρ) (bars : ∀ t, B t → B' t) : Alike A P Q told B' ρ := by
  intro i i' akin t t' start v v' u u' read read'
  cases h akin start read read' with
  | same rest => exact .same rest
  | differ texts => exact .differ texts
  | left barred => exact .left (bars _ barred)
  | right barred => exact .right (bars _ barred)

theorem Alike.retell (h : Alike A P Q told B ρ) (same : ∀ v, told v = told' v) : Alike A P Q told' B ρ := by
  rwa [← funext same]

/-- One reader behind another. What the first says is said behind `front` by the whole, and where the
first bars what follows, so does the whole. -/
theorem Alike.bind (front : List String) (first : Alike A P Q₁ told B₁ ρ)
    (more : ∀ a, Alike A Q₁ Q tells B (fun i => κ i a))
    (starts : ∀ i, Member A i → ∀ a, Starts (front ++ told a) tells (κ i a))
    (leads : ∀ i, Member A i → ∀ a, Leads B₁ (κ i a) B) : Alike A P Q tells B (fun i => ρ i >>= κ i) := by
  intro i i' akin t t' start v v' u u' read read'
  obtain ⟨a, w, reads, read⟩ := bindSome.mp read
  obtain ⟨a', w', reads', read'⟩ := bindSome.mp read'
  have member : Member A i := ⟨i', .inl akin⟩
  have member' : Member A i' := ⟨i, .inr akin⟩
  cases first akin start reads reads' with
  | same rest => exact more _ akin rest read read'
  | differ texts => exact .differ ((texts.behind front).extend (starts i member a read) (starts i' member' a' read'))
  | left barred => exact .left (leads i member a barred read)
  | right barred => exact .right (leads i' member' a' barred read')

theorem Alike.behind (first : Alike A P Q₁ silent B₁ ρ) (more : ∀ a, Alike A Q₁ Q tells B (fun i => κ i a))
    (leads : ∀ i, Member A i → ∀ a, Leads B₁ (κ i a) B) : Alike A P Q tells B (fun i => ρ i >>= κ i) :=
  first.bind [] more (fun _ _ _ _ _ _ _ => List.nil_prefix) leads

theorem alikePure (v : α) (stays : ∀ t t', P t t' → Q t t') : Alike A P Q told B (fun _ => pure v) := by
  intro i i' _ t t' start w w' u u' read read'
  obtain ⟨rfl, rfl⟩ := pureSome.mp read
  obtain ⟨rfl, rfl⟩ := pureSome.mp read'
  exact .same (stays _ _ start)

theorem Alike.map {f : α → β} (h : Alike A P Q told B ρ) (front : List String)
    (wraps : ∀ a, tells (f a) = front ++ told a) : Alike A P Q tells B (fun i => do return f (← ρ i)) := by
  refine h.bind front (fun a => alikePure _ fun _ _ => id) (fun _ _ a => startsPure ?_) fun _ _ a => leadsPure _ fun _ => id
  exact (wraps a).symm ▸ List.prefix_rfl

theorem alikeFirm {r : Reader α} (firm : Firm r) : Alike A Respaced Respaced told B (fun _ => r) := by
  intro i i' _ t t' start v v' u u' read read'
  obtain ⟨rfl, rest⟩ := firm.both start read read'
  exact .same rest

theorem Alike.token {r : Reader α} (firm : Firm r) (more : ∀ a, Alike A Respaced Q tells B (fun i => κ i a)) :
    Alike A Respaced Q tells B (fun i => r >>= κ i) :=
  (alikeFirm (B := never) firm).behind more fun _ _ _ => leadsNever

theorem alikeTrivia (e : Extent) : Alike A Loose Respaced silent (Stuck e) (fun _ => Read.trivia e) := by
  intro i i' _ t t' start v v' u u' read read'
  rw [← skipSome.mp read, ← skipSome.mp read']
  rcases skipReady (e := e) start with tight | stuck | stuck
  · exact .same tight
  · exact .left stuck
  · exact .right stuck

theorem Alike.if {p : Prop} [Decidable p] {σ : ι → Reader α} (yes : Alike A P Q told B ρ) (no : Alike A P Q told B σ) :
    Alike A P Q told B (fun i => if p then ρ i else σ i) := by
  split
  · exact yes
  · exact no

def optionally (told : α → List String) : Option α → List String
  | none => []
  | some v => told v

/-- If only one of two readers succeeds, what the other one is left with has to be barred. -/
theorem Alike.tried (symm : ∀ t t', P t t' → P t' t) (h : Alike A P Q told B ρ) (stays : ∀ t t', P t t' → Q t t')
    (alone : ∀ i i', Member A i → Member A i' → ∀ t t', P t t' → ∀ v u, ρ i t = some (v, u) → ρ i' t' = none → B t') :
    Alike A P Q (optionally told) B (fun i => Reader.tried (ρ i)) := by
  intro i i' akin t t' start v v' u u' read read'
  have member : Member A i := ⟨i', .inl akin⟩
  have member' : Member A i' := ⟨i, .inr akin⟩
  rcases triedSome.mp read with ⟨a, rfl, reads⟩ | ⟨rfl, rfl, fails⟩
  · rcases triedSome.mp read' with ⟨a', rfl, reads'⟩ | ⟨rfl, rfl, fails'⟩
    · cases h akin start reads reads' with
      | same rest => exact .same rest
      | differ texts => exact .differ texts
      | left barred => exact .left barred
      | right barred => exact .right barred
    · exact .right (alone i i' member member' t t' start a u reads fails')
  · rcases triedSome.mp read' with ⟨a', rfl, reads'⟩ | ⟨rfl, rfl, fails'⟩
    · exact .left (alone i' i member' member t' t (symm t t' start) a' u' reads' fails)
    · exact .same (stays _ _ start)

theorem runAlike {r r' : Reader α}
    (h : ∀ {t t'}, P t t' → ∀ {v v' u u'}, r t = some (v, u) → r' t' = some (v', u') → Outcome P told B₁ v v' u u')
    (ends : ∀ {t}, B₁ t → r t = none ∧ B t) (ends' : ∀ {t}, B₁ t → r' t = none ∧ B t)
    (alone : ∀ {t t'}, P t t' → ∀ {v u}, r t = some (v, u) → r' t' = none → B t')
    (alone' : ∀ {t t'}, P t t' → ∀ {v u}, r' t' = some (v, u) → r t = none → B t)
    {t t' u u' : List Char} {vs vs' : List α} (start : P t t') (run : Run r t vs u) (run' : Run r' t' vs' u') :
    Outcome P (List.flatMap told) B vs vs' u u' := by
  have past {q : Reader α} {w x : List Char} {ws : List α} (stays : q w = none ∧ B w) (run : Run q w ws x) : B x := by
    cases run with
    | stop => exact stays.2
    | step reads => rw [stays.1] at reads; contradiction
  induction run generalizing t' vs' with
  | stop fails =>
      cases run' with
      | stop => exact .same start
      | step reads' => exact .left (alone' start reads' fails)
  | @step t w u v vs reads more ih =>
      cases run' with
      | stop fails' => exact .right (alone start reads fails')
      | @step _ w' _ v' vs' reads' more' =>
          cases h start reads reads' with
          | same rest =>
              cases ih rest more' with
              | same rest => exact .same rest
              | differ texts => exact .differ (texts.behind (told v))
              | left barred => exact .left barred
              | right barred => exact .right barred
          | differ texts => exact .differ (texts.extend (List.prefix_append _ _) (List.prefix_append _ _))
          | left barred => exact .left (past (ends barred) more)
          | right barred => exact .right (past (ends' barred) more')

theorem Alike.many (symm : ∀ t t', P t t' → P t' t) (short : ∀ i, Member A i → Short (ρ i)) (h : Alike A P P told B₁ ρ)
    (ends : ∀ i, Member A i → ∀ t, B₁ t → ρ i t = none ∧ B t)
    (alone : ∀ i i', Member A i → Member A i' → ∀ t t', P t t' → ∀ v u, ρ i t = some (v, u) → ρ i' t' = none → B t') :
    Alike A P P (List.flatMap told) B (fun i => Reader.many (ρ i)) := by
  intro i i' akin t t' start v v' u u' read read'
  have member : Member A i := ⟨i', .inl akin⟩
  have member' : Member A i' := ⟨i, .inr akin⟩
  exact runAlike (fun start _ _ _ _ read read' => h akin start read read') (ends i member _) (ends i' member' _)
    (fun start _ _ read fails => alone i i' member member' _ _ start _ _ read fails)
    (fun start _ _ read fails => alone i' i member' member _ _ (symm _ _ start) _ _ read fails) start
    (manyRun (short i member) read) (manyRun (short i' member') read')

end

end DeclOrder.Hcl
