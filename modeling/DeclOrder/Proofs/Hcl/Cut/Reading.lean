import DeclOrder.Proofs.Hcl.Cut.Token

/-! Readings of two texts that are the same up to a closing brace. What one reader reads of one text in
front of the brace, another one reads of the other text again, unless the reading of the first text stops
where nothing can follow. -/
namespace DeclOrder.Hcl
open Text Reader Read

def Past (s t : List Char) : Prop := t.length ≤ s.length

/-- What `r` reads in front of a brace with `s` behind it, `r'` reads in front of one with `s'` behind it, if
the value is `whole` and at most `n` characters come before the brace. Otherwise the reading goes past
the brace, or `B` bars what can follow. -/
structure Repeats (s s' : List Char) (n : Nat) {α : Type} (whole : α → Prop) (B : List Char → Prop) (r r' : Reader α) :
    Prop where
  tail : Tail r
  again : ∀ {x : List Char}, x.length ≤ n → ∀ {v : α} {u : List Char}, r (x ++ '}' :: s) = some (v, u) → whole v →
    (∃ y, u = y ++ '}' :: s ∧ r' (x ++ '}' :: s') = some (v, y ++ '}' :: s')) ∨ Past s u ∨ B u

/-- The parts of what is read are `P` if the whole is. -/
def Keeps {β : Type} (whole : β → Prop) (P : Prop) (r : Reader β) : Prop :=
  ∀ ⦃t : List Char⦄ ⦃v : β⦄ ⦃u : List Char⦄, r t = some (v, u) → whole v → P

section
variable {s s' : List Char} {n m : Nat} {α β : Type} {whole whole' : α → Prop} {wholes : β → Prop} {P : Prop}
  {B B' B₁ : List Char → Prop} {r r' q q' : Reader α} {k k' : α → Reader β} {x y t u : List Char}

theorem pastTail (past : Past s t) (tail : u <:+ t) : Past s u := Nat.le_trans tail.length_le past

theorem notPast : ¬ Past s (x ++ '}' :: s) := by
  unfold Past
  rw [List.length_append, List.length_cons]
  omega

theorem leftBefore (tail : y ++ '}' :: s <:+ x ++ '}' :: s) : y.length ≤ x.length := by
  have less := tail.length_le
  rw [List.length_append, List.length_append] at less
  omega

theorem keepsPure {v : β} (keeps : wholes v → P) : Keeps wholes P (pure v : Reader β) := by
  intro t w u read good
  rw [← (pureSome.mp read).1] at good
  exact keeps good

theorem keepsBind (more : ∀ a, Keeps wholes P (k a)) : Keeps wholes P (r >>= k) := by
  intro t v u read good
  obtain ⟨a, w, _, read⟩ := bindSome.mp read
  exact more a read good

theorem refusesAny (refuses : Leads B r never) : Leads B r B' := fun _ _ _ barred read => absurd (refuses barred read) id

theorem Repeats.within (h : Repeats s s' n whole B r r') (less : m ≤ n) : Repeats s s' m whole B r r' :=
  ⟨h.tail, fun short => h.again (Nat.le_trans short less)⟩

theorem Repeats.barred (h : Repeats s s' n whole B r r') (bars : ∀ t, B t → Past s t ∨ B' t) : Repeats s s' n whole B' r r' :=
  ⟨h.tail, fun short _ _ read good => (h.again short read good).imp_right (Or.elim · Or.inl (bars _))⟩

theorem Repeats.keeping (h : Repeats s s' n whole B r r') (keeps : ∀ t v u, r t = some (v, u) → whole' v → whole v) :
    Repeats s s' n whole' B r r' :=
  ⟨h.tail, fun short _ _ read good => h.again short read (keeps _ _ _ read good)⟩

theorem repeatsLocal (clear : Local r) (tail : Tail r) : Repeats s s' n whole B r r := by
  exact ⟨tail, fun _ _ _ read _ => .inl (clear.again read s')⟩

theorem repeatsPure (v : α) : Repeats s s' n whole B (pure v) (pure v) := repeatsLocal (localPure v) (tailPure v)

theorem Repeats.if {p : Prop} [Decidable p] (yes : Repeats s s' n whole B r r') (no : Repeats s s' n whole B q q') :
    Repeats s s' n whole B (if p then r else q) (if p then r' else q') := by
  split
  · exact yes
  · exact no

theorem Repeats.fork {p : List Char → Bool} {Astray : List Char → Prop}
    (decides : ∀ x, p (x ++ '}' :: s) = p (x ++ '}' :: s') ∨ Astray (x ++ '}' :: s))
    (yes : Repeats s s' n whole B r r') (no : Repeats s s' n whole B q q')
    (strays : Leads Astray r fun u => Past s u ∨ B u) (strays' : Leads Astray q fun u => Past s u ∨ B u) :
    Repeats s s' n whole B (do if p (← left) then r else q) (do if p (← left) then r' else q') := by
  refine ⟨tailBind tailLeft fun text => ?_, fun {x} within {v u} read good => ?_⟩
  · split
    · exact yes.tail
    · exact no.tail
  obtain ⟨_, _, here, read⟩ := bindSome.mp read
  obtain ⟨rfl, rfl⟩ := leftSome.mp here
  split at read
  · rename_i holds
    rcases decides x with same | astray
    · refine (yes.again within read good).imp_left fun ⟨y, left, again⟩ =>
        ⟨y, left, bindSome.mpr ⟨_, _, leftSome.mpr ⟨rfl, rfl⟩, ?_⟩⟩
      rw [if_pos (same.symm.trans holds)]
      exact again
    · exact .inr (strays astray read)
  · rename_i fails
    rcases decides x with same | astray
    · refine (no.again within read good).imp_left fun ⟨y, left, again⟩ =>
        ⟨y, left, bindSome.mpr ⟨_, _, leftSome.mpr ⟨rfl, rfl⟩, ?_⟩⟩
      rw [if_neg (same ▸ fails)]
      exact again
    · exact .inr (strays' astray read)

theorem Repeats.bind (first : Repeats s s' n whole B₁ r r') (more : ∀ a, Repeats s s' n wholes B (k a) (k' a))
    (keeps : ∀ a, Keeps wholes (whole a) (k a)) (leads : ∀ a, Leads B₁ (k a) fun u => Past s u ∨ B u) :
    Repeats s s' n wholes B (r >>= k) (r' >>= k') := by
  refine ⟨tailBind first.tail fun a => (more a).tail, fun {x} short {v u} read good => ?_⟩
  obtain ⟨a, w, reads, read⟩ := bindSome.mp read
  rcases first.again short reads (keeps a read good) with ⟨y, rfl, reads'⟩ | past | barred
  · rcases (more a).again (Nat.le_trans (leftBefore (first.tail reads)) short) read good with ⟨z, rfl, read'⟩ | barred
    · exact .inl ⟨z, rfl, bindSome.mpr ⟨a, _, reads', read'⟩⟩
    · exact .inr barred
  · exact .inr (.inl (pastTail past ((more a).tail read)))
  · exact .inr (leads a barred read)

theorem Repeats.bindShort (first : Repeats s s' (n + 1) whole B₁ r r') (short : Short r)
    (more : ∀ a, Repeats s s' n wholes B (k a) (k' a)) (keeps : ∀ a, Keeps wholes (whole a) (k a))
    (leads : ∀ a, Leads B₁ (k a) fun u => Past s u ∨ B u) : Repeats s s' (n + 1) wholes B (r >>= k) (r' >>= k') := by
  refine ⟨tailBind first.tail fun a => (more a).tail, fun {x} within {v u} read good => ?_⟩
  obtain ⟨a, w, reads, read⟩ := bindSome.mp read
  rcases first.again within reads (keeps a read good) with ⟨y, rfl, reads'⟩ | past | barred
  · have less := (short reads).2
    rw [List.length_append, List.length_append] at less
    rcases (more a).again (by omega) read good with ⟨z, rfl, read'⟩ | barred
    · exact .inl ⟨z, rfl, bindSome.mpr ⟨a, _, reads', read'⟩⟩
    · exact .inr barred
  · exact .inr (.inl (pastTail past ((more a).tail read)))
  · exact .inr (leads a barred read)

theorem Repeats.token (clear : Local r) (tail : Tail r) (more : ∀ a, Repeats s s' n wholes B (k a) (k' a)) :
    Repeats s s' n wholes B (r >>= k) (r >>= k') :=
  have first : Repeats s s' n (fun _ => True) never r r := repeatsLocal clear tail
  first.bind more (fun _ _ _ _ _ _ => trivial) fun _ => leadsNever

theorem Repeats.tokenShort (clear : Local r) (short : Short r) (more : ∀ a, Repeats s s' n wholes B (k a) (k' a)) :
    Repeats s s' (n + 1) wholes B (r >>= k) (r >>= k') :=
  have first : Repeats s s' (n + 1) (fun _ => True) never r r := repeatsLocal clear short.tail
  first.bindShort short more (fun _ _ _ _ _ _ => trivial) fun _ => leadsNever

theorem Repeats.map {f : α → β} (h : Repeats s s' n whole B r r') (keeps : ∀ a, wholes (f a) → whole a) :
    Repeats s s' n wholes B (do return f (← r)) (do return f (← r')) :=
  h.bind (fun _ => repeatsPure _) (fun a => keepsPure (keeps a)) fun _ => leadsPure _ fun _ => .inr

def Optionally (whole : α → Prop) : Option α → Prop
  | none => True
  | some v => whole v

theorem Repeats.tried (h : Repeats s s' n whole B r r')
    (alone : ∀ {x v u}, r' (x ++ '}' :: s') = some (v, u) → r (x ++ '}' :: s) = none → B (x ++ '}' :: s)) :
    Repeats s s' n (Optionally whole) B (Reader.tried r) (Reader.tried r') := by
  refine ⟨tailTried h.tail, fun {x} short {v u} read good => ?_⟩
  rcases triedSome.mp read with ⟨a, rfl, reads⟩ | ⟨rfl, rfl, fails⟩
  · exact (h.again short reads good).imp_left fun ⟨y, same, reads'⟩ => ⟨y, same, triedSome.mpr (.inl ⟨a, rfl, reads'⟩)⟩
  · cases found : r' (x ++ '}' :: s') with
    | none => exact .inl ⟨x, rfl, triedSome.mpr (.inr ⟨rfl, rfl, found⟩)⟩
    | some p => exact .inr (.inr (alone (found : _ = some (p.1, p.2)) fails))

theorem leadsGivenPast {r : Reader Unit} (first : Leads B r (Past s)) : Leads B (given r) fun u => Past s u ∨ B u := by
  intro t b u barred read
  rcases givenSome.mp read with ⟨_, reads⟩ | ⟨_, rfl, _⟩
  · exact .inl (first barred reads)
  · exact .inr barred

theorem leadsManyPast (tail : Tail r) (first : Leads B r (Past s)) : Leads B (many r) fun u => Past s u ∨ B u := by
  intro t v u barred read
  cases t with
  | nil =>
      rw [(pureSome.mp read).2] at barred
      exact .inr barred
  | cons c rest =>
      rcases manyUpToCons.mp read with ⟨_, _, _, reads, more, _⟩ | ⟨_, _, rfl⟩
      · exact .inl (pastTail (first barred reads) (tailManyUpTo tail _ more))
      · exact .inr barred

theorem manyUpToView (r : Reader α) (f : α → β) (bound t : List Char) :
    manyUpTo (do return f (← r)) bound t = (manyUpTo r bound t).map fun p => (p.1.map f, p.2) := by
  induction bound generalizing t with
  | nil => rfl
  | cons c bound ih =>
      have wrapped : (do return f (← r) : Reader β) t = (r t).map fun p => (f p.1, p.2) := by
        change (r t).bind _ = _
        cases r t with
        | none => rfl
        | some p => rfl
      rw [manyUpTo, manyUpTo]
      dsimp only
      rw [wrapped]
      cases r t with
      | none => rfl
      | some p =>
          change (manyUpTo _ bound p.2).bind _ = ((manyUpTo r bound p.2).bind _).map _
          rw [ih]
          cases manyUpTo r bound p.2 with
          | none => rfl
          | some q => rfl

theorem manyView (r : Reader α) (f : α → β) : many (do return f (← r)) = (do return (← many r).map f) := by
  funext t
  refine (manyUpToView r f t t).trans ?_
  change _ = (manyUpTo r t t).bind _
  cases manyUpTo r t t with
  | none => rfl
  | some p => rfl

theorem runLength (short : Short r) {vs : List α} (run : Run r t vs u) : vs.length + u.length ≤ t.length := by
  induction run with
  | stop => simp
  | step reads _ ih =>
      have less := (short reads).2
      rw [List.length_cons]
      omega

theorem Repeats.many (short : Short r) (short' : Short r') (h : Repeats s s' n whole B₁ r r')
    (ends : ∀ t, B₁ t → r t = none ∧ B t)
    (alone : ∀ {x v u}, r' (x ++ '}' :: s') = some (v, u) → r (x ++ '}' :: s) = none → B (x ++ '}' :: s)) :
    Repeats s s' n (fun vs => ∀ v ∈ vs, whole v) B (Reader.many r) (Reader.many r') := by
  refine ⟨tailMany h.tail, fun {x} within {vs u} read good => ?_⟩
  have run := manyRun short read
  have again : (∃ y, u = y ++ '}' :: s ∧ Run r' (x ++ '}' :: s') vs (y ++ '}' :: s')) ∨ Past s u ∨ B u := by
    clear read
    generalize start : x ++ '}' :: s = t at run
    induction run generalizing x with
    | stop fails =>
        subst start
        cases found : r' (x ++ '}' :: s') with
        | none => exact .inl ⟨x, rfl, .stop found⟩
        | some p => exact .inr (.inr (alone (found : _ = some (p.1, p.2)) fails))
    | @step t w u v vs reads more ih =>
        subst start
        rcases h.again within reads (good v List.mem_cons_self) with ⟨y, rfl, reads'⟩ | past | barred
        · have less := leftBefore (h.tail reads)
          rcases ih (Nat.le_trans less within) (fun a member => good a (List.mem_cons_of_mem _ member)) rfl with
            ⟨z, rfl, run'⟩ | barred
          · exact .inl ⟨z, rfl, .step reads' run'⟩
          · exact .inr barred
        · exact .inr (.inl (pastTail past (runTail h.tail more)))
        · obtain ⟨fails, barred⟩ := ends w barred
          obtain ⟨_, rfl⟩ := runAtEnd fails more
          exact .inr (.inr barred)
  refine again.imp_left fun ⟨y, same, run'⟩ => ⟨y, same, manyOfRun run' ?_⟩
  exact Nat.le_trans (Nat.le_add_right _ _) (runLength short' run')

end

end DeclOrder.Hcl
