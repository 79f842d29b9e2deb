import DeclOrder.Proofs.Hcl.Expression

/-! Readers of single tokens in front of a closing brace. They neither take it nor look behind it, so they
read there what they read where the text ends. -/
namespace DeclOrder.Hcl
open Text Reader Read

/-- Reads in front of a closing brace what it reads at the end of the text. -/
def Local {α : Type} (r : Reader α) : Prop :=
  ∀ x s, r (x ++ '}' :: s) = (r x).map fun p => (p.1, p.2 ++ '}' :: s)

variable {α β : Type} {r r' : Reader α} {k : α → Reader β} {c : Char} {p : Char → Bool}

theorem Local.again (clear : Local r) {x s u : List Char} {v : α} (read : r (x ++ '}' :: s) = some (v, u)) (s' : List Char) :
    ∃ y, u = y ++ '}' :: s ∧ r (x ++ '}' :: s') = some (v, y ++ '}' :: s') := by
  rw [clear] at read ⊢
  obtain ⟨p, found, same⟩ := Option.map_eq_some_iff.mp read
  cases same
  exact ⟨p.2, rfl, by rw [found]; rfl⟩

theorem localPure (v : α) : Local (pure v : Reader α) := fun _ _ => rfl

theorem localFailure : Local (failure : Reader α) := fun _ _ => rfl

theorem localBind (first : Local r) (more : ∀ a, Local (k a)) : Local (r >>= k) := by
  intro x s
  change (r (x ++ '}' :: s)).bind _ = ((r x).bind _).map _
  rw [first]
  cases r x with
  | none => rfl
  | some q => exact more q.1 q.2 s

theorem localTried (first : Local r) : Local (tried r) := by
  intro x s
  unfold tried
  rw [first]
  cases r x with
  | none => rfl
  | some q => rfl

theorem localGiven {r : Reader Unit} (first : Local r) : Local (given r) :=
  localBind (localTried first) fun _ => localPure _

theorem localIf {q : Prop} [Decidable q] (yes : Local r) (no : Local r') : Local (if q then r else r') := by
  split
  · exact yes
  · exact no

theorem localChar (other : c ≠ '}') : Local (char c) := by
  intro x s
  cases x with
  | nil => exact charNone (by simpa using Ne.symm other)
  | cons d rest =>
      by_cases same : c = d
      · subst same
        rw [List.cons_append, charSome (x := ()) |>.mpr rfl, charSome (x := ()) |>.mpr rfl]
        rfl
      · rw [charNone (by simpa using Ne.symm same), charNone (by simpa using Ne.symm same)]
        rfl

theorem localWord {w : List Char} (other : '}' ∉ w) : Local (word w) := by
  induction w with
  | nil => exact fun _ _ => rfl
  | cons c rest ih =>
      rw [wordCons]
      exact localBind (localChar fun same => other (same ▸ List.mem_cons_self)) fun _ =>
        ih fun member => other (List.mem_cons_of_mem _ member)

theorem localKeyword {w : String} (other : '}' ∉ w.toList) : Local (keyword w) := localWord other

theorem takeWhileLocal (stops : p '}' = false) (x s : List Char) :
    (x ++ '}' :: s).takeWhile p = x.takeWhile p ∧ (x ++ '}' :: s).dropWhile p = x.dropWhile p ++ '}' :: s := by
  induction x with
  | nil => simp [stops]
  | cons d rest ih => cases goes : p d <;> simp [goes, ih]

theorem localIdentifier : Local identifier := by
  intro x s
  cases x with
  | nil => rfl
  | cons c rest =>
      obtain ⟨taken, dropped⟩ := takeWhileLocal (p := continuesIdentifier) (by decide) rest s
      simp only [identifier, List.cons_append, taken, dropped]
      split <;> rfl

theorem localDigits : Local digits := by
  intro x s
  obtain ⟨taken, dropped⟩ := takeWhileLocal (p := isDigit) (by decide) x s
  simp only [digits, taken, dropped]
  split <;> rfl

theorem localWholeNumber : Local wholeNumber :=
  localBind localDigits fun _ => localIf (localPure _) localFailure

theorem localFraction : Local fraction := localBind (localChar (by decide)) fun _ => localDigits

theorem localPower : Local power := by
  have sign : Local (do
      if ← given (char '-') then return (['-'], ← digits)
      let _ ← given (char '+')
      return ([], ← digits) : Reader (List Char × List Char)) := by
    refine localBind (localGiven (localChar (by decide))) fun minus => localIf ?_ ?_
    · exact localBind localDigits fun _ => localPure _
    · exact localBind (localGiven (localChar (by decide))) fun _ => localBind localDigits fun _ => localPure _
  refine localBind (localGiven (localChar (by decide))) fun small => localIf sign ?_
  exact localBind (localChar (by decide)) fun _ => sign

theorem localNumber : Local number := by
  refine localBind localDigits fun whole => localBind (localTried localFraction) fun part =>
    localBind (localTried localPower) fun scale => ?_
  split
  · exact localIf (localPure _) localFailure
  · dsimp only
    split
    · exact localPure _
    · exact localFailure

/-- What a brace is put behind goes on as before. -/
def Onward (t t' : List Char) : Prop := ∀ c, c ≠ '}' → (t.head? = some c ↔ t'.head? = some c)

theorem onwardBrace (x s : List Char) : Onward x (x ++ '}' :: s) ∧ Onward (x ++ '}' :: s) x := by
  cases x with
  | nil => exact ⟨fun c other => by simp [Ne.symm other], fun c other => by simp [Ne.symm other]⟩
  | cons d rest => exact ⟨fun c _ => by simp, fun c _ => by simp⟩

theorem localOfTaken (taken : ∀ t v u, r t = some (v, u) → ∃ front, '}' ∉ front ∧ t = front ++ u ∧
    ∀ u', Onward u u' → r (front ++ u') = some (v, u')) : Local r := by
  intro x s
  cases read : r (x ++ '}' :: s) with
  | some q =>
      obtain ⟨v, u⟩ := q
      obtain ⟨front, clear, whole, again⟩ := taken _ v u read
      obtain ⟨y, rfl, rfl⟩ : ∃ y, x = front ++ y ∧ u = y ++ '}' :: s := by
        rcases List.append_eq_append_iff.mp whole with ⟨y, same, brace⟩ | taken
        · cases y with
          | nil => exact ⟨[], by simpa using same.symm, brace.symm⟩
          | cons d y =>
              rw [same, ← (List.cons.inj brace).1] at clear
              exact absurd (by simp) clear
        · exact taken
      rw [again y (onwardBrace y s).2]
      rfl
  | none =>
      cases read' : r x with
      | none => rfl
      | some q =>
          obtain ⟨v, u⟩ := q
          obtain ⟨front, clear, rfl, again⟩ := taken _ v u read'
          rw [List.append_assoc, again _ (onwardBrace u s).1] at read
          contradiction

theorem localLineBreak : Local lineBreak := by
  refine localOfTaken fun t _ u read => ?_
  rcases lineBreakSome.mp read with rfl | rfl
  · exact ⟨['\n'], by decide, rfl, fun _ _ => rfl⟩
  · exact ⟨['\r', '\n'], by decide, rfl, fun _ _ => rfl⟩

theorem localUnaryOp : Local unaryOp := by
  refine localOfTaken fun t op u read => ?_
  rcases unaryOpSome.mp read with ⟨rfl, rfl⟩ | ⟨rfl, rfl⟩
  · exact ⟨['-'], by decide, rfl, fun _ _ => rfl⟩
  · exact ⟨['!'], by decide, rfl, fun _ _ => rfl⟩

theorem localBinaryOp : Local binaryOp? := by
  refine localOfTaken fun t op u found => ?_
  unfold binaryOp? at found
  split at found
  · cases found
    exact ⟨['=', '='], by decide, rfl, fun _ _ => rfl⟩
  · cases found
    exact ⟨['!', '='], by decide, rfl, fun _ _ => rfl⟩
  · cases found
    exact ⟨['<', '='], by decide, rfl, fun _ _ => rfl⟩
  · cases found
    exact ⟨['>', '='], by decide, rfl, fun _ _ => rfl⟩
  · cases found
    exact ⟨['&', '&'], by decide, rfl, fun _ _ => rfl⟩
  · cases found
    exact ⟨['|', '|'], by decide, rfl, fun _ _ => rfl⟩
  · contradiction
  · rename_i notEquals
    cases found
    refine ⟨['<'], by decide, rfl, fun u' onward => lessAlone fun head => ?_⟩
    obtain ⟨x, rfl⟩ := List.head?_eq_some_iff.mp ((onward '=' (by decide)).mpr head)
    exact notEquals x rfl
  · rename_i notEquals
    cases found
    refine ⟨['>'], by decide, rfl, fun u' onward => greaterAlone fun head => ?_⟩
    obtain ⟨x, rfl⟩ := List.head?_eq_some_iff.mp ((onward '=' (by decide)).mpr head)
    exact notEquals x rfl
  · cases found
    exact ⟨['+'], by decide, rfl, fun _ _ => rfl⟩
  · cases found
    exact ⟨['-'], by decide, rfl, fun _ _ => rfl⟩
  · cases found
    exact ⟨['*'], by decide, rfl, fun _ _ => rfl⟩
  · rename_i notSlash
    cases found
    refine ⟨['/'], by decide, rfl, fun u' onward => slashAlone fun head => ?_⟩
    obtain ⟨x, rfl⟩ := List.head?_eq_some_iff.mp ((onward '/' (by decide)).mpr head)
    exact notSlash x rfl
  · cases found
    exact ⟨['%'], by decide, rfl, fun _ _ => rfl⟩
  · contradiction

theorem hexClear {d : Char} (noDigit : hexValue? d = none) {text : List Char} {found : List Nat}
    (hex : text.mapM hexValue? = some found) : d ∉ text := by
  induction text generalizing found with
  | nil => exact List.not_mem_nil
  | cons c rest ih =>
      rw [List.mapM_cons] at hex
      obtain ⟨n, first, more⟩ := Option.bind_eq_some_iff.mp hex
      obtain ⟨ns, second, _⟩ := Option.bind_eq_some_iff.mp more
      intro member
      rcases List.mem_cons.mp member with rfl | member
      · rw [noDigit] at first
        contradiction
      · exact ih second member

theorem localHex (n : Nat) : Local (hexOf n) := by
  refine localOfTaken fun t v u read => ?_
  unfold hexOf at read
  obtain ⟨found, hex, rest⟩ := Option.bind_eq_some_iff.mp read
  split at rest
  · rename_i length
    cases rest
    refine ⟨t.take n, hexClear (by decide) hex, (List.take_append_drop n t).symm, fun u' _ => ?_⟩
    have size : (t.take n).length = n := (hexRun hex).1.symm.trans length
    simp only [hexOf, List.take_left' size, List.drop_left' size, hex, bind, Option.bind_some, if_pos length]
  · contradiction

theorem localScalar (n : Nat) : Local (scalarOf n) :=
  localBind (localHex n) fun _ => localIf (localPure _) localFailure

theorem localSkip (stops : p '}' = false) : Local (skip (List.dropWhile p)) := by
  intro x s
  rw [skip, (takeWhileLocal stops x s).2]
  rfl

theorem localMarker {marker : List Char} (clear : '}' ∉ marker) : Local (endMarker marker) := by
  have steps : endMarker marker = (do lineBreak; skip (List.dropWhile isGap); word marker) := by
    funext t
    refine Option.ext fun q => ?_
    obtain ⟨v, u⟩ := q
    rw [endMarkerSome, afterMarkerSome]
    constructor
    · rintro ⟨line, ends, found⟩
      exact bindSome.mpr ⟨(), line, ends, bindSome.mpr ⟨(), _, skipSome.mpr rfl, wordSome.mpr found⟩⟩
    · intro read
      obtain ⟨_, line, ends, read⟩ := bindSome.mp read
      obtain ⟨_, w, skips, read⟩ := bindSome.mp read
      exact ⟨line, ends, (skipSome.mp skips).trans (wordSome.mp read)⟩
  rw [steps]
  exact localBind localLineBreak fun _ => localBind (localSkip (by decide)) fun _ => localWord clear

theorem localMember (c : Char) : Local (memberAt c) :=
  localIf (localBind localWholeNumber fun _ => localPure _) (localBind localIdentifier fun _ => localPure _)

theorem localConstant (name : String) : Local (constant name) :=
  localIf (localPure _) (localIf (localPure _) (localIf (localPure _) (localPure _)))

theorem frontLocal (front x s : List Char) (clear : '}' ∉ front) :
    (∃ w, x ++ '}' :: s = front ++ w) ↔ ∃ w, x = front ++ w := by
  have reads := localWord clear x s
  constructor
  · rintro ⟨w, same⟩
    rw [wordSome (x := ()) |>.mpr same] at reads
    obtain ⟨q, read, _⟩ := Option.map_eq_some_iff.mp reads.symm
    exact ⟨q.2, wordSome.mp read⟩
  · rintro ⟨w, rfl⟩
    exact ⟨w ++ '}' :: s, List.append_assoc _ _ _⟩

def forFronts : List (List Char) :=
  ["for//", "for/*", "for ", "for\t", "for\r", "for\n", "for#"].map String.toList

theorem startsForFronts {t : List Char} : startsFor t = true ↔ ∃ front ∈ forFronts, ∃ w, t = front ++ w := by
  rw [startsForIff]
  constructor
  · rintro ⟨w, rfl, ⟨y, rfl⟩ | ⟨y, rfl⟩ | ⟨c, y, rfl, member⟩⟩
    · exact ⟨"for//".toList, by decide, y, rfl⟩
    · exact ⟨"for/*".toList, by decide, y, rfl⟩
    · refine ⟨['f', 'o', 'r', c], ?_, y, rfl⟩
      simp only [List.mem_cons, List.not_mem_nil, or_false] at member
      rcases member with rfl | rfl | rfl | rfl | rfl <;> decide
  · rintro ⟨front, member, w, rfl⟩
    simp only [forFronts, List.map_cons, List.map_nil, List.mem_cons, List.not_mem_nil, or_false] at member
    rcases member with rfl | rfl | rfl | rfl | rfl | rfl | rfl
    · exact ⟨_, rfl, .inl ⟨w, rfl⟩⟩
    · exact ⟨_, rfl, .inr (.inl ⟨w, rfl⟩)⟩
    all_goals exact ⟨_, rfl, .inr (.inr ⟨_, w, rfl, by decide⟩)⟩

theorem startsForLocal (x s : List Char) : startsFor (x ++ '}' :: s) = startsFor x := by
  have clear : ∀ front ∈ forFronts, '}' ∉ front := by decide
  rw [Bool.eq_iff_iff, startsForFronts, startsForFronts]
  exact exists_congr fun front => and_congr_right fun member => frontLocal front x s (clear front member)

theorem localEscape : Local escape? := by
  intro x s
  cases x with
  | nil => rfl
  | cons c rest =>
      by_cases short : c = 'u'
      · subst short
        exact localScalar 4 rest s
      by_cases long : c = 'U'
      · subst long
        exact localScalar 8 rest s
      rw [List.cons_append]
      unfold escape?
      split <;> simp_all

end DeclOrder.Hcl
