/-! Stable sorting by a total preorder. Two sorted lists are equal when the elements of each tie stand
in the same order in both, so what a stable sort yields depends on nothing else. -/
namespace DeclOrder.StableSort

variable {α : Type} {le : α → α → Bool}

def tied (le : α → α → Bool) (a b : α) : Bool := le a b && le b a

/-- `m` is `l` in order, the elements of each tie as they stand in `l`. -/
structure StablySorted (le : α → α → Bool) (l m : List α) : Prop where
  perm : m.Perm l
  ordered : m.Pairwise (le · ·)
  ties : ∀ x, m.filter (tied le x) = l.filter (tied le x)

section
variable (trans : ∀ a b c, le a b → le b c → le a c) (total : ∀ a b, le a b || le b a)
include total

theorem tiedSelf (a : α) : tied le a a = true := by
  have reflexive : le a a = true := by simpa using total a a
  simp [tied, reflexive]

theorem headFirst {a b : α} {l : List α} (sorted : (a :: l).Pairwise (le · ·)) (member : b ∈ a :: l) :
    le a b = true := by
  rcases List.mem_cons.mp member with rfl | later
  · simpa using total b b
  · exact (List.pairwise_cons.mp sorted).1 b later

theorem sortedUnique {l m : List α} (left : l.Pairwise (le · ·)) (right : m.Pairwise (le · ·))
    (ties : ∀ x, l.filter (tied le x) = m.filter (tied le x)) : l = m := by
  have self (a : α) : tied le a a = true := tiedSelf total a
  induction l generalizing m with
  | nil =>
      cases m with
      | nil => rfl
      | cons b m => simpa [List.filter_cons, self] using ties b
  | cons a l ih =>
      cases m with
      | nil => simpa [List.filter_cons, self] using ties a
      | cons b m =>
          have inRight : a ∈ b :: m := by
            have here : a ∈ (a :: l).filter (tied le a) := by simp [self]
            rw [ties] at here
            exact (List.mem_filter.mp here).1
          have inLeft : b ∈ a :: l := by
            have here : b ∈ (b :: m).filter (tied le b) := by simp [self]
            rw [← ties] at here
            exact (List.mem_filter.mp here).1
          have level : tied le a b = true := by
            simp [tied, headFirst total left inLeft, headFirst total right inRight]
          have same : a = b := by
            have heads := ties a
            rw [List.filter_cons_of_pos (self a), List.filter_cons_of_pos level] at heads
            exact (List.cons.inj heads).1
          subst same
          have tails (x : α) : l.filter (tied le x) = m.filter (tied le x) := by
            have both := ties x
            rw [List.filter_cons, List.filter_cons] at both
            split at both
            · exact (List.cons.inj both).2
            · exact both
          rw [ih (List.pairwise_cons.mp left).2 (List.pairwise_cons.mp right).2 tails]

include trans

theorem filterTied (l : List α) (x : α) : (l.mergeSort le).filter (tied le x) = l.filter (tied le x) := by
  have level : (l.filter (tied le x)).Pairwise (le · ·) := by
    refine List.pairwise_iff_forall_sublist.mpr (fun {a b} pair => ?_)
    have ha : tied le x a = true := (List.mem_filter.mp (pair.subset (by simp))).2
    have hb : tied le x b = true := (List.mem_filter.mp (pair.subset (by simp))).2
    simp only [tied, Bool.and_eq_true] at ha hb
    exact trans a x b ha.2 hb.1
  have kept := (List.sublist_mergeSort trans total level List.filter_sublist).filter (tied le x)
  rw [List.filter_filter] at kept
  simp only [Bool.and_self] at kept
  exact (kept.eq_of_length ((List.mergeSort_perm l le).filter _).length_eq.symm).symm

theorem sortAlike {l m : List α} (ties : ∀ x, l.filter (tied le x) = m.filter (tied le x)) :
    l.mergeSort le = m.mergeSort le :=
  sortedUnique total (List.pairwise_mergeSort trans total l) (List.pairwise_mergeSort trans total m)
    (fun x => by rw [filterTied trans total, filterTied trans total, ties])

theorem mergeSortStable (l : List α) : StablySorted le l (l.mergeSort le) :=
  ⟨List.mergeSort_perm l le, List.pairwise_mergeSort trans total l, filterTied trans total l⟩

/-- There is one way only to sort stably. -/
theorem stablySortedIff {l m : List α} : StablySorted le l m ↔ m = l.mergeSort le := by
  constructor
  · intro sorted
    refine sortedUnique total sorted.ordered (List.pairwise_mergeSort trans total l) (fun x => ?_)
    rw [sorted.ties, filterTied trans total]
  · rintro rfl
    exact mergeSortStable trans total l

theorem filterSorted (keep : α → Bool) (l : List α) :
    (l.mergeSort le).filter keep = (l.filter keep).mergeSort le := by
  have swap (x : α) (m : List α) : (m.filter keep).filter (tied le x) = (m.filter (tied le x)).filter keep := by
    simp only [List.filter_filter, Bool.and_comm]
  refine sortedUnique total ?_ (List.pairwise_mergeSort trans total _) (fun x => ?_)
  · exact (List.pairwise_mergeSort trans total l).sublist List.filter_sublist
  · rw [swap, filterTied trans total, filterTied trans total, swap]

end
end DeclOrder.StableSort
