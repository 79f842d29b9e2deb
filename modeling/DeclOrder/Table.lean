/-! Tables: values under string keys, ascending by key and with every key once. Keys compare by code
points, which is also the order of their UTF-8 bytes. -/
namespace DeclOrder

def Ascending {α : Type} (entries : List (String × α)) : Prop :=
  entries.Pairwise (fun a b => a.1 < b.1)

instance {α : Type} (entries : List (String × α)) : Decidable (Ascending entries) :=
  inferInstanceAs (Decidable (entries.Pairwise (fun a b => a.1 < b.1)))

structure Table (α : Type) where
  entries : List (String × α)
  ascending : Ascending entries

namespace Table
variable {α β : Type}

def empty : Table α := ⟨[], .nil⟩

instance : Inhabited (Table α) := ⟨empty⟩

def put (key : String) (value : α) : List (String × α) → List (String × α)
  | [] => [(key, value)]
  | (k, v) :: rest =>
      if key < k then (key, value) :: (k, v) :: rest
      else if k = key then (key, value) :: rest
      else (k, v) :: put key value rest

theorem memPut {key : String} {value : α} {entries : List (String × α)} {e : String × α}
    (h : e ∈ put key value entries) : e = (key, value) ∨ e ∈ entries := by
  induction entries with
  | nil => simpa [put] using h
  | cons head rest ih =>
      obtain ⟨k, v⟩ := head
      unfold put at h
      split at h
      · simpa using h
      · split at h
        · rcases List.mem_cons.mp h with h | h
          · exact .inl h
          · exact .inr (List.mem_cons_of_mem _ h)
        · rcases List.mem_cons.mp h with h | h
          · exact .inr (h ▸ List.mem_cons_self)
          · exact (ih h).imp_right (List.mem_cons_of_mem _)

theorem putAscending {key : String} {value : α} {entries : List (String × α)} (h : Ascending entries) :
    Ascending (put key value entries) := by
  induction entries with
  | nil => simp [put, Ascending]
  | cons head rest ih =>
      obtain ⟨k, v⟩ := head
      obtain ⟨first, tail⟩ := List.pairwise_cons.mp h
      unfold put
      split
      · rename_i lt
        refine List.pairwise_cons.mpr ⟨fun e he => ?_, h⟩
        rcases List.mem_cons.mp he with he | he
        · subst he; exact lt
        · exact String.lt_trans lt (first e he)
      · rename_i notLt
        split
        · rename_i same
          subst same
          exact List.pairwise_cons.mpr ⟨first, tail⟩
        · rename_i differ
          refine List.pairwise_cons.mpr ⟨fun e he => ?_, ih tail⟩
          rcases memPut he with he | he
          · subst he
            apply String.not_le.mp
            intro le
            exact differ (String.le_antisymm (String.not_lt.mp notLt) le)
          · exact first e he

def insert (t : Table α) (key : String) (value : α) : Table α :=
  ⟨put key value t.entries, putAscending t.ascending⟩

def erase (t : Table α) (key : String) : Table α :=
  ⟨t.entries.filter (·.1 != key), t.ascending.sublist List.filter_sublist⟩

def find? (t : Table α) (key : String) : Option α := t.entries.lookup key

def contains (t : Table α) (key : String) : Bool := (t.find? key).isSome

/-- The entries in order; of two with one key the last is kept. -/
def ofList (entries : List (String × α)) : Table α :=
  entries.foldl (fun t e => t.insert e.1 e.2) empty

def keys (t : Table α) : List String := t.entries.map Prod.fst

def values (t : Table α) : List α := t.entries.map Prod.snd

theorem lookupCons (k : String) (v : α) (rest : List (String × α)) (key : String) :
    ((k, v) :: rest).lookup key = if key = k then some v else rest.lookup key := by
  rw [List.lookup_cons]
  by_cases here : key = k <;> simp [here, beq_eq_false_iff_ne.mpr]

theorem findInsert (t : Table α) (key : String) (value : α) (k : String) :
    (t.insert key value).find? k = if k = key then some value else t.find? k := by
  show (put key value t.entries).lookup k = if k = key then some value else t.entries.lookup k
  induction t.entries with
  | nil => exact lookupCons key value [] k
  | cons head rest ih =>
      obtain ⟨k', v⟩ := head
      unfold put
      split
      · exact lookupCons key value ((k', v) :: rest) k
      · split
        · rename_i replaced
          rw [lookupCons, lookupCons, replaced]
          split <;> rfl
        · rename_i differ
          rw [lookupCons, lookupCons, ih]
          by_cases here : k = k'
          · rw [if_pos here, if_pos here, if_neg (here ▸ differ)]
          · rw [if_neg here, if_neg here]

theorem findErase (t : Table α) (key k : String) :
    (t.erase key).find? k = if k = key then none else t.find? k := by
  show (t.entries.filter (·.1 != key)).lookup k = if k = key then none else t.entries.lookup k
  induction t.entries with
  | nil => simp
  | cons head rest ih =>
      obtain ⟨k', v⟩ := head
      rw [List.filter_cons, lookupCons]
      by_cases erased : k' = key
      · rw [if_neg (by simp [erased]), ih, erased]
        split <;> rfl
      · rw [if_pos (by simpa using erased), lookupCons, ih]
        by_cases here : k = k'
        · rw [if_pos here, if_pos here, if_neg (here ▸ erased)]
        · rw [if_neg here, if_neg here]

theorem ascendingKeys {key : α → String} {l : List α} (ascending : l.Pairwise (fun a b => key a < key b)) :
    (l.map key).Nodup := by
  rw [List.nodup_iff_pairwise_ne, List.pairwise_map]
  refine ascending.imp (fun {a b} lt same => ?_)
  rw [same] at lt
  exact String.lt_irrefl _ lt

theorem ascendingUnique {key : α → String} {l m : List α} (left : l.Pairwise (fun a b => key a < key b))
    (right : m.Pairwise (fun a b => key a < key b)) (same : ∀ a, a ∈ l ↔ a ∈ m) : l = m := by
  have distinct {l : List α} (ascending : l.Pairwise (fun a b => key a < key b)) : l.Nodup :=
    List.Pairwise.of_map key (fun a b differ same => differ (congrArg _ same)) (ascendingKeys ascending)
  have perm := (List.perm_ext_iff_of_nodup (distinct left) (distinct right)).mpr same
  exact perm.eq_of_pairwise (fun _ _ _ _ ab ba => (String.lt_irrefl _ (String.lt_trans ab ba)).elim) left right

theorem lookupMem {entries : List (String × α)} (distinct : (entries.map Prod.fst).Nodup) {key : String} {value : α} :
    entries.lookup key = some value ↔ (key, value) ∈ entries := by
  induction entries with
  | nil => simp
  | cons head rest ih =>
      obtain ⟨k, v⟩ := head
      obtain ⟨first, tail⟩ := List.nodup_cons.mp distinct
      rw [lookupCons, List.mem_cons]
      by_cases here : key = k
      · subst here
        have later : (key, value) ∉ rest := fun member => first (List.mem_map.mpr ⟨_, member, rfl⟩)
        simp [later, eq_comm]
      · simp [here, ih tail]

theorem memFind {t : Table α} {key : String} {value : α} :
    (key, value) ∈ t.entries ↔ t.find? key = some value := (lookupMem (ascendingKeys t.ascending)).symm

theorem findUnique {t u : Table α} (same : ∀ key, t.find? key = u.find? key) : t = u := by
  have entries : t.entries = u.entries :=
    ascendingUnique t.ascending u.ascending (fun e => by rw [memFind, memFind, same])
  cases t; cases u
  cases entries
  rfl

theorem findOfList (entries : List (String × α)) (key : String) :
    (ofList entries).find? key = entries.reverse.lookup key := by
  have step (t : Table α) : (entries.foldl (fun t e => t.insert e.1 e.2) t).find? key =
      (entries.reverse.lookup key).or (t.find? key) := by
    induction entries generalizing t with
    | nil => rfl
    | cons e rest ih =>
        obtain ⟨k, v⟩ := e
        rw [List.foldl_cons, ih, findInsert, List.reverse_cons, List.lookup_append, lookupCons]
        by_cases here : key = k <;> simp [here]
  exact (step empty).trans (Option.or_none ..)

theorem lookupReverse {entries : List (String × α)} (distinct : (entries.map Prod.fst).Nodup) (key : String) :
    entries.reverse.lookup key = entries.lookup key := by
  have reversed : (entries.reverse.map Prod.fst).Nodup := by
    rw [List.map_reverse, List.nodup_iff_pairwise_ne, List.pairwise_reverse]
    exact (List.nodup_iff_pairwise_ne.mp distinct).imp Ne.symm
  ext value
  rw [lookupMem reversed, lookupMem distinct, List.mem_reverse]

theorem ofListAscending {entries : List (String × α)} (ascending : Ascending entries) :
    (ofList entries).entries = entries := by
  have same : ofList entries = ⟨entries, ascending⟩ := findUnique (fun key => by
    rw [findOfList, lookupReverse (ascendingKeys ascending)]
    rfl)
  rw [same]

theorem memKeys {t : Table α} {key : String} : key ∈ t.keys ↔ (t.find? key).isSome := by
  rw [keys, find?, List.lookup_isSome_iff]
  simp

theorem memOfList {entries : List (String × α)} {key : String} :
    key ∈ (ofList entries).keys ↔ key ∈ entries.map Prod.fst := by
  rw [memKeys, findOfList, List.lookup_isSome_iff]
  simp

end Table
end DeclOrder
