import DeclOrder.Json.Decoding
import DeclOrder.Proofs.Json.Order

/-! Decoding what was encoded: a record is decoded from its object, whatever the order of the fields
there, once every field says its part of the record. -/
namespace DeclOrder.Json
open Decoder

theorem lookupSettled (fields : List (String × Json)) (key : String) :
    (settledFields fields).lookup key = (fields.lookup key).map settled := by
  induction fields with
  | nil => rfl
  | cons head rest ih =>
      obtain ⟨k, v⟩ := head
      rw [settledFields, Table.lookupCons, Table.lookupCons, ih]
      split <;> rfl

theorem keysSettled (fields : List (String × Json)) : (settledFields fields).map Prod.fst = fields.map Prod.fst := by
  induction fields with
  | nil => rfl
  | cons head rest ih => rw [settledFields, List.map_cons, List.map_cons, ih]

def filled (slots : List (String × Option Json)) : List (String × Json) :=
  slots.filterMap (fun s => s.2.map (fun value => (s.1, value)))

theorem filledKeys (slots : List (String × Option Json)) :
    ((filled slots).map Prod.fst).Sublist (slots.map Prod.fst) := by
  induction slots with
  | nil => exact List.Sublist.refl _
  | cons s rest ih =>
      obtain ⟨name, value⟩ := s
      cases value with
      | none => exact ih.cons name
      | some value => exact ih.cons_cons name

theorem memFilled {slots : List (String × Option Json)} {name : String} {value : Json} :
    (name, value) ∈ filled slots ↔ (name, some value) ∈ slots := by
  simp [filled]

theorem lookupFilled {slots : List (String × Option Json)} (distinct : (slots.map Prod.fst).Nodup)
    {s : String × Option Json} (member : s ∈ slots) : (filled slots).lookup s.1 = s.2 := by
  have keys := (filledKeys slots).nodup distinct
  ext value
  rw [Table.lookupMem keys, memFilled, ← Table.lookupMem distinct]
  have here := (Table.lookupMem distinct).mpr member
  rw [here, Option.some_inj]

/-- Values that are written without loss and nest at most so many levels deep. -/
structure Writable (d : Nat) (v : Json) : Prop where
  exact : isExact v
  shallow : depth v ≤ d

theorem Writable.weaken {d e : Nat} {v : Json} (writable : Writable d v) (le : d ≤ e) : Writable e v :=
  ⟨writable.exact, Nat.le_trans writable.shallow le⟩

theorem filledWritable {d : Nat} {slots : List (String × Option Json)} (each : ∀ s ∈ slots, ∀ v ∈ s.2, Writable d v) :
    Writable (d + 1) (.object (filled slots)) := by
  have fields : fieldsExact (filled slots) ∧ fieldsDepth (filled slots) ≤ d := by
    induction slots with
    | nil => exact ⟨rfl, Nat.zero_le d⟩
    | cons s rest ih =>
        obtain ⟨name, value⟩ := s
        obtain ⟨here, others⟩ := List.forall_mem_cons.mp each
        cases value with
        | none => exact ih others
        | some value =>
            have first := here value rfl
            exact ⟨Bool.and_eq_true_iff.mpr ⟨first.exact, (ih others).1⟩, Nat.max_le.mpr ⟨first.shallow, (ih others).2⟩⟩
  exact ⟨fields.1, Nat.succ_le_succ fields.2⟩

theorem setWritable {d : Nat} {value : Json} (writable : Writable d value) : ∀ v ∈ some value, Writable d v := by
  rintro _ ⟨⟩
  exact writable

theorem optionalWritable {α : Type} {d : Nat} {encode : α → Json} {o : Option α} (each : ∀ a ∈ o, Writable d (encode a)) :
    ∀ v ∈ o.map encode, Writable d v := by
  intro v member
  obtain ⟨a, some, rfl⟩ := Option.map_eq_some_iff.mp member
  exact each a some

theorem arrayWritable {α : Type} {d : Nat} {encode : α → Json} {l : List α} (each : ∀ a ∈ l, Writable d (encode a)) :
    Writable (d + 1) (.array (l.map encode)) := by
  have items : areExact (l.map encode) ∧ itemsDepth (l.map encode) ≤ d := by
    induction l with
    | nil => exact ⟨rfl, Nat.zero_le d⟩
    | cons a rest ih =>
        obtain ⟨here, others⟩ := List.forall_mem_cons.mp each
        exact ⟨Bool.and_eq_true_iff.mpr ⟨here.exact, (ih others).1⟩, Nat.max_le.mpr ⟨here.shallow, (ih others).2⟩⟩
  exact ⟨items.1, Nat.succ_le_succ items.2⟩

theorem stringWritable (d : Nat) (text : String) : Writable d (.string text) := ⟨rfl, Nat.zero_le d⟩

theorem wordWritable (d : Nat) {n : Nat} (fits : isWord 32 n) : Writable d (.ofNat n) := by
  have small : (n : Int) < twoTo 32 := by simpa [isWord] using fits
  have wider : (twoTo 32 : Int) ≤ twoTo 64 := by decide
  refine ⟨?_, Nat.zero_le d⟩
  show isExactInteger n
  have above : -(twoTo 63 : Int) ≤ n := by omega
  simp only [isExactInteger, above, Int.lt_of_lt_of_le small wider, decide_true, Bool.and_self]

namespace Decoder
variable {α : Type}

def Holds (decode : Decoder α) (fallback : Option α) (a : α) : Option Json → Prop
  | some value => decode (settled value) = .ok a
  | none => fallback = some a

theorem Holds.get {decode : Decoder α} {a : α} {stored : Option Json} (holds : Holds decode none a stored) {f : Fields}
    {name : String} (found : f.present.lookup name = stored.map settled) : f.get name decode = .ok a := by
  rw [Fields.get, found]
  cases stored with
  | some value => exact holds
  | none => contradiction

theorem Holds.getD {decode : Decoder α} {fallback a : α} {stored : Option Json}
    (holds : Holds decode (some fallback) a stored) {f : Fields} {name : String}
    (found : f.present.lookup name = stored.map settled) : f.getD name fallback decode = .ok a := by
  rw [Fields.getD, found]
  cases stored with
  | some value => exact holds
  | none => exact congrArg Except.ok (Option.some.inj holds)

theorem Holds.get? {decode : Decoder α} {a : Option α} {stored : Option Json}
    (holds : Holds (nullable decode) (some none) a stored) {f : Fields} {name : String}
    (found : f.present.lookup name = stored.map settled) : f.get? name decode = .ok a := holds.getD found

def Passes (r : FieldRule) : Option Json → Prop
  | some value => r.check value = .ok ()
  | none => r.absence ≠ .required

theorem Holds.checked {decode : Decoder α} {fallback : Option α} {a : α} {value : Json} (name : String) (absence : Absence)
    (holds : Holds decode fallback a (some value)) : Passes (rule name absence decode) (some (settled value)) := by
  show (decode (settled value)).map (fun _ => ()) = .ok ()
  rw [show decode (settled value) = .ok a from holds]
  rfl

theorem Holds.passes {decode : Decoder α} {a : α} {stored : Option Json} {name : String}
    (holds : Holds decode none a stored) : Passes (rule name .required decode) (stored.map settled) := by
  cases stored with
  | some value => exact holds.checked name .required
  | none => contradiction

theorem Holds.passesFree {decode : Decoder α} {fallback : Option α} {a : α} {stored : Option Json} {name : String}
    {absence : Absence} (holds : Holds decode fallback a stored) (free : absence ≠ .required) :
    Passes (rule name absence decode) (stored.map settled) := by
  cases stored with
  | some value => exact holds.checked name absence
  | none => exact free

theorem checkAllPasses {rules : List FieldRule} {found : List (String × Json)}
    (passes : ∀ e ∈ found, ∀ r ∈ rules, r.name = e.1 → r.check e.2 = .ok ()) :
    ∃ present, checkAll rules found = .ok present ∧
      ∀ r ∈ rules, present.lookup r.name = found.lookup r.name := by
  induction found with
  | nil => exact ⟨[], rfl, fun _ _ => rfl⟩
  | cons e rest ih =>
      obtain ⟨name, value⟩ := e
      obtain ⟨here, others⟩ := List.forall_mem_cons.mp passes
      obtain ⟨present, read, same⟩ := ih others
      rw [checkAll]
      cases known : rules.find? (·.name == name) with
      | none =>
          refine ⟨present, read, fun r member => ?_⟩
          have other : r.name ≠ name := by simpa using List.find?_eq_none.mp known r member
          rw [Table.lookupCons, if_neg other, same r member]
      | some r =>
          have named : r.name = name := by simpa using List.find?_some known
          refine ⟨(name, value) :: present, ?_, fun r member => ?_⟩
          · simp [here r (List.mem_of_find?_eq_some known) named, read, bind, Except.bind, pure, Except.pure]
          · rw [Table.lookupCons, Table.lookupCons, same r member]

theorem fieldsPass (record : String) {rules : List FieldRule} {found : List (String × Json)}
    (distinct : (found.map Prod.fst).Nodup) (passes : ∀ r ∈ rules, Passes r (found.lookup r.name)) :
    ∃ f, fields record rules (.object found) = .ok f ∧
      ∀ r ∈ rules, f.present.lookup r.name = found.lookup r.name := by
  have checked : ∀ e ∈ found, ∀ r ∈ rules, r.name = e.1 → r.check e.2 = .ok () := by
    intro e member r known same
    have pass := passes r known
    rw [same, (Table.lookupMem distinct).mpr member] at pass
    exact pass
  obtain ⟨present, read, same⟩ := checkAllPasses checked
  have complete : rules.find? (fun r => r.absence == .required && (present.lookup r.name).isNone) = none := by
    refine List.find?_eq_none.mpr fun r known => ?_
    have pass := passes r known
    rw [same r known]
    cases stored : found.lookup r.name with
    | some value => simp
    | none =>
        rw [stored] at pass
        have free : r.absence ≠ .required := pass
        simpa using free
  refine ⟨⟨present⟩, ?_, same⟩
  simp [fields, read, complete, bind, Except.bind, pure, Except.pure]

inductive Obeys : List FieldRule → List (String × Option Json) → Prop where
  | nil : Obeys [] []
  | cons {r : FieldRule} {rules : List FieldRule} {value : Option Json} {slots : List (String × Option Json)}
      (passes : Passes r (value.map settled)) (more : Obeys rules slots) : Obeys (r :: rules) ((r.name, value) :: slots)

theorem Obeys.ofRule {rules : List FieldRule} {slots : List (String × Option Json)} (obeys : Obeys rules slots)
    {r : FieldRule} (known : r ∈ rules) : ∃ s ∈ slots, r.name = s.1 ∧ Passes r (s.2.map settled) := by
  induction obeys with
  | nil => contradiction
  | cons passes _ ih =>
      rcases List.mem_cons.mp known with rfl | later
      · exact ⟨_, List.mem_cons_self, rfl, passes⟩
      · obtain ⟨s, member, facts⟩ := ih later
        exact ⟨s, List.mem_cons_of_mem _ member, facts⟩

theorem Obeys.names {rules : List FieldRule} {slots : List (String × Option Json)} (obeys : Obeys rules slots) :
    slots.map Prod.fst = rules.map FieldRule.name := by
  induction obeys with
  | nil => rfl
  | cons _ _ ih => rw [List.map_cons, List.map_cons, ih]

theorem keysRead {slots : List (String × Option Json)} (distinct : (slots.map Prod.fst).Nodup) :
    ((settledFields (filled slots)).map Prod.fst).Nodup := by
  rw [keysSettled]
  exact (filledKeys slots).nodup distinct

theorem lookupRead {slots : List (String × Option Json)} (distinct : (slots.map Prod.fst).Nodup)
    {s : String × Option Json} (member : s ∈ slots) :
    (sortFields (settledFields (filled slots))).lookup s.1 = s.2.map settled := by
  rw [lookupSorted (keysRead distinct), lookupSettled, lookupFilled distinct member]

/-- A record is decoded from the fields that are set, in any order, if each of them passes its rule. -/
theorem recordOk {β : Type} {record : String} {rules : List FieldRule} {slots : List (String × Option Json)}
    {k : Fields → Except DecodeError β} {b : β} (distinct : (rules.map FieldRule.name).Nodup) (obeys : Obeys rules slots)
    (more : ∀ f : Fields, (∀ s ∈ slots, f.present.lookup s.1 = s.2.map settled) → k f = .ok b) :
    (fields record rules (settled (.object (filled slots))) >>= k) = .ok b := by
  rw [← obeys.names] at distinct
  have sorted : ((sortFields (settledFields (filled slots))).map Prod.fst).Nodup := by
    rw [sortFieldsTable]
    exact Table.ascendingKeys (Table.ofList (settledFields (filled slots))).ascending
  have passes : ∀ r ∈ rules, Passes r ((sortFields (settledFields (filled slots))).lookup r.name) := by
    intro r known
    obtain ⟨s, member, named, pass⟩ := obeys.ofRule known
    rw [named, lookupRead distinct member]
    exact pass
  obtain ⟨f, read, found⟩ := fieldsPass record sorted passes
  rw [settled, read]
  refine more f (fun s member => ?_)
  have listed : s.1 ∈ rules.map FieldRule.name := obeys.names ▸ List.mem_map_of_mem member
  obtain ⟨r, known, named⟩ := List.mem_map.mp listed
  rw [← named, found r known, named, lookupRead distinct member]

theorem nullableOk {decode : Decoder α} (null : ∀ a, decode .null ≠ .ok a) {value : Json} {a : α}
    (read : decode value = .ok a) : nullable decode value = .ok (some a) := by
  cases value with
  | null => exact absurd read (null a)
  | _ =>
      rw [nullable, read]
      · rfl
      · exact Json.noConfusion

theorem holdsOptional {decode : Decoder α} (null : ∀ a, decode .null ≠ .ok a) {encode : α → Json} {o : Option α}
    (each : ∀ a ∈ o, decode (settled (encode a)) = .ok a) : Holds (nullable decode) (some none) o (o.map encode) := by
  cases o with
  | none => rfl
  | some a => exact nullableOk null (each a rfl)

theorem listOk {decode : Decoder α} {encode : α → Json} {l : List α}
    (each : ∀ a ∈ l, decode (settled (encode a)) = .ok a) :
    list decode (settled (.array (l.map encode))) = .ok l := by
  show (settledItems (l.map encode)).mapM decode = .ok l
  induction l with
  | nil => rfl
  | cons a rest ih =>
      obtain ⟨here, others⟩ := List.forall_mem_cons.mp each
      simp [settledItems, here, ih others, bind, Except.bind, pure, Except.pure]

end Decoder
end DeclOrder.Json
