import Mathlib.Data.List.Nodup
import DeclOrder.Proofs.Json.Nesting
import DeclOrder.Table

/-! The order of the fields of an object, which reading restores. -/
namespace DeclOrder.Json

theorem insertFieldPut (key : String) (value : Json) (fields : List (String × Json)) :
    insertField key value fields = Table.put key value fields := by
  induction fields with
  | nil => rfl
  | cons head rest ih => rw [insertField, Table.put, ih]

theorem sortFieldsTable (fields : List (String × Json)) : sortFields fields = (Table.ofList fields).entries := by
  have step (t : Table Json) : fields.foldl (fun sorted e => insertField e.1 e.2 sorted) t.entries =
      (fields.foldl (fun t e => t.insert e.1 e.2) t).entries := by
    induction fields generalizing t with
    | nil => rfl
    | cons e rest ih =>
        have put : insertField e.1 e.2 t.entries = (t.insert e.1 e.2).entries := insertFieldPut ..
        rw [List.foldl_cons, List.foldl_cons, ← ih, ← put]
  exact step Table.empty

theorem lookupSorted {fields : List (String × Json)} (distinct : (fields.map Prod.fst).Nodup) (key : String) :
    (sortFields fields).lookup key = fields.lookup key := by
  rw [sortFieldsTable, ← Table.lookupReverse distinct]
  exact Table.findOfList fields key

theorem sortFieldsAscending {fields : List (String × Json)} (ascending : Ascending fields) : sortFields fields = fields := by
  rw [sortFieldsTable, Table.ofListAscending ascending]

mutual

def isOrdered : Json → Bool
  | .array items => areOrdered items
  | .object fields => decide (Ascending fields) && fieldsOrdered fields
  | _ => true

def areOrdered : List Json → Bool
  | [] => true
  | item :: rest => isOrdered item && areOrdered rest

def fieldsOrdered : List (String × Json) → Bool
  | [] => true
  | (_, value) :: rest => isOrdered value && fieldsOrdered rest

end

mutual

theorem settledOrdered : (v : Json) → isOrdered v → settled v = v
  | .array items, ordered => by rw [settled, settledItemsOrdered items ordered]
  | .object fields, ordered => by
      obtain ⟨ascending, each⟩ := Bool.and_eq_true_iff.mp ordered
      rw [settled, settledFieldsOrdered fields each, sortFieldsAscending (of_decide_eq_true ascending)]
  | .null, _ => rfl
  | .bool _, _ => rfl
  | .integer _, _ => rfl
  | .float _, _ => rfl
  | .string _, _ => rfl

theorem settledItemsOrdered : (items : List Json) → areOrdered items → settledItems items = items
  | [], _ => rfl
  | item :: rest, ordered => by
      obtain ⟨here, others⟩ := Bool.and_eq_true_iff.mp ordered
      rw [settledItems, settledOrdered item here, settledItemsOrdered rest others]

theorem settledFieldsOrdered : (fields : List (String × Json)) → fieldsOrdered fields → settledFields fields = fields
  | [], _ => rfl
  | (key, value) :: rest, ordered => by
      obtain ⟨here, others⟩ := Bool.and_eq_true_iff.mp ordered
      rw [settledFields, settledOrdered value here, settledFieldsOrdered rest others]

end

end DeclOrder.Json
