import ChunkBuild.Item
import ChunkBuild.Proofs.Fields
/-! # Values of items

An item and its value hold the same keys, and a value comes back from the item that is made of it. -/
namespace ChunkBuild

open ChunkBuild.Json

namespace Item

variable {fields : Fields Item} {key : String} {item : Item}

theorem get?_fieldValues (fields : Fields Item) (key : String) :
    (fieldValues fields).get? key = (fields.get? key).map toValue := by
  induction fields with
  | nil => rfl
  | cons f r ih =>
    rw [fieldValues, Fields.get?, Fields.get?, ih]
    split
    · rfl
    · rfl

theorem fieldValues_put (fields : Fields Item) (key : String) (item : Item) :
    fieldValues (fields.put key item) = (fieldValues fields).put key item.toValue := by
  induction fields with
  | nil => rfl
  | cons f r ih =>
    rw [fieldValues, Fields.put, Fields.put, ← ih]
    split
    · rfl
    · rfl

theorem keys_fieldValues (fields : Fields Item) :
    (fieldValues fields).map (·.1) = fields.map (·.1) := by
  induction fields with
  | nil => rfl
  | cons f r ih => rw [fieldValues, List.map_cons, List.map_cons, ih]

theorem mem_fieldValues {f : String × Value} (h : f ∈ fieldValues fields) :
    ∃ g ∈ fields, f = (g.1, g.2.toValue) := by
  induction fields with
  | nil => cases h
  | cons g r ih =>
    rcases List.mem_cons.mp h with rfl | h
    · exact ⟨g, List.mem_cons_self, rfl⟩
    · obtain ⟨g, hg, hf⟩ := ih h
      exact ⟨g, List.mem_cons_of_mem _ hg, hf⟩

/-! ## Values as items -/

mutual

theorem toValue_ofValue : ∀ v : Value, (ofValue v).toValue = v
  | .null | .bool _ | .int _ | .float _ | .str _ | .calendar _ => rfl
  | .arr items => by rw [ofValue, toValue, itemValues_ofItems items]
  | .obj fields => by rw [ofValue, toValue, fieldValues_ofFields fields]

theorem itemValues_ofItems : ∀ items : List Value, itemValues (ofItems items) = items
  | [] => rfl
  | v :: r => by rw [ofItems, itemValues, toValue_ofValue v, itemValues_ofItems r]

theorem fieldValues_ofFields : ∀ fields : Fields Value, fieldValues (ofFields fields) = fields
  | [] => rfl
  | (key, v) :: r => by rw [ofFields, fieldValues, toValue_ofValue v, fieldValues_ofFields r]

end

theorem get?_ofFields (fields : Fields Value) (key : String) :
    (ofFields fields).get? key = (fields.get? key).map ofValue := by
  induction fields with
  | nil => rfl
  | cons f r ih =>
    rw [ofFields, Fields.get?, Fields.get?, ih]
    split
    · rfl
    · rfl

theorem ofFields_put (fields : Fields Value) (key : String) (v : Value) :
    ofFields (fields.put key v) = (ofFields fields).put key (ofValue v) := by
  induction fields with
  | nil => rfl
  | cons f r ih =>
    rw [ofFields, Fields.put, Fields.put, ← ih]
    split
    · rfl
    · rfl

end Item

end ChunkBuild
