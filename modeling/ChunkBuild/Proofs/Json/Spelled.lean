import ChunkBuild.Json.Printer
import ChunkBuild.Proofs.Number.Rounding
import ChunkBuild.Proofs.Text.Integer
import ChunkBuild.Proofs.Text.Whole
/-! # Spellings of values

Printed values differ in their white space only. A spelling takes the white space from outside, and
the indented layout is one of its cases. -/
namespace ChunkBuild.Json

open ChunkBuild.Text

structure Spacing where
  first : Nat → List Char
  next : Nat → List Char
  last : Nat → List Char

mutual

def Value.spelled (w : Spacing) (depth : Nat) : Value → List Char
  | .null => ['n', 'u', 'l', 'l']
  | .bool true => ['t', 'r', 'u', 'e']
  | .bool false => ['f', 'a', 'l', 's', 'e']
  | .int n => (intText n).toList
  | .float x => (floatText x).toList
  | .str s => (stringText s).toList
  | .calendar kind => (stringText kind).toList
  | .arr [] => ['[', ']']
  | .arr (v :: r) => '[' :: itemsSpelled w depth (w.first depth) (v :: r)
  | .obj [] => ['\x7b', '\x7d']
  | .obj (f :: r) => '\x7b' :: fieldsSpelled w depth (w.first depth) (f :: r)

def itemsSpelled (w : Spacing) (depth : Nat) (lead : List Char) : List Value → List Char
  | [] => w.last depth ++ [']']
  | v :: r =>
    lead ++ (v.spelled w (depth + 1) ++ itemsSpelled w depth (',' :: w.next depth) r)

def fieldsSpelled (w : Spacing) (depth : Nat) (lead : List Char) :
    List (String × Value) → List Char
  | [] => w.last depth ++ ['\x7d']
  | (k, v) :: r =>
    lead ++ ((stringText k).toList ++ (':' :: ' ' :: (v.spelled w (depth + 1) ++
      fieldsSpelled w depth (',' :: w.next depth) r)))

end

def indentation : Spacing where
  first depth := (indent (depth + 1)).toList
  next depth := (indent (depth + 1)).toList
  last depth := (indent depth).toList

mutual

theorem indented_toList (depth : Nat) :
    ∀ v : Value, (v.indented depth).toList = v.spelled indentation depth
  | .null => by
    rw [Value.indented, Value.spelled]
    rfl
  | .bool true => by
    rw [Value.indented, Value.spelled]
    rfl
  | .bool false => by
    rw [Value.indented, Value.spelled]
    rfl
  | .int _ => by rw [Value.indented, Value.spelled]
  | .float _ => by rw [Value.indented, Value.spelled]
  | .str _ => by rw [Value.indented, Value.spelled]
  | .calendar _ => by rw [Value.indented, Value.spelled]
  | .arr [] => by
    rw [Value.indented, Value.spelled]
    rfl
  | .arr (v :: r) => by
    have h := indentedItems_toList depth (v :: r) (List.cons_ne_nil v r)
    rw [Value.indented, Value.spelled]
    · simpa [indentation] using h
    · simp
  | .obj [] => by
    rw [Value.indented, Value.spelled]
    rfl
  | .obj (f :: r) => by
    have h := indentedFields_toList depth (f :: r) (List.cons_ne_nil f r)
    rw [Value.indented, Value.spelled]
    · simpa [indentation] using h
    · simp

theorem indentedItems_toList (depth : Nat) : ∀ items : List Value, items ≠ [] →
    (indentedItems (depth + 1) items).toList ++ ((indent depth).toList ++ [']']) =
      itemsSpelled indentation depth (indent (depth + 1)).toList items
  | [], h => absurd rfl h
  | [v], _ => by
    simp [indentedItems, itemsSpelled, indented_toList (depth + 1) v, indentation]
  | v :: u :: r, _ => by
    have h := indentedItems_toList depth (u :: r) (List.cons_ne_nil u r)
    rw [itemsSpelled] at h ⊢
    rw [itemsSpelled]
    simp only [indentedItems, String.toList_append, List.append_assoc, h,
      indented_toList (depth + 1) v]
    rfl

theorem indentedFields_toList (depth : Nat) : ∀ fields : List (String × Value), fields ≠ [] →
    (indentedFields (depth + 1) fields).toList ++ ((indent depth).toList ++ ['\x7d']) =
      fieldsSpelled indentation depth (indent (depth + 1)).toList fields
  | [], h => absurd rfl h
  | [(k, v)], _ => by
    simp [indentedFields, fieldsSpelled, indented_toList (depth + 1) v, indentation]
  | (k, v) :: f :: r, _ => by
    have h := indentedFields_toList depth (f :: r) (List.cons_ne_nil f r)
    rw [fieldsSpelled] at h ⊢
    rw [fieldsSpelled]
    simp only [indentedFields, String.toList_append, List.append_assoc, h,
      indented_toList (depth + 1) v]
    rfl

end

def compaction : Spacing where
  first _ := []
  next _ := [' ']
  last _ := []

mutual

theorem compact_toList (depth : Nat) :
    ∀ v : Value, v.compact.toList = v.spelled compaction depth
  | .null => by
    rw [Value.compact, Value.spelled]
    rfl
  | .bool true => by
    rw [Value.compact, Value.spelled]
    rfl
  | .bool false => by
    rw [Value.compact, Value.spelled]
    rfl
  | .int _ => by rw [Value.compact, Value.spelled]
  | .float _ => by rw [Value.compact, Value.spelled]
  | .str _ => by rw [Value.compact, Value.spelled]
  | .calendar _ => by rw [Value.compact, Value.spelled]
  | .arr [] => by
    rw [Value.compact, Value.spelled, compactItems]
    rfl
  | .arr (v :: r) => by
    have h := compactItems_toList depth (v :: r) (List.cons_ne_nil v r)
    rw [Value.compact, Value.spelled]
    simpa [compaction] using h
  | .obj [] => by
    rw [Value.compact, Value.spelled, compactFields]
    rfl
  | .obj (f :: r) => by
    have h := compactFields_toList depth (f :: r) (List.cons_ne_nil f r)
    rw [Value.compact, Value.spelled]
    simpa [compaction] using h

theorem compactItems_toList (depth : Nat) : ∀ items : List Value, items ≠ [] →
    (compactItems items).toList ++ [']'] = itemsSpelled compaction depth [] items
  | [], h => absurd rfl h
  | [v], _ => by simp [compactItems, itemsSpelled, compact_toList (depth + 1) v, compaction]
  | v :: u :: r, _ => by
    have h := compactItems_toList depth (u :: r) (List.cons_ne_nil u r)
    rw [itemsSpelled] at h ⊢
    rw [itemsSpelled]
    simp only [compactItems, String.toList_append, List.append_assoc, h,
      compact_toList (depth + 1) v]
    rfl

theorem compactFields_toList (depth : Nat) : ∀ fields : List (String × Value), fields ≠ [] →
    (compactFields fields).toList ++ ['\x7d'] = fieldsSpelled compaction depth [] fields
  | [], h => absurd rfl h
  | [(k, v)], _ => by simp [compactFields, fieldsSpelled, compact_toList (depth + 1) v, compaction]
  | (k, v) :: f :: r, _ => by
    have h := compactFields_toList depth (f :: r) (List.cons_ne_nil f r)
    rw [fieldsSpelled] at h ⊢
    rw [fieldsSpelled]
    simp only [compactFields, String.toList_append, List.append_assoc, h,
      compact_toList (depth + 1) v]
    rfl

end

/-! ## Readable values -/

/-- A value that can be read back where so many lists and objects may lie in one another. -/
inductive Value.IsReadable : (room : Nat) → Value → Prop where
  | null {room : Nat} : IsReadable room .null
  | bool {room : Nat} (b : Bool) : IsReadable room (.bool b)
  | int {room : Nat} {n : Int} : n.natAbs < 10 ^ digitLimit → IsReadable room (.int n)
  | float {room : Nat} {x : Number.Binary64} : x.IsCanonical → IsReadable room (.float x)
  | str {room : Nat} {s : String} : IsWhole s → IsReadable room (.str s)
  | arr {room : Nat} {items : List Value} :
    (∀ v ∈ items, IsReadable room v) → IsReadable (room + 1) (.arr items)
  | obj {room : Nat} {fields : Fields Value} : (fields.map (·.1)).Nodup →
    (∀ f ∈ fields, IsWhole f.1) → (∀ f ∈ fields, IsReadable room f.2) →
    IsReadable (room + 1) (.obj fields)

end ChunkBuild.Json
