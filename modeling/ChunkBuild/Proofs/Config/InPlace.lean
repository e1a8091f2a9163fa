import ChunkBuild.Proofs.Config.Keys
/-! # Merging in place

A layer is merged over another one by changing it, and a mapping that stands at several places is changed
at all of them. Main statement: where both layers hold a mapping and the lower one bears no mark, the
values come out as if the layers had been merged value by value. -/
namespace ChunkBuild.Config

open ChunkBuild.Json ChunkBuild.Item

variable {fields inner target below new : Fields Item} {path : List String} {key name : String}
  {item : Item} {mark : Option Nat}

/-! ## Places of their own -/

/-- A path leads to a mapping, through none with a mark. -/
inductive Leads : (fields : Fields Item) → List String → (target : Fields Item) → Prop where
  | nil {fields : Fields Item} : Leads fields [] fields
  | cons {fields inner target : Fields Item} {name : String} {path : List String} :
    fields.get? name = some (.mapping none inner) → Leads inner path target →
    Leads fields (name :: path) target

def replaceAt (fields : Fields Item) (path : List String) (target : Fields Item) : Fields Item :=
  match path with
  | [] => target
  | name :: path =>
    match fields.get? name with
    | some (.mapping mark inner) => fields.put name (.mapping mark (replaceAt inner path target))
    | _ => fields

section Steps

variable (hget : fields.get? name = some (.mapping none inner))
include hget

theorem mappingAt?_cons : mappingAt? fields (name :: path) = mappingAt? inner path := by
  rw [mappingAt?, hget]

theorem lastMark?_cons : lastMark? fields (name :: path) = lastMark? inner path := by
  rw [lastMark?, hget]
  exact Option.or_none

theorem putAt_cons : putAt fields (name :: path) key item =
    fields.put name (.mapping none (putAt inner path key item)) := by
  rw [putAt, hget]

theorem replaceAt_cons : replaceAt fields (name :: path) target =
    fields.put name (.mapping none (replaceAt inner path target)) := by
  rw [replaceAt, hget]

end Steps

namespace Leads

theorem concat (h : Leads fields path target) (hinner : target.get? key = some (.mapping none inner)) :
    Leads fields (path ++ [key]) inner := by
  induction h with
  | nil => exact .cons hinner .nil
  | cons hget _ ih => exact .cons hget (ih hinner)

theorem mappingAt?_concat (h : Leads fields path target) (key : String) :
    mappingAt? fields (path ++ [key]) = mappingAt? target [key] := by
  induction h with
  | nil => rfl
  | cons hget _ ih => rw [List.cons_append, mappingAt?_cons hget, ih]

theorem assign_eq (h : Leads fields path target) (key : String) (item : Item) :
    assign fields path key item = replaceAt fields path (target.put key item) := by
  have hmark : lastMark? fields path = none := by
    induction h with
    | nil => rfl
    | cons hget _ ih => rw [lastMark?_cons hget, ih]
  rw [assign, hmark]
  dsimp only
  induction h with
  | nil => rfl
  | cons hget _ ih =>
    rw [lastMark?_cons hget] at hmark
    rw [putAt_cons hget, replaceAt_cons hget, ih hmark]

theorem replaced (h : Leads fields path target) (new : Fields Item) :
    Leads (replaceAt fields path new) path new := by
  induction h with
  | nil => exact .nil
  | cons hget _ ih =>
    rw [replaceAt_cons hget]
    exact .cons (Fields.get?_put_self _ _ _) ih

theorem replaceAt_replaceAt (h : Leads fields path target) (new newer : Fields Item) :
    replaceAt (replaceAt fields path new) path newer = replaceAt fields path newer := by
  induction h with
  | nil => rfl
  | cons hget _ ih =>
    rw [replaceAt_cons hget, replaceAt_cons (Fields.get?_put_self _ _ _), ih, Fields.put_put,
      replaceAt_cons hget]

theorem replaceAt_concat (h : Leads fields path target)
    (hinner : target.get? key = some (.mapping none inner)) (new : Fields Item) :
    replaceAt fields (path ++ [key]) new =
      replaceAt fields path (target.put key (.mapping none new)) := by
  induction h with
  | nil => exact replaceAt_cons hinner
  | cons hget _ ih => rw [List.cons_append, replaceAt_cons hget, replaceAt_cons hget, ih hinner]

theorem replaceAt_self (h : Leads fields path target) : replaceAt fields path target = fields := by
  induction h with
  | nil => rfl
  | cons hget _ ih => rw [replaceAt_cons hget, ih, Fields.put_of_get? hget]

end Leads

/-! ## Layers that avoid marks -/

inductive Avoids : (below new : Fields Item) → Prop where
  | nil {below : Fields Item} : Avoids below []
  | put {below r : Fields Item} {key : String} {item : Item} :
    (∀ mark inner, item = .mapping mark inner → mappingAt? below [key] = none) →
    Avoids (below.put key item) r → Avoids below ((key, item) :: r)
  | both {below r old inner : Fields Item} {key : String} {mark : Option Nat} :
    below.get? key = some (.mapping none old) → Avoids old inner →
    Avoids (below.put key (.mapping none (mergeOver old inner))) r →
    Avoids below ((key, .mapping mark inner) :: r)

theorem mergeItem_of_absent (h : Leads fields path target)
    (hno : ∀ mark inner, item = .mapping mark inner → mappingAt? target [key] = none) :
    mergeItem fields path key item = replaceAt fields path (target.put key item) := by
  rw [← h.assign_eq]
  cases item with
  | mapping mark inner =>
    rw [mergeItem, h.mappingAt?_concat, hno mark inner rfl]
  | _ => rfl

/-- A layer that avoids marks is merged at one place alone. -/
theorem mergeAt_eq (ha : Avoids target new) (h : Leads fields path target) :
    mergeAt fields path new = replaceAt fields path (mergeOver target new) := by
  induction ha generalizing fields path with
  | nil =>
    rw [mergeOver, mergeAt, mergeAt]
    exact h.replaceAt_self.symm
  | put hno _ ih =>
    have hlater := ih (h.replaced _)
    rw [mergeOver, mergeAt, mergeAt, mergeItem_of_absent h hno, mergeItem_of_absent .nil hno, hlater,
      h.replaceAt_replaceAt]
    rfl
  | @both target r old inner key mark hget _ _ ihinner ih =>
    have hmapping (fields : Fields Item) (path : List String) (h : Leads fields path target) :
        mergeItem fields path key (.mapping mark inner) =
          replaceAt fields path (target.put key (.mapping none (mergeOver old inner))) := by
      rw [mergeItem, h.mappingAt?_concat, mappingAt?_cons hget]
      dsimp only [mappingAt?]
      rw [ihinner (h.concat hget), h.replaceAt_concat hget]
    have hlater := ih (h.replaced _)
    rw [mergeOver, mergeAt, mergeAt, hmapping fields path h, hmapping target [] .nil, hlater,
      h.replaceAt_replaceAt]
    rfl

theorem mergeOver_cons_of_absent {r : Fields Item}
    (hno : ∀ mark inner, item = .mapping mark inner → mappingAt? below [key] = none) :
    mergeOver below ((key, item) :: r) = mergeOver (below.put key item) r := by
  rw [mergeOver, mergeAt, mergeItem_of_absent .nil hno]
  rfl

theorem mergeOver_cons_of_both {r old : Fields Item} (ha : Avoids old inner)
    (hget : below.get? key = some (.mapping none old)) :
    mergeOver below ((key, .mapping mark inner) :: r) =
      mergeOver (below.put key (.mapping none (mergeOver old inner))) r := by
  rw [mergeOver, mergeAt, mergeItem, List.nil_append, mappingAt?_cons hget]
  dsimp only [mappingAt?]
  rw [mergeAt_eq ha (.cons hget .nil), replaceAt_cons hget]
  rfl

theorem mergeValue_of_absent
    (hno : ∀ mark inner, item = .mapping mark inner → mappingAt? below [key] = none) :
    mergeValue ((fieldValues below).get? key) item.toValue = item.toValue := by
  cases item with
  | mapping mark inner =>
    have hnone := hno mark inner rfl
    rw [mappingAt?] at hnone
    rw [get?_fieldValues, toValue, mergeValue]
    intro base hbase
    obtain ⟨old, hold, hvalue⟩ := Option.map_eq_some_iff.mp hbase
    cases old with
    | mapping =>
      rw [hold] at hnone
      cases hnone
    | _ => cases hvalue
  | _ => rfl

/-- The values of a layer that avoids marks are merged over those below. -/
theorem fieldValues_mergeOver (ha : Avoids below new) :
    fieldValues (mergeOver below new) = merge (fieldValues below) (fieldValues new) := by
  induction ha with
  | nil => rfl
  | put hno _ ih =>
    rw [mergeOver_cons_of_absent hno, ih, fieldValues_put, fieldValues, merge,
      mergeValue_of_absent hno]
  | both hget hinner _ ihinner ih =>
    rw [mergeOver_cons_of_both hinner hget, ih, fieldValues_put, fieldValues, merge, get?_fieldValues,
      hget, toValue, toValue, ihinner]
    rfl

/-! ## Layers without marks -/

theorem lastMark?_ofFields (fields : Fields Value) (path : List String) :
    lastMark? (ofFields fields) path = none := by
  induction path generalizing fields with
  | nil => rfl
  | cons key path ih =>
    rw [lastMark?, get?_ofFields]
    cases fields.get? key with
    | none => rfl
    | some v =>
      cases v with
      | obj inner => exact congrArg (Option.or · none) (ih inner)
      | _ => rfl

/-- Without marks the layers are merged value by value. -/
theorem mergeOver_ofFields : ∀ new base : Fields Value,
    Avoids (ofFields base) (ofFields new) ∧
      mergeOver (ofFields base) (ofFields new) = ofFields (merge base new)
  | [], _ => ⟨.nil, rfl⟩
  | (key, v) :: r, base => by
    obtain ⟨hrest, hmerged⟩ := mergeOver_ofFields r (base.put key (mergeValue (base.get? key) v))
    by_cases hboth : ∃ old inner, base.get? key = some (.obj old) ∧ v = .obj inner
    · obtain ⟨old, inner, hget, rfl⟩ := hboth
      obtain ⟨hinner, hold⟩ := mergeOver_ofFields inner old
      have hitem : (ofFields base).get? key = some (.mapping none (ofFields old)) := by
        rw [get?_ofFields, hget]
        rfl
      rw [hget, mergeValue, ofFields_put, ofValue, ← hold] at hrest hmerged
      rw [ofFields, ofValue, mergeOver_cons_of_both hinner hitem, hmerged, merge, hget, mergeValue]
      exact ⟨.both hitem hinner hrest, rfl⟩
    · have hno : ∀ mark inner, ofValue v = .mapping mark inner →
          mappingAt? (ofFields base) [key] = none := by
        intro mark inner hv
        rw [mappingAt?, get?_ofFields]
        cases hget : base.get? key with
        | none => rfl
        | some old =>
          cases v with
          | obj fields =>
            cases old with
            | obj old => exact absurd ⟨old, fields, hget, rfl⟩ hboth
            | _ => rfl
          | _ => cases hv
      have hvalue := mergeValue_of_absent hno
      rw [fieldValues_ofFields, toValue_ofValue] at hvalue
      rw [hvalue, ofFields_put] at hrest hmerged
      rw [ofFields, mergeOver_cons_of_absent hno, hmerged, merge, hvalue]
      exact ⟨.put hno hrest, rfl⟩

/-! ## Marks that are spared -/

/-- No mapping with a mark lies on the way to where the upper layer holds a mapping. -/
def Spares (below new : Fields Item) : Prop :=
  ∀ path, (mappingAt? new path).isSome → lastMark? below path = none

theorem spares_of_unmarked (h : ∀ path, lastMark? below path = none) : Spares below new :=
  fun path _ => h path

section Cons

variable {r : Fields Item}

theorem Spares.rest (hs : Spares below ((key, item) :: r)) (hkey : key ∉ r.map (·.1)) (x : Item) :
    Spares (below.put key x) r := by
  intro path hpath
  cases path with
  | nil => rfl
  | cons name path =>
    have hname : key ≠ name := by
      rintro rfl
      rw [mappingAt?, Fields.get?_eq_none hkey] at hpath
      cases hpath
    have hspared := hs (name :: path)
    rw [mappingAt?, Fields.get?, if_neg hname, ← mappingAt?, lastMark?] at hspared
    rw [lastMark?, Fields.get?_put_of_ne hname]
    exact hspared hpath

theorem Spares.both {old : Fields Item} {m : Option Nat}
    (hs : Spares below ((key, .mapping m inner) :: r))
    (hget : below.get? key = some (.mapping mark old)) : mark = none ∧ Spares old inner := by
  have hspared (path : List String) (hpath : (mappingAt? inner path).isSome) :
      lastMark? old path = none ∧ mark = none := by
    have hmark := hs (key :: path)
    rw [mappingAt?, Fields.get?, if_pos rfl, lastMark?, hget] at hmark
    simpa using hmark hpath
  exact ⟨(hspared [] rfl).2, fun path hpath => (hspared path hpath).1⟩

end Cons

/-- A layer that spares the marks avoids them, since it gives each key once. -/
theorem Spares.avoids : ∀ (new below : Fields Item), (Value.obj (fieldValues new)).IsKeyed →
    Spares below new → Avoids below new
  | [], _, _, _ => .nil
  | (key, item) :: r, below, hkeyed, hs => by
    obtain ⟨hnodup, hvalues⟩ := keyed_fields hkeyed
    obtain ⟨hkey, hr⟩ := List.nodup_cons.mp hnodup
    obtain ⟨hitem, hrest⟩ := List.forall_mem_cons.mp hvalues
    rw [keys_fieldValues] at hkey
    have hlater (x : Item) : Avoids (below.put key x) r :=
      Spares.avoids r _ (.obj hr hrest) (hs.rest hkey x)
    by_cases hboth : ∃ m inner, item = .mapping m inner ∧ ∃ mark old,
        below.get? key = some (.mapping mark old)
    · obtain ⟨m, inner, rfl, mark, old, hget⟩ := hboth
      obtain ⟨rfl, hinner⟩ := hs.both hget
      exact .both hget (Spares.avoids inner old hitem hinner) (hlater _)
    · refine .put (fun m inner hm => ?_) (hlater item)
      rw [mappingAt?]
      split
      · next mark old hget => exact absurd ⟨m, inner, hm, mark, old, hget⟩ hboth
      · rfl

/-! ## Layers of settings -/

variable {above under : Layer}

/-- A layer that spares the marks below it is merged over them value by value. -/
theorem fields_mergedOver (hk : (Value.obj above.fields).IsKeyed) (hs : Spares under.items above.items) :
    (above.mergedOver under).fields = merge under.fields above.fields :=
  fieldValues_mergeOver (hs.avoids _ _ hk)

theorem mergedOver_ofFields (fields base : Fields Value) :
    (Layer.ofFields fields).mergedOver (.ofFields base) = .ofFields (merge base fields) := by
  rw [Layer.mergedOver, Layer.ofFields, Layer.ofFields, (mergeOver_ofFields fields base).2]
  rfl

end ChunkBuild.Config
