import ChunkBuild.Proofs.Config.Keys
import Mathlib.Data.List.Induction
/-! # Which layer decides a path

A layer touches a path when it says something there, or cuts the path off by a value that is no section.
What a layer does not touch stays as it is below the layer. Main statement: after any number of layers,
each merged over those before it, the last layer that touches a path decides what stands there. -/
namespace ChunkBuild.Config

open ChunkBuild.Json

variable {base new layer : Fields Value} {layers : List (Fields Value)} {name key : String}
  {path : List String} {v : Value}

def IsPlainValue (v : Value) : Prop := ∀ inner, v ≠ .obj inner

/-- A layer says something at a path, or something that is no section on the way to it. -/
def Touches (layer : Fields Value) (path : List String) : Prop :=
  (∃ v, at? layer path = some v) ∨
    ∃ before after v, path = before ++ after ∧ after ≠ [] ∧ at? layer before = some v ∧ IsPlainValue v

def IsLastTouching (layers : List (Fields Value)) (path : List String) (layer : Fields Value) : Prop :=
  ∃ before after, layers = before ++ layer :: after ∧ Touches layer path ∧
    ∀ other ∈ after, ¬ Touches other path

/-- All layers in order, each merged over those before it. -/
def mergeAll (layers : List (Fields Value)) : Fields Value := layers.foldl merge []

/-! ## One layer -/

theorem at?_cons_cons (fields : Fields Value) (name key : String) (path : List String) :
    at? fields (name :: key :: path) = at? (sectionOf fields name) (key :: path) := rfl

theorem touches_singleton_iff : Touches layer [key] ↔ ∃ v, layer.get? key = some v := by
  constructor
  · rintro (h | ⟨before, after, v, hsplit, hafter, hv, -⟩)
    · exact h
    · rcases List.cons_eq_append_iff.mp hsplit with ⟨rfl, -⟩ | ⟨rest, rfl, hrest⟩
      · cases hv
      · exact absurd (List.append_eq_nil_iff.mp hrest.symm).2 hafter
  · exact .inl

/-- A path leads through a value that is no section, or on into the section under its first name. -/
theorem touches_cons_cons_iff : Touches layer (name :: key :: path) ↔
    (∃ v, layer.get? name = some v ∧ IsPlainValue v) ∨
      Touches (sectionOf layer name) (key :: path) := by
  constructor
  · rintro (h | ⟨before, after, v, hsplit, hafter, hv, hplain⟩)
    · exact .inr (.inl h)
    · match before, hsplit, hv with
      | [_], hsplit, hv =>
        cases hsplit
        exact .inl ⟨v, hv, hplain⟩
      | _ :: k :: before, hsplit, hv =>
        obtain ⟨rfl, hrest⟩ := List.cons.inj hsplit
        exact .inr (.inr ⟨k :: before, after, v, hrest, hafter, hv, hplain⟩)
  · rintro (⟨v, hv, hplain⟩ | h | ⟨before, after, v, hsplit, hafter, hv, hplain⟩)
    · exact .inr ⟨[name], key :: path, v, rfl, List.cons_ne_nil _ _, hv, hplain⟩
    · exact .inl h
    · match before, hsplit, hv with
      | k :: before, hsplit, hv =>
        refine .inr ⟨name :: k :: before, after, v, ?_, hafter, hv, hplain⟩
        rw [hsplit]
        rfl

/-! ## Sections of merged layers -/

theorem mergeValue_none (v : Value) : mergeValue none v = v := by
  by_cases h : ∃ above, v = .obj above
  · obtain ⟨above, rfl⟩ := h
    obtain ⟨_, hbelow, -⟩ | ⟨-, hmerged⟩ := mergeValue_section none above
    · cases hbelow
    · exact hmerged
  · exact mergeValue_of_not_obj fun above ha => h ⟨above, ha⟩

theorem merge_eq_append (h : ((base ++ new).map (·.1)).Nodup) : merge base new = base ++ new := by
  induction new generalizing base with
  | nil => rw [merge, List.append_nil]
  | cons f r ih =>
    obtain ⟨k, v⟩ := f
    have hk : k ∉ base.map (·.1) := by
      rw [List.map_append, List.map_cons] at h
      exact fun hmem => (List.nodup_append.mp h).2.2 k hmem k List.mem_cons_self rfl
    rw [merge, Fields.get?_eq_none hk, mergeValue_none, Fields.put_of_not_mem hk, ih]
    · rw [List.append_assoc, List.singleton_append]
    · rwa [List.append_assoc, List.singleton_append]

theorem sectionOf_eq {inner : Fields Value} (h : layer.get? name = some (.obj inner)) :
    sectionOf layer name = inner := by
  rw [sectionOf, h]

theorem sectionOf_eq_nil (h : ∀ inner, layer.get? name ≠ some (.obj inner)) :
    sectionOf layer name = [] := by
  unfold sectionOf
  split
  · next inner hinner => exact absurd hinner (h inner)
  · rfl

theorem sectionOf_of_plain (hv : layer.get? name = some v) (h : IsPlainValue v) :
    sectionOf layer name = [] := by
  apply sectionOf_eq_nil
  intro inner hinner
  exact h inner (Option.some.inj (hv.symm.trans hinner))

theorem keyed_sectionOf (h : (Value.obj layer).IsKeyed) (name : String) :
    (Value.obj (sectionOf layer name)).IsKeyed := by
  unfold sectionOf
  split
  · next inner hinner => exact (keyed_fields h).2 (name, .obj inner) (Fields.mem_of_get? hinner)
  · exact .obj .nil fun _ h => nomatch h

/-- Where a layer has a section or nothing, the sections are merged. -/
theorem sectionOf_merge (hn : (Value.obj new).IsKeyed)
    (h : ∀ v, new.get? name = some v → ¬ IsPlainValue v) :
    sectionOf (merge base new) name = merge (sectionOf base name) (sectionOf new name) := by
  have hget := @get?_merge base new name (keyed_fields hn).1
  cases hv : new.get? name with
  | none =>
    have hnone : sectionOf new name = [] := sectionOf_eq_nil (by simp [hv])
    rw [hv] at hget
    rw [hnone, merge, sectionOf, sectionOf, hget]
  | some v =>
    obtain ⟨above, rfl⟩ : ∃ above, v = .obj above := by
      simpa [IsPlainValue] using h v hv
    rw [hv] at hget
    rw [sectionOf_eq hv]
    obtain ⟨below, hb, hmerged⟩ | ⟨hb, hmerged⟩ := mergeValue_section (base.get? name) above
    · rw [sectionOf_eq (hget.trans (congrArg some hmerged)), sectionOf_eq hb]
    · have hkeys := (keyed_fields (keyed_sectionOf hn name)).1
      rw [sectionOf_eq hv] at hkeys
      have hempty : merge [] above = above := merge_eq_append hkeys
      rw [sectionOf_eq (hget.trans (congrArg some hmerged)), sectionOf_eq_nil hb, hempty]

theorem get?_merge_of_plain (hn : (Value.obj new).IsKeyed) (hv : new.get? name = some v)
    (h : IsPlainValue v) : (merge base new).get? name = some v := by
  rw [get?_merge (keyed_fields hn).1, hv]
  exact congrArg some (mergeValue_of_not_obj h)

/-! ## Two layers -/

/-- What a layer does not touch stays as it is. -/
theorem at?_merge_of_untouched (hn : (Value.obj new).IsKeyed) (h : ¬ Touches new path) :
    at? (merge base new) path = at? base path := by
  induction path generalizing base new with
  | nil => rfl
  | cons name path ih =>
    cases path with
    | nil =>
      rw [touches_singleton_iff, not_exists] at h
      have hnone : new.get? name = none := Option.eq_none_iff_forall_ne_some.mpr h
      show (merge base new).get? name = base.get? name
      rw [get?_merge (keyed_fields hn).1, hnone]
    | cons key path =>
      rw [touches_cons_cons_iff, not_or] at h
      have hsection : ∀ v, new.get? name = some v → ¬ IsPlainValue v :=
        fun v hv hplain => h.1 ⟨v, hv, hplain⟩
      rw [at?_cons_cons, at?_cons_cons, sectionOf_merge hn hsection]
      exact ih (keyed_sectionOf hn name) h.2

/-- Where a layer touches a path, it decides what stands there. -/
theorem follows_merge_of_touched (hn : (Value.obj new).IsKeyed) (h : Touches new path) :
    Follows (at? (merge base new) path) (at? new path) := by
  induction path generalizing base new with
  | nil => exact .inl rfl
  | cons name path ih =>
    cases path with
    | nil =>
      obtain ⟨v, hv⟩ := touches_singleton_iff.mp h
      have hfollows := @follows_get?_merge base new name (keyed_fields hn).1
      rwa [hv, Option.some_or, ← hv] at hfollows
    | cons key path =>
      rw [at?_cons_cons, at?_cons_cons]
      by_cases hplain : ∃ v, new.get? name = some v ∧ IsPlainValue v
      · obtain ⟨v, hv, hplain⟩ := hplain
        rw [sectionOf_of_plain hv hplain,
          sectionOf_of_plain (get?_merge_of_plain hn hv hplain) hplain]
        exact .inl rfl
      · have hsection : ∀ v, new.get? name = some v → ¬ IsPlainValue v :=
          fun v hv hp => hplain ⟨v, hv, hp⟩
        rw [sectionOf_merge hn hsection]
        exact ih (keyed_sectionOf hn name) ((touches_cons_cons_iff.mp h).resolve_left hplain)

/-! ## All layers -/

theorem isLastTouching_concat_iff {other : Fields Value} :
    IsLastTouching (layers ++ [new]) path other ↔
      (Touches new path ∧ other = new) ∨ (¬ Touches new path ∧ IsLastTouching layers path other) := by
  constructor
  · rintro ⟨before, after, hsplit, hother, hafter⟩
    rcases List.eq_nil_or_concat' after with rfl | ⟨after, last, rfl⟩
    · obtain ⟨-, hlast⟩ := List.append_inj' hsplit rfl
      obtain rfl := List.singleton_inj.mp hlast
      exact .inl ⟨hother, rfl⟩
    · rw [← List.cons_append, ← List.append_assoc] at hsplit
      obtain ⟨rfl, hlast⟩ := List.append_inj' hsplit rfl
      obtain rfl := List.singleton_inj.mp hlast
      refine .inr ⟨hafter new List.mem_concat_self, before, after, rfl, hother, fun m hm => ?_⟩
      exact hafter m (List.mem_append_left _ hm)
  · rintro (⟨hnew, rfl⟩ | ⟨hnew, before, after, rfl, hother, hafter⟩)
    · exact ⟨layers, [], rfl, hnew, fun _ h => nomatch h⟩
    · refine ⟨before, after ++ [new], by simp, hother, fun m hm => ?_⟩
      rcases List.mem_append.mp hm with hm | hm
      · exact hafter m hm
      · rwa [List.mem_singleton.mp hm]

/-- A property that does not tell sections apart holds of what stands at a path in all layers when it
holds of what the last one that touches the path says there. -/
theorem mergeAll_iff {P : Option Value → Prop} (hnone : ¬ P none)
    (hsame : ∀ {a b}, Follows a b → (P a ↔ P b))
    (h : ∀ layer ∈ layers, (Value.obj layer).IsKeyed) :
    P (at? (mergeAll layers) path) ↔
      ∃ layer, IsLastTouching layers path layer ∧ P (at? layer path) := by
  induction layers using List.reverseRecOn with
  | nil =>
    rw [mergeAll, List.foldl_nil, at?_nil]
    refine iff_of_false hnone ?_
    rintro ⟨layer, ⟨before, after, hsplit, -⟩, -⟩
    cases before <;> cases hsplit
  | append_singleton layers new ih =>
    have hnew := h new List.mem_concat_self
    have hrest := ih fun layer hlayer => h layer (List.mem_append_left _ hlayer)
    have hfold : mergeAll (layers ++ [new]) = merge (mergeAll layers) new := List.foldl_concat ..
    rw [hfold]
    simp only [isLastTouching_concat_iff]
    by_cases htouch : Touches new path
    · rw [hsame (follows_merge_of_touched hnew htouch)]
      simp [htouch]
    · rw [at?_merge_of_untouched hnew htouch, hrest]
      simp [htouch]

/-- What stands at a path in all layers together, a section or not, is what the last layer that touches
the path has there. -/
theorem last_touching_decides (h : ∀ layer ∈ layers, (Value.obj layer).IsKeyed)
    (path : List String) :
    (∀ v, IsPlainValue v → (at? (mergeAll layers) path = some v ↔
      ∃ layer, IsLastTouching layers path layer ∧ at? layer path = some v)) ∧
    ((∃ inner, at? (mergeAll layers) path = some (.obj inner)) ↔
      ∃ layer, IsLastTouching layers path layer ∧ ∃ inner, at? layer path = some (.obj inner)) := by
  constructor
  · intro v hv
    refine mergeAll_iff (P := (· = some v)) (Option.some_ne_none v).symm ?_ h
    rintro a b (rfl | ⟨x, y, rfl, rfl⟩)
    · rfl
    · exact iff_of_false (fun hx => hv x (Option.some.inj hx).symm)
        fun hy => hv y (Option.some.inj hy).symm
  · refine mergeAll_iff (P := fun o => ∃ inner, o = some (.obj inner)) (by simp) ?_ h
    rintro a b (rfl | ⟨x, y, rfl, rfl⟩)
    · rfl
    · exact iff_of_true ⟨x, rfl⟩ ⟨y, rfl⟩

def disputed : List (Fields Value) :=
  [[("a", .obj [("x", .int 1)])], [("a", .int 5)], [("a", .obj [("y", .int 2)])], [("b", .int 3)]]

theorem disputed_keyed : ∀ layer ∈ disputed, (Value.obj layer).IsKeyed := by
  have hsingle {name : String} {v : Value} (hv : v.IsKeyed) : (Value.obj [(name, v)]).IsKeyed :=
    .obj (by simp) fun f hf => by rwa [List.mem_singleton.mp hf]
  have hint (n : Int) : (Value.int n).IsKeyed := .other fun _ h => nomatch h
  simp only [disputed, List.forall_mem_cons, List.not_mem_nil, false_imp_iff, implies_true, and_true]
  exact ⟨hsingle (hsingle (hint 1)), hsingle (hint 5), hsingle (hsingle (hint 2)), hsingle (hint 3)⟩

theorem disputed_untouched (path : List String) : ¬ Touches [("b", .int 3)] ("a" :: path) := by
  have hnone : Fields.get? [("b", Value.int 3)] "a" = none := rfl
  cases path with
  | nil => simp [touches_singleton_iff, hnone]
  | cons key path =>
    have hempty : sectionOf [("b", Value.int 3)] "a" = [] := rfl
    rw [touches_cons_cons_iff, hempty, hnone]
    simp [Touches, at?_nil]

theorem disputed_last (path : List String) (h : Touches [("a", .obj [("y", .int 2)])] ("a" :: path)) :
    IsLastTouching disputed ("a" :: path) [("a", .obj [("y", .int 2)])] := by
  refine ⟨disputed.take 2, disputed.drop 3, rfl, h, fun other hother => ?_⟩
  rw [List.mem_singleton.mp hother]
  exact disputed_untouched path

/-- What the number cut off does not come back with the section above it. -/
theorem disputed_decided : (∀ layer ∈ disputed, (Value.obj layer).IsKeyed) ∧
    (∃ inner, at? (mergeAll disputed) ["a"] = some (.obj inner)) ∧
    at? (mergeAll disputed) ["a", "y"] = some (.int 2) ∧ at? (mergeAll disputed) ["a", "x"] = none := by
  refine ⟨disputed_keyed, ?_, ?_, rfl⟩
  · refine (last_touching_decides disputed_keyed ["a"]).2.mpr ?_
    exact ⟨_, disputed_last [] (.inl ⟨_, rfl⟩), _, rfl⟩
  · refine ((last_touching_decides disputed_keyed ["a", "y"]).1 _ ?_).mpr ?_
    · exact fun _ h => nomatch h
    · exact ⟨_, disputed_last ["y"] (.inl ⟨_, rfl⟩), rfl⟩

end ChunkBuild.Config
