import ChunkBuild.Fields
import Mathlib.Tactic.SplitIfs
/-! # Ordered fields and their names

Writing keeps names apart, and removing a name leaves the others alone. -/
namespace ChunkBuild.Fields

variable {α : Type} {fs new : Fields α} {name other : String} {x : α}

theorem get?_eq_none (h : name ∉ fs.map (·.1)) : fs.get? name = none := by
  induction fs with
  | nil => rfl
  | cons f r ih =>
    rw [List.map_cons, List.mem_cons, not_or] at h
    rw [get?, if_neg (Ne.symm h.1)]
    exact ih h.2

theorem mem_of_get? (h : fs.get? name = some x) : (name, x) ∈ fs := by
  induction fs with
  | nil => cases h
  | cons f r ih =>
    rw [get?] at h
    split at h
    · next hf =>
      cases h
      rw [← hf]
      exact List.mem_cons_self
    · exact List.mem_cons_of_mem _ (ih h)

theorem get?_append (fs gs : Fields α) (name : String) :
    (fs ++ gs).get? name = (fs.get? name).or (gs.get? name) := by
  induction fs with
  | nil => rfl
  | cons f r ih =>
    rw [List.cons_append, get?, get?, ih]
    split_ifs
    · rfl
    · rfl

theorem get?_erase_self (fs : Fields α) (name : String) : (fs.erase name).get? name = none := by
  refine get?_eq_none ?_
  rw [List.mem_map]
  rintro ⟨f, hf, rfl⟩
  exact of_decide_eq_true (List.mem_filter.mp hf).2 rfl

theorem get?_erase_of_ne (h : name ≠ other) : (fs.erase name).get? other = fs.get? other := by
  induction fs with
  | nil => rfl
  | cons f fs ih =>
    by_cases hf : f.1 = name
    · rw [erase, List.filter_cons_of_neg (by simpa using hf), get?, if_neg (hf ▸ h)]
      exact ih
    · rw [erase, List.filter_cons_of_pos (by simpa using hf), get?, get?]
      split
      · rfl
      · exact ih

theorem keys_put (fs : Fields α) (name : String) (x : α) :
    (fs.put name x).map (·.1) =
      if name ∈ fs.map (·.1) then fs.map (·.1) else fs.map (·.1) ++ [name] := by
  induction fs with
  | nil => rfl
  | cons f r ih =>
    by_cases hf : f.1 = name
    · rw [put, if_pos hf, if_pos (by rw [← hf]; exact List.mem_cons_self)]
      rfl
    · rw [put, if_neg hf, List.map_cons, ih, List.map_cons]
      by_cases hr : name ∈ r.map (·.1)
      · rw [if_pos hr, if_pos (List.mem_cons_of_mem _ hr)]
      · rw [if_neg hr, if_neg (by rw [List.mem_cons, not_or]; exact ⟨Ne.symm hf, hr⟩)]
        rfl

theorem put_put (fs : Fields α) (name : String) (x y : α) :
    (fs.put name x).put name y = fs.put name y := by
  induction fs with
  | nil => exact if_pos rfl
  | cons f r ih =>
    by_cases hf : f.1 = name
    · rw [put, if_pos hf, put, if_pos hf, put, if_pos hf]
    · rw [put, if_neg hf, put, if_neg hf, put, if_neg hf, ih]

theorem put_of_get? (h : fs.get? name = some x) : fs.put name x = fs := by
  induction fs with
  | nil => cases h
  | cons f r ih =>
    rw [get?] at h
    by_cases hf : f.1 = name
    · rw [if_pos hf] at h
      cases h
      subst hf
      exact if_pos rfl
    · rw [if_neg hf] at h
      rw [put, if_neg hf, ih h]

theorem put_of_not_mem (h : name ∉ fs.map (·.1)) : fs.put name x = fs ++ [(name, x)] := by
  induction fs with
  | nil => rfl
  | cons f r ih =>
    rw [List.map_cons, List.mem_cons, not_or] at h
    rw [put, if_neg (Ne.symm h.1), ih h.2]
    rfl

theorem nodup_put (h : (fs.map (·.1)).Nodup) : ((fs.put name x).map (·.1)).Nodup := by
  rw [keys_put]
  split
  · exact h
  · next hname =>
    refine List.nodup_append.mpr ⟨h, List.pairwise_singleton _ _, fun a ha b hb => ?_⟩
    rw [List.mem_singleton.mp hb]
    exact fun hab => hname (hab ▸ ha)

theorem mem_keys_put (h : other ∈ (fs.put name x).map (·.1)) :
    other ∈ fs.map (·.1) ∨ other = name := by
  rw [keys_put] at h
  split at h
  · exact .inl h
  · exact (List.mem_append.mp h).imp_right List.mem_singleton.mp

theorem mem_put {f : String × α} (h : f ∈ fs.put name x) : f ∈ fs ∨ f.2 = x := by
  induction fs with
  | nil => exact .inr (congrArg Prod.snd (List.mem_singleton.mp h))
  | cons g r ih =>
    rw [put] at h
    split at h
    · rcases List.mem_cons.mp h with rfl | h
      · exact .inr rfl
      · exact .inl (List.mem_cons_of_mem _ h)
    · rcases List.mem_cons.mp h with rfl | h
      · exact .inl List.mem_cons_self
      · exact (ih h).imp_left (List.mem_cons_of_mem _)

theorem nodup_putAll (h : (fs.map (·.1)).Nodup) : ((fs.putAll new).map (·.1)).Nodup := by
  induction new generalizing fs with
  | nil => exact h
  | cons f r ih => exact ih (nodup_put h)

theorem mem_putAll {f : String × α} (h : f ∈ fs.putAll new) : f ∈ fs ∨ ∃ g ∈ new, f.2 = g.2 := by
  induction new generalizing fs with
  | nil => exact .inl h
  | cons g r ih =>
    rcases ih h with hput | ⟨g', hg, hf⟩
    · exact (mem_put hput).imp_right fun hf => ⟨g, List.mem_cons_self, hf⟩
    · exact .inr ⟨g', List.mem_cons_of_mem _ hg, hf⟩

/-! ## Fields picked by name -/

variable {names : List String} {f : String → Option α}

def picked (f : String → Option α) (names : List String) : Fields α :=
  names.filterMap fun n => (f n).map fun x => (n, x)

theorem picked_cons (n : String) : picked f (n :: names) =
    match f n with
    | none => picked f names
    | some x => (n, x) :: picked f names := by
  rw [picked, List.filterMap_cons]
  cases f n with
  | none => rfl
  | some x => rfl

theorem mem_picked : (name, x) ∈ picked f names ↔ name ∈ names ∧ f name = some x := by
  rw [picked, List.mem_filterMap]
  constructor
  · rintro ⟨n, hn, hx⟩
    obtain ⟨y, hy, hsame⟩ := Option.map_eq_some_iff.mp hx
    cases hsame
    exact ⟨hn, hy⟩
  · rintro ⟨hn, hx⟩
    exact ⟨name, hn, by rw [hx]; rfl⟩

theorem get?_picked (h : name ∈ names) : (picked f names).get? name = f name := by
  induction names with
  | nil => cases h
  | cons n r ih =>
    rw [picked_cons]
    by_cases hn : n = name
    · subst hn
      cases hf : f n with
      | none =>
        refine get?_eq_none fun hkey => ?_
        obtain ⟨⟨_, x⟩, hx, rfl⟩ := List.mem_map.mp hkey
        cases hf.symm.trans (mem_picked.mp hx).2
      | some x => exact if_pos rfl
    · rw [← ih ((List.mem_cons.mp h).resolve_left (Ne.symm hn))]
      cases f n with
      | none => rfl
      | some x => exact if_neg hn

theorem nodup_picked (h : names.Nodup) : ((picked f names).map (·.1)).Nodup := by
  refine List.Sublist.nodup ?_ h
  clear h
  induction names with
  | nil => exact .refl []
  | cons n r ih =>
    rw [picked_cons]
    cases f n with
    | none => exact ih.cons n
    | some x => exact ih.cons_cons n

end ChunkBuild.Fields
