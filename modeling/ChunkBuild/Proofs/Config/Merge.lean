import ChunkBuild.Proofs.Config.Checked
import ChunkBuild.Proofs.Fields
/-! # What merged layers say

A layer of settings over another one says under a key what it says there itself, or else what the lower
one says; sections are merged key by key. Main statement: at the path of a leaf, merged layers say what
the upper one of those says that mention it, as long as that is no section. -/
namespace ChunkBuild.Config

open ChunkBuild.Json

variable {base new upper lower : Fields Value} {key name : String} {v : Value} {path : List String}

structure IsLayer (fields : Fields Value) : Prop where
  nodup : (fields.map (·.1)).Nodup
  inner_nodup : ∀ {name inner}, fields.get? name = some (.obj inner) → (inner.map (·.1)).Nodup

theorem nodup_merge (h : (base.map (·.1)).Nodup) : ((merge base new).map (·.1)).Nodup := by
  induction new generalizing base with
  | nil => exact h
  | cons f r ih => exact ih (Fields.nodup_put h)

/-- A key of merged layers is one of theirs. -/
theorem mem_keys_merge (h : key ∈ (merge base new).map (·.1)) :
    key ∈ base.map (·.1) ∨ key ∈ new.map (·.1) := by
  induction new generalizing base with
  | nil => exact .inl h
  | cons f r ih =>
    rcases ih h with hbase | hr
    · rcases Fields.mem_keys_put hbase with hbase | rfl
      · exact .inl hbase
      · exact .inr List.mem_cons_self
    · exact .inr (List.mem_cons_of_mem _ hr)

theorem get?_merge (h : (new.map (·.1)).Nodup) : (merge base new).get? key =
    match new.get? key with
    | none => base.get? key
    | some v => some (mergeValue (base.get? key) v) := by
  induction new generalizing base with
  | nil => rfl
  | cons f r ih =>
    obtain ⟨k, w⟩ := f
    obtain ⟨hk, hr⟩ := List.nodup_cons.mp h
    rw [merge, ih hr, Fields.get?]
    by_cases hkey : k = key
    · subst hkey
      rw [if_pos rfl, Fields.get?_eq_none hk, Fields.get?_put_self]
    · rw [if_neg hkey, Fields.get?_put_of_ne hkey]

theorem mergeValue_of_not_obj {old : Option Value} (h : ∀ inner, v ≠ .obj inner) :
    mergeValue old v = v := by
  cases v with
  | obj inner => exact absurd rfl (h inner)
  | _ => rfl

/-- A section is merged over a section, and replaces anything else. -/
theorem mergeValue_section (old : Option Value) (above : Fields Value) :
    (∃ below, old = some (.obj below) ∧ mergeValue old (.obj above) = .obj (merge below above)) ∨
      (∀ below, old ≠ some (.obj below)) ∧ mergeValue old (.obj above) = .obj above := by
  by_cases h : ∃ below, old = some (.obj below)
  · obtain ⟨below, rfl⟩ := h
    refine .inl ⟨below, rfl, ?_⟩
    rw [mergeValue]
  · have hold : ∀ below, old ≠ some (.obj below) := fun below hb => h ⟨below, hb⟩
    refine .inr ⟨hold, ?_⟩
    rw [mergeValue]
    exact hold

theorem IsLayer.merge (hb : IsLayer base) (hn : IsLayer new) : IsLayer (merge base new) := by
  refine ⟨nodup_merge hb.nodup, fun {name inner} h => ?_⟩
  rw [get?_merge hn.nodup] at h
  split at h
  · exact hb.inner_nodup h
  · next v hv =>
    by_cases hobj : ∃ above, v = .obj above
    · obtain ⟨above, rfl⟩ := hobj
      obtain ⟨below, hbelow, hmerged⟩ | ⟨-, hmerged⟩ :=
        mergeValue_section (base.get? name) above
      · rw [hmerged] at h
        cases h
        exact nodup_merge (hb.inner_nodup hbelow)
      · rw [hmerged] at h
        cases h
        exact hn.inner_nodup hv
    · rw [mergeValue_of_not_obj fun above hv => hobj ⟨above, hv⟩] at h
      exact absurd ⟨inner, Option.some.inj h⟩ hobj

theorem MapsSections.merge (hb : MapsSections base) (hn : MapsSections new)
    (h : (new.map (·.1)).Nodup) : MapsSections (merge base new) := by
  intro name hname v hv
  rw [get?_merge h] at hv
  split at hv
  · exact hb name hname v hv
  · next w hw =>
    obtain ⟨inner, rfl⟩ := hn name hname w hw
    cases hv
    obtain ⟨_, -, hmerged⟩ | ⟨-, hmerged⟩ := mergeValue_section (base.get? name) inner
    · exact ⟨_, hmerged⟩
    · exact ⟨_, hmerged⟩

def GivesSections (fields : Fields Value) : Prop :=
  ∀ name ∈ sectionNames, ∃ inner, fields.get? name = some (.obj inner)

theorem GivesSections.maps (hg : GivesSections new) : MapsSections new := by
  intro name hn v hv
  obtain ⟨inner, hinner⟩ := hg name hn
  exact ⟨inner, Option.some.inj (hv.symm.trans hinner)⟩

theorem GivesSections.merge (hg : GivesSections new) (h : (new.map (·.1)).Nodup) :
    GivesSections (merge base new) := by
  intro name hn
  obtain ⟨inner, hinner⟩ := hg name hn
  rw [get?_merge h, hinner]
  obtain ⟨_, -, hmerged⟩ | ⟨-, hmerged⟩ := mergeValue_section (base.get? name) inner
  · exact ⟨_, congrArg some hmerged⟩
  · exact ⟨_, congrArg some hmerged⟩

/-- What is found where `first` was said first. Sections said there may have been merged. -/
def Follows (found first : Option Value) : Prop :=
  found = first ∨ ∃ a b, found = some (.obj a) ∧ first = some (.obj b)

theorem Follows.trans {a b c : Option Value} (hab : Follows a b) (hbc : Follows b c) :
    Follows a c := by
  rcases hab with rfl | ⟨x, y, rfl, rfl⟩
  · exact hbc
  · rcases hbc with rfl | ⟨_, z, -, rfl⟩
    · exact .inr ⟨x, y, rfl, rfl⟩
    · exact .inr ⟨x, z, rfl, rfl⟩

theorem Follows.or {a b c d : Option Value} (hab : Follows a b) (hcd : Follows c d) :
    Follows (a.or c) (b.or d) := by
  rcases hab with rfl | ⟨x, y, rfl, rfl⟩
  · cases a with
    | none => exact hcd
    | some v => exact .inl rfl
  · exact .inr ⟨x, y, rfl, rfl⟩

theorem Follows.eq_some {found : Option Value} (hf : Follows found (some v))
    (hv : ∀ inner, v ≠ .obj inner) : found = some v := by
  rcases hf with rfl | ⟨_, inner, -, hobj⟩
  · rfl
  · exact absurd (Option.some.inj hobj) (hv inner)

/-- A leaf that is taken from what merged layers say is taken from what was said first. -/
theorem Leaf.Taken.of_follows {l : Leaf} {s : Settings} {found first : Option Value} (hl : l ∈ leaves)
    (h : l.Taken s found) (hf : Follows found first) : l.Taken s first := by
  rcases hf with rfl | ⟨inner, _, rfl, rfl⟩
  · exact h
  · exact absurd h (leaf_rejects_section l hl inner _)

theorem follows_get?_merge (h : (new.map (·.1)).Nodup) :
    Follows ((merge base new).get? key) ((new.get? key).or (base.get? key)) := by
  rw [get?_merge h]
  cases hn : new.get? key with
  | none => exact .inl rfl
  | some v =>
    by_cases hv : ∃ inner, v = .obj inner
    · obtain ⟨inner, rfl⟩ := hv
      obtain ⟨_, -, hmerged⟩ | ⟨-, hmerged⟩ := mergeValue_section (base.get? key) inner
      · exact .inr ⟨_, _, congrArg some hmerged, rfl⟩
      · exact .inr ⟨_, _, congrArg some hmerged, rfl⟩
    · exact .inl (congrArg some (mergeValue_of_not_obj fun inner h => hv ⟨inner, h⟩))

theorem follows_section_merge (hl : IsLayer new)
    (hm : ∀ v, new.get? name = some v → ∃ inner, v = .obj inner) :
    Follows ((sectionOf (merge base new) name).get? key)
      (((sectionOf new name).get? key).or ((sectionOf base name).get? key)) := by
  unfold sectionOf
  rw [get?_merge hl.nodup]
  cases hn : new.get? name with
  | none => exact .inl rfl
  | some v =>
    obtain ⟨above, rfl⟩ := hm v hn
    obtain ⟨below, hb, hmerged⟩ | ⟨hb, hmerged⟩ := mergeValue_section (base.get? name) above
    · dsimp only
      rw [hmerged, hb]
      exact follows_get?_merge (hl.inner_nodup hn)
    · dsimp only
      rw [hmerged]
      dsimp only
      split
      · next below hbelow => exact absurd hbelow (hb below)
      · exact .inl Option.or_none.symm

/-- At the path of a leaf, merged layers say what the upper one of those says that mention it. -/
theorem follows_merge (base : Fields Value) {l : Leaf} (h : l ∈ leaves) (hl : IsLayer new)
    (hm : MapsSections new) :
    Follows (at? (merge base new) l.path) ((at? new l.path).or (at? base l.path)) := by
  rcases leaf_path l h with ⟨name, hn, key, hp⟩ | ⟨key, -, hp⟩
  · rw [hp]
    exact follows_section_merge hl (hm name hn)
  · rw [hp]
    exact follows_get?_merge hl.nodup

end ChunkBuild.Config
