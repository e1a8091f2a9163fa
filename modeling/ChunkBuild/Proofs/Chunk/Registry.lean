import ChunkBuild.Chunk.Registry
import Mathlib.Data.List.Basic
import Mathlib.Tactic.ByContra
import Mathlib.Tactic.SplitIfs
/-! # Chunks of a registry

A chunk has passed the checks of its fields, so its name can be told apart in a descriptor, and its
alias and the parts of its exports path may name bindings. The conflicts are looked for chunk by chunk,
so a registry has none between any two of its chunks. -/
namespace ChunkBuild

open ChunkBuild.Text

theorem Chunk.fields_sound (c : Chunk) :
    nameProblem? c.name = none ∧ entryPointProblem? c.entryPoint = none ∧
      exportsPathProblem? c.exportsPath = none ∧ importAliasProblem? c.importAlias = none := by
  have hs := c.sound
  simpa only [Declaration.problem?, Option.or_eq_none_iff] using hs

theorem Chunk.name_sound (c : Chunk) :
    c.name ≠ "" ∧ ':' ∉ c.name.toList ∧ ',' ∉ c.name.toList := by
  obtain ⟨hname, -, -, -⟩ := c.fields_sound
  rw [nameProblem?] at hname
  split_ifs at hname with hblank hreserved
  rw [List.any_eq_true] at hreserved
  refine ⟨?_, fun hc => hreserved ⟨':', hc, rfl⟩, fun hc => hreserved ⟨',', hc, rfl⟩⟩
  intro hempty
  rw [hempty] at hblank
  exact hblank rfl

theorem exportsPathProblem?_eq_none_iff {s : String} :
    exportsPathProblem? s = none ↔ isExportsPath s = true := by
  simp [exportsPathProblem?]

theorem importAliasProblem?_eq_none_iff {s : String} :
    importAliasProblem? s = none ↔ isBindingName s = true := by
  simp [importAliasProblem?]

theorem Chunk.isExportsPath_exportsPath (c : Chunk) : isExportsPath c.exportsPath = true := by
  obtain ⟨-, -, hexports, -⟩ := c.fields_sound
  exact exportsPathProblem?_eq_none_iff.mp hexports

theorem Chunk.isBindingName_importAlias (c : Chunk) : isBindingName c.importAlias = true := by
  obtain ⟨-, -, -, halias⟩ := c.fields_sound
  exact importAliasProblem?_eq_none_iff.mp halias

def Distinct (c d : Chunk) : Prop := c.name ≠ d.name ∧ c.importAlias ≠ d.importAlias

variable {seen chunks : List Chunk} {c : Chunk} {p : RegistryProblem}

inductive Clash (seen : List Chunk) (c : Chunk) : RegistryProblem → Prop where
  | name {d : Chunk} {j : Nat} (hd : seen[j]? = some d) (hname : d.name = c.name) :
    Clash seen c (.repeatedName c.name j seen.length)
  | importAlias {d : Chunk} (hnames : ∀ s ∈ seen, s.name ≠ c.name) (hd : d ∈ seen)
    (halias : d.importAlias = c.importAlias) :
    Clash seen c (.sharedAlias c.importAlias d.name c.name)

theorem Clash.not_distinct (h : Clash seen c p) : ¬ ∀ s ∈ seen, Distinct s c := by
  intro hc
  cases h with
  | name hd hname => exact (hc _ (List.mem_of_getElem? hd)).1 hname
  | importAlias _ hd halias => exact (hc _ hd).2 halias

/-- The next chunk has a conflict, or it has none and is passed over. -/
theorem conflictFrom_cons (seen : List Chunk) (c : Chunk) (rest : List Chunk) :
    (∃ p, Clash seen c p ∧ conflictFrom seen (c :: rest) = some p) ∨
      (∀ s ∈ seen, Distinct s c) ∧ conflictFrom seen (c :: rest) = conflictFrom (seen ++ [c]) rest := by
  rw [conflictFrom]
  split
  · next j _ hname =>
    obtain ⟨hj, hfound, -⟩ := List.findIdx?_eq_some_iff_getElem.mp hname
    exact .inl ⟨_, .name (List.getElem?_eq_getElem hj) (of_decide_eq_true hfound), rfl⟩
  · next d hname halias =>
    have hnames (s : Chunk) (hs : s ∈ seen) : s.name ≠ c.name :=
      of_decide_eq_false (List.findIdx?_eq_none_iff.mp hname s hs)
    have hfound : d.importAlias = c.importAlias := by simpa using List.find?_some halias
    exact .inl ⟨_, .importAlias hnames (List.mem_of_find?_eq_some halias) hfound, rfl⟩
  · next hname halias =>
    refine .inr ⟨fun s hs => ?_, rfl⟩
    exact ⟨of_decide_eq_false (List.findIdx?_eq_none_iff.mp hname s hs),
      by simpa using List.find?_eq_none.mp halias s hs⟩

theorem conflictFrom_eq_none_iff : conflictFrom seen chunks = none ↔
    (∀ s ∈ seen, ∀ c ∈ chunks, Distinct s c) ∧ chunks.Pairwise Distinct := by
  induction chunks generalizing seen with
  | nil => simp [conflictFrom]
  | cons c rest ih =>
    obtain ⟨p, hclash, heq⟩ | ⟨hc, heq⟩ := conflictFrom_cons seen c rest
    · rw [heq]
      exact iff_of_false (fun h => nomatch h) fun h =>
        hclash.not_distinct fun s hs => h.1 s hs c List.mem_cons_self
    · rw [heq, ih, List.pairwise_cons]
      constructor
      · rintro ⟨hseen, hrest⟩
        refine ⟨?_, fun d hd => hseen c (by simp) d hd, hrest⟩
        intro s hs d hd
        rcases List.mem_cons.mp hd with rfl | hd
        · exact hc s hs
        · exact hseen s (by simp [hs]) d hd
      · rintro ⟨hseen, hcr, hrest⟩
        refine ⟨?_, hrest⟩
        intro s hs d hd
        rcases List.mem_append.mp hs with hs | hs
        · exact hseen s hs d (List.mem_cons_of_mem c hd)
        · rw [List.mem_singleton.mp hs]
          exact hcr d hd

theorem registryProblem?_eq_none_iff :
    registryProblem? chunks = none ↔ chunks ≠ [] ∧ chunks.Pairwise Distinct := by
  have hseen : ∀ s ∈ ([] : List Chunk), ∀ c ∈ chunks, Distinct s c := List.forall_mem_nil _
  by_cases h : chunks = []
  · rw [registryProblem?, if_pos (List.isEmpty_iff.mpr h)]
    exact iff_of_false (Option.some_ne_none _) fun hne => hne.1 h
  · rw [registryProblem?, if_neg (mt List.isEmpty_iff.mp h), conflictFrom_eq_none_iff,
      and_iff_right hseen, and_iff_right h]

theorem Registry.distinct (r : Registry) : r.chunks.Pairwise Distinct :=
  (registryProblem?_eq_none_iff.mp r.sound).2

theorem Registry.ofChunks_chunks (r : Registry) : ofChunks r.chunks = .ok r := by
  unfold ofChunks
  split
  · rfl
  · next h =>
    rw [r.sound] at h
    cases h

end ChunkBuild
