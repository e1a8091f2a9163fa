import ChunkBuild.Proofs.Host.FileTree
/-! # Moving files one after the other

A file that is moved is found at its target and no longer at its source, and no directory comes or
goes. In a run of moves a target can be lost to a later move only: one that has it as its source
takes it away, and one that has it as its target overwrites it. Main statement: every target of a run
holds what its source held, at a place of its own, exactly when the moves keep apart. -/
namespace ChunkBuild.FileTree

variable {K : Location → Prop} {t u v : FileTree} {a b c : Location} {content : Text.Bytes}
  {ms : List (Location × Location)}

structure Unchanged (K : Location → Prop) (t u : FileTree) : Prop where
  kept : ∀ c, K c → t.Reaches c → u.at? c = t.at? c
  stands : ∀ c, t.Stands c ↔ u.Stands c

/-- A file went from one place to another. Of the other places in question none changed, and no
directory. -/
structure Moved (K : Location → Prop) (t u : FileTree) (a b : Location) : Prop where
  isFile : ∃ content, t.at? a = some (.file content)
  target : u.at? b = t.at? a
  gone : a ≠ b → u.at? a = none
  kept : ∀ c, K c → t.Reaches c → c ≠ a → c ≠ b → u.at? c = t.at? c
  stands : ∀ c, t.Stands c ↔ u.Stands c

/-! ## One step -/

theorem reaches_iff (h : ∀ c, t.Stands c ↔ u.Stands c) : t.Reaches c ↔ u.Reaches c := h c.dropLast

theorem Unchanged.trans (h : Unchanged K t u) (h' : Unchanged K u v) : Unchanged K t v := by
  refine ⟨fun c hk hc => ?_, fun c => (h.stands c).trans (h'.stands c)⟩
  rw [h'.kept c hk ((reaches_iff h.stands).mp hc), h.kept c hk hc]

theorem Moved.trans (h : Moved K t u a b) (h' : Unchanged K u v) (ha : K a ∧ t.Reaches a)
    (hb : K b ∧ t.Reaches b) : Moved K t v a b where
  isFile := h.isFile
  target := by rw [h'.kept b hb.1 ((reaches_iff h.stands).mp hb.2), h.target]
  gone hne := by rw [h'.kept a ha.1 ((reaches_iff h.stands).mp ha.2), h.gone hne]
  kept c hk hc hca hcb := by
    rw [h'.kept c hk ((reaches_iff h.stands).mp hc), h.kept c hk hc hca hcb]
  stands c := (h.stands c).trans (h'.stands c)

theorem Moved.mono {L : Location → Prop} (h : Moved L t u a b) (hkl : ∀ c, K c → L c) :
    Moved K t u a b :=
  { h with kept := fun c hk => h.kept c (hkl c hk) }

/-- What is found after a move, but not at its target, was there before. -/
theorem Moved.kept_of_found (h : Moved K t u a b) (hk : K c) (hc : t.Reaches c) (hb : c ≠ b)
    (hf : u.at? c ≠ none) : u.at? c = t.at? c := by
  refine h.kept c hk hc ?_ hb
  rintro rfl
  exact hf (h.gone hb)

/-- A move between places that are not in question. -/
theorem Moved.unchanged {L : Location → Prop} (h : Moved L t u a b) (hkl : ∀ c, K c → L c)
    (ha : ¬ K a) (hb : ¬ K b) : Unchanged K t u := by
  refine ⟨fun c hk hc => h.kept c (hkl c hk) hc ?_ ?_, h.stands⟩
  · rintro rfl
    exact ha hk
  · rintro rfl
    exact hb hk

/-- A file was written over another one. -/
theorem unchanged_put {old new : Text.Bytes} (h : t.at? a = some (.file old)) (ha : ¬ K a) :
    Unchanged K t (t.put a (.file new)) := by
  have hne : a ≠ [] := by
    rintro rfl
    cases h
  refine ⟨fun c hk _ => at?_put_of_ne ?_, fun c => ⟨fun hs q hq => ?_, fun hs q hq => ?_⟩⟩
  · rintro rfl
    exact ha hk
  · exact keepsDirectories_put (by rw [h]; exact fun h => nomatch h) q (hs q hq)
  · have hq := hs q hq
    by_cases heq : a = q
    · subst heq
      rw [at?_put_self hne] at hq
      cases hq
    · rwa [at?_put_of_ne heq] at hq

/-- A file can be moved where no directory stands. -/
theorem moveProblem?_of_file (hf : t.at? a = some (.file content))
    (h : t.moveProblem? a b = none) (hne : a ≠ b) : t.at? b ≠ some .directory := by
  intro hb
  unfold moveProblem? at h
  simp only [hf, hb, if_neg hne] at h
  split at h
  · cases h
  · split at h
    · cases h
    · cases h

theorem rename_spec (hr : t.rename a b = .ok u) :
    t.moveProblem? a b = none ∧ u = if a = b then t else t.move a b := by
  unfold rename at hr
  split at hr
  · cases hr
  · next hnone => exact ⟨hnone, (Except.ok.inj hr).symm⟩

theorem found_of_rename (hr : t.rename a b = .ok u) : t.at? a ≠ none := by
  intro ha
  obtain ⟨hnone, -⟩ := rename_spec hr
  rw [moveProblem?, ha] at hnone
  cases hnone

/-- Neither of the places being a directory, a move changes none of the directories above a place. -/
theorem stands_move_iff (ha : t.at? a ≠ some .directory) (hb : t.at? b ≠ some .directory)
    (ha' : (t.move a b).at? a ≠ some .directory) (hb' : (t.move a b).at? b ≠ some .directory) :
    t.Stands c ↔ (t.move a b).Stands c := by
  constructor
  · intro hs q hq
    have hd := hs q hq
    rw [at?_move_of_apart, hd]
    · exact fun hp => ha (hs a (hp.trans hq))
    · exact fun hp => hb (hs b (hp.trans hq))
  · intro hs q hq
    have hd := hs q hq
    rwa [at?_move_of_apart] at hd
    · exact fun hp => ha' (hs a (hp.trans hq))
    · exact fun hp => hb' (hs b (hp.trans hq))

/-- What is found at the target of a rename stood at its source. -/
theorem at?_of_rename (hr : t.rename a b = .ok u) (ha : a ≠ []) (hb : b ≠ []) :
    u.at? b = t.at? a := by
  obtain ⟨-, rfl⟩ := rename_spec hr
  split
  · next hab => rw [hab]
  · exact at?_move_target ha hb

theorem moved_of_rename (hr : t.rename a b = .ok u) (hf : t.at? a = some (.file content))
    (ha : t.Reaches a) (hb : t.Reaches b) : Moved (fun _ => True) t u a b := by
  obtain ⟨hnone, rfl⟩ := rename_spec hr
  by_cases hab : a = b
  · subst hab
    rw [if_pos rfl]
    exact ⟨⟨content, hf⟩, rfl, fun h => absurd rfl h, fun _ _ _ _ _ => rfl, fun _ => Iff.rfl⟩
  rw [if_neg hab]
  have hdir : t.at? b ≠ some .directory := moveProblem?_of_file hf hnone hab
  have hfile : t.at? a ≠ some .directory := by
    rw [hf]
    exact fun h => nomatch h
  have hane : a ≠ [] := by
    rintro rfl
    exact hfile rfl
  have hbne : b ≠ [] := by
    rintro rfl
    exact hdir rfl
  -- neither place lies above one that is reached
  have above {q c : Location} (hq : t.at? q ≠ some .directory) (hc : t.Reaches c) (hne : c ≠ q) :
      ¬ q <+: c := fun hp => hq (hc.at_of_prefix hp hne.symm)
  have htarget : (t.move a b).at? b = t.at? a := at?_move_target hane hbne
  have hsource : (t.move a b).at? a = none := at?_move_source hane (above hdir ha hab)
  refine ⟨⟨content, hf⟩, htarget, fun _ => hsource, ?_, ?_⟩
  · exact fun c _ hc hca hcb => at?_move_of_apart (above hfile hc hca) (above hdir hc hcb)
  · intro c
    refine stands_move_iff hfile hdir ?_ ?_
    · rw [hsource]
      exact fun h => nomatch h
    · rw [htarget]
      exact hfile

/-! ## A run of moves -/

inductive Moves (K : Location → Prop) : FileTree → List (Location × Location) → FileTree → Prop where
  | nil (t : FileTree) : Moves K t [] t
  | cons {t u v : FileTree} {m : Location × Location} {ms : List (Location × Location)}
      (h : Moved K t u m.1 m.2) (hr : Moves K u ms v) : Moves K t (m :: ms) v

def Counts (K : Location → Prop) (t : FileTree) (ms : List (Location × Location)) : Prop :=
  ∀ m ∈ ms, (K m.1 ∧ t.Reaches m.1) ∧ K m.2 ∧ t.Reaches m.2

/-- No move takes away what an earlier one left, or overwrites it. -/
def Apart (ms : List (Location × Location)) : Prop :=
  ms.Pairwise fun x y => x.2 ≠ y.1 ∧ x.2 ≠ y.2

def Arrived (t u : FileTree) (ms : List (Location × Location)) : Prop :=
  (∀ m ∈ ms, u.at? m.2 = t.at? m.1) ∧ ms.Pairwise fun x y => x.2 ≠ y.2

variable {m : Location × Location}

theorem Counts.tail (h : Counts K t (m :: ms)) (hm : Moved K t u m.1 m.2) : Counts K u ms := by
  intro x hx
  obtain ⟨⟨hk, hr⟩, hk', hr'⟩ := h x (List.mem_cons_of_mem m hx)
  exact ⟨⟨hk, (reaches_iff hm.stands).mp hr⟩, hk', (reaches_iff hm.stands).mp hr'⟩

theorem Moves.stands (h : Moves K t ms u) (c : Location) : t.Stands c ↔ u.Stands c := by
  induction h with
  | nil => exact Iff.rfl
  | cons h _ ih => exact (h.stands c).trans ih

/-- A place that no move touches is left as it was. -/
theorem Moves.kept (h : Moves K t ms u) (hk : K c) (hc : t.Reaches c)
    (hne : ∀ m ∈ ms, c ≠ m.1 ∧ c ≠ m.2) : u.at? c = t.at? c := by
  induction h with
  | nil => rfl
  | cons h _ ih =>
    obtain ⟨⟨hsource, htarget⟩, hne⟩ := List.forall_mem_cons.mp hne
    rw [ih ((reaches_iff h.stands).mp hc) hne, h.kept c hk hc hsource htarget]

/-- Nothing comes to a place that is no target. -/
theorem Moves.stays_free (h : Moves K t ms u) (hk : K c) (hc : t.Reaches c) (hf : t.at? c = none)
    (hne : ∀ m ∈ ms, c ≠ m.2) : u.at? c = none := by
  induction h with
  | nil => exact hf
  | cons h _ ih =>
    obtain ⟨htarget, hne⟩ := List.forall_mem_cons.mp hne
    refine ih ((reaches_iff h.stands).mp hc) ?_ hne
    rw [h.kept c hk hc ?_ htarget, hf]
    rintro rfl
    obtain ⟨_, hfile⟩ := h.isFile
    rw [hf] at hfile
    cases hfile

/-- A source that is no target is free in the end. -/
theorem Moves.source_free (h : Moves K t ms u) (hc : Counts K t ms) (hm : m ∈ ms)
    (hne : ∀ x ∈ ms, m.1 ≠ x.2) : u.at? m.1 = none := by
  induction h with
  | nil => cases hm
  | @cons t v u x ms h hr ih =>
    obtain ⟨htarget, hrest⟩ := List.forall_mem_cons.mp hne
    rcases List.mem_cons.mp hm with rfl | hmem
    · obtain ⟨hk, hreached⟩ := (hc m List.mem_cons_self).1
      exact hr.stays_free hk ((reaches_iff h.stands).mp hreached) (h.gone htarget) hrest
    · exact ih (hc.tail h) hmem hrest

/-- When the moves keep apart, each source holds a file from the start. -/
theorem Moves.source_isFile (h : Moves K t ms u) (hc : Counts K t ms) (ha : Apart ms)
    (hm : m ∈ ms) : ∃ content, t.at? m.1 = some (.file content) := by
  induction h with
  | nil => cases hm
  | @cons t v u x ms h hr ih =>
    rcases List.mem_cons.mp hm with rfl | hmem
    · exact h.isFile
    obtain ⟨hx, hrest⟩ := List.pairwise_cons.mp ha
    obtain ⟨content, hfile⟩ := ih (hc.tail h) hrest hmem
    obtain ⟨hk, hreached⟩ := (hc m hm).1
    have hkept := h.kept_of_found hk hreached (hx m hmem).1.symm (by rw [hfile]; simp)
    exact ⟨content, by rw [← hkept, hfile]⟩

/-- The first move leaves the sources of the others alone when they keep apart. -/
theorem Moves.later_source_kept {x : Location × Location} (h : Moved K t v x.1 x.2)
    (hr : Moves K v ms u) (hc : Counts K t (x :: ms)) (ha : Apart (x :: ms)) (hm : m ∈ ms) :
    v.at? m.1 = t.at? m.1 := by
  obtain ⟨hx, hrest⟩ := List.pairwise_cons.mp ha
  obtain ⟨content, hfile⟩ := hr.source_isFile (hc.tail h) hrest hm
  obtain ⟨hk, hreached⟩ := (hc m (List.mem_cons_of_mem x hm)).1
  exact h.kept_of_found hk hreached (hx m hm).1.symm (by rw [hfile]; simp)

theorem Moves.arrived_of_apart (h : Moves K t ms u) (hc : Counts K t ms) (ha : Apart ms) :
    Arrived t u ms := by
  refine ⟨?_, ha.imp fun hxy => hxy.2⟩
  induction h with
  | nil => exact fun m hm => nomatch hm
  | @cons t v u x ms h hr ih =>
    obtain ⟨hx, hrest⟩ := List.pairwise_cons.mp ha
    intro m hm
    rcases List.mem_cons.mp hm with rfl | hmem
    · obtain ⟨hk, hreached⟩ := (hc m List.mem_cons_self).2
      rw [hr.kept hk ((reaches_iff h.stands).mp hreached) hx, h.target]
    · rw [ih (hc.tail h) hrest m hmem, hr.later_source_kept h hc ha hmem]

/-- A target at a place of its own that something stands at was not taken away. -/
theorem Moves.apart_of_found (h : Moves K t ms u) (hc : Counts K t ms)
    (hf : ∀ m ∈ ms, u.at? m.2 ≠ none) (hd : ms.Pairwise fun x y => x.2 ≠ y.2) : Apart ms := by
  induction h with
  | nil => exact .nil
  | @cons t v u x ms h hr ih =>
    obtain ⟨hx, hrest⟩ := List.pairwise_cons.mp hd
    obtain ⟨hfirst, hlater⟩ := List.forall_mem_cons.mp hf
    refine .cons (fun y hy => ⟨?_, hx y hy⟩) (ih (hc.tail h) hlater hrest)
    intro he
    have hfree := hr.source_free (hc.tail h) hy fun z hz => he ▸ hx z hz
    rw [← he] at hfree
    exact hfirst hfree

/-- Nothing is lost in a run of moves exactly when they keep apart. -/
theorem Moves.arrived_iff_apart (h : Moves K t ms u) (hc : Counts K t ms)
    (hf : ∀ m ∈ ms, t.at? m.1 ≠ none) : Arrived t u ms ↔ Apart ms := by
  constructor
  · rintro ⟨harrived, hd⟩
    refine h.apart_of_found hc ?_ hd
    intro m hm
    rw [harrived m hm]
    exact hf m hm
  · exact h.arrived_of_apart hc

end ChunkBuild.FileTree
