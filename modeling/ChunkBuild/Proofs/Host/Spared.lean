import ChunkBuild.Proofs.Host.Frame
import ChunkBuild.Proofs.Host.Places
/-! # What jobs spare

A job spares the places that it does not touch: what stands there stays, and where nothing stands a
directory may be made, as happens on the way to a place that is to be used. Main statements: making
directories touches nothing at all, and removing a tree and writing a file touch no place outside the
one that the path denotes. -/
namespace ChunkBuild

open ChunkBuild.Text

variable {α β : Type} {touched : Location → Prop}

namespace FileTree

def Spares (touched : Location → Prop) (t u : FileTree) : Prop :=
  ∀ loc, ¬ touched loc → u.at? loc = t.at? loc ∨ t.at? loc = none ∧ u.at? loc = some .directory

variable {t u v : FileTree} {place loc : Location} {content : Bytes}

theorem Spares.refl (t : FileTree) : Spares touched t t := fun _ _ => .inl rfl

theorem Spares.trans (h : Spares touched t u) (h' : Spares touched u v) : Spares touched t v := by
  intro loc hloc
  rcases h' loc hloc with hv | ⟨hu, hv⟩
  · rw [hv]
    exact h loc hloc
  · rcases h loc hloc with he | ⟨-, he⟩
    · exact .inr ⟨he ▸ hu, hv⟩
    · rw [he] at hu
      cases hu

theorem Spares.mono {more : Location → Prop} (h : Spares touched t u)
    (hmore : ∀ loc, touched loc → more loc) : Spares more t u :=
  fun loc hloc => h loc fun ht => hloc (hmore loc ht)

/-- Files that are not touched are neither changed nor made nor removed. -/
theorem Spares.file_iff (h : Spares touched t u) (hloc : ¬ touched loc) :
    u.at? loc = some (.file content) ↔ t.at? loc = some (.file content) := by
  rcases h loc hloc with he | ⟨ht, hu⟩
  · rw [he]
  · simp [ht, hu]

theorem Spares.directory (h : Spares touched t u) (hloc : ¬ touched loc)
    (hd : t.at? loc = some .directory) : u.at? loc = some .directory := by
  rcases h loc hloc with he | ⟨-, hu⟩
  · rw [he, hd]
  · exact hu

/-- Where nothing stands after directories were made, nothing stood before. -/
theorem Spares.none_of_none {touched : Location → Prop} (h : Spares touched t u)
    (hloc : ¬ touched loc) (hnone : u.at? loc = none) : t.at? loc = none := by
  rcases h loc hloc with he | ⟨ht, -⟩
  · rw [← he, hnone]
  · exact ht

theorem spares_put {e : Entry} (h : touched loc) : Spares touched t (t.put loc e) := by
  intro other ho
  have hne : loc ≠ other := by
    rintro rfl
    exact ho h
  exact .inl (at?_put_of_ne hne)

theorem spares_makeDirectory (h : t.makeDirectory loc = .ok u) : Spares touched t u := by
  unfold makeDirectory at h
  cases hloc : t.at? loc with
  | some e =>
    rw [hloc] at h
    cases h
  | none =>
    rw [hloc] at h
    cases h
    intro other _
    by_cases he : loc = other
    · subst he
      refine .inr ⟨hloc, at?_put_self ?_⟩
      rintro rfl
      cases hloc
    · exact .inl (at?_put_of_ne he)

/-- Taking entries away at or below a place leaves the others. -/
theorem spares_filter {kept : Location × Entry → Bool} (h : ∀ x, ¬ place <+: x.1 → kept x = true) :
    Spares (place <+: ·) t (t.filter kept) := by
  intro loc hloc
  by_cases hne : loc = []
  · subst hne
    exact .inl rfl
  · refine .inl ?_
    rw [at?_eq_find hne, at?_eq_find hne, List.find?_filter]
    congr 2
    funext x
    by_cases hx : x.1 = loc
    · simp [hx, h x (hx ▸ hloc)]
    · simp [hx]

theorem spares_remove : Spares (place <+: ·) t (t.remove place) := by
  apply spares_filter
  intro x hx
  rw [Bool.not_eq_true', ← Bool.not_eq_true, List.isPrefixOf_iff_prefix]
  exact hx

theorem spares_clear : Spares (place <+: ·) t (t.clear place) := by
  apply spares_filter
  intro x hx
  rw [Bool.or_eq_true, Bool.not_eq_true', ← Bool.not_eq_true, List.isPrefixOf_iff_prefix]
  exact .inr hx

end FileTree

namespace Job

variable {cwd p : Path} {x : Job α} {f : α → Job β} {h k : Host} {e : Failure}

/-- Started in a current directory, a job stays there and spares what it does not touch. -/
def Spares (cwd : Path) (touched : Location → Prop) (x : Job α) : Prop :=
  ∀ h, h.current = cwd →
    (x.left h).current = cwd ∧ FileTree.Spares touched h.files (x.left h).files

theorem Spares.of_keeps (hx : Keeps id x) : Spares cwd touched x := by
  intro h hc
  have hleft : x.left h = h := hx h
  rw [hleft]
  exact ⟨hc, .refl h.files⟩

theorem Spares.of_ok {a : α} (hx : Spares cwd touched x) (hc : h.current = cwd)
    (hr : x h = .ok a k) : k.current = cwd ∧ FileTree.Spares touched h.files k.files := by
  have hleft := hx h hc
  rwa [left_of_ok hr] at hleft

theorem Spares.bind_of_ok (hx : Spares cwd touched x)
    (hf : ∀ h a k, x h = .ok a k → Spares cwd touched (f a)) : Spares cwd touched (x >>= f) := by
  intro h hc
  obtain ⟨hcx, hsx⟩ := hx h hc
  cases hr : x h with
  | ok a k =>
    rw [left_of_ok hr] at hcx hsx
    rw [left_bind_of_ok hr]
    obtain ⟨hcf, hsf⟩ := hf h a k hr k hcx
    exact ⟨hcf, hsx.trans hsf⟩
  | error e k =>
    rw [left_of_error hr] at hcx hsx
    rw [left_of_error (bind_of_error hr)]
    exact ⟨hcx, hsx⟩

theorem Spares.bind (hx : Spares cwd touched x) (hf : ∀ a, Spares cwd touched (f a)) :
    Spares cwd touched (x >>= f) :=
  hx.bind_of_ok fun _ a _ _ => hf a

theorem Spares.lift_bind {r : Except Failure α} (hf : ∀ a, r = .ok a → Spares cwd touched (f a)) :
    Spares cwd touched (Job.lift r >>= f) := by
  refine (Spares.of_keeps (Keeps.lift r)).bind_of_ok fun h a k hr => hf a ?_
  cases r with
  | ok b =>
    cases hr
    rfl
  | error e => cases hr

theorem Spares.outcome (hx : Spares cwd touched x) : Spares cwd touched x.outcome := by
  intro h hc
  rw [left_outcome]
  exact hx h hc

theorem Spares.pure (a : α) : Spares cwd touched (pure a : Job α) := .of_keeps (.pure a)

theorem Spares.throw (e : Failure) : Spares cwd touched (throw e : Job α) := .of_keeps (.throw e)

/-! ## Operations on files -/

theorem spares_logged {touched : Location → Prop} {level : LogLevel} {message : String} :
    Spares cwd touched (logged level message) :=
  fun _ hc => ⟨hc, .refl _⟩

theorem spares_atPlace {g : FileTree → Location → Except FileProblem (α × FileTree)}
    (hg : ∀ t a u, g t (p.placeIn cwd) = .ok (a, u) → FileTree.Spares touched t u) :
    Spares cwd touched (atPlace p g) := by
  intro h hc
  cases hr : atPlace p g h with
  | ok a k =>
    obtain ⟨loc, files, hp, hfiles, rfl⟩ := atPlace_eq_ok.mp hr
    rw [left_of_ok hr]
    rw [← hp.placeIn_eq, hc] at hfiles
    exact ⟨hc, hg _ _ _ hfiles⟩
  | error e k =>
    obtain rfl := left_of_atPlace_error hr
    rw [left_of_error hr]
    exact ⟨hc, .refl _⟩

theorem spares_writeBytes {content : Bytes} (ht : touched (p.placeIn cwd)) :
    Spares cwd touched (writeBytes p content) := by
  apply spares_atPlace
  intro t a u hu
  obtain ⟨v, hv, he⟩ := except_map_eq_ok.mp hu
  cases he
  obtain ⟨-, rfl⟩ := write_eq_ok.mp hv
  exact FileTree.spares_put ht

theorem spares_makeDirectory : Spares cwd touched (makeDirectory p) := by
  apply spares_atPlace
  intro t a u hu
  obtain ⟨v, hv, he⟩ := except_map_eq_ok.mp hu
  cases he
  exact FileTree.spares_makeDirectory hv

theorem spares_ensureDirectory : Spares cwd touched (ensureDirectory p) := by
  refine .bind spares_makeDirectory.outcome fun r => ?_
  split
  · exact .pure ()
  · refine .bind (.of_keeps keeps_isDirectory) fun stands => ?_
    split
    · exact .pure ()
    · exact .throw _
  · exact .throw _

theorem spares_ensureDirectoriesFrom {anchor : Anchor} {rest : List String} :
    Spares cwd touched (ensureDirectoriesFrom anchor rest) := by
  induction rest with
  | nil => exact spares_ensureDirectory
  | cons name rest ih =>
    refine .bind spares_ensureDirectory.outcome fun r => ?_
    split
    · exact .pure ()
    · split
      · exact .bind ih fun _ => spares_ensureDirectory
      · exact .throw _
    · exact .throw _

theorem spares_ensureDirectories : Spares cwd touched (ensureDirectories p) :=
  spares_ensureDirectoriesFrom

theorem spares_makeDirectories : Spares cwd touched (makeDirectories p) := by
  refine .bind spares_makeDirectory.outcome fun r => ?_
  split
  · exact .pure ()
  · split
    · exact .bind spares_ensureDirectories fun _ => spares_makeDirectory
    · exact .throw _
  · exact .throw _

/-- What lies below goes first, and then the directory itself if the path still leads there. -/
theorem spares_removeTree : Spares cwd (p.placeIn cwd <+: ·) (removeTree p) := by
  refine .bind (.of_keeps keeps_checkPathText) fun _ => ?_
  intro h hc
  rw [left_get_bind]
  cases hl : h.locate p with
  | error e => exact ⟨hc, .refl _⟩
  | ok loc =>
    obtain rfl : p.placeIn cwd = loc := hc ▸ Path.placeIn_of_locate hl
    dsimp only
    split
    · exact ⟨hc, .refl _⟩
    · exact ⟨hc, .refl _⟩
    · have hremove : Spares cwd (p.placeIn cwd <+: ·)
          (atPlace p fun t loc => .ok ((), t.remove loc)) := by
        apply spares_atPlace
        intro t a u hu
        cases hu
        exact FileTree.spares_remove
      obtain ⟨hcurrent, hspares⟩ :=
        hremove { h with files := h.files.clear (p.placeIn cwd) } hc
      exact ⟨hcurrent, FileTree.spares_clear.trans hspares⟩

end Job

end ChunkBuild
