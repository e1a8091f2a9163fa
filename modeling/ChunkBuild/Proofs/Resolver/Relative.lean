import ChunkBuild.Descriptor
import ChunkBuild.Proofs.Path.Below
import Mathlib.Data.List.DropRight
import Mathlib.Data.List.Forall2
/-! # Paths seen from a directory

A path below a directory is written as it is seen from there. It starts with the directory's text and a
slash, so it is absolute, and what it is written as is not. Main statement: the paths written in another
way are exactly those below the directory, all paths lead where they led before, and what is written is
the same for every directory. -/
namespace ChunkBuild

open ChunkBuild.Text

variable {raw : RawOutput} {directory p rest : String} {cs : List Char} {n : Nat}

/-! ## Slashes at the end -/

theorem trimEndBy_concat (q : Char → Bool) (cs : List Char) (c : Char) :
    trimEndBy q (cs ++ [c]) = if q c then trimEndBy q cs else cs ++ [c] :=
  List.rdropWhile_concat q cs c

theorem trimEndBy_congr {q r : Char → Bool} (h : ∀ c ∈ cs, q c = r c) :
    trimEndBy q cs = trimEndBy r cs := by
  induction cs using List.reverseRecOn with
  | nil => rfl
  | append_singleton cs c ih =>
    rw [List.forall_mem_append, List.forall_mem_singleton] at h
    rw [trimEndBy_concat, trimEndBy_concat, h.2, ih h.1]

theorem exists_trimEndBy (x : Char) (cs : List Char) :
    ∃ n, cs = trimEndBy (· == x) cs ++ List.replicate n x := by
  induction cs using List.reverseRecOn with
  | nil => exact ⟨0, rfl⟩
  | append_singleton cs c ih =>
    by_cases hc : c = x
    · obtain ⟨n, hn⟩ := ih
      refine ⟨n + 1, ?_⟩
      rw [trimEndBy_concat, if_pos (beq_iff_eq.mpr hc), List.replicate_succ', ← List.append_assoc,
        ← hn, hc]
    · refine ⟨0, ?_⟩
      rw [trimEndBy_concat, if_neg (by simpa using hc)]
      exact (List.append_nil _).symm

theorem partsOf_slashes (n : Nat) : partsOf (List.replicate n '/') = [] := by
  induction n with
  | zero => rfl
  | succ n ih =>
    rw [List.replicate_succ]
    exact (partsOf_slash_append [] _).trans ih

theorem partsOf_append_slashes (cs : List Char) (n : Nat) :
    partsOf (cs ++ List.replicate n '/') = partsOf cs := by
  cases n with
  | zero => rw [List.replicate_zero, List.append_nil]
  | succ n => rw [List.replicate_succ, partsOf_slash_append, partsOf_slashes, List.append_nil]

/-- Where a text starts is settled by its first name. -/
theorem anchorOf_append (h : ∃ c ∈ cs, c ≠ '/') (ds : List Char) :
    anchorOf (cs ++ ds) = anchorOf cs := by
  obtain ⟨c, hc, hname⟩ := h
  match cs, hc with
  | [x], hc =>
    obtain rfl : c = x := List.mem_singleton.mp hc
    simp [anchorOf, hname]
  | [x, y], hc =>
    by_cases hx : x = '/'
    · by_cases hy : y = '/'
      · simp [hx, hy, hname] at hc
      · simp [anchorOf, hx, hy]
    · simp [anchorOf, hx]
  | x :: y :: z :: r, _ =>
    by_cases hx : x = '/'
    · by_cases hy : y = '/'
      · by_cases hz : z = '/'
        · simp [anchorOf, hx, hy, hz]
        · simp [anchorOf, hx, hy, hz]
      · simp [anchorOf, hx, hy]
    · simp [anchorOf, hx]

/-! ## Directories -/

/-- An absolute directory other than the root, written with slashes. -/
structure IsNamedDirectory (directory : String) : Prop where
  absolute : startsWith "/" directory = true
  named : ∃ c ∈ directory.toList, c ≠ '/'
  plain : '\\' ∉ directory.toList

def stemOf (directory : String) : String := String.ofList (trimEndBy (· == '/') directory.toList)

theorem exists_slashes (directory : String) :
    ∃ n, directory.toList = (stemOf directory).toList ++ List.replicate n '/' := by
  rw [stemOf, String.toList_ofList]
  exact exists_trimEndBy '/' directory.toList

namespace IsNamedDirectory

theorem stem_named (hd : IsNamedDirectory directory) : ∃ c ∈ (stemOf directory).toList, c ≠ '/' := by
  obtain ⟨n, hn⟩ := exists_slashes directory
  obtain ⟨c, hc, hname⟩ := hd.named
  rw [hn, List.mem_append] at hc
  exact ⟨c, hc.resolve_right fun h => hname (List.eq_of_mem_replicate h), hname⟩

theorem stem_eq_cons (hd : IsNamedDirectory directory) :
    ∃ r, (stemOf directory).toList = '/' :: r := by
  obtain ⟨n, hn⟩ := exists_slashes directory
  obtain ⟨c, hc, -⟩ := hd.stem_named
  obtain ⟨x, r, hx⟩ := List.exists_cons_of_ne_nil (List.ne_nil_of_mem hc)
  have hstart : ['/'] <+: directory.toList := startsWith_iff.mp hd.absolute
  rw [hn, hx, List.cons_append, List.cons_prefix_cons] at hstart
  exact ⟨r, hstart.1 ▸ hx⟩

theorem trimmed (hd : IsNamedDirectory directory) :
    trimEndBy RawOutput.isSlash directory.toList = (stemOf directory).toList := by
  rw [stemOf, String.toList_ofList]
  refine trimEndBy_congr fun c hc => ?_
  have hne : c ≠ '\\' := fun h => hd.plain (h ▸ hc)
  simp [RawOutput.isSlash, hne]

end IsNamedDirectory

/-! ## One path -/

def seenFrom (directory p : String) : String :=
  String.ofList
    (RawOutput.relativeTo (trimEndBy RawOutput.isSlash directory.toList) p.toList)

theorem relativized_eq (raw : RawOutput) (directory : String) :
    raw.relativized directory = ⟨raw.chunk, raw.js.map (seenFrom directory)⟩ := rfl

theorem startsWith_stem_iff : startsWith (stemOf directory ++ "/") p = true ↔
    ∃ rest, p = stemOf directory ++ "/" ++ rest := by
  rw [startsWith_iff]
  constructor
  · rintro ⟨r, hr⟩
    refine ⟨String.ofList r, ?_⟩
    rw [← String.toList_inj, String.toList_append (t := String.ofList r), String.toList_ofList, hr]
  · rintro ⟨rest, rfl⟩
    rw [String.toList_append (t := rest)]
    exact List.prefix_append _ _

theorem seenFrom_below (hd : IsNamedDirectory directory) (rest : String) :
    seenFrom directory (stemOf directory ++ "/" ++ rest) = "./" ++ rest := by
  obtain ⟨r, hr⟩ := hd.stem_eq_cons
  have hslash : "/".toList = ['/'] := rfl
  have hafter : after? (stemOf directory).toList (stemOf directory ++ "/" ++ rest).toList =
      some ('/' :: rest.toList) := by
    rw [after?_eq_some_iff, String.toList_append, String.toList_append, List.append_assoc, hslash]
    rfl
  rw [seenFrom, hd.trimmed, RawOutput.relativeTo, hafter, ← String.toList_inj, hr]
  simp [RawOutput.isSlash]

theorem seenFrom_elsewhere (hd : IsNamedDirectory directory) (hp : '\\' ∉ p.toList)
    (hout : ¬ startsWith (stemOf directory ++ "/") p = true) : seenFrom directory p = p := by
  rw [seenFrom, hd.trimmed, RawOutput.relativeTo]
  split
  · next c r hafter =>
    rw [after?_eq_some_iff] at hafter
    have hc : ¬ RawOutput.isSlash c = true := by
      rw [RawOutput.isSlash, Bool.or_eq_true, beq_iff_eq, beq_iff_eq]
      rintro (rfl | rfl)
      · refine hout (startsWith_iff.mpr ⟨r, ?_⟩)
        rw [hafter, String.toList_append, List.append_assoc]
        rfl
      · refine hp ?_
        rw [hafter]
        exact List.mem_append_right _ List.mem_cons_self
    rw [if_neg (by simp [hc]), String.ofList_toList]
  · exact String.ofList_toList

/-- What is written seen from the directory is no absolute path, so it is not below any directory. -/
theorem seenFrom_seen (hd : IsNamedDirectory directory) (rest : String) :
    seenFrom directory ("./" ++ rest) = "./" ++ rest := by
  obtain ⟨r, hr⟩ := hd.stem_eq_cons
  have hnone : after? (stemOf directory).toList ("./" ++ rest).toList = none := by
    rw [hr, String.toList_append]
    rfl
  rw [seenFrom, hd.trimmed, RawOutput.relativeTo, hnone]
  exact String.ofList_toList

theorem seenFrom_seenFrom (hd : IsNamedDirectory directory) (hp : '\\' ∉ p.toList) :
    seenFrom directory (seenFrom directory p) = seenFrom directory p := by
  by_cases hbelow : startsWith (stemOf directory ++ "/") p = true
  · obtain ⟨rest, rfl⟩ := startsWith_stem_iff.mp hbelow
    rw [seenFrom_below hd, seenFrom_seen hd]
  · rw [seenFrom_elsewhere hd hp hbelow, seenFrom_elsewhere hd hp hbelow]

theorem seenFrom_ne_iff (hd : IsNamedDirectory directory) (hp : '\\' ∉ p.toList) :
    seenFrom directory p ≠ p ↔ startsWith (stemOf directory ++ "/") p = true := by
  constructor
  · intro hne
    by_contra hout
    exact hne (seenFrom_elsewhere hd hp hout)
  · intro hbelow hsame
    obtain ⟨rest, rfl⟩ := startsWith_stem_iff.mp hbelow
    obtain ⟨r, hr⟩ := hd.stem_eq_cons
    -- one begins with a dot, the other one with a slash
    rw [seenFrom_below hd, ← String.toList_inj, String.toList_append, String.toList_append,
      String.toList_append, hr] at hsame
    have hhead := congrArg List.head? hsame
    exact absurd hhead (by decide : some '.' ≠ some '/')

/-- The path that is written denotes the same parts as the one that is seen. -/
theorem child_seenFrom (hd : IsNamedDirectory directory) (rest : String) :
    (Path.ofText directory).child ("./" ++ rest) =
      (Path.ofText directory).child (stemOf directory ++ "/" ++ rest) := by
  obtain ⟨n, hn⟩ := exists_slashes directory
  obtain ⟨r, hr⟩ := hd.stem_eq_cons
  have hbelow : (stemOf directory ++ "/" ++ rest).toList =
      (stemOf directory).toList ++ '/' :: rest.toList := by
    rw [String.toList_append, String.toList_append, List.append_assoc]
    rfl
  have hhere : ("./" ++ rest).toList = ['.'] ++ '/' :: rest.toList := String.toList_append
  have hrelative : (Path.ofText ("./" ++ rest)).isAbsolute = false := by
    rw [Path.ofText, hhere]
    rfl
  have habsolute : (Path.ofText (stemOf directory ++ "/" ++ rest)).isAbsolute = true := by
    rw [Path.ofText, hbelow, hr]
    exact decide_eq_true (anchorOf_ne_relative _)
  have hdot : partsOf ['.'] = [] := rfl
  rw [Path.child, Path.join, hrelative, if_neg Bool.false_ne_true, Path.child, Path.join, habsolute,
    if_pos rfl, Path.ofText, Path.ofText, Path.ofText, hn, hbelow, hhere,
    anchorOf_append hd.stem_named, anchorOf_append hd.stem_named, partsOf_append_slashes,
    partsOf_slash_append, partsOf_slash_append, hdot, List.nil_append]

theorem normalize_seenFrom (hd : IsNamedDirectory directory) (hp : '\\' ∉ p.toList) :
    ((Path.ofText directory).child (seenFrom directory p)).normalize =
      ((Path.ofText directory).child p).normalize := by
  by_cases hbelow : startsWith (stemOf directory ++ "/") p = true
  · obtain ⟨rest, rfl⟩ := startsWith_stem_iff.mp hbelow
    rw [seenFrom_below hd, child_seenFrom hd]
  · rw [seenFrom_elsewhere hd hp hbelow]

/-! ## Raw output -/

theorem relativized_below {rests : List String} (hd : IsNamedDirectory directory)
    (hjs : raw.js = rests.map (stemOf directory ++ "/" ++ ·)) :
    raw.relativized directory = ⟨raw.chunk, rests.map ("./" ++ ·)⟩ := by
  rw [relativized_eq, hjs, List.map_map]
  exact congrArg (RawOutput.mk raw.chunk) (List.map_congr_left fun rest _ => seenFrom_below hd rest)

/-- Raw output seen from a directory is that of the same files, and it does not show the directory. -/
theorem relativized_denotes_same (hd : IsNamedDirectory directory)
    (hjs : ∀ p ∈ raw.js, '\\' ∉ p.toList) :
    (raw.relativized directory).chunk = raw.chunk ∧
    List.Forall₂ (fun p q =>
        (q ≠ p ↔ startsWith (stemOf directory ++ "/") p = true) ∧
        (∀ rest, p = stemOf directory ++ "/" ++ rest → q = "." ++ ("/" ++ rest)) ∧
        ((Path.ofText directory).child q).normalize = ((Path.ofText directory).child p).normalize)
      raw.js (raw.relativized directory).js ∧
    (raw.relativized directory).relativized directory = raw.relativized directory ∧
    ∀ (other : RawOutput) (elsewhere : String) (rests : List String), IsNamedDirectory elsewhere →
      raw.js = rests.map (stemOf directory ++ "/" ++ ·) →
      other.js = rests.map (stemOf elsewhere ++ "/" ++ ·) →
      (raw.relativized directory = other.relativized elsewhere ↔ raw.chunk = other.chunk) := by
  refine ⟨rfl, ?_, ?_, ?_⟩
  · rw [relativized_eq, List.forall₂_map_right_iff, List.forall₂_same]
    intro p hp
    refine ⟨seenFrom_ne_iff hd (hjs p hp), ?_, normalize_seenFrom hd (hjs p hp)⟩
    rintro rest rfl
    rw [seenFrom_below hd, ← String.append_assoc]
    rfl
  · rw [relativized_eq raw, relativized_eq, List.map_map]
    exact congrArg (RawOutput.mk raw.chunk)
      (List.map_congr_left fun p hp => seenFrom_seenFrom hd (hjs p hp))
  · intro other elsewhere rests he hraw hother
    rw [relativized_below hd hraw, relativized_below he hother, RawOutput.mk.injEq,
      and_iff_left rfl]

/-- Beside the directory stands another one whose name begins alike; on the second machine the same
files lie elsewhere. -/
theorem two_machines_seen_alike :
    IsNamedDirectory "/p//" ∧ IsNamedDirectory "//h/p" ∧
    (∀ p ∈ ["/p//a.js", "/p/../b.js"], '\\' ∉ p.toList) ∧ '\\' ∉ "/pq/c.js".toList ∧
    RawOutput.relativized ⟨["a:2"], ["/p//a.js", "/p/../b.js"]⟩ "/p//" =
      RawOutput.relativized ⟨["a:2"], ["//h/p//a.js", "//h/p/../b.js"]⟩ "//h/p" ∧
    ((Path.ofText "/p//").child "./../b.js").normalize =
      ((Path.ofText "/p//").child "/p/../b.js").normalize ∧
    (RawOutput.relativized ⟨[], ["/pq/c.js"]⟩ "/p//").js = ["/pq/c.js"] := by
  have hd : IsNamedDirectory "/p//" := ⟨by decide, ⟨'p', by decide, by decide⟩, by decide⟩
  have he : IsNamedDirectory "//h/p" := ⟨by decide, ⟨'p', by decide, by decide⟩, by decide⟩
  have hbelow : ∀ p ∈ ["/p//a.js", "/p/../b.js"], '\\' ∉ p.toList := by decide
  have hbeside : ∀ p ∈ ["/pq/c.js"], '\\' ∉ p.toList := by decide
  obtain ⟨-, hfiles, -, halike⟩ := @relativized_denotes_same ⟨["a:2"], _⟩ "/p//" hd hbelow
  obtain ⟨-, hkept, -, -⟩ := @relativized_denotes_same ⟨[], _⟩ "/p//" hd hbeside
  refine ⟨hd, he, hbelow, hbeside _ List.mem_cons_self, ?_, ?_, ?_⟩
  · exact (halike ⟨["a:2"], ["//h/p//a.js", "//h/p/../b.js"]⟩ "//h/p" ["/a.js", "../b.js"] he
      (by decide) (by decide)).mpr rfl
  · have hsecond := (List.forall₂_cons.mp (List.forall₂_cons.mp hfiles).2).1
    have hseen := hsecond.2.1 "../b.js" (by decide)
    rw [← hsecond.2.2, hseen]
    rfl
  · have hone := (List.forall₂_cons.mp hkept).1
    have hsame := not_not.mp (mt hone.1.mp (by decide))
    exact congrArg ([·]) hsame

end ChunkBuild
