import ChunkBuild.Path
import ChunkBuild.Proofs.Text.Pieces
import Mathlib.Data.List.Basic
/-! # Parts of paths

What is written after the last slash of a text ends the last part of its path. No part is empty or
holds a slash. -/
namespace ChunkBuild

open ChunkBuild.Text

variable {cs d : List Char} {c : Char}

theorem splitOn_of_no_slash (h : '/' ∉ cs) : splitOn ['/'] cs = [cs] := by
  rw [← List.singleton_infix_iff] at h
  exact splitOn_of_absent h

/-- What holds no slash stays in the last piece. -/
theorem splitOn_append_of_no_slash (cs : List Char) (h : '/' ∉ d) :
    ∃ pieces last, splitOn ['/'] (cs ++ d) = pieces ++ [last ++ d] := by
  induction cs with
  | nil => exact ⟨[], [], splitOn_of_no_slash h⟩
  | cons x cs ih =>
    obtain ⟨pieces, last, hs⟩ := ih
    rw [splitOn] at hs ⊢
    rw [List.cons_append, splitFrom]
    split
    · exact ⟨[] :: pieces, last, congrArg ([] :: ·) hs⟩
    · rw [hs]
      cases pieces with
      | nil => exact ⟨[], x :: last, rfl⟩
      | cons p pieces => exact ⟨(x :: p) :: pieces, last, rfl⟩

theorem partsOf_append (cs : List Char) (h : '/' ∉ d) (hl : 2 ≤ d.length) :
    ∃ parts last, partsOf (cs ++ d) = parts ++ [String.ofList (last ++ d)] := by
  obtain ⟨pieces, last, hs⟩ := splitOn_append_of_no_slash cs h
  have hkept (p : List Char) (hp : 2 ≤ p.length) : (p ≠ [] && p ≠ ['.'] : Bool) = true := by
    simp only [Bool.and_eq_true, decide_eq_true_eq]
    constructor
    · rintro rfl
      simp at hp
    · rintro rfl
      simp at hp
  refine ⟨(pieces.filter fun p => p ≠ [] && p ≠ ['.']).map String.ofList, last, ?_⟩
  rw [partsOf, hs, List.filter_append, List.filter_singleton,
    hkept (last ++ d) (by rw [List.length_append]; omega), List.map_append]
  rfl

theorem anchorOf_eq_relative (h : ¬ ['/'] <+: cs) : anchorOf cs = .relative := by
  unfold anchorOf
  split
  · simp_all
  · simp_all
  · simp_all
  · rfl

/-- A text without slashes is the one part of its path. -/
theorem ofText_of_no_slash {s : String} (h : '/' ∉ s.toList) (hl : 2 ≤ s.toList.length) :
    Path.ofText s = ⟨.relative, [s]⟩ := by
  have hanchor : anchorOf s.toList = .relative := by
    apply anchorOf_eq_relative
    rintro ⟨r, hr⟩
    exact h (hr ▸ List.mem_cons_self)
  obtain ⟨hne, hdot⟩ : s.toList ≠ [] ∧ s.toList ≠ ['.'] := by
    constructor
    · intro hs
      simp [hs] at hl
    · intro hs
      simp [hs] at hl
  rw [Path.ofText, hanchor, partsOf, splitOn_of_no_slash h]
  simp [hne, hdot]

def EndIn (names : List String) (c : Char) : Prop :=
  ∃ name, names.getLast? = some name ∧ name.toList.getLast? = some c

theorem EndIn.unique {names : List String} {x : Char} (h : EndIn names c) (hx : EndIn names x) :
    c = x := by
  obtain ⟨name, hn, hc⟩ := h
  obtain ⟨other, ho, hx⟩ := hx
  obtain rfl : name = other := Option.some.inj (hn.symm.trans ho)
  exact Option.some.inj (hc.symm.trans hx)

theorem EndIn.ne_nil {names : List String} (h : EndIn names c) : names ≠ [] := by
  rintro rfl
  obtain ⟨name, hn, -⟩ := h
  cases hn

namespace Path

theorem endIn_child {p : Path} {s : String} (hs : s.toList = cs ++ d) (h : '/' ∉ d)
    (hl : 2 ≤ d.length) (hd : d.getLast? = some c) : EndIn (p.child s).parts c := by
  obtain ⟨parts, last, hparts⟩ := partsOf_append cs h hl
  refine ⟨String.ofList (last ++ d), ?_, ?_⟩
  · rw [child, join]
    split
    · rw [ofText, hs, hparts, List.getLast?_concat]
    · rw [ofText, hs, hparts, ← List.append_assoc, List.getLast?_concat]
  · rw [String.toList_ofList, List.getLast?_append, hd]
    rfl

theorem endIn_withName {p : Path} {name : String} (h : name.toList.getLast? = some c) :
    EndIn (p.withName name).parts c :=
  ⟨name, List.getLast?_concat, h⟩

theorem isAbsolute_eq_false_iff {p : Path} : p.isAbsolute = false ↔ p.anchor = .relative := by
  simp [isAbsolute]

/-- The child of a name without slashes has that name. -/
theorem child_of_no_slash {p : Path} {s : String} (h : '/' ∉ s.toList) (hl : 2 ≤ s.toList.length) :
    p.child s = ⟨p.anchor, p.parts ++ [s]⟩ := by
  rw [child, ofText_of_no_slash h hl]
  rfl

end Path

/-! ## Names -/

theorem mem_partsOf {s : String} (h : s ∈ partsOf cs) : s.toList ≠ [] ∧ '/' ∉ s.toList := by
  obtain ⟨p, hp, rfl⟩ := List.mem_map.mp h
  obtain ⟨hpiece, hkept⟩ := List.mem_filter.mp hp
  simp only [Bool.and_eq_true, decide_eq_true_eq] at hkept
  have hsep := (separates_splitOn (show ['/'] ≠ [] by decide) cs).1
  rw [String.toList_ofList]
  exact ⟨hkept.1, (separates_letter_iff.mp hsep).2 p hpiece⟩

/-- Nothing is put into a path when `..` is taken away. -/
theorem mem_foldParts {anchored : Bool} {done rest : List String} {s : String}
    (h : s ∈ foldParts anchored done rest) : s ∈ done ∨ s ∈ rest := by
  fun_induction foldParts anchored done rest with
  | case1 done => exact .inl (List.mem_reverse.mp h)
  | case2 r ih => grind
  | case3 r ih => grind
  | case4 r ds ih => grind
  | case5 r d ds hd ih => grind
  | case6 done p r hp ih => grind

end ChunkBuild
