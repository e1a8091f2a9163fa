import ChunkBuild.Proofs.Path
/-! # Normal paths

Taking `..` away goes from left to right, so what stands in front may be normalised first. What is left
of a relative path holds `..` at its start at most. -/
namespace ChunkBuild

open ChunkBuild.Text

variable {anchored : Bool} {done names more : List String}

theorem foldParts_append : foldParts anchored done (names ++ more) =
    foldParts anchored (foldParts anchored done names).reverse more := by
  fun_induction foldParts anchored done names with
  | case1 done => rw [List.nil_append, List.reverse_reverse]
  | case2 r h ih => rw [List.cons_append, foldParts, if_pos h, ih]
  | case3 r h ih => rw [List.cons_append, foldParts, if_neg h, ih]
  | case4 r ds ih => rw [List.cons_append, foldParts, if_pos rfl, ih]
  | case5 r d ds hd ih => rw [List.cons_append, foldParts, if_neg hd, ih]
  | case6 done p r hp ih => rw [List.cons_append, foldParts, ih]; exact hp

theorem foldParts_of_no_up (h : ".." ∉ names) :
    foldParts anchored done names = done.reverse ++ names := by
  induction names generalizing done with
  | nil => rw [foldParts, List.append_nil]
  | cons s names ih =>
    rw [List.mem_cons, not_or] at h
    rw [foldParts, ih h.2, List.reverse_cons, List.append_assoc]
    · rfl
    · exact fun hs => h.1 hs.symm

/-- In front of what is left of a relative path stand those `..` that lead out of where it starts. -/
theorem foldParts_eq_replicate {k : Nat} (h : ".." ∉ done) :
    ∃ n rest, foldParts false (done ++ List.replicate k "..") names =
      List.replicate n ".." ++ rest ∧ ".." ∉ rest := by
  -- what is done stays names over a run of `..`, and the run grows when no name is left to take back
  induction names generalizing done k with
  | nil =>
    refine ⟨k, done.reverse, ?_, by rwa [List.mem_reverse]⟩
    rw [foldParts, List.reverse_append, List.reverse_replicate]
  | cons s names ih =>
    by_cases hs : s = ".."
    · subst hs
      cases done with
      | nil =>
        cases k with
        | zero =>
          obtain ⟨n, rest, he, hrest⟩ := ih (k := 1) h
          refine ⟨n, rest, ?_, hrest⟩
          rw [← he]
          rfl
        | succ k =>
          obtain ⟨n, rest, he, hrest⟩ := ih (k := k + 2) h
          refine ⟨n, rest, ?_, hrest⟩
          rw [← he, List.nil_append, List.replicate_succ, foldParts, if_pos rfl]
          rfl
      | cons d ds =>
        rw [List.mem_cons, not_or] at h
        obtain ⟨n, rest, he, hrest⟩ := ih (k := k) h.2
        refine ⟨n, rest, ?_, hrest⟩
        rw [← he, List.cons_append, foldParts, if_neg fun hd => h.1 hd.symm]
    · have hcons : ".." ∉ s :: done := by
        rw [List.mem_cons, not_or]
        exact ⟨fun he => hs he.symm, h⟩
      obtain ⟨n, rest, he, hrest⟩ := ih (k := k) hcons
      refine ⟨n, rest, ?_, hrest⟩
      rw [← he, foldParts]
      · rfl
      · exact hs

namespace Path

variable {p q : Path} {s : String}

def IsPlain (p : Path) : Prop := ∀ s ∈ p.parts, s ≠ "" ∧ s ≠ "." ∧ '/' ∉ s.toList

theorem isPlain_ofText (s : String) : (ofText s).IsPlain := by
  intro t ht
  obtain ⟨hne, hslash⟩ := mem_partsOf ht
  refine ⟨?_, ?_, hslash⟩
  · rintro rfl
    exact hne rfl
  · rintro rfl
    obtain ⟨piece, hp, hdot⟩ := List.mem_map.mp ht
    have hkept := (List.mem_filter.mp hp).2
    rw [← String.toList_inj, String.toList_ofList] at hdot
    rw [hdot] at hkept
    exact absurd hkept (by decide)

theorem IsPlain.join (hp : p.IsPlain) (hq : q.IsPlain) : (p.join q).IsPlain := by
  rw [Path.join]
  split
  · exact hq
  · intro s hs
    rcases List.mem_append.mp hs with hs | hs
    · exact hp s hs
    · exact hq s hs

theorem IsPlain.child (hp : p.IsPlain) : (p.child s).IsPlain := hp.join (isPlain_ofText s)

theorem IsPlain.normalize (hp : p.IsPlain) : p.normalize.IsPlain := by
  intro s hs
  rcases mem_foldParts hs with hs | hs
  · cases hs
  · exact hp s hs

theorem text_relative (hr : p.anchor = .relative) (hne : p.parts ≠ []) :
    p.text = Text.join "/" p.parts := by
  rw [text, hr]
  simp [hne, Anchor.text]

theorem splitOn_text (hp : p.IsPlain) (hr : p.anchor = .relative) (hne : p.parts ≠ []) :
    splitOn ['/'] p.text.toList = p.parts.map String.toList := by
  have hback : split "/" (Text.join "/" p.parts) = p.parts :=
    split_join rfl hne fun t ht => (hp t ht).2.2
  rw [text_relative hr hne, ← hback, map_toList_split, hback]
  rfl

/-- The text of a relative path of names starts with the first one. -/
theorem not_slash_text (hp : p.IsPlain) (hr : p.anchor = .relative) :
    ¬ ['/'] <+: p.text.toList := by
  by_cases hne : p.parts = []
  · rw [text, hr, hne]
    decide
  · obtain ⟨s, r, hs⟩ := List.exists_cons_of_ne_nil hne
    obtain ⟨hfirst, -, hslash⟩ := hp s (hs ▸ List.mem_cons_self)
    obtain ⟨c, cs, hc⟩ := List.exists_cons_of_ne_nil
      fun h => hfirst (String.toList_eq_nil_iff.mp h)
    obtain ⟨rest, hrest⟩ := prefix_intercalate ['/'] s.toList (r.map String.toList)
    rw [text_relative hr hne, hs, toList_join, List.map_cons]
    change ¬ ['/'] <+: List.intercalate ['/'] _
    rw [← hrest, hc, List.cons_append]
    intro hin
    obtain rfl : '/' = c := (List.cons_prefix_cons.mp hin).1
    exact hslash (hc ▸ List.mem_cons_self)

/-- A relative path of names is read back from its text. -/
theorem ofText_text (hp : p.IsPlain) (hr : p.anchor = .relative) : ofText p.text = p := by
  have hanchor := anchorOf_eq_relative (not_slash_text hp hr)
  obtain ⟨anchor, parts⟩ := p
  dsimp only at hr
  subst hr
  cases parts with
  | nil => rfl
  | cons s r =>
    have hkept : ((s :: r).map String.toList).filter (fun p => p ≠ [] && p ≠ ['.']) =
        (s :: r).map String.toList := by
      rw [List.filter_eq_self]
      refine List.forall_mem_map.mpr fun t ht => ?_
      obtain ⟨hne, hdot, -⟩ := hp t ht
      have hdot' : t.toList ≠ ['.'] := fun h => hdot (String.toList_inj.mp h)
      simp [hne, hdot']
    have hid : String.ofList ∘ String.toList = id := funext fun _ => String.ofList_toList
    rw [ofText, hanchor, partsOf, splitOn_text hp rfl (List.cons_ne_nil s r), hkept, List.map_map,
      hid, List.map_id]

/-- A normal path that leads nowhere else stays below where it starts. -/
theorem no_up_normalize (hr : p.isAbsolute = false) (hh : p.normalize.parts.head? ≠ some "..") :
    ".." ∉ p.normalize.parts := by
  obtain ⟨n, rest, he, hrest⟩ : ∃ n rest, foldParts false ([] ++ List.replicate 0 "..") p.parts =
      List.replicate n ".." ++ rest ∧ ".." ∉ rest := foldParts_eq_replicate List.not_mem_nil
  rw [List.replicate_zero, List.append_nil] at he
  rw [normalize, hr] at hh ⊢
  dsimp only at hh ⊢
  rw [he] at hh ⊢
  cases n with
  | zero => exact hrest
  | succ n => exact absurd rfl hh

/-- Where a relative path leads depends on the normal form of the path that it is seen from. -/
theorem normalize_join (hr : q.isAbsolute = false) : (p.join q).normalize =
    ⟨p.anchor, foldParts p.isAbsolute p.normalize.parts.reverse q.parts⟩ := by
  rw [Path.join, hr, if_neg Bool.false_ne_true, normalize]
  exact congrArg (mk p.anchor) foldParts_append

theorem normalize_join_congr {p' : Path} (h : p.normalize = p'.normalize)
    (hr : q.isAbsolute = false) : (p.join q).normalize = (p'.join q).normalize := by
  have hanchor : p.normalize.anchor = p'.normalize.anchor := congrArg Path.anchor h
  change p.anchor = p'.anchor at hanchor
  rw [normalize_join hr, normalize_join hr, h, isAbsolute, isAbsolute, hanchor]

/-- A path that leads nowhere up is seen at one place from one directory only. -/
theorem normalize_join_eq_iff {p' : Path} (hr : q.isAbsolute = false) (hup : ".." ∉ q.parts) :
    (p.join q).normalize = (p'.join q).normalize ↔ p.normalize = p'.normalize := by
  constructor
  · intro h
    rw [normalize_join hr, normalize_join hr, foldParts_of_no_up hup, foldParts_of_no_up hup,
      List.reverse_reverse, List.reverse_reverse] at h
    obtain ⟨hanchor, hparts⟩ := Path.mk.inj h
    rw [List.append_cancel_right_eq] at hparts
    calc p.normalize = ⟨p.anchor, p.normalize.parts⟩ := rfl
      _ = ⟨p'.anchor, p'.normalize.parts⟩ := by rw [hanchor, hparts]
  · exact fun h => normalize_join_congr h hr

end Path

end ChunkBuild
