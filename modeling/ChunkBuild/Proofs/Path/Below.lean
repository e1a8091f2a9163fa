import ChunkBuild.Proofs.Path.Normal
import ChunkBuild.Proofs.Text.Lines
/-! # Paths below a directory

A path written by a text lies strictly below the directory it is seen from as long as the text leads down
only. Main statement: texts that start with a slash or lead up are the only ones that leave some
directory. -/
namespace ChunkBuild

open ChunkBuild.Text

variable {anchored : Bool} {done inner names : List String} {last : String} {cs ds : List Char}

/-! ## Taking `..` away above other names -/

/-- Nothing takes a leading `..` of a relative path back. -/
theorem up_mem_foldParts (done : List String) :
    ".." ∈ foldParts false (done ++ [".."]) names := by
  induction names generalizing done with
  | nil =>
    rw [foldParts, List.mem_reverse]
    exact List.mem_append_right _ List.mem_cons_self
  | cons s names ih =>
    by_cases hs : s = ".."
    · subst hs
      cases done with
      | nil =>
        rw [List.nil_append, foldParts, if_pos rfl]
        exact ih [".."]
      | cons d done =>
        rw [List.cons_append, foldParts]
        split
        · exact ih (".." :: d :: done)
        · exact ih done
    · rw [foldParts]
      · exact ih (s :: done)
      · exact hs

/-- Names that lead down leave what stands before them as it is. -/
theorem foldParts_over (anchored : Bool) (done : List String)
    (h : ".." ∉ foldParts false inner names) :
    foldParts anchored (inner ++ done) names = done.reverse ++ foldParts false inner names := by
  induction names generalizing inner with
  | nil => rw [foldParts, foldParts, List.reverse_append]
  | cons s names ih =>
    by_cases hs : s = ".."
    · subst hs
      cases inner with
      | nil =>
        -- a `..` that finds no name above what is done would stay
        refine absurd ?_ h
        rw [foldParts, if_neg Bool.false_ne_true]
        exact up_mem_foldParts []
      | cons d inner =>
        rw [foldParts] at h
        rw [List.cons_append, foldParts, foldParts]
        split at h
        · next hd =>
          rw [if_pos hd, if_pos hd, ← ih h]
          rfl
        · next hd => rw [if_neg hd, if_neg hd, ih h]
    · have hpush {b : Bool} {stack : List String} :
          foldParts b stack (s :: names) = foldParts b (s :: stack) names := by
        rw [foldParts]
        exact hs
      rw [hpush] at h ⊢
      rw [hpush, ← ih h]
      rfl

theorem foldParts_concat (h : last ≠ "..") :
    foldParts anchored done (names ++ [last]) = foldParts anchored done names ++ [last] := by
  rw [foldParts_append, foldParts, foldParts, List.reverse_cons, List.reverse_reverse]
  exact h

theorem not_up_of_concat (h : ".." ∉ foldParts false [] (names ++ [last])) :
    ".." ∉ foldParts false [] names := by
  obtain ⟨n, rest, he, hrest⟩ : ∃ n rest, foldParts false ([] ++ List.replicate 0 "..") names =
      List.replicate n ".." ++ rest ∧ ".." ∉ rest := foldParts_eq_replicate List.not_mem_nil
  rw [List.replicate_zero, List.append_nil] at he
  cases n with
  | zero => rwa [he]
  | succ n =>
    refine absurd ?_ h
    rw [foldParts_append, he, List.reverse_append, List.reverse_replicate, List.replicate_succ',
      ← List.append_assoc]
    exact up_mem_foldParts _

namespace Path

variable {d q : Path} {s : String}

/-- A path that lies strictly below a directory once `..` is taken away from both. -/
def IsBelow (q d : Path) : Prop :=
  ∃ names, names ≠ [] ∧ ".." ∉ names ∧ q.normalize = ⟨d.anchor, d.normalize.parts ++ names⟩

/-- The names below the directory can be read off. -/
theorem isBelow_iff : q.IsBelow d ↔
    q.normalize.parts.drop d.normalize.parts.length ≠ [] ∧
      ".." ∉ q.normalize.parts.drop d.normalize.parts.length ∧
      q.normalize =
        ⟨d.anchor, d.normalize.parts ++ q.normalize.parts.drop d.normalize.parts.length⟩ := by
  refine ⟨fun ⟨names, hne, hup, hq⟩ => ?_, fun h => ⟨_, h⟩⟩
  have hnames : q.normalize.parts.drop d.normalize.parts.length = names := by
    rw [hq]
    exact List.drop_left
  rw [hnames]
  exact ⟨hne, hup, hq⟩

instance : Decidable (q.IsBelow d) := decidable_of_iff' _ isBelow_iff

/-- A text that leads from a directory to something strictly below it. -/
structure LeadsDown (s : String) : Prop where
  relative : (ofText s).isAbsolute = false
  not_up : ".." ∉ (ofText s).normalize.parts
  not_here : (ofText s).normalize.parts ≠ []

theorem normalize_child (h : LeadsDown s) :
    (d.child s).normalize = ⟨d.anchor, d.normalize.parts ++ (ofText s).normalize.parts⟩ := by
  have hnot := h.not_up
  rw [child, normalize_join h.relative, normalize, normalize, h.relative] at *
  have hover := foldParts_over d.isAbsolute (foldParts d.isAbsolute [] d.parts).reverse hnot
  rw [List.nil_append, List.reverse_reverse] at hover
  rw [hover]

theorem isBelow_child (h : LeadsDown s) : (d.child s).IsBelow d :=
  ⟨_, h.not_here, h.not_up, normalize_child h⟩

/-- What does not lead down leaves the current directory already. -/
theorem leadsDown_of_isBelow (h : (child ⟨.relative, []⟩ s).IsBelow ⟨.relative, []⟩) :
    LeadsDown s := by
  have hhere : child ⟨.relative, []⟩ s = ofText s := by
    rw [child, join]
    split
    · rfl
    · next hr =>
      rw [Bool.not_eq_true, isAbsolute_eq_false_iff] at hr
      rw [← hr]
      rfl
  obtain ⟨names, hne, hup, hnormal⟩ := h
  rw [hhere] at hnormal
  have hparts : (ofText s).normalize.parts = names := congrArg Path.parts hnormal
  have hanchor : (ofText s).anchor = .relative := congrArg Path.anchor hnormal
  exact ⟨isAbsolute_eq_false_iff.mpr hanchor, hparts ▸ hup, hparts ▸ hne⟩

theorem leadsDown_iff : LeadsDown s ↔ ∀ d : Path, (d.child s).IsBelow d :=
  ⟨fun h _ => isBelow_child h, fun h => leadsDown_of_isBelow (h _)⟩

theorem leadsDown_of_no_slash (hs : '/' ∉ s.toList) (hl : 2 ≤ s.toList.length) (hup : s ≠ "..") :
    LeadsDown s := by
  have htext := ofText_of_no_slash hs hl
  have hnormal : (ofText s).normalize.parts = [s] := by
    rw [htext, normalize]
    exact foldParts_of_no_up fun h => hup (List.mem_singleton.mp h).symm
  refine ⟨by rw [htext]; rfl, ?_, ?_⟩
  · rw [hnormal, List.mem_singleton]
    exact fun h => hup h.symm
  · rw [hnormal]
    exact List.cons_ne_nil s []

/-! ## Another name in the same directory -/

/-- Another name beside a file that lies below a directory does so, too. -/
theorem isBelow_child_withName (h : LeadsDown s) (hl : last ≠ "..") :
    ((d.child s).withName last).IsBelow d := by
  have hne : (ofText s).parts ≠ [] := by
    intro hnil
    refine h.not_here ?_
    rw [normalize, hnil, foldParts]
    rfl
  obtain ⟨init, old, hparts⟩ : ∃ init old, (ofText s).parts = init ++ [old] :=
    ⟨_, _, (List.dropLast_append_getLast hne).symm⟩
  have hnot := h.not_up
  rw [normalize, h.relative, hparts] at hnot
  have hinit := not_up_of_concat hnot
  refine ⟨foldParts false [] init ++ [last], ?_, ?_, ?_⟩
  · exact List.append_ne_nil_of_right_ne_nil _ (List.cons_ne_nil _ _)
  · rw [List.mem_append, List.mem_singleton, not_or]
    exact ⟨hinit, fun h => hl h.symm⟩
  · have hover := foldParts_over d.isAbsolute (foldParts d.isAbsolute [] d.parts).reverse hinit
    rw [List.nil_append, List.reverse_reverse] at hover
    have hwith : (d.child s).withName last = ⟨d.anchor, d.parts ++ init ++ [last]⟩ := by
      rw [child, join, h.relative, if_neg Bool.false_ne_true, withName, hparts,
        ← List.append_assoc, List.dropLast_concat]
    have hbelow : foldParts d.isAbsolute [] (d.parts ++ init ++ [last]) =
        d.normalize.parts ++ (foldParts false [] init ++ [last]) := by
      rw [foldParts_concat hl, foldParts_append, hover, List.append_assoc]
      rfl
    rw [hwith]
    exact congrArg (mk d.anchor) hbelow

end Path

/-! ## Texts put behind a directory's text -/

theorem splitOn_slash_append (cs ds : List Char) :
    splitOn ['/'] (cs ++ '/' :: ds) = splitOn ['/'] cs ++ splitOn ['/'] ds := by
  induction cs with
  | nil => exact splitOn_letter_self '/' ds
  | cons c cs ih =>
    by_cases hc : c = '/'
    · subst hc
      rw [List.cons_append, splitOn_letter_self, splitOn_letter_self, ih, List.cons_append]
    · rw [List.cons_append, splitOn_letter_of_ne hc, splitOn_letter_of_ne hc, ih]
      obtain ⟨p, ps, hp⟩ := List.exists_cons_of_ne_nil (splitFrom_ne_nil ['/'] cs 0)
      rw [splitOn, hp]
      rfl

theorem partsOf_slash_append (cs ds : List Char) :
    partsOf (cs ++ '/' :: ds) = partsOf cs ++ partsOf ds := by
  rw [partsOf, splitOn_slash_append, List.filter_append, List.map_append]
  rfl

theorem anchorOf_ne_relative (ds : List Char) : anchorOf ('/' :: ds) ≠ .relative := by
  unfold anchorOf
  split
  all_goals simp_all

namespace Path

variable {d : Path} {s : String}

theorem text_of_named (h : d.anchor ≠ .relative ∨ d.parts ≠ []) :
    d.text = d.anchor.text ++ Text.join "/" d.parts := by
  rcases h with h | h
  · simp [text, h]
  · simp [text, h]

theorem text_absolute (h : d.isAbsolute = true) : ∃ cs, d.text.toList = '/' :: cs := by
  have ha : d.anchor ≠ .relative := by simpa [isAbsolute] using h
  rw [text_of_named (.inl ha), String.toList_append]
  cases hd : d.anchor with
  | relative => exact absurd hd ha
  | root => exact ⟨_, rfl⟩
  | doubleRoot => exact ⟨_, rfl⟩

theorem partsOf_text (hd : d.IsPlain) : partsOf d.text.toList = d.parts := by
  obtain ⟨anchor, names⟩ := d
  have hrelative : partsOf (text ⟨.relative, names⟩).toList = names :=
    congrArg Path.parts (ofText_text (p := ⟨.relative, names⟩) hd rfl)
  cases names with
  | nil => cases anchor <;> rfl
  | cons s r =>
    have hne : s :: r ≠ [] := List.cons_ne_nil s r
    rw [text_relative rfl hne] at hrelative
    rw [text_of_named (.inr hne), String.toList_append]
    cases anchor with
    | relative => exact hrelative
    | root =>
      have hroot : Anchor.root.text.toList = ['/'] := rfl
      dsimp only
      rw [hroot, List.singleton_append]
      exact (partsOf_slash_append [] _).trans hrelative
    | doubleRoot =>
      have hroot : Anchor.doubleRoot.text.toList = ['/', '/'] := rfl
      dsimp only
      rw [hroot, List.cons_append, List.singleton_append]
      exact (partsOf_slash_append ['/'] _).trans hrelative

theorem text_ne_nil (hd : d.IsPlain) : d.text.toList ≠ [] := by
  intro h
  have hparts : d.parts = [] := by
    rw [← partsOf_text hd, h]
    rfl
  obtain ⟨anchor, names⟩ := d
  obtain rfl : names = [] := hparts
  cases anchor <;> cases h

/-- What is written behind a directory's text and a slash has the parts of both. -/
theorem parts_ofText_below (hd : d.IsPlain) :
    (ofText (d.text ++ "/" ++ s)).parts = d.parts ++ (ofText s).parts := by
  have htext : (d.text ++ "/" ++ s).toList = d.text.toList ++ '/' :: s.toList := by
    rw [String.toList_append, String.toList_append, List.append_assoc]
    rfl
  rw [ofText, htext, partsOf_slash_append, partsOf_text hd]
  rfl

theorem isAbsolute_ofText_below (hd : d.IsPlain) :
    (ofText (d.text ++ "/" ++ s)).isAbsolute = d.isAbsolute := by
  rw [ofText, isAbsolute, String.toList_append, String.toList_append, List.append_assoc]
  cases ha : d.isAbsolute with
  | true =>
    obtain ⟨cs, hcs⟩ := text_absolute ha
    rw [hcs, List.cons_append]
    exact decide_eq_true (anchorOf_ne_relative _)
  | false =>
    have hstart := not_slash_text hd (isAbsolute_eq_false_iff.mp ha)
    have hanchor : anchorOf (d.text.toList ++ ("/".toList ++ s.toList)) = .relative := by
      apply anchorOf_eq_relative
      cases ht : d.text.toList with
      | nil => exact absurd ht (text_ne_nil hd)
      | cons c cs =>
        rw [ht] at hstart
        simpa using hstart
    exact decide_eq_false fun h => h hanchor

/-- What is written behind a directory's text and a slash denotes what the text denotes there, unless
the text starts at the root. -/
theorem resolve_ofText_below (hd : d.IsPlain) (hs : (ofText s).isAbsolute = false) (cwd : Path) :
    (ofText (d.text ++ "/" ++ s)).resolve cwd = (d.child s).resolve cwd := by
  have hchild : d.child s = ⟨d.anchor, d.parts ++ (ofText s).parts⟩ := by
    rw [child, join, hs, if_neg Bool.false_ne_true]
  have habsolute : (d.child s).isAbsolute = d.isAbsolute := by
    rw [hchild]
    rfl
  have hparts : (d.child s).parts = d.parts ++ (ofText s).parts := by rw [hchild]
  rw [resolve, resolve, join, join, isAbsolute_ofText_below hd, habsolute]
  split
  · rw [parts_ofText_below hd, hparts]
  · rw [parts_ofText_below hd, hparts]

end Path

end ChunkBuild
