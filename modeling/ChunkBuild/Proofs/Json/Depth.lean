import ChunkBuild.Proofs.Json.Reads
/-! # Texts that are not nested too deep

How deep lists and objects lie in one another can be counted in a text without reading it: brackets
count where they stand outside quotes. Main statement: the reader complains about the depth of no text
whose nesting it allows. -/
namespace ChunkBuild.Json

/-- The most lists and objects that are open at a place of a text, `depth` of them being open at its
start, which may stand between quotes. -/
def nestingFrom : (depth : Nat) → (quoted : Bool) → List Char → Nat
  | depth, _, [] => depth
  | depth, true, '\\' :: _ :: r => nestingFrom depth true r
  | depth, true, '"' :: r => nestingFrom depth false r
  | depth, true, _ :: r => nestingFrom depth true r
  | depth, false, '"' :: r => nestingFrom depth true r
  | depth, false, '[' :: r => nestingFrom (depth + 1) false r
  | depth, false, '\x7b' :: r => nestingFrom (depth + 1) false r
  | depth, false, ']' :: r => max depth (nestingFrom (depth - 1) false r)
  | depth, false, '\x7d' :: r => max depth (nestingFrom (depth - 1) false r)
  | depth, false, _ :: r => nestingFrom depth false r

def nesting (text : String) : Nat := nestingFrom 0 false text.toList

variable {fuel depth k : Nat} {s r : List Char} {v : Value}

theorem nestingFrom_ge (depth : Nat) (quoted : Bool) (s : List Char) :
    depth ≤ nestingFrom depth quoted s := by
  fun_induction nestingFrom depth quoted s with
  | case1 => exact Nat.le_refl _
  | case6 _ _ ih | case7 _ _ ih => exact Nat.le_of_succ_le ih
  | case8 | case9 => exact Nat.le_max_left _ _
  | case2 _ _ _ ih | case3 _ _ ih | case4 _ _ _ _ _ ih | case5 _ _ ih | case10 _ _ _ _ _ _ _ _ ih =>
    exact ih

theorem nestingFrom_of_passes (h : Passes s r) :
    nestingFrom k false s = nestingFrom k false r := by
  obtain ⟨t, rfl, ht⟩ := h
  induction t with
  | nil => rfl
  | cons c t ih =>
    obtain ⟨hc, ht⟩ := List.forall_mem_cons.mp ht
    simp only [isToken, Bool.and_eq_true, decide_eq_true_eq] at hc
    obtain ⟨⟨⟨⟨⟨-, hquote⟩, hlist⟩, hlistEnd⟩, hobject⟩, hobjectEnd⟩ := hc
    rw [List.cons_append, nestingFrom, ih ht]
    · exact hquote
    · exact hlist
    · exact hobject
    · exact hlistEnd
    · exact hobjectEnd

theorem nestingFrom_skipSpace (k : Nat) (s : List Char) :
    nestingFrom k false (skipSpace s) = nestingFrom k false s := by
  induction s with
  | nil => rfl
  | cons c s ih =>
    rw [skipSpace, List.dropWhile_cons]
    split
    · next hc =>
      rw [nestingFrom]
      · exact ih
      all_goals
        rintro rfl
        cases hc
    · rfl

theorem nestingFrom_of_skipSpace {c : Char} (h : skipSpace s = c :: r) :
    nestingFrom k false s = nestingFrom k false (c :: r) := by
  rw [← h, nestingFrom_skipSpace]

theorem nestingFrom_of_closes (h : Closes s r) : nestingFrom k true s = nestingFrom k false r := by
  induction h with
  | quote => rfl
  | escape _ ih => exact ih
  | char hq hb _ ih =>
    rw [nestingFrom]
    · exact ih
    · rintro _ _ rfl
      exact absurd rfl hb
    · exact hq

def Reading.opened : Reading → Nat
  | .value => 0
  | .items _ | .members _ => 1

/-- What is left of a text once a value is read is nested no deeper than the text was. -/
theorem Reads.nesting_le {g : Reading} (h : Reads g depth s v r) (k : Nat) :
    nestingFrom k false r ≤ nestingFrom (k + g.opened) false s := by
  induction h generalizing k with
  | text ht => exact (nestingFrom_of_closes (closes_of_readText ht)).ge
  | scalar hs =>
    obtain ⟨c, q, rfl, hc, hq⟩ := passes_of_readScalar hs
    exact (nestingFrom_of_passes (hq.cons hc)).ge
  | emptyList hs =>
    have hend := nestingFrom_of_skipSpace (k := k + 1) hs
    exact (Nat.le_max_right _ _).trans hend.ge
  | emptyObject hs =>
    have hend := nestingFrom_of_skipSpace (k := k + 1) hs
    exact (Nat.le_max_right _ _).trans hend.ge
  | list _ ih | object _ ih => exact (ih k).trans (nestingFrom_skipSpace (k + 1) _).le
  | lastItem _ hq ih =>
    have hend := nestingFrom_of_skipSpace (k := k + 1) hq
    exact (Nat.le_max_right _ _).trans (hend.ge.trans (ih (k + 1)))
  | item _ hq _ ih ihr =>
    have hnext := nestingFrom_of_skipSpace (k := k + 1) hq
    have hrest := (ihr k).trans (nestingFrom_skipSpace (k + 1) _).le
    exact hrest.trans (hnext.ge.trans (ih (k + 1)))
  | lastMember hk hp _ hq ih =>
    have hkey := nestingFrom_of_closes (k := k + 1) (closes_of_readText hk)
    have hcolon := nestingFrom_of_skipSpace (k := k + 1) hp
    have hvalue := (ih (k + 1)).trans (nestingFrom_skipSpace (k + 1) _).le
    have hend := nestingFrom_of_skipSpace (k := k + 1) hq
    have hkeyed := hvalue.trans (hcolon.ge.trans hkey.ge)
    exact (Nat.le_max_right _ _).trans (hend.ge.trans hkeyed)
  | member hk hp _ hq _ ih ihr =>
    have hkey := nestingFrom_of_closes (k := k + 1) (closes_of_readText hk)
    have hcolon := nestingFrom_of_skipSpace (k := k + 1) hp
    have hvalue := (ih (k + 1)).trans (nestingFrom_skipSpace (k + 1) _).le
    have hnext := nestingFrom_of_skipSpace (k := k + 1) hq
    have hkeyed := hvalue.trans (hcolon.ge.trans hkey.ge)
    have hrest := (ihr k).trans (nestingFrom_skipSpace (k + 1) _).le
    exact hrest.trans (hnext.ge.trans hkeyed)

theorem nestingFrom_behind {q : List Char} {c : Char}
    (hv : readValue fuel depth s = .ok (v, q)) (hq : skipSpace q = c :: r) :
    nestingFrom k false (c :: r) ≤ nestingFrom k false s := by
  rw [← nestingFrom_of_skipSpace hq]
  exact (reads_of_read.1 hv).nesting_le k

theorem malformed_of_readUnits {start : Nat} {e : Stop} (h : readUnits start s = .error e) :
    ∃ problem left, e = .malformed problem left := by
  fun_induction readUnits start s with
  | case2 => cases h
  | case1 | case3 | case5 | case6 | case8 | case9 =>
    cases h
    exact ⟨_, _, rfl⟩
  | case4 _ _ _ _ _ _ _ _ ih | case7 _ _ _ _ _ _ ih | case10 _ _ _ _ _ _ _ _ ih =>
    exact ih (except_map_eq_error.mp h)

theorem malformed_of_readText {e : Stop} (h : readText s = .error e) :
    ∃ problem left, e = .malformed problem left :=
  malformed_of_readUnits (except_map_eq_error.mp h)

theorem readText_ne_tooDeep {kind : Nesting} : readText s ≠ .error (.tooDeep kind) := by
  intro h
  obtain ⟨_, _, he⟩ := malformed_of_readText h
  cases he

theorem readScalar_ne_tooDeep {kind : Nesting} : readScalar s ≠ .error (.tooDeep kind) := by
  intro h
  unfold readScalar at h
  split at h
  case h_7 =>
    split at h
    all_goals cases h
  all_goals cases h

/-! ### One step of reading -/

section Step

variable {kind : Nesting}
  (hvalue : ∀ {depth s} k, readValue fuel depth s = .error (.tooDeep kind) →
    k + depth < nestingFrom k false s)
  (hitems : ∀ {depth done s} k, readItems fuel depth done s = .error (.tooDeep kind) →
    k + depth < nestingFrom k false s)
  (hmembers : ∀ {depth done s} k, readMembers fuel depth done s = .error (.tooDeep kind) →
    k + depth < nestingFrom k false s)

include hitems hmembers in
theorem nesting_of_readValue (h : readValue (fuel + 1) depth s = .error (.tooDeep kind)) :
    k + depth < nestingFrom k false s := by
  rw [readValue.eq_def] at h
  dsimp only at h
  split at h
  · exact absurd (except_map_eq_error.mp h) readText_ne_tooDeep
  · exact nestingFrom_ge (k + 1) false _
  · split at h
    · cases h
    · next r depth _ =>
      have hin := hitems (k + 1) h
      rw [nestingFrom_skipSpace] at hin
      rw [nestingFrom]
      omega
  · exact nestingFrom_ge (k + 1) false _
  · split at h
    · cases h
    · next r depth _ =>
      have hin := hmembers (k + 1) h
      rw [nestingFrom_skipSpace] at hin
      rw [nestingFrom]
      omega
  · exact absurd h readScalar_ne_tooDeep

include hvalue hitems in
theorem nesting_of_readItems {done : List Value}
    (h : readItems (fuel + 1) depth done s = .error (.tooDeep kind)) :
    k + depth < nestingFrom k false s := by
  rw [readItems] at h
  split at h
  · next hv =>
    cases h
    exact hvalue k hv
  · next hv =>
    split at h
    · cases h
    · next rest hnext =>
      have hin := hitems k h
      rw [nestingFrom_skipSpace] at hin
      exact Nat.lt_of_lt_of_le hin (nestingFrom_behind hv hnext)
    · cases h

include hvalue hmembers in
theorem nesting_of_readMembers {done : Fields Value}
    (h : readMembers (fuel + 1) depth done s = .error (.tooDeep kind)) :
    k + depth < nestingFrom k false s := by
  rw [readMembers.eq_def] at h
  dsimp only at h
  split at h
  · split at h
    · next ht =>
      cases h
      exact absurd ht readText_ne_tooDeep
    · next ht =>
      have hkey := nestingFrom_of_closes (k := k) (closes_of_readText ht)
      rw [nestingFrom, hkey]
      split at h
      · next r hcolon =>
        rw [nestingFrom_of_skipSpace hcolon]
        split at h
        · next hv =>
          cases h
          have hin := hvalue k hv
          rwa [nestingFrom_skipSpace] at hin
        · next hv =>
          split at h
          · cases h
          · next rest hnext =>
            have hin := hmembers k h
            have hdone := nestingFrom_behind (k := k) hv hnext
            rw [nestingFrom_skipSpace] at hin hdone
            exact Nat.lt_of_lt_of_le hin hdone
          · cases h
      · cases h
  · cases h

end Step

/-- Where a value lies too deep, one more list or object is open than may be. -/
theorem nesting_of_tooDeep : ∀ {fuel : Nat} {kind : Nesting},
    (∀ {depth s} k, readValue fuel depth s = .error (.tooDeep kind) →
      k + depth < nestingFrom k false s) ∧
    (∀ {depth done s} k, readItems fuel depth done s = .error (.tooDeep kind) →
      k + depth < nestingFrom k false s) ∧
    ∀ {depth done s} k, readMembers fuel depth done s = .error (.tooDeep kind) →
      k + depth < nestingFrom k false s := by
  intro fuel kind
  induction fuel with
  | zero => exact ⟨(fun _ h => nomatch h), (fun _ h => nomatch h), fun _ h => nomatch h⟩
  | succ fuel ih =>
    obtain ⟨hvalue, hitems, hmembers⟩ := ih
    exact ⟨fun _ h => nesting_of_readValue hitems hmembers h,
      fun _ h => nesting_of_readItems hvalue hitems h,
      fun _ h => nesting_of_readMembers hvalue hmembers h⟩

/-- A text is nested deeper than the limit when the reader complains about its depth. -/
theorem nesting_of_parse {text : String} {kind : Nesting}
    (h : parse text = .error (.tooDeep kind)) : depthLimit < nesting text := by
  rw [parse] at h
  cases hs : readAll text.toList with
  | ok v =>
    rw [hs] at h
    cases h
  | error e =>
    rw [hs] at h
    unfold readAll at hs
    split at hs
    · cases hs
      cases h
    · split at hs
      · next hv =>
        cases hs
        cases e with
        | malformed problem left => cases h
        | integer problem => cases h
        | tooDeep kind =>
          have hdeep := nesting_of_tooDeep.1 0 hv
          rwa [Nat.zero_add, nestingFrom_skipSpace] at hdeep
      · split at hs
        · cases hs
        · cases hs
          cases h

/-! ## Too many brackets -/

theorem readValue_brackets {n : Nat} (hn : depth < n) (hf : 2 * n ≤ fuel) :
    readValue fuel depth (List.replicate n '[') = .error (.tooDeep .list) := by
  induction depth generalizing n fuel with
  | zero =>
    obtain ⟨m, rfl⟩ : ∃ m, n = m + 1 := ⟨n - 1, by omega⟩
    obtain ⟨k, rfl⟩ : ∃ k, fuel = k + 1 := ⟨fuel - 1, by omega⟩
    rfl
  | succ depth ih =>
    obtain ⟨m, rfl⟩ : ∃ m, n = m + 2 := ⟨n - 2, by omega⟩
    obtain ⟨k, rfl⟩ : ∃ k, fuel = k + 2 := ⟨fuel - 2, by omega⟩
    have hinner : readValue k depth (List.replicate (m + 1) '[') = .error (.tooDeep .list) :=
      ih (by omega) (by omega)
    have hitems : readItems (k + 1) depth [] (List.replicate (m + 1) '[') =
        .error (.tooDeep .list) := by
      rw [readItems, hinner]
    exact hitems

theorem parse_brackets {n : Nat} (hn : depthLimit < n) :
    parse (String.ofList (List.replicate n '[')) = .error (.tooDeep .list) := by
  obtain ⟨m, rfl⟩ : ∃ m, n = m + 1 := ⟨n - 1, by omega⟩
  have hread : readAll (List.replicate (m + 1) '[') = .error (.tooDeep .list) := by
    have hvalue : readValue (2 * (List.replicate (m + 1) '[').length + 2) depthLimit
        (List.replicate (m + 1) '[') = .error (.tooDeep .list) :=
      readValue_brackets hn (by rw [List.length_replicate]; omega)
    have hskip : skipSpace (List.replicate (m + 1) '[') = List.replicate (m + 1) '[' := rfl
    rw [readAll]
    · rw [hskip]
      simp only [hvalue]
    · exact fun r hr => absurd (List.cons.inj hr).1 (by decide)
  rw [parse, String.toList_ofList, hread]
  rfl

end ChunkBuild.Json
