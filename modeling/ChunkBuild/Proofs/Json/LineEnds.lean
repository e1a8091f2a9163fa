import ChunkBuild.Proofs.Json.Depth
import ChunkBuild.Proofs.Json.ReadBack
import ChunkBuild.Proofs.Text.Utf8
/-! # Values do not depend on line ends

Outside quotes a line end is white space, and between quotes none may stand. So a text and the same text
with its line ends written as line feeds are read alike, up to the place where a malformed one goes
wrong. -/
namespace ChunkBuild.Json

open ChunkBuild.Text

inductive Unified {α : Type} : Step α → Step α → Prop where
  | read {a : α} {r : List Char} : Unified (.ok (a, r)) (.ok (a, unifyLineEnds r))
  | malformed {p q : Problem} {m n : Nat} :
    Unified (.error (.malformed p m)) (.error (.malformed q n))
  | stopped {e : Stop} : Unified (.error e) (.error e)

variable {c : Char} {s r t : List Char} {m n : Nat}

theorem Unified.bind {α β : Type} {x y : Step α} {f : α × List Char → Step β} (h : Unified x y)
    (hf : ∀ a r, Unified (f (a, r)) (f (a, unifyLineEnds r))) :
    Unified (Except.bind x f) (Except.bind y f) := by
  cases h with
  | @read a r => exact hf a r
  | malformed => exact .malformed
  | stopped => exact .stopped

theorem Unified.map {α β : Type} {x y : Step α} (f : α → β) (h : Unified x y) :
    Unified (x.map fun (a, r) => (f a, r)) (y.map fun (a, r) => (f a, r)) := by
  cases h with
  | read => exact .read
  | malformed => exact .malformed
  | stopped => exact .stopped

/-! ## White space and digits -/

theorem skipSpace_unifyLineEnds (s : List Char) :
    skipSpace (unifyLineEnds s) = unifyLineEnds (skipSpace s) := by
  fun_induction unifyLineEnds s with
  | case1 => rfl
  | case2 r ih => exact ih
  | case3 r _ ih => exact ih
  | case4 c r _ hc ih =>
    cases hspace : isSpace c with
    | true =>
      rw [skipSpace, skipSpace, List.dropWhile_cons_of_pos hspace, List.dropWhile_cons_of_pos hspace]
      exact ih
    | false => rw [skipSpace_cons hspace, skipSpace_cons hspace, unifyLineEnds_cons hc]

/-- Digits are on one line. -/
theorem digits_unifyLineEnds (s : List Char) :
    (unifyLineEnds s).takeWhile isAsciiDigit = s.takeWhile isAsciiDigit ∧
    (unifyLineEnds s).dropWhile isAsciiDigit = unifyLineEnds (s.dropWhile isAsciiDigit) := by
  induction s with
  | nil => exact ⟨rfl, rfl⟩
  | cons c s ih =>
    cases hc : isAsciiDigit c with
    | true =>
      have hreturn : c ≠ '\r' := by
        rintro rfl
        cases hc
      rw [unifyLineEnds_cons hreturn, List.takeWhile_cons_of_pos hc, List.takeWhile_cons_of_pos hc,
        List.dropWhile_cons_of_pos hc, List.dropWhile_cons_of_pos hc, ih.1, ih.2]
      exact ⟨rfl, rfl⟩
    | false =>
      have hno : ¬ isAsciiDigit c = true := by
        rw [hc]
        exact Bool.false_ne_true
      rw [List.takeWhile_cons_of_neg hno, List.dropWhile_cons_of_neg hno]
      by_cases hreturn : c = '\r'
      · subst hreturn
        obtain ⟨r, hr⟩ := unifyLineEnds_return s
        rw [hr]
        exact ⟨rfl, rfl⟩
      · rw [unifyLineEnds_cons hreturn, List.takeWhile_cons_of_neg hno,
          List.dropWhile_cons_of_neg hno]
        exact ⟨rfl, rfl⟩

/-! ## Numbers -/

theorem readWhole_unifyLineEnds (s : List Char) : readWhole (unifyLineEnds s) =
    (readWhole s).map fun (w, r) => (w, unifyLineEnds r) := by
  cases s with
  | nil => rfl
  | cons c s =>
    by_cases hreturn : c = '\r'
    · subst hreturn
      obtain ⟨r, hr⟩ := unifyLineEnds_return s
      rw [hr]
      rfl
    · by_cases hzero : c = '0'
      · subst hzero
        rw [unifyLineEnds_cons hreturn]
        rfl
      · have hdigits := digits_unifyLineEnds (c :: s)
        rw [unifyLineEnds_cons hreturn] at hdigits ⊢
        rw [readWhole, readWhole, hdigits.1, hdigits.2]
        · split
          · rfl
          · rfl
        · exact hzero
        · exact hzero

theorem readFraction_unifyLineEnds (s : List Char) : readFraction (unifyLineEnds s) =
    (readFraction s).map fun (w, r) => (w, unifyLineEnds r) := by
  by_cases hpoint : ∃ r, s = '.' :: r
  · obtain ⟨r, rfl⟩ := hpoint
    obtain ⟨htake, hdrop⟩ := digits_unifyLineEnds r
    rw [unifyLineEnds_cons (by decide), readFraction, readFraction, htake, hdrop]
    split
    · rfl
    · rfl
  · have hnone {t : List Char} (ht : ∀ r, t ≠ '.' :: r) : readFraction t = none := by
      unfold readFraction
      split
      · next r => exact absurd rfl (ht r)
      · rfl
    rw [hnone fun r hr => hpoint ⟨r, hr⟩, hnone]
    · rfl
    · intro r hr
      obtain ⟨q, hq, -⟩ := eq_cons_of_unifyLineEnds hr (by decide)
      exact hpoint ⟨q, hq⟩

theorem readSign_unifyLineEnds (s : List Char) :
    readSign (unifyLineEnds s) = ((readSign s).1, unifyLineEnds (readSign s).2) := by
  unfold readSign
  split
  · next r hr =>
    obtain ⟨q, rfl, rfl⟩ := eq_cons_of_unifyLineEnds hr (by decide)
    rfl
  · next r hr =>
    obtain ⟨q, rfl, rfl⟩ := eq_cons_of_unifyLineEnds hr (by decide)
    rfl
  · next hminus hplus =>
    split
    · next r => exact absurd (unifyLineEnds_cons (by decide)) (hminus (unifyLineEnds r))
    · next r => exact absurd (unifyLineEnds_cons (by decide)) (hplus (unifyLineEnds r))
    · rfl

theorem readExponent_unifyLineEnds (s : List Char) : readExponent (unifyLineEnds s) =
    (readExponent s).map fun (w, r) => (w, unifyLineEnds r) := by
  cases s with
  | nil => rfl
  | cons c s =>
    by_cases hreturn : c = '\r'
    · subst hreturn
      obtain ⟨r, hr⟩ := unifyLineEnds_return s
      rw [hr]
      rfl
    · obtain ⟨htake, hdrop⟩ := digits_unifyLineEnds (readSign s).2
      rw [unifyLineEnds_cons hreturn, readExponent, readExponent, readSign_unifyLineEnds]
      dsimp only
      rw [htake, hdrop]
      split_ifs
      all_goals rfl

theorem unsigned_unifyLineEnds (s : List Char) :
    unsigned (unifyLineEnds s) = ((unsigned s).1, unifyLineEnds (unsigned s).2) := by
  unfold unsigned
  split
  · next r hr =>
    obtain ⟨q, rfl, rfl⟩ := eq_cons_of_unifyLineEnds hr (by decide)
    rfl
  · next hminus =>
    split
    · next r => exact absurd (unifyLineEnds_cons (by decide)) (hminus (unifyLineEnds r))
    · rfl

theorem readNumeral_unifyLineEnds (s : List Char) : readNumeral (unifyLineEnds s) =
    (readNumeral s).map fun (n, r) => (n, unifyLineEnds r) := by
  rw [readNumeral, readNumeral, unsigned_unifyLineEnds, readWhole_unifyLineEnds]
  cases readWhole (unsigned s).2 with
  | none => rfl
  | some w =>
    obtain ⟨whole, r⟩ := w
    have hfraction : (readFraction (unifyLineEnds r)).getD ([], unifyLineEnds r) =
        (((readFraction r).getD ([], r)).1, unifyLineEnds ((readFraction r).getD ([], r)).2) := by
      rw [readFraction_unifyLineEnds]
      cases readFraction r with
      | none => rfl
      | some f => rfl
    dsimp only [Option.map_some]
    rw [hfraction]
    dsimp only
    rw [readExponent_unifyLineEnds]
    cases readExponent ((readFraction r).getD ([], r)).2 with
    | none => rfl
    | some e => rfl

theorem readNumber_unifyLineEnds (s : List Char) : readNumber (unifyLineEnds s) =
    (readNumber s).map fun (n, r) => (n, unifyLineEnds r) := by
  rw [readNumber_eq, readNumber_eq, readNumeral_unifyLineEnds, Option.map_map, Option.map_map]
  rfl

/-- Words are on one line. -/
theorem readScalar_unifyLineEnds (s : List Char) :
    Unified (readScalar s) (readScalar (unifyLineEnds s)) := by
  have hword {w t : List Char} (hw : ∀ c ∈ w, c ≠ '\n') (hs : ∀ r, s ≠ w ++ r) :
      unifyLineEnds s ≠ w ++ t := by
    intro h
    obtain ⟨r, hr, -⟩ := eq_append_of_unifyLineEnds h hw
    exact hs r hr
  have hplain (hnull : ∀ r, s ≠ ['n', 'u', 'l', 'l'] ++ r)
      (htrue : ∀ r, s ≠ ['t', 'r', 'u', 'e'] ++ r)
      (hfalse : ∀ r, s ≠ ['f', 'a', 'l', 's', 'e'] ++ r) (hnan : ∀ r, s ≠ ['N', 'a', 'N'] ++ r)
      (hinf : ∀ r, s ≠ ['I', 'n', 'f', 'i', 'n', 'i', 't', 'y'] ++ r)
      (hneg : ∀ r, s ≠ ['-', 'I', 'n', 'f', 'i', 'n', 'i', 't', 'y'] ++ r) :=
    readScalar.eq_7 (unifyLineEnds s) (fun _ => hword (forall_mem_of_all (by decide)) hnull)
      (fun _ => hword (forall_mem_of_all (by decide)) htrue)
      (fun _ => hword (forall_mem_of_all (by decide)) hfalse)
      (fun _ => hword (forall_mem_of_all (by decide)) hnan)
      (fun _ => hword (forall_mem_of_all (by decide)) hinf)
      (fun _ => hword (forall_mem_of_all (by decide)) hneg)
  fun_cases readScalar s with
  | case1 | case2 | case3 | case4 | case5 | case6 => exact .read
  | case7 _ v r hn hnull htrue hfalse hnan hinf hneg =>
    rw [hplain hnull htrue hfalse hnan hinf hneg, readNumber_unifyLineEnds, hn]
    exact .read
  | case8 _ p r hn hnull htrue hfalse hnan hinf hneg =>
    rw [hplain hnull htrue hfalse hnan hinf hneg, readNumber_unifyLineEnds, hn]
    exact .stopped
  | case9 _ hn hnull htrue hfalse hnan hinf hneg =>
    rw [hplain hnull htrue hfalse hnan hinf hneg, readNumber_unifyLineEnds, hn]
    exact .malformed

/-! ## Quoted texts -/

theorem unifyLineEnds_hex {n : Nat} (hc : hexValue? c = some n) (s : List Char) :
    unifyLineEnds (c :: s) = c :: unifyLineEnds s := by
  apply unifyLineEnds_cons
  rintro rfl
  cases hc

theorem hexValue?_of_hexUnit {a b c d : Char} {n : Nat} (h : hexUnit? a b c d = some n) :
    (∃ i, hexValue? a = some i) ∧ (∃ i, hexValue? b = some i) ∧ (∃ i, hexValue? c = some i) ∧
      ∃ i, hexValue? d = some i := by
  obtain ⟨i, ha, h⟩ := Option.bind_eq_some_iff.mp h
  obtain ⟨j, hb, h⟩ := Option.bind_eq_some_iff.mp h
  obtain ⟨k, hc, h⟩ := Option.bind_eq_some_iff.mp h
  obtain ⟨l, hd, -⟩ := Option.bind_eq_some_iff.mp h
  exact ⟨⟨i, ha⟩, ⟨j, hb⟩, ⟨k, hc⟩, l, hd⟩

theorem unifyLineEnds_hexUnit {a b c d : Char} (h : hexUnit? a b c d = some n) (s : List Char) :
    unifyLineEnds (a :: b :: c :: d :: s) = a :: b :: c :: d :: unifyLineEnds s := by
  obtain ⟨⟨_, ha⟩, ⟨_, hb⟩, ⟨_, hc⟩, _, hd⟩ := hexValue?_of_hexUnit h
  rw [unifyLineEnds_hex ha, unifyLineEnds_hex hb, unifyLineEnds_hex hc, unifyLineEnds_hex hd]

theorem hexUnit?_of_unifyLineEnds {a b c d : Char} (h : hexUnit? a b c d = some n)
    (hs : unifyLineEnds s = a :: b :: c :: d :: t) :
    ∃ r, s = a :: b :: c :: d :: r ∧ unifyLineEnds r = t := by
  obtain ⟨⟨_, ha⟩, ⟨_, hb⟩, ⟨_, hc⟩, _, hd⟩ := hexValue?_of_hexUnit h
  have hne {c : Char} {k : Nat} (hc : hexValue? c = some k) : c ≠ '\n' := by
    rintro rfl
    cases hc
  refine eq_append_of_unifyLineEnds (w := [a, b, c, d]) hs ?_
  rw [List.forall_mem_cons, List.forall_mem_cons, List.forall_mem_cons, List.forall_mem_singleton]
  exact ⟨hne ha, hne hb, hne hc, hne hd⟩

def StartsUnit (s : List Char) : Prop :=
  ∃ a b c d n r, s = a :: b :: c :: d :: r ∧ hexUnit? a b c d = some n ∧ r ≠ []

theorem readUnits_badUnit (start : Nat) (h : ¬ StartsUnit s) :
    ∃ left, readUnits start ('\\' :: 'u' :: s) = .error (.malformed .badUnicodeEscape left) := by
  by_cases hlong : ∃ a b c d r, s = a :: b :: c :: d :: r
  · obtain ⟨a, b, c, d, r, rfl⟩ := hlong
    refine ⟨r.length + 5, ?_⟩
    rw [readUnits]
    split
    · next n hn hr =>
      refine absurd ⟨a, b, c, d, n, r, rfl, hn, ?_⟩ h
      rintro rfl
      cases hr
    · rfl
  · refine ⟨s.length + 1, ?_⟩
    rw [readUnits]
    intro a b c d r hs
    exact hlong ⟨a, b, c, d, r, hs⟩

theorem startsUnit_of_unifyLineEnds (h : StartsUnit (unifyLineEnds s)) : StartsUnit s := by
  obtain ⟨a, b, c, d, n, t, hs, hn, ht⟩ := h
  obtain ⟨r, rfl, rfl⟩ := hexUnit?_of_unifyLineEnds hn hs
  refine ⟨a, b, c, d, n, r, rfl, hn, ?_⟩
  rintro rfl
  exact ht rfl

theorem unified_of_badUnit {start left : Nat} {problem : Problem} (h : ¬ StartsUnit s) :
    Unified (.error (.malformed problem left))
      (readUnits start (unifyLineEnds ('\\' :: 'u' :: s))) := by
  have hbad : ¬ StartsUnit (unifyLineEnds s) := fun hu => h (startsUnit_of_unifyLineEnds hu)
  obtain ⟨_, he⟩ := readUnits_badUnit start hbad
  rw [unifyLineEnds_cons (by decide), unifyLineEnds_cons (by decide), he]
  exact .malformed

theorem readUnits_badEscape (start : Nat) (hc : escapeValue? c = none) (hu : c ≠ 'u') :
    readUnits start ('\\' :: c :: s) = .error (.malformed .badEscape (s.length + 2)) := by
  rw [readUnits, hc]
  · rintro _ _ _ _ _ rfl
    exact absurd rfl hu
  · exact hu

theorem readUnits_control (start : Nat) (hc : c.toNat < 32) :
    readUnits start (c :: s) = .error (.malformed .controlCharacter (s.length + 1)) := by
  have hne {d : Char} (hd : 32 ≤ d.toNat) : c ≠ d := by
    rintro rfl
    exact absurd hc (Nat.not_lt.mpr hd)
  have hslash : c ≠ '\\' := hne (by decide)
  rw [readUnits, if_pos hc]
  · exact hne (by decide)
  all_goals grind

/-- Between quotes a line end is malformed, written as it may be. -/
theorem readUnits_unifyLineEnds (start other : Nat) (s : List Char) :
    Unified (readUnits start s) (readUnits other (unifyLineEnds s)) := by
  fun_induction readUnits start s with
  | case1 => exact .malformed
  | case2 r => exact .read
  | case3 => exact .malformed
  | case4 a b c d r n hr hn ih =>
    have hempty : (unifyLineEnds r).isEmpty = false := by rw [isEmpty_unifyLineEnds, hr]
    rw [unifyLineEnds_cons (by decide), unifyLineEnds_cons (by decide), unifyLineEnds_hexUnit hn,
      readUnits, hn, hempty]
    exact ih.map _
  | case5 a b c d r hno =>
    apply unified_of_badUnit
    rintro ⟨_, _, _, _, n, q, hs, hn, hq⟩
    cases hs
    exact hno n hn (List.isEmpty_eq_false_iff.mpr hq)
  | case6 r hshort =>
    apply unified_of_badUnit
    rintro ⟨a, b, c, d, n, q, hs, hn, hq⟩
    exact hshort a b c d q hs
  | case7 c r _ hu x hx ih =>
    have hreturn : c ≠ '\r' := by
      rintro rfl
      cases hx
    rw [unifyLineEnds_cons (by decide), unifyLineEnds_cons hreturn, readUnits_escape hx hu]
    exact ih.map _
  | case8 c r _ hu hx =>
    rw [unifyLineEnds_cons (by decide)]
    by_cases hreturn : c = '\r'
    · subst hreturn
      obtain ⟨q, hq⟩ := unifyLineEnds_return r
      rw [hq, readUnits_badEscape other rfl (by decide)]
      exact .malformed
    · rw [unifyLineEnds_cons hreturn, readUnits_badEscape other hx hu]
      exact .malformed
  | case9 c r hquote hend hunit hu hescape hc =>
    by_cases hreturn : c = '\r'
    · subst hreturn
      obtain ⟨q, hq⟩ := unifyLineEnds_return r
      rw [hq, readUnits_control other (by decide)]
      exact .malformed
    · rw [unifyLineEnds_cons hreturn, readUnits_control other hc]
      exact .malformed
  | case10 c r hquote hend _ _ hescape hc ih =>
    have hslash : c ≠ '\\' := by
      rintro rfl
      cases r with
      | nil => exact hend rfl rfl
      | cons d r => exact hescape d r rfl rfl
    have hreturn : c ≠ '\r' := by
      rintro rfl
      exact hc (by decide)
    rw [unifyLineEnds_cons hreturn, readUnits_char hquote hslash (Nat.not_lt.mp hc)]
    exact ih.map _

theorem readText_unifyLineEnds (s : List Char) :
    Unified (readText s) (readText (unifyLineEnds s)) :=
  (readUnits_unifyLineEnds _ _ s).map fun us => String.ofList (joinUnits us)

/-! ## Values -/

variable {fuel depth : Nat}

theorem ne_of_unifyLineEnds (h : ∀ r, s = c :: r → False) (hc : c ≠ '\n') :
    ∀ r, unifyLineEnds s = c :: r → False := by
  intro r hr
  obtain ⟨q, hq, -⟩ := eq_cons_of_unifyLineEnds hr hc
  exact h q hq

theorem readItems_succ (done : List Value) (s : List Char) :
    readItems (fuel + 1) depth done s = (readValue fuel depth s).bind (fun p =>
      match skipSpace p.2 with
      | ']' :: rest => .ok (.arr (p.1 :: done).reverse, rest)
      | ',' :: rest => readItems fuel depth (p.1 :: done) (skipSpace rest)
      | rest => .error (.malformed .comma rest.length)) := by
  rw [readItems]
  cases readValue fuel depth s with
  | error e => rfl
  | ok p => rfl

def membersAfter (fuel depth : Nat) (done : Fields Value) : List Char → Step Value
  | '\x7d' :: rest => .ok (.obj done, rest)
  | ',' :: rest => readMembers fuel depth done (skipSpace rest)
  | rest => .error (.malformed .comma rest.length)

theorem readMembers_succ (done : Fields Value) (s : List Char) :
    readMembers (fuel + 1) depth done ('"' :: s) = (readText s).bind (fun k =>
      match skipSpace k.2 with
      | ':' :: r => (readValue fuel depth (skipSpace r)).bind fun p =>
        membersAfter fuel depth (done.put k.1 p.1) (skipSpace p.2)
      | rest => .error (.malformed .colon rest.length)) := by
  rw [readMembers]
  cases readText s with
  | error e => rfl
  | ok k =>
    dsimp only [Except.bind]
    cases skipSpace k.2 with
    | nil => rfl
    | cons c r =>
      by_cases hc : c = ':'
      · subst hc
        cases hv : readValue fuel depth (skipSpace r) with
        | error e => simp only [hv]
        | ok p =>
          simp only [hv]
          rfl
      · simp [hc]

theorem readValue_of_scalar (htext : ∀ r, s = '"' :: r → False) (hlist : ∀ r, s = '[' :: r → False)
    (hobject : ∀ r, s = '\x7b' :: r → False) : readValue (fuel + 1) depth s = readScalar s := by
  rw [readValue]
  · exact htext
  · exact fun r hr _ => hlist r hr
  · exact fun r _ hr _ => hlist r hr
  · exact fun r hr _ => hobject r hr
  · exact fun r _ hr _ => hobject r hr

/-! ### One step of reading -/

section Step

variable
  (hvalue : ∀ depth s, Unified (readValue fuel depth s) (readValue fuel depth (unifyLineEnds s)))
  (hitems : ∀ depth done s,
    Unified (readItems fuel depth done s) (readItems fuel depth done (unifyLineEnds s)))
  (hmembers : ∀ depth done s,
    Unified (readMembers fuel depth done s) (readMembers fuel depth done (unifyLineEnds s)))

include hitems hmembers in
theorem readValue_unifyLineEnds (depth : Nat) (s : List Char) :
    Unified (readValue (fuel + 1) depth s) (readValue (fuel + 1) depth (unifyLineEnds s)) := by
  by_cases htext : ∃ r, s = '"' :: r
  · obtain ⟨r, rfl⟩ := htext
    rw [unifyLineEnds_cons (by decide), readValue, readValue]
    exact (readText_unifyLineEnds r).map _
  by_cases hlist : ∃ r, s = '[' :: r
  · obtain ⟨r, rfl⟩ := hlist
    rw [unifyLineEnds_cons (by decide)]
    cases depth with
    | zero => exact .stopped
    | succ depth =>
      rw [readValue, readValue, skipSpace_unifyLineEnds]
      generalize skipSpace r = q
      split
      · exact .read
      · next hend =>
        split
        · next h => exact (ne_of_unifyLineEnds hend (by decide) _ h).elim
        · exact hitems depth [] q
  by_cases hobject : ∃ r, s = '\x7b' :: r
  · obtain ⟨r, rfl⟩ := hobject
    rw [unifyLineEnds_cons (by decide)]
    cases depth with
    | zero => exact .stopped
    | succ depth =>
      rw [readValue, readValue, skipSpace_unifyLineEnds]
      generalize skipSpace r = q
      split
      · exact .read
      · next hend =>
        split
        · next h => exact (ne_of_unifyLineEnds hend (by decide) _ h).elim
        · exact hmembers depth [] q
  have htext : ∀ r, s = '"' :: r → False := fun r hr => htext ⟨r, hr⟩
  have hlist : ∀ r, s = '[' :: r → False := fun r hr => hlist ⟨r, hr⟩
  have hobject : ∀ r, s = '\x7b' :: r → False := fun r hr => hobject ⟨r, hr⟩
  rw [readValue_of_scalar htext hlist hobject,
    readValue_of_scalar (ne_of_unifyLineEnds htext (by decide))
      (ne_of_unifyLineEnds hlist (by decide)) (ne_of_unifyLineEnds hobject (by decide))]
  exact readScalar_unifyLineEnds s

include hvalue hitems in
theorem readItems_unifyLineEnds (depth : Nat) (done : List Value) (s : List Char) :
    Unified (readItems (fuel + 1) depth done s)
      (readItems (fuel + 1) depth done (unifyLineEnds s)) := by
  rw [readItems_succ, readItems_succ]
  refine (hvalue depth s).bind fun v r => ?_
  dsimp only
  rw [skipSpace_unifyLineEnds]
  generalize skipSpace r = q
  split
  · exact .read
  · next rest =>
    have hnext := hitems depth (v :: done) (skipSpace rest)
    rw [← skipSpace_unifyLineEnds] at hnext
    exact hnext
  · next hlast hmore =>
    split
    · next h => exact (ne_of_unifyLineEnds hlast (by decide) _ h).elim
    · next h => exact (ne_of_unifyLineEnds hmore (by decide) _ h).elim
    · exact .malformed

include hmembers in
theorem membersAfter_unifyLineEnds (depth : Nat) (done : Fields Value) (s : List Char) :
    Unified (membersAfter fuel depth done s) (membersAfter fuel depth done (unifyLineEnds s)) := by
  unfold membersAfter
  split
  · exact .read
  · next rest =>
    have hnext := hmembers depth done (skipSpace rest)
    rw [← skipSpace_unifyLineEnds] at hnext
    exact hnext
  · next hlast hmore =>
    split
    · next h => exact (ne_of_unifyLineEnds hlast (by decide) _ h).elim
    · next h => exact (ne_of_unifyLineEnds hmore (by decide) _ h).elim
    · exact .malformed

include hvalue hmembers in
theorem readMembers_unifyLineEnds (depth : Nat) (done : Fields Value) (s : List Char) :
    Unified (readMembers (fuel + 1) depth done s)
      (readMembers (fuel + 1) depth done (unifyLineEnds s)) := by
  by_cases hname : ∃ r, s = '"' :: r
  · obtain ⟨s, rfl⟩ := hname
    rw [unifyLineEnds_cons (by decide), readMembers_succ, readMembers_succ]
    refine (readText_unifyLineEnds s).bind fun key r => ?_
    dsimp only
    rw [skipSpace_unifyLineEnds]
    generalize skipSpace r = q
    split
    · next r =>
      have hval := hvalue depth (skipSpace r)
      rw [← skipSpace_unifyLineEnds] at hval
      refine hval.bind fun v r => ?_
      dsimp only
      rw [skipSpace_unifyLineEnds]
      exact membersAfter_unifyLineEnds hmembers depth (done.put key v) (skipSpace r)
    · next hcolon =>
      split
      · next h => exact (ne_of_unifyLineEnds hcolon (by decide) _ h).elim
      · exact .malformed
  · have hno : ∀ r, s = '"' :: r → False := fun r hr => hname ⟨r, hr⟩
    rw [readMembers, readMembers]
    · exact .malformed
    · exact ne_of_unifyLineEnds hno (by decide)
    · exact hno

end Step

theorem read_unifyLineEnds : ∀ {fuel : Nat},
    (∀ depth s, Unified (readValue fuel depth s) (readValue fuel depth (unifyLineEnds s))) ∧
    (∀ depth done s,
      Unified (readItems fuel depth done s) (readItems fuel depth done (unifyLineEnds s))) ∧
    ∀ depth done s,
      Unified (readMembers fuel depth done s) (readMembers fuel depth done (unifyLineEnds s)) := by
  intro fuel
  induction fuel with
  | zero => exact ⟨(fun _ _ => .malformed), (fun _ _ _ => .malformed), fun _ _ _ => .malformed⟩
  | succ fuel ih =>
    obtain ⟨hvalue, hitems, hmembers⟩ := ih
    exact ⟨readValue_unifyLineEnds hitems hmembers, readItems_unifyLineEnds hvalue hitems,
      readMembers_unifyLineEnds hvalue hmembers⟩

/-! ## Whole texts -/

/-- Two ways of reading a text that give the same value or fail alike, at any place. -/
inductive ReadsAlike : Except ReadError Value → Except ReadError Value → Prop where
  | read {v : Value} : ReadsAlike (.ok v) (.ok v)
  | malformed {p q : Problem} {l m c d o n : Nat} :
    ReadsAlike (.error (.malformed p l c o)) (.error (.malformed q m d n))
  | stopped {e : ReadError} : ReadsAlike (.error e) (.error e)

theorem readAll_of_unmarked (h : ∀ r, s ≠ '\ufeff' :: r) (hn : 2 * s.length + 2 ≤ n) :
    readAll s = (readValue n depthLimit (skipSpace s)).bind fun p =>
      match skipSpace p.2 with
      | [] => .ok p.1
      | rest => .error (.malformed .extraData rest.length) := by
  have hskip := length_skipSpace s
  rw [readAll, readValue_of_fuel (m := n) (by omega) (by omega)]
  · cases readValue n depthLimit (skipSpace s) with
    | error e => rfl
    | ok p => rfl
  · exact h

theorem parse_unifyLineEnds (text : String) :
    ReadsAlike (parse text) (parse (String.ofList (unifyLineEnds text.toList))) := by
  rw [parse, parse, String.toList_ofList]
  generalize text.toList = s
  by_cases hmark : ∃ r, s = '\ufeff' :: r
  · obtain ⟨r, rfl⟩ := hmark
    rw [unifyLineEnds_cons (by decide)]
    exact .malformed
  · have hmark : ∀ r, s = '\ufeff' :: r → False := fun r hr => hmark ⟨r, hr⟩
    have hlength := length_unifyLineEnds s
    rw [readAll_of_unmarked hmark (Nat.le_refl _),
      readAll_of_unmarked (ne_of_unifyLineEnds hmark (by decide)) (n := 2 * s.length + 2) (by omega),
      skipSpace_unifyLineEnds]
    have hread : Unified (readValue (2 * s.length + 2) depthLimit (skipSpace s))
        (readValue (2 * s.length + 2) depthLimit (unifyLineEnds (skipSpace s))) :=
      read_unifyLineEnds.1 depthLimit (skipSpace s)
    generalize readValue (2 * s.length + 2) depthLimit (skipSpace s) = x at hread
    generalize readValue (2 * s.length + 2) depthLimit (unifyLineEnds (skipSpace s)) = y at hread
    cases hread with
    | malformed => exact .malformed
    | @stopped e =>
      cases e with
      | malformed p m => exact .malformed
      | integer p => exact .stopped
      | tooDeep kind => exact .stopped
    | @read v r =>
      dsimp only [Except.bind]
      rw [skipSpace_unifyLineEnds]
      cases skipSpace r with
      | nil => exact .read
      | cons c q =>
        have hne : (unifyLineEnds (c :: q)).isEmpty = false := isEmpty_unifyLineEnds (c :: q)
        cases hu : unifyLineEnds (c :: q) with
        | nil =>
          rw [hu] at hne
          cases hne
        | cons d t => exact .malformed

end ChunkBuild.Json
