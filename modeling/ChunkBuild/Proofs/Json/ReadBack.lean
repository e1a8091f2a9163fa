import ChunkBuild.Proofs.Fields
import ChunkBuild.Proofs.Json.Decimal
import ChunkBuild.Proofs.Json.Quoted
import ChunkBuild.Proofs.Json.Spelled
/-! # Reading back spelled values

One step reads one item or one field. Each value uses two units of fuel for each of its characters at
most, and the white space is skipped between the steps. Main statement: the reader reads back every
readable value from each of its spellings. -/
namespace ChunkBuild.Json

open ChunkBuild.Text

def startsValue (c : Char) : Bool := !isSpace c && c ≠ ']' && c ≠ '\ufeff'

structure ReadsBack (w : Spacing) (depth room : Nat) (v : Value) : Prop where
  starts : ∃ c t, v.spelled w depth = c :: t ∧ startsValue c = true
  reads : ∀ (fuel : Nat) (rest : List Char), 2 * (v.spelled w depth).length ≤ fuel → Ends rest →
    readValue fuel room (v.spelled w depth ++ rest) = .ok (v, rest)

structure Spacing.IsBlank (w : Spacing) : Prop where
  first : ∀ depth, ∀ c ∈ w.first depth, isSpace c = true
  next : ∀ depth, ∀ c ∈ w.next depth, isSpace c = true
  last : ∀ depth, ∀ c ∈ w.last depth, isSpace c = true

variable {w : Spacing} {depth room fuel : Nat}

theorem skipSpace_append {b s : List Char} (h : ∀ c ∈ b, isSpace c = true) :
    skipSpace (b ++ s) = skipSpace s :=
  List.dropWhile_append_of_pos h

theorem skipSpace_cons {c : Char} {s : List Char} (h : isSpace c = false) :
    skipSpace (c :: s) = c :: s := by
  simp [skipSpace, h]

theorem ends_cons {c : Char} {s : List Char} (hc : extendsNumber c = false) : Ends (c :: s) := by
  intro d r h
  cases h
  exact hc

theorem extendsNumber_of_space {c : Char} (h : isSpace c = true) : extendsNumber c = false := by
  simp only [isSpace, Bool.or_eq_true, beq_iff_eq] at h
  rcases h with ((rfl | rfl) | rfl) | rfl <;> rfl

theorem ends_of_blank {b : List Char} {c : Char} {s : List Char} (hb : ∀ c ∈ b, isSpace c = true)
    (hc : extendsNumber c = false) : Ends (b ++ c :: s) := by
  cases b with
  | nil => exact ends_cons hc
  | cons d b => exact ends_cons (extendsNumber_of_space (hb d List.mem_cons_self))

def startsScalar (c : Char) : Bool := startsValue c && c ≠ '"' && c ≠ '[' && c ≠ '\x7b'

theorem readsBack_scalar {v : Value} {c : Char} {t : List Char} (hv : v.spelled w depth = c :: t)
    (hc : startsScalar c = true)
    (hread : ∀ rest, Ends rest → readScalar (c :: t ++ rest) = .ok (v, rest)) :
    ReadsBack w depth room v := by
  simp only [startsScalar, Bool.and_eq_true, decide_eq_true_eq] at hc
  obtain ⟨⟨⟨hstart, hquote⟩, hlist⟩, hobject⟩ := hc
  refine ⟨⟨c, t, hv, hstart⟩, ?_⟩
  intro fuel rest hf hr
  rw [hv] at hf ⊢
  obtain ⟨k, rfl⟩ : ∃ k, fuel = k + 1 := ⟨fuel - 1, by simp at hf; omega⟩
  rw [← hread rest hr, List.cons_append, readValue]
  all_goals grind

theorem readsBack_null : ReadsBack w depth room .null :=
  readsBack_scalar (Value.spelled.eq_1 w depth) (by decide) fun _ _ => rfl

theorem readsBack_bool (b : Bool) : ReadsBack w depth room (.bool b) := by
  cases b with
  | false => exact readsBack_scalar (Value.spelled.eq_3 w depth) (by decide) fun _ _ => rfl
  | true => exact readsBack_scalar (Value.spelled.eq_2 w depth) (by decide) fun _ _ => rfl

theorem startsScalar_of_digit {c : Char} (h : isAsciiDigit c = true) : startsScalar c = true := by
  have hne (d : Char) (hd : isAsciiDigit d = false) : c ≠ d := by
    rintro rfl
    rw [h] at hd
    cases hd
  simp [startsScalar, startsValue, isSpace, hne '\ufeff' rfl, hne ' ' rfl, hne '\t' rfl,
    hne '\n' rfl, hne '\r' rfl, hne ']' rfl, hne '"' rfl, hne '[' rfl, hne '\x7b' rfl]

theorem readsBack_int {i : Int} (hi : i.natAbs < 10 ^ digitLimit) :
    ReadsBack w depth room (.int i) := by
  obtain ⟨c, r, hc, hd⟩ := intText_eq_cons i
  refine readsBack_scalar (c := c) (t := r) (by rw [Value.spelled, hc]) ?_ ?_
  · rcases hd with hd | ⟨rfl, -⟩
    · exact startsScalar_of_digit hd
    · decide
  · intro rest hr
    rw [← hc]
    exact readScalar_int hi hr

theorem ends_nil : Ends [] := fun _ _ h => nomatch h

theorem startsScalar_of_token {c : Char} (h : isToken c = true) : startsScalar c = true := by
  simp only [isToken, Bool.and_eq_true, Bool.not_eq_true', decide_eq_true_eq] at h
  have hmark : c ≠ '\ufeff' := by
    rintro rfl
    exact absurd h.1.1.1.1.1.1 (by decide)
  simp [startsScalar, startsValue, h, hmark]

/-- The text of a number holds tokens only, as all that is read of it is one number. -/
theorem floatText_tokens {x : Number.Binary64} (hx : x.IsCanonical) :
    ∃ c t, (floatText x).toList = c :: t ∧ ∀ d ∈ c :: t, isToken d = true := by
  have hread := readScalar_float hx ends_nil
  rw [List.append_nil] at hread
  obtain ⟨c, q, hc, htoken, t, rfl, ht⟩ := passes_of_readScalar hread
  rw [List.append_nil] at hc
  exact ⟨c, t, hc, List.forall_mem_cons.mpr ⟨htoken, ht⟩⟩

theorem readsBack_float {x : Number.Binary64} (hx : x.IsCanonical) :
    ReadsBack w depth room (.float x) := by
  obtain ⟨c, t, hc, htokens⟩ := floatText_tokens hx
  refine readsBack_scalar (c := c) (t := t) (by rw [Value.spelled, hc]) ?_ ?_
  · exact startsScalar_of_token (htokens c List.mem_cons_self)
  · intro rest hr
    rw [← hc]
    exact readScalar_float hx hr

theorem readsBack_str {s : String} (hs : IsWhole s) : ReadsBack w depth room (.str s) where
  starts := ⟨'"', _, by rw [Value.spelled, stringText_toList], by decide⟩
  reads := by
    intro fuel rest hf _
    rw [Value.spelled, stringText_toList] at hf ⊢
    obtain ⟨k, rfl⟩ : ∃ k, fuel = k + 1 := ⟨fuel - 1, by simp at hf; omega⟩
    rw [List.cons_append, readValue, List.append_assoc, List.singleton_append, readText_points hs]
    rfl

/-! ## Lists and objects -/

theorem readItems_last {v : Value} {done : List Value} {s q rest : List Char}
    (hv : readValue fuel room s = .ok (v, q)) (hq : skipSpace q = ']' :: rest) :
    readItems (fuel + 1) room done s = .ok (.arr (v :: done).reverse, rest) := by
  simp only [readItems, hv, hq]

theorem readItems_more {v : Value} {done : List Value} {s q rest : List Char}
    (hv : readValue fuel room s = .ok (v, q)) (hq : skipSpace q = ',' :: rest) :
    readItems (fuel + 1) room done s = readItems fuel room (v :: done) (skipSpace rest) := by
  simp only [readItems, hv, hq]

theorem readMembers_last {k : String} {v : Value} {done : Fields Value} {s r u q rest : List Char}
    (hk : readText s = .ok (k, r)) (hr : skipSpace r = ':' :: u)
    (hv : readValue fuel room (skipSpace u) = .ok (v, q)) (hq : skipSpace q = '\x7d' :: rest) :
    readMembers (fuel + 1) room done ('"' :: s) = .ok (.obj (done.put k v), rest) := by
  simp only [readMembers, hk, hr, hv, hq]

theorem readMembers_more {k : String} {v : Value} {done : Fields Value} {s r u q rest : List Char}
    (hk : readText s = .ok (k, r)) (hr : skipSpace r = ':' :: u)
    (hv : readValue fuel room (skipSpace u) = .ok (v, q)) (hq : skipSpace q = ',' :: rest) :
    readMembers (fuel + 1) room done ('"' :: s) =
      readMembers fuel room (done.put k v) (skipSpace rest) := by
  simp only [readMembers, hk, hr, hv, hq]

theorem ReadsBack.head {v : Value} (h : ReadsBack w depth room v) :
    ∃ c t, v.spelled w depth = c :: t ∧ isSpace c = false ∧ c ≠ ']' ∧ c ≠ '\ufeff' := by
  obtain ⟨c, t, hc, hs⟩ := h.starts
  simp only [startsValue, Bool.and_eq_true, Bool.not_eq_true', decide_eq_true_eq] at hs
  exact ⟨c, t, hc, hs.1.1, hs.1.2, hs.2⟩

/-- What starts a value is not skipped. -/
theorem ReadsBack.skipSpace_eq {v : Value} (h : ReadsBack w depth room v) (s : List Char) :
    skipSpace (v.spelled w depth ++ s) = v.spelled w depth ++ s := by
  obtain ⟨c, t, hc, hspace, -⟩ := h.head
  rw [hc, List.cons_append, skipSpace_cons hspace]

theorem ReadsBack.skipSpace_blank {v : Value} (h : ReadsBack w depth room v) (s : List Char) :
    skipSpace (' ' :: (v.spelled w depth ++ s)) = v.spelled w depth ++ s := by
  rw [← List.singleton_append, skipSpace_append (forall_mem_of_all (by decide)),
    h.skipSpace_eq]

/-- The items of a list from one of them on, `done` holding those before. -/
theorem readItems_spelled (hw : w.IsBlank) {v : Value} {r : List Value} (fuel : Nat)
    (done : List Value) (rest : List Char)
    (hv : ReadsBack w (depth + 1) room v) (hr : ∀ u ∈ r, ReadsBack w (depth + 1) room u)
    (hf : 2 * (v.spelled w (depth + 1) ++ itemsSpelled w depth (',' :: w.next depth) r).length ≤
      fuel) :
    readItems fuel room done
        (v.spelled w (depth + 1) ++ (itemsSpelled w depth (',' :: w.next depth) r ++ rest)) =
      .ok (.arr (done.reverse ++ v :: r), rest) := by
  induction r generalizing v done fuel with
  | nil =>
    rw [itemsSpelled] at hf ⊢
    simp only [List.length_append, List.length_singleton] at hf
    obtain ⟨k, rfl⟩ : ∃ k, fuel = k + 1 := ⟨fuel - 1, by omega⟩
    rw [List.append_assoc, List.singleton_append]
    have hread := hv.reads k (w.last depth ++ ']' :: rest) (by omega)
      (ends_of_blank (hw.last depth) (by decide))
    have hend : skipSpace (w.last depth ++ ']' :: rest) = ']' :: rest := by
      rw [skipSpace_append (hw.last depth), skipSpace_cons (by decide)]
    rw [readItems_last hread hend, List.reverse_cons]
  | cons u r ih =>
    obtain ⟨hu, hr⟩ := List.forall_mem_cons.mp hr
    rw [itemsSpelled] at hf ⊢
    simp only [List.length_append, List.length_cons, List.cons_append, List.append_assoc] at hf ⊢
    obtain ⟨k, rfl⟩ : ∃ k, fuel = k + 1 := ⟨fuel - 1, by omega⟩
    rw [readItems_more (hv.reads k _ (by omega) (ends_cons (by decide))) (skipSpace_cons (by decide)),
      skipSpace_append (hw.next depth), hu.skipSpace_eq,
      ih k (v :: done) hu hr (by simp only [List.length_append]; omega)]
    simp

theorem readsBack_arr (hw : w.IsBlank) {items : List Value}
    (h : ∀ v ∈ items, ReadsBack w (depth + 1) room v) :
    ReadsBack w depth (room + 1) (.arr items) := by
  cases items with
  | nil =>
    refine ⟨⟨'[', [']'], by rw [Value.spelled], by decide⟩, ?_⟩
    intro fuel rest hf _
    rw [Value.spelled] at hf ⊢
    obtain ⟨k, rfl⟩ : ∃ k, fuel = k + 1 := ⟨fuel - 1, by simp at hf; omega⟩
    rfl
  | cons v r =>
    obtain ⟨hv, hr⟩ := List.forall_mem_cons.mp h
    refine ⟨⟨'[', _, by rw [Value.spelled], by decide⟩, ?_⟩
    intro fuel rest hf _
    rw [Value.spelled, itemsSpelled] at hf ⊢
    simp only [List.length_append, List.length_cons, List.cons_append, List.append_assoc] at hf ⊢
    obtain ⟨k, rfl⟩ : ∃ k, fuel = k + 1 := ⟨fuel - 1, by omega⟩
    have hitems := readItems_spelled hw k [] rest hv hr
      (by simp only [List.length_append]; omega)
    rw [readValue, skipSpace_append (hw.first depth), hv.skipSpace_eq]
    obtain ⟨c, t, hc, -, hclose, -⟩ := hv.head
    rw [hc, List.cons_append] at hitems ⊢
    split
    · next he => exact absurd (List.cons.inj he).1 hclose
    · rw [hitems]
      rfl

theorem not_mem_of_nodup {done r : List String} {k : String} (h : (done ++ k :: r).Nodup) :
    k ∉ done :=
  fun hk => (List.nodup_append.mp h).2.2 k hk k List.mem_cons_self rfl

/-- The fields of an object from one of them on, `done` holding those before under other keys. -/
theorem readMembers_spelled (hw : w.IsBlank) {k : String} {v : Value} {r : Fields Value}
    (fuel : Nat) (done : Fields Value) (rest : List Char)
    (hv : IsWhole k ∧ ReadsBack w (depth + 1) room v)
    (hr : ∀ f ∈ r, IsWhole f.1 ∧ ReadsBack w (depth + 1) room f.2)
    (hd : (done.map (·.1) ++ k :: r.map (·.1)).Nodup)
    (hf : 2 * ((stringText k).toList ++ (':' :: ' ' :: (v.spelled w (depth + 1) ++
      fieldsSpelled w depth (',' :: w.next depth) r))).length ≤ fuel) :
    readMembers fuel room done ((stringText k).toList ++ (':' :: ' ' :: (v.spelled w (depth + 1) ++
        (fieldsSpelled w depth (',' :: w.next depth) r ++ rest)))) =
      .ok (.obj (done ++ (k, v) :: r), rest) := by
  induction r generalizing k v done fuel with
  | nil =>
    obtain ⟨hk, hv⟩ := hv
    rw [fieldsSpelled, stringText_toList] at hf ⊢
    simp only [List.length_append, List.length_cons, List.cons_append, List.append_assoc,
      List.nil_append] at hf ⊢
    obtain ⟨m, rfl⟩ : ∃ m, fuel = m + 1 := ⟨fuel - 1, by omega⟩
    have hread := hv.reads m (w.last depth ++ '\x7d' :: rest) (by omega)
      (ends_of_blank (hw.last depth) (by decide))
    have hend : skipSpace (w.last depth ++ '\x7d' :: rest) = '\x7d' :: rest := by
      rw [skipSpace_append (hw.last depth), skipSpace_cons (by decide)]
    rw [← hv.skipSpace_blank] at hread
    rw [readMembers_last (readText_points hk) (skipSpace_cons (by decide)) hread hend,
      Fields.put_of_not_mem (not_mem_of_nodup hd)]
  | cons f r ih =>
    obtain ⟨hk, hv⟩ := hv
    obtain ⟨hu, hr⟩ := List.forall_mem_cons.mp hr
    have hput := Fields.put_of_not_mem (x := v) (not_mem_of_nodup hd)
    have hnext := ih (fuel - 1) (done.put k v) hu hr
      (by rw [hput]; simpa using hd)
    rw [fieldsSpelled, stringText_toList] at hf ⊢
    simp only [List.length_append, List.length_cons, List.cons_append, List.append_assoc,
      List.nil_append] at hf ⊢
    simp only [List.length_append, List.length_cons] at hnext
    obtain ⟨m, rfl⟩ : ∃ m, fuel = m + 1 := ⟨fuel - 1, by omega⟩
    have hread (s : List Char) :
        readValue m room (skipSpace (' ' :: (v.spelled w (depth + 1) ++ ',' :: s))) =
          .ok (v, ',' :: s) := by
      rw [hv.skipSpace_blank]
      exact hv.reads m _ (by omega) (ends_cons (by decide))
    have hkey (s : List Char) : skipSpace ((stringText f.1).toList ++ s) =
        (stringText f.1).toList ++ s := by
      rw [stringText_toList, List.cons_append, skipSpace_cons (by decide)]
    rw [readMembers_more (readText_points hk) (skipSpace_cons (by decide)) (hread _)
      (skipSpace_cons (by decide)), skipSpace_append (hw.next depth), hkey]
    refine (hnext (by omega)).trans ?_
    rw [hput]
    simp

theorem readsBack_obj (hw : w.IsBlank) {fields : Fields Value}
    (h : ∀ f ∈ fields, IsWhole f.1 ∧ ReadsBack w (depth + 1) room f.2)
    (hd : (fields.map (·.1)).Nodup) : ReadsBack w depth (room + 1) (.obj fields) := by
  cases fields with
  | nil =>
    refine ⟨⟨'\x7b', ['\x7d'], by rw [Value.spelled], by decide⟩, ?_⟩
    intro fuel rest hf _
    rw [Value.spelled] at hf ⊢
    obtain ⟨k, rfl⟩ : ∃ k, fuel = k + 1 := ⟨fuel - 1, by simp at hf; omega⟩
    rfl
  | cons f r =>
    obtain ⟨hf, hr⟩ := List.forall_mem_cons.mp h
    refine ⟨⟨'\x7b', _, by rw [Value.spelled], by decide⟩, ?_⟩
    intro fuel rest hfuel _
    rw [Value.spelled, fieldsSpelled] at hfuel ⊢
    simp only [List.length_append, List.length_cons, List.cons_append, List.append_assoc]
      at hfuel ⊢
    obtain ⟨k, rfl⟩ : ∃ k, fuel = k + 1 := ⟨fuel - 1, by omega⟩
    have hmembers := readMembers_spelled hw k [] rest hf hr hd
      (by simp only [List.length_append, List.length_cons]; omega)
    rw [readValue, skipSpace_append (hw.first depth)]
    rw [stringText_toList, List.cons_append] at hmembers ⊢
    rw [skipSpace_cons (by decide)]
    split
    · next he => exact absurd (List.cons.inj he).1 (by decide)
    · rw [hmembers]
      rfl

/-! ## What is printed -/

theorem intText_plain (i : Int) : ∀ c ∈ (intText i).toList, IsPlain c := by
  have hdigit (d : Nat) (h : d < 10) : IsPlain (digitChar d) := by
    revert d
    decide
  have hnat (n : Nat) : ∀ c ∈ (natText n).toList, IsPlain c := by
    intro c hc
    rw [natText_toList] at hc
    obtain ⟨d, hd, rfl⟩ := List.mem_map.mp hc
    exact hdigit d (digitsOf_lt hd)
  cases i with
  | ofNat n => exact hnat n
  | negSucc n =>
    rw [intText, String.toList_append]
    exact List.forall_mem_append.mpr ⟨forall_mem_of_all (by decide), hnat (n + 1)⟩

theorem floatText_plain {x : Number.Binary64} (hx : x.IsCanonical) :
    ∀ c ∈ (floatText x).toList, IsPlain c := by
  obtain ⟨c, t, hc, htokens⟩ := floatText_tokens hx
  rw [hc]
  intro d hd
  have htoken := htokens d hd
  simp only [isToken, Bool.and_eq_true, Bool.not_eq_true', decide_eq_true_eq] at htoken
  refine ⟨htoken.1.1.1.1.1.1, ?_⟩
  rintro rfl
  exact absurd htoken.1.1.1.1.1.2 (by decide)

structure Spacing.IsPlain (w : Spacing) : Prop where
  first : ∀ depth, ∀ c ∈ w.first depth, Json.IsPlain c
  next : ∀ depth, ∀ c ∈ w.next depth, Json.IsPlain c
  last : ∀ depth, ∀ c ∈ w.last depth, Json.IsPlain c

theorem itemsSpelled_plain (hw : w.IsPlain) {items : List Value}
    (h : ∀ v ∈ items, ∀ c ∈ v.spelled w (depth + 1), IsPlain c) {lead : List Char}
    (hl : ∀ c ∈ lead, IsPlain c) : ∀ c ∈ itemsSpelled w depth lead items, IsPlain c := by
  induction items generalizing lead with
  | nil =>
    rw [itemsSpelled, List.forall_mem_append]
    exact ⟨hw.last depth, forall_mem_of_all (by decide)⟩
  | cons v r ih =>
    obtain ⟨hv, hr⟩ := List.forall_mem_cons.mp h
    rw [itemsSpelled, List.forall_mem_append, List.forall_mem_append]
    exact ⟨hl, hv, ih hr (List.forall_mem_cons.mpr ⟨by decide, hw.next depth⟩)⟩

theorem fieldsSpelled_plain (hw : w.IsPlain) {fields : Fields Value}
    (h : ∀ f ∈ fields, ∀ c ∈ f.2.spelled w (depth + 1), IsPlain c) {lead : List Char}
    (hl : ∀ c ∈ lead, IsPlain c) : ∀ c ∈ fieldsSpelled w depth lead fields, IsPlain c := by
  induction fields generalizing lead with
  | nil =>
    rw [fieldsSpelled, List.forall_mem_append]
    exact ⟨hw.last depth, forall_mem_of_all (by decide)⟩
  | cons f r ih =>
    obtain ⟨hf, hr⟩ := List.forall_mem_cons.mp h
    rw [fieldsSpelled, List.forall_mem_append, List.forall_mem_append, List.forall_mem_cons,
      List.forall_mem_cons, List.forall_mem_append]
    exact ⟨hl, stringText_plain f.1, by decide, by decide, hf,
      ih hr (List.forall_mem_cons.mpr ⟨by decide, hw.next depth⟩)⟩

theorem Value.IsReadable.plain (hw : w.IsPlain) {v : Value} (h : v.IsReadable room) :
    ∀ depth, ∀ c ∈ v.spelled w depth, IsPlain c := by
  induction h with
  | null =>
    intro depth
    rw [Value.spelled]
    exact forall_mem_of_all (by decide)
  | bool b =>
    intro depth
    cases b
    all_goals
      rw [Value.spelled]
      exact forall_mem_of_all (by decide)
  | int _ =>
    intro depth
    rw [Value.spelled]
    exact intText_plain _
  | float hx =>
    intro depth
    rw [Value.spelled]
    exact floatText_plain hx
  | str _ =>
    intro depth
    rw [Value.spelled]
    exact stringText_plain _
  | @arr _ items _ ih =>
    intro depth
    cases items with
    | nil =>
      rw [Value.spelled]
      exact forall_mem_of_all (by decide)
    | cons v r =>
      rw [Value.spelled, List.forall_mem_cons]
      exact ⟨by decide, itemsSpelled_plain hw (fun u hu => ih u hu (depth + 1)) (hw.first depth)⟩
  | @obj _ fields _ _ _ ih =>
    intro depth
    cases fields with
    | nil =>
      rw [Value.spelled]
      exact forall_mem_of_all (by decide)
    | cons f r =>
      rw [Value.spelled, List.forall_mem_cons]
      exact ⟨by decide, fieldsSpelled_plain hw (fun u hu => ih u hu (depth + 1)) (hw.first depth)⟩

theorem texts_isReadable {xs : List String} (h : ∀ s ∈ xs, IsWhole s) :
    (Value.texts xs).IsReadable (room + 1) := by
  refine .arr ?_
  intro v hv
  obtain ⟨s, hs, rfl⟩ := List.mem_map.mp hv
  exact .str (h s hs)

theorem ofOption_isReadable {o : Option String} (h : ∀ s ∈ o.toList, IsWhole s) :
    (Value.ofOption .str o).IsReadable room := by
  cases o with
  | none => exact .null
  | some s => exact .str (h s List.mem_cons_self)

theorem isReadable_obj {fields : Fields Value} {keys : List String}
    (hkeys : fields.map (·.1) = keys) (hd : keys.Nodup)
    (hk : (keys.all fun k => k.toList.all fun c => decide (IsPlain c)) = true)
    (hv : ∀ f ∈ fields, f.2.IsReadable room) : (Value.obj fields).IsReadable (room + 1) := by
  subst hkeys
  refine .obj hd (fun f hf => ?_) hv
  have hplain := forall_mem_of_all (List.all_eq_true.mp hk _ (List.mem_map_of_mem hf))
  exact (isWhole_of_unmarked fun c hc => Nat.lt_trans (hplain c hc).1 (by decide)).1

/-! ## Whole texts -/

theorem Value.IsReadable.readsBack (hw : w.IsBlank) {v : Value} (h : v.IsReadable room) :
    ∀ depth, ReadsBack w depth room v := by
  induction h with
  | null => exact fun _ => readsBack_null
  | bool b => exact fun _ => readsBack_bool b
  | int hi => exact fun _ => readsBack_int hi
  | float hx => exact fun _ => readsBack_float hx
  | str hs => exact fun _ => readsBack_str hs
  | arr _ ih => exact fun depth => readsBack_arr hw fun v hv => ih v hv (depth + 1)
  | obj hd hk _ ih =>
    exact fun depth => readsBack_obj hw (fun f hf => ⟨hk f hf, ih f hf (depth + 1)⟩) hd

/-- A readable value is read back from a text that spells it, white space behind it. -/
theorem parse_spelled (hw : w.IsBlank) {v : Value} (hv : v.IsReadable depthLimit) {s : String}
    {b : List Char} (hb : ∀ c ∈ b, isSpace c = true) (hs : s.toList = v.spelled w 0 ++ b) :
    parse s = .ok v := by
  have h := hv.readsBack hw 0
  have hend : Ends b := by
    cases b with
    | nil => exact ends_nil
    | cons c b => exact ends_cons (extendsNumber_of_space (hb c List.mem_cons_self))
  have hskip : skipSpace b = [] := by
    have h := skipSpace_append (s := []) hb
    rwa [List.append_nil] at h
  obtain ⟨c, t, hc, -, -, hmark⟩ := h.head
  have hread := h.reads (2 * s.toList.length + 2) b
    (by rw [hs, List.length_append]; omega) hend
  rw [parse, readAll]
  · rw [hs, h.skipSpace_eq, ← hs]
    rw [← hs] at hread
    simp only [hread, hskip]
    rfl
  · intro r hr
    rw [hs, hc] at hr
    exact hmark (List.cons.inj hr).1

/-- A text that spells a value in some white space, with more of it at its end. -/
def Value.IsSpelledBy (v : Value) (text : String) : Prop :=
  ∃ w b, w.IsBlank ∧ w.IsPlain ∧ (∀ c ∈ b, isSpace c = true ∧ IsPlain c) ∧
    text.toList = v.spelled w 0 ++ b

theorem Value.IsSpelledBy.parse_eq {v : Value} {text : String} (h : v.IsSpelledBy text)
    (hv : v.IsReadable depthLimit) : parse text = .ok v := by
  obtain ⟨w, b, hw, -, hb, htext⟩ := h
  exact parse_spelled hw hv (fun c hc => (hb c hc).1) htext

theorem Value.IsSpelledBy.plain {v : Value} {text : String} (h : v.IsSpelledBy text)
    (hv : v.IsReadable room) : ∀ c ∈ text.toList, IsPlain c := by
  obtain ⟨w, b, -, hw, hb, htext⟩ := h
  rw [htext, List.forall_mem_append]
  exact ⟨hv.plain hw 0, fun c hc => (hb c hc).2⟩

/-! ## The indented layout -/

theorem indent_toList (depth : Nat) :
    ∀ c ∈ (indent depth).toList, isSpace c = true ∧ IsPlain c := by
  rw [indent, String.toList_ofList, List.forall_mem_cons]
  refine ⟨by decide, ?_⟩
  intro c hc
  rw [List.eq_of_mem_replicate hc]
  decide

theorem indentation_isBlank : indentation.IsBlank where
  first depth c hc := (indent_toList (depth + 1) c hc).1
  next depth c hc := (indent_toList (depth + 1) c hc).1
  last depth c hc := (indent_toList depth c hc).1

theorem indentation_isPlain : indentation.IsPlain where
  first depth c hc := (indent_toList (depth + 1) c hc).2
  next depth c hc := (indent_toList (depth + 1) c hc).2
  last depth c hc := (indent_toList depth c hc).2

theorem indented_isSpelled (v : Value) : v.IsSpelledBy (v.indented 0 ++ "\n") := by
  refine ⟨indentation, ['\n'], indentation_isBlank, indentation_isPlain, ?_, ?_⟩
  · rw [List.forall_mem_singleton]
    decide
  · rw [String.toList_append, indented_toList]
    rfl

/-- A readable value is read back from the lines that it is printed on. -/
theorem parse_indented {v : Value} (hv : v.IsReadable depthLimit) :
    parse (v.indented 0 ++ "\n") = .ok v :=
  (indented_isSpelled v).parse_eq hv

theorem indented_plain {v : Value} (hv : v.IsReadable room) :
    ∀ c ∈ (v.indented 0 ++ "\n").toList, IsPlain c :=
  (indented_isSpelled v).plain hv

/-! ## The layout on one line -/

theorem compact_isSpelled (v : Value) : v.IsSpelledBy v.compact := by
  have hspace : ∀ c ∈ [' '], isSpace c = true ∧ IsPlain c :=
    List.forall_mem_singleton.mpr (by decide)
  refine ⟨compaction, [], ?_, ?_, (fun _ h => nomatch h), ?_⟩
  · exact ⟨(fun _ _ h => nomatch h), (fun _ c hc => (hspace c hc).1), fun _ _ h => nomatch h⟩
  · exact ⟨(fun _ _ h => nomatch h), (fun _ c hc => (hspace c hc).2), fun _ _ h => nomatch h⟩
  · rw [compact_toList 0, List.append_nil]

/-- A written text is read as it is, up to halves side by side. -/
theorem parse_stringText (s : String) : parse (stringText s) = .ok (.str (rejoined s)) := by
  apply parse_spelled indentation_isBlank (.str (rejoined_isWhole s)) (b := [])
  · exact fun _ h => nomatch h
  · rw [← stringText_rejoined]
    exact (List.append_nil _).symm

end ChunkBuild.Json
