import ChunkBuild.Proofs.Descriptor
import ChunkBuild.Proofs.Results
import ChunkBuild.Proofs.Text.Numeral
import ChunkBuild.Proofs.Text.Occurrence
/-! # The grammar of descriptors

A descriptor has two or three columns between colons: a nickname, a count and, if it has a third one, the
nicknames of its dependencies between commas. Main statement: the texts that are read as a descriptor are
those of this form whose count is a written integer that is not negative, any other text is refused for
the first of these rules that it breaks, and what is written of a descriptor is read back. -/
namespace ChunkBuild.Descriptor

open ChunkBuild.Text ChunkBuild.Json

variable {s nickname count : String} {listed : Option String} {d : Descriptor} {e : Failure}
  {names : List String}

structure HasColumns (s nickname count : String) (listed : Option String) : Prop where
  text : s = nickname ++ ":" ++ count ++ (match listed with | none => "" | some t => ":" ++ t)
  nickname_ne : nickname ≠ ""
  nickname_free : ':' ∉ nickname.toList
  count_free : ':' ∉ count.toList
  listed_free : ∀ t ∈ listed, ':' ∉ t.toList

/-- The names that a text lists: none when it is empty, else the texts between its commas. -/
structure Lists (t : String) (names : List String) : Prop where
  text : join "," names = t
  comma_free : ∀ s ∈ names, ',' ∉ s.toList
  ne_alone : names ≠ [""]

def Describes (s : String) (d : Descriptor) : Prop :=
  ∃ count listed, HasColumns s d.nickname count listed ∧ IsInteger count d.fileCount ∧
    Lists (listed.getD "") d.dependencies

inductive Refused (s : String) : Failure → Prop where
  | malformed (h : ∀ nickname count listed, ¬ HasColumns s nickname count listed) :
    Refused s (.error ⟨.inconsistent ("Malformed chunk descriptor '" ++ s ++ "'") none none, [], none⟩)
  | notNumeric {nickname count : String} {listed : Option String}
    (hcolumns : HasColumns s nickname count listed) (hcount : ∀ n, ¬ IsInteger count n) :
    Refused s (.error ⟨.inconsistent ("Non-numeric file count in descriptor '" ++ s ++ "'") none
      (some nickname), [], none⟩)
  | negative {nickname count : String} {listed : Option String} {n : Int}
    (hcolumns : HasColumns s nickname count listed) (hcount : IsInteger count n) (hn : n < 0) :
    Refused s (.error ⟨.inconsistent ("Negative file count in descriptor '" ++ s ++ "'") none
      (some nickname), [], none⟩)

/-! ## Columns -/

theorem fields?_eq_some_iff : fields? s = some (nickname, count, listed) ↔
    HasColumns s nickname count listed := by
  constructor
  · intro h
    have hjoin : join ":" (split ":" s) = s := join_split (by decide) s
    have hfree : ∀ t ∈ split ":" s, ':' ∉ t.toList := fun t ht => notMem_of_mem_split rfl ht
    unfold fields? at h
    split at h
    · next n c hsplit =>
      rw [hsplit] at hjoin hfree
      split_ifs at h with hempty
      cases h
      refine ⟨?_, by simpa using hempty, hfree _ (by simp), hfree _ (by simp), by simp⟩
      rw [← hjoin]
      simp [join, String.append_assoc]
    · next n c t hsplit =>
      rw [hsplit] at hjoin hfree
      split_ifs at h with hempty
      cases h
      refine ⟨?_, by simpa using hempty, hfree _ (by simp), hfree _ (by simp), ?_⟩
      · rw [← hjoin]
        simp [join, String.append_assoc]
      · simpa using hfree t (by simp)
    · cases h
  · intro h
    have hempty : nickname.isEmpty = false := by simpa using h.nickname_ne
    have hsplit : split ":" s = nickname :: count :: listed.toList := by
      have htext : s = join ":" (nickname :: count :: listed.toList) := by
        rw [h.text]
        cases listed <;> simp [join, String.append_assoc]
      rw [htext]
      apply split_join rfl (List.cons_ne_nil _ _)
      intro t ht
      rcases List.mem_cons.mp ht with rfl | ht
      · exact h.nickname_free
      rcases List.mem_cons.mp ht with rfl | ht
      · exact h.count_free
      · exact h.listed_free t (Option.mem_toList.mp ht)
    rw [fields?, hsplit]
    cases listed <;> simp [hempty]

theorem nicknames_eq_iff {t : String} : nicknames t = names ↔ Lists t names := by
  constructor
  · rintro rfl
    unfold nicknames
    split_ifs with hempty
    · rw [String.isEmpty_iff] at hempty
      subst hempty
      exact ⟨rfl, by simp, by simp⟩
    · have hjoin : join "," (split "," t) = t := join_split (by decide) t
      refine ⟨hjoin, fun s hs => notMem_of_mem_split rfl hs, fun halone => ?_⟩
      rw [halone] at hjoin
      exact hempty (by simp [← hjoin, join])
  · rintro ⟨rfl, hfree, hne⟩
    by_cases hnil : names = []
    · subst hnil
      rfl
    · have hsplit : split "," (join "," names) = names := split_join rfl hnil hfree
      unfold nicknames
      rw [hsplit]
      refine if_neg fun hempty => hne ?_
      rw [String.isEmpty_iff] at hempty
      rw [← hsplit, hempty]
      rfl

/-! ## Reading -/

theorem parse_of_columns (h : HasColumns s nickname count listed) :
    parse s = match readInteger count with
      | .error _ => .error (.notNumeric s nickname)
      | .ok (.negSucc _) => .error (.negative s nickname)
      | .ok (.ofNat n) => .ok ⟨nickname, n, nicknames (listed.getD "")⟩ := by
  rewrite [parse, fields?_eq_some_iff.mpr h]
  rfl

/-- The columns of a text are found, or it has none. -/
theorem columns_cases (s : String) :
    (∃ nickname count listed, HasColumns s nickname count listed) ∨
      (∀ nickname count listed, ¬ HasColumns s nickname count listed) ∧
        parse s = .error (.malformed s) := by
  cases h : fields? s with
  | some columns =>
    obtain ⟨nickname, count, listed⟩ := columns
    exact .inl ⟨nickname, count, listed, fields?_eq_some_iff.mp h⟩
  | none =>
    refine .inr ⟨fun nickname count listed hcolumns => ?_, by rw [parse, h]⟩
    rw [← fields?_eq_some_iff, h] at hcolumns
    cases hcolumns

theorem parse_eq_ok_iff : parse s = .ok d ↔ Describes s d := by
  constructor
  · intro h
    obtain ⟨nickname, count, listed, hcolumns⟩ | ⟨-, hmalformed⟩ := columns_cases s
    · rw [parse_of_columns hcolumns] at h
      split at h
      · cases h
      · cases h
      · next n hcount =>
        cases h
        exact ⟨count, listed, hcolumns, readInteger_eq_ok_iff.mp hcount, nicknames_eq_iff.mp rfl⟩
    · rw [hmalformed] at h
      cases h
  · rintro ⟨count, listed, hcolumns, hcount, hlists⟩
    have hnames : nicknames (listed.getD "") = d.dependencies := nicknames_eq_iff.mpr hlists
    rw [parse_of_columns hcolumns, readInteger_eq_ok_iff.mpr hcount]
    exact congrArg (fun names => Except.ok (Descriptor.mk d.nickname d.fileCount names)) hnames

theorem parse_eq_error_iff : (parse s).mapError Inconsistency.failure = .error e ↔ Refused s e := by
  constructor
  · intro h
    obtain ⟨i, hi, rfl⟩ := except_mapError_eq_error.mp h
    obtain ⟨nickname, count, listed, hcolumns⟩ | ⟨hnone, hmalformed⟩ := columns_cases s
    · rw [parse_of_columns hcolumns] at hi
      split at hi
      · next p hcount =>
        cases hi
        refine .notNumeric hcolumns fun n hn => ?_
        rw [readInteger_eq_ok_iff.mpr hn] at hcount
        cases hcount
      · next m hcount =>
        cases hi
        exact .negative hcolumns (readInteger_eq_ok_iff.mp hcount) (Int.negSucc_lt_zero m)
      · cases hi
    · rw [hmalformed] at hi
      cases hi
      exact .malformed hnone
  · intro h
    rw [except_mapError_eq_error]
    cases h with
    | malformed hnone =>
      obtain ⟨nickname, count, listed, hcolumns⟩ | ⟨-, hmalformed⟩ := columns_cases s
      · exact absurd hcolumns (hnone nickname count listed)
      · exact ⟨_, hmalformed, rfl⟩
    | @notNumeric nickname count listed hcolumns hcount =>
      cases hread : readInteger count with
      | ok n => exact absurd (readInteger_eq_ok_iff.mp hread) (hcount n)
      | error p => exact ⟨_, by rw [parse_of_columns hcolumns, hread], rfl⟩
    | @negative nickname count listed n hcolumns hcount hn =>
      obtain ⟨m, rfl⟩ := Int.eq_negSucc_of_lt_zero hn
      refine ⟨.negative s nickname, ?_, rfl⟩
      rw [parse_of_columns hcolumns, readInteger_eq_ok_iff.mpr hcount]

/-! ## Reading again -/

theorem Describes.text (h : Describes s d) : Describes d.text d := by
  obtain ⟨count, listed, hcolumns, hcount, hlists⟩ := h
  have hbound : d.fileCount < 10 ^ digitLimit := by simpa using hcount.natAbs_lt
  have hfree : ':' ∉ (join "," d.dependencies).toList := by
    rw [hlists.text]
    cases listed with
    | none => simp
    | some t => exact hcolumns.listed_free t rfl
  refine ⟨natText d.fileCount, if d.dependencies = [] then none else some (join "," d.dependencies),
    ⟨?_, hcolumns.nickname_ne, hcolumns.nickname_free, colon_notMem_natText _, ?_⟩,
    isInteger_natText hbound, ⟨?_, hlists.comma_free, hlists.ne_alone⟩⟩
  · rw [Descriptor.text]
    by_cases hnil : d.dependencies = [] <;> simp [hnil, String.append_assoc]
  · split_ifs
    · simp
    · simpa using hfree
  · split_ifs with hnil
    · rw [hnil]
      rfl
    · rfl

/-- A text is read as the descriptor that it describes, whose own text is read as the same one again, and
is refused when it describes none. -/
theorem texts_read_or_refused (s : String) :
    (∀ d, parse s = .ok d ↔ Describes s d) ∧
    (∀ e, (parse s).mapError Inconsistency.failure = .error e ↔ Refused s e) ∧
    ∀ d, parse s = .ok d → parse d.text = .ok d := by
  refine ⟨fun d => parse_eq_ok_iff, fun e => parse_eq_error_iff, fun d h => ?_⟩
  exact parse_eq_ok_iff.mpr (parse_eq_ok_iff.mp h).text

example : parse "a: +1_٢ :" = .ok ⟨"a", 12, []⟩ := by decide +kernel

end ChunkBuild.Descriptor
