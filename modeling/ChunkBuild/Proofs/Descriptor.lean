import ChunkBuild.Descriptor
import ChunkBuild.Proofs.Text.Integer
import ChunkBuild.Proofs.Text.Pieces
/-! # Reading back descriptors

A descriptor is written in columns between colons, its dependencies between commas. Main statement: a
descriptor is read back from its text when no name is empty and none holds what separates them. -/
namespace ChunkBuild

open ChunkBuild.Text ChunkBuild.Json

structure Descriptor.IsWritable (d : Descriptor) : Prop where
  nickname : d.nickname ≠ "" ∧ ':' ∉ d.nickname.toList
  count : d.fileCount < 10 ^ digitLimit
  dependencies : ∀ s ∈ d.dependencies, s ≠ "" ∧ ':' ∉ s.toList ∧ ',' ∉ s.toList

namespace Descriptor

variable {d : Descriptor}

theorem colon_notMem_natText (n : Nat) : ':' ∉ (natText n).toList := by
  rw [natText_toList]
  intro h
  obtain ⟨d, hd, hc⟩ := List.mem_map.mp h
  have hlt : d < 10 := digitsOf_lt hd
  interval_cases d
  all_goals exact absurd hc (by decide)

theorem nicknames_join {ts : List String} (h : ∀ t ∈ ts, t ≠ "" ∧ ',' ∉ t.toList) :
    nicknames (join "," ts) = ts := by
  cases ts with
  | nil => rfl
  | cons s r =>
    have hfirst : (join "," (s :: r)).isEmpty = false := by
      rw [← Bool.not_eq_true, String.isEmpty_iff, ← String.toList_eq_nil_iff, toList_join]
      intro hnil
      have hprefix := prefix_intercalate ",".toList s.toList (r.map String.toList)
      rw [List.map_cons] at hnil
      rw [hnil, List.prefix_nil, String.toList_eq_nil_iff] at hprefix
      exact (h s List.mem_cons_self).1 hprefix
    rw [nicknames, hfirst, if_neg Bool.false_ne_true]
    exact split_join rfl (List.cons_ne_nil s r) fun t ht => (h t ht).2

def columns (d : Descriptor) : List String :=
  [d.nickname, natText d.fileCount] ++
    (if d.dependencies.isEmpty then [] else [join "," d.dependencies])

theorem text_eq_join (d : Descriptor) : d.text = join ":" d.columns := by
  rw [text, columns]
  split
  · exact String.append_empty
  · simp only [List.cons_append, List.nil_append, join, String.append_assoc]

theorem IsWritable.split_text (h : d.IsWritable) : split ":" d.text = d.columns := by
  have hne : d.columns ≠ [] := List.cons_ne_nil _ _
  rw [text_eq_join]
  apply split_join rfl hne
  intro t ht
  have hjoined : ':' ∉ (join "," d.dependencies).toList :=
    notMem_join (by decide) fun s hs => (h.dependencies s hs).2.1
  rw [columns, List.mem_append] at ht
  rcases ht with ht | ht
  · rw [List.mem_pair] at ht
    rcases ht with rfl | rfl
    · exact h.nickname.2
    · exact colon_notMem_natText d.fileCount
  · split at ht
    · cases ht
    · rwa [List.mem_singleton.mp ht]

/-- What is written of a descriptor is read back. -/
theorem parse_text (h : d.IsWritable) : parse d.text = .ok d := by
  have hnickname : d.nickname.isEmpty = false := by simpa using h.nickname.1
  have hcount := readInteger_natText h.count
  have hnames := nicknames_join fun s hs => ⟨(h.dependencies s hs).1, (h.dependencies s hs).2.2⟩
  rw [parse, fields?, h.split_text, columns]
  cases hd : d.dependencies.isEmpty with
  | true =>
    -- without dependencies there is no third column
    have hnone : nicknames "" = d.dependencies := (List.isEmpty_iff.mp hd).symm
    simp only [if_true, List.append_nil, hnickname, Bool.false_eq_true, if_false, hcount,
      Option.getD_none, hnone]
  | false =>
    simp only [Bool.false_eq_true, if_false, List.cons_append, List.nil_append, hnickname, hcount,
      Option.getD_some, hnames]

end Descriptor

/-- An object that begins with the two lists is raw output, whatever follows them. -/
theorem RawOutput.ofValue_fields (chunk js : List String) (rest : Fields Value) :
    ofValue (.obj (("chunk", .texts chunk) :: ("js", .texts js) :: rest)) = .ok ⟨chunk, js⟩ := by
  have hchunk : lookup (("chunk", .texts chunk) :: ("js", .texts js) :: rest) "chunk" =
      .texts chunk := rfl
  have hjs : lookup (("chunk", .texts chunk) :: ("js", .texts js) :: rest) "js" = .texts js := rfl
  simp only [ofValue, Value.fields?, hchunk, hjs, Value.texts?_texts]

end ChunkBuild
