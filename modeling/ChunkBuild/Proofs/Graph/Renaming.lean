import ChunkBuild.Proofs.Descriptor
import ChunkBuild.Proofs.Graph.Order
import ChunkBuild.Proofs.Text.Occurrence
import Mathlib.Logic.Equiv.Basic
/-! # Other nicknames

A nickname says only which descriptors mean the same chunk. A renaming tells apart what was told apart
before, so every look-up in the table of the renamed run finds the same node, and every check has the
same outcome. Main statement: renamed raw output gives the same graph, or the same inconsistency with
the nickname renamed. -/
namespace ChunkBuild

open ChunkBuild.Text ChunkBuild.Json

/-- A text that can be told apart anywhere in a descriptor. -/
def IsNickname (s : String) : Prop := s ≠ "" ∧ ':' ∉ s.toList ∧ ',' ∉ s.toList

instance : DecidablePred IsNickname := fun s =>
  inferInstanceAs (Decidable (s ≠ "" ∧ ':' ∉ s.toList ∧ ',' ∉ s.toList))

abbrev Nickname := { s : String // IsNickname s }

structure Renaming where
  image : Nickname → Nickname
  injective : Function.Injective image

namespace Renaming

variable (f : Renaming)

def text (s : String) : String := if h : IsNickname s then f.image ⟨s, h⟩ else s

def descriptor (d : Descriptor) : Descriptor :=
  ⟨f.text d.nickname, d.fileCount, d.dependencies.map f.text⟩

def list (s : String) : String := join "," ((split "," s).map f.text)

/-- The text of a descriptor with its nicknames renamed and its count as it is written. -/
def line (s : String) : String :=
  match split ":" s with
  | nickname :: count :: columns => join ":" (f.text nickname :: count :: columns.map f.list)
  | _ => s

def output (raw : RawOutput) : RawOutput := { raw with chunk := raw.chunk.map f.line }

def table (t : Bound) : Bound := t.map fun p => (f.text p.1, p.2)

def inconsistency : Inconsistency → Inconsistency
  | .notNumeric d nick => .notNumeric d (f.text nick)
  | .negative d nick => .negative d (f.text nick)
  | .unboundNickname c nick => .unboundNickname c (f.text nick)
  | .boundTwice c nick => .boundTwice c (f.text nick)
  | e => e

end Renaming

variable {f : Renaming} {s : String} {c : Char} {d : Descriptor} {raw : RawOutput}

/-! ## Single nicknames -/

theorem isNickname_text (h : IsNickname s) : IsNickname (f.text s) := by
  rw [Renaming.text, dif_pos h]
  exact (f.image ⟨s, h⟩).property

theorem text_of_not_nickname (h : ¬ IsNickname s) : f.text s = s := dif_neg h

theorem text_injective (f : Renaming) : Function.Injective f.text := by
  intro s t he
  by_cases hs : IsNickname s
  · have ht : IsNickname t := by
      by_contra ht
      rw [text_of_not_nickname ht] at he
      exact ht (he ▸ isNickname_text hs)
    rw [Renaming.text, Renaming.text, dif_pos hs, dif_pos ht] at he
    exact congrArg Subtype.val (f.injective (Subtype.ext he))
  · by_cases ht : IsNickname t
    · rw [text_of_not_nickname hs] at he
      exact absurd (he ▸ isNickname_text ht) hs
    · rwa [text_of_not_nickname hs, text_of_not_nickname ht] at he

/-- What separates nicknames does not come in with a new one. -/
theorem notMem_text (hc : c = ':' ∨ c = ',') (h : c ∉ s.toList) : c ∉ (f.text s).toList := by
  by_cases hs : IsNickname s
  · obtain ⟨-, hcolon, hcomma⟩ := isNickname_text (f := f) hs
    rcases hc with rfl | rfl
    · exact hcolon
    · exact hcomma
  · rwa [text_of_not_nickname hs]

/-! ## Descriptors -/

theorem split_list (f : Renaming) (s : String) : split "," (f.list s) = (split "," s).map f.text := by
  refine split_join rfl ?_ ?_
  · rw [Ne, List.map_eq_nil_iff]
    exact split_ne_nil "," s
  · exact List.forall_mem_map.mpr fun x hx => notMem_text (.inr rfl) (notMem_of_mem_split rfl hx)

theorem list_eq_empty_iff : f.list s = "" ↔ s = "" := by
  have hempty : f.text "" = "" := text_of_not_nickname (by decide)
  constructor
  · intro h
    have hsplit := split_list f s
    rw [h] at hsplit
    obtain ⟨x, hx, hfx⟩ := List.map_eq_singleton_iff.mp (hsplit.symm.trans (show _ = [""] from rfl))
    rw [text_injective f (hfx.trans hempty.symm)] at hx
    have hjoin : join "," (split "," s) = s := join_split (by decide) s
    rw [← hjoin, hx, join]
  · rintro rfl
    have hsplit : split "," "" = [""] := rfl
    rw [Renaming.list, hsplit, List.map_singleton, hempty, join]

theorem nicknames_list (f : Renaming) (s : String) :
    Descriptor.nicknames (f.list s) = (Descriptor.nicknames s).map f.text := by
  rw [Descriptor.nicknames, Descriptor.nicknames]
  simp only [String.isEmpty_iff, list_eq_empty_iff]
  split_ifs
  · rfl
  · exact split_list f s

/-- A descriptor is read from a nickname, a count and perhaps a list between colons. -/
theorem parse_eq_ok_iff : Descriptor.parse s = .ok d ↔ ∃ (count : String) (deps : Option String),
    split ":" s = d.nickname :: count :: deps.toList ∧ d.nickname ≠ "" ∧
      readInteger count = .ok (.ofNat d.fileCount) ∧
      d.dependencies = Descriptor.nicknames (deps.getD "") := by
  constructor
  · intro h
    unfold Descriptor.parse Descriptor.fields? at h
    split at h
    · cases h
    · next hf =>
      split at h
      · cases h
      · cases h
      · next count hcount =>
        cases h
        split at hf
        · next hs =>
          split_ifs at hf with hne
          cases hf
          exact ⟨_, none, hs, by simpa using hne, hcount, rfl⟩
        · next hs =>
          split_ifs at hf with hne
          cases hf
          exact ⟨_, some _, hs, by simpa using hne, hcount, rfl⟩
        · cases hf
  · rintro ⟨count, deps, hs, hne, hcount, hdeps⟩
    obtain ⟨nickname, fileCount, dependencies⟩ := d
    subst hdeps
    have hnickname : nickname.isEmpty = false := by simpa using hne
    rw [Descriptor.parse, Descriptor.fields?, hs]
    cases deps with
    | none => simp only [Option.toList_none, hnickname, Bool.false_eq_true, if_false, hcount]
    | some x => simp only [Option.toList_some, hnickname, Bool.false_eq_true, if_false, hcount]

theorem split_line {nickname count : String} {columns : List String}
    (h : split ":" s = nickname :: count :: columns) :
    split ":" (f.line s) = f.text nickname :: count :: columns.map f.list := by
  have hfree : ∀ x ∈ split ":" s, ':' ∉ x.toList := fun x => notMem_of_mem_split rfl
  rw [h, List.forall_mem_cons, List.forall_mem_cons] at hfree
  obtain ⟨hnickname, hcount, hcolumns⟩ := hfree
  rw [Renaming.line, h]
  refine split_join rfl (List.cons_ne_nil _ _) ?_
  rw [List.forall_mem_cons, List.forall_mem_cons, List.forall_mem_map]
  refine ⟨notMem_text (.inl rfl) hnickname, hcount, fun x hx => ?_⟩
  apply notMem_join (by decide)
  exact List.forall_mem_map.mpr fun y hy =>
    notMem_text (.inl rfl) fun hc => hcolumns x hx ((infix_of_mem_split (by decide) hy).subset hc)

theorem parse_line (h : Descriptor.parse s = .ok d) (hd : ',' ∉ d.nickname.toList) :
    Descriptor.parse (f.line s) = .ok (f.descriptor d) := by
  obtain ⟨count, deps, hs, hne, hcount, hdeps⟩ := parse_eq_ok_iff.mp h
  have hfirst : d.nickname ∈ split ":" s := hs ▸ List.mem_cons_self
  have hcolon : ':' ∉ d.nickname.toList := notMem_of_mem_split rfl hfirst
  refine parse_eq_ok_iff.mpr ⟨count, deps.map f.list, ?_, ?_, hcount, ?_⟩
  · rw [split_line hs, Option.toList_map]
    rfl
  · exact (isNickname_text ⟨hne, hcolon, hd⟩).1
  · rw [Renaming.descriptor, hdeps, ← nicknames_list]
    cases deps with
    | none => rfl
    | some x => rfl

/-- Raw output whose descriptors can be read and whose nicknames can be told apart in lists. -/
def HasNicknames (raw : RawOutput) : Prop :=
  ∀ s ∈ raw.chunk, ∃ d, Descriptor.parse s = .ok d ∧ ',' ∉ d.nickname.toList

theorem HasNicknames.descriptors (h : HasNicknames raw) : ∃ ds, raw.descriptors = .ok ds ∧
    (f.output raw).descriptors = .ok (ds.map f.descriptor) := by
  obtain ⟨ds, hds⟩ := exists_forall₂_iff.mpr h
  refine ⟨ds, mapM_eq_ok_iff.mpr (hds.imp fun _ _ hd => hd.1), mapM_eq_ok_iff.mpr ?_⟩
  rw [Renaming.output, List.forall₂_map_left_iff, List.forall₂_map_right_iff]
  exact hds.imp fun _ _ hd => parse_line hd.1 hd.2

/-! ## Binding -/

/-- Look-ups find the same nodes: a new nickname stands for one nickname only. -/
theorem get?_table (f : Renaming) (t : Bound) (nick : String) :
    (f.table t).get? (f.text nick) = t.get? nick := by
  simp [Bound.get?, Renaming.table, List.find?_map, Function.comp_def, (text_injective f).eq_iff]

theorem nodes_table (f : Renaming) (t : Bound) (c : Chunk) (nicks : List String) :
    (f.table t).nodes c (nicks.map f.text) = (t.nodes c nicks).mapError f.inconsistency := by
  induction nicks with
  | nil => rfl
  | cons nick nicks ih =>
    rw [List.map_cons, Bound.nodes, Bound.nodes, get?_table]
    cases t.get? nick with
    | none => rfl
    | some n =>
      dsimp only
      rw [ih]
      cases t.nodes c nicks with
      | ok ns => rfl
      | error e => rfl

theorem resolveNode_table (f : Renaming) (t : Bound) (d : Descriptor) (c : Chunk) :
    resolveNode (f.table t) (f.descriptor d) c = (resolveNode t d c).mapError f.inconsistency := by
  have hnodes := nodes_table f t c d.dependencies
  have hlength : (f.table t).length = t.length := List.length_map _
  have hempty : (f.table t).isEmpty = t.isEmpty := List.isEmpty_map
  have hget : (f.table t).get? (f.text d.nickname) = t.get? d.nickname := get?_table f t d.nickname
  cases hn : t.nodes c d.dependencies with
  | error e =>
    rw [hn] at hnodes
    simp only [resolveNode, Renaming.descriptor, hnodes, hn, Except.mapError]
  | ok deps =>
    rw [hn] at hnodes
    simp only [resolveNode, Renaming.descriptor, hnodes, hn, Except.mapError, Node.make, hempty, hget,
      hlength]
    split_ifs
    all_goals rfl

theorem resolveFrom_table (f : Renaming) (t : Bound) (ps : List (Descriptor × Chunk)) :
    resolveFrom (f.table t) (ps.map fun p => (f.descriptor p.1, p.2)) =
      (resolveFrom t ps).mapError f.inconsistency := by
  induction ps generalizing t with
  | nil => rfl
  | cons p ps ih =>
    obtain ⟨d, c⟩ := p
    rw [List.map_cons, resolveFrom, resolveFrom, resolveNode_table]
    cases resolveNode t d c with
    | error e => rfl
    | ok n =>
      have htable : f.table (t ++ [(d.nickname, n)]) = f.table t ++ [((f.descriptor d).nickname, n)] :=
        List.map_append
      dsimp only [Except.mapError]
      rw [← htable, ih]
      cases resolveFrom (t ++ [(d.nickname, n)]) ps with
      | ok ns => rfl
      | error e => rfl

theorem resolve_output (f : Renaming) (r : Registry) (h : HasNicknames raw) :
    resolve r (f.output raw) = (resolve r raw).mapError f.inconsistency := by
  obtain ⟨ds, hds, hrenamed⟩ := h.descriptors (f := f)
  have hzip : (ds.map f.descriptor).zip r.chunks =
      (ds.zip r.chunks).map fun p => (f.descriptor p.1, p.2) := List.zip_map_left
  have hrun := resolveFrom_table f [] (ds.zip r.chunks)
  rw [resolve, resolve, hds, hrenamed]
  dsimp only
  rw [List.length_map, hzip]
  by_cases hl : ds.length ≠ r.size
  · rw [if_pos hl, if_pos hl]
    rfl
  · rw [if_neg hl, if_neg hl]
    change (resolveFrom (f.table []) _).map _ = _
    rw [hrun]
    cases resolveFrom [] (ds.zip r.chunks) with
    | ok ns => rfl
    | error e => rfl

theorem failure_inconsistency (f : Renaming) (e : Inconsistency) : (f.inconsistency e).failure =
    .error ⟨.inconsistent e.reason e.chunk? (e.nickname?.map f.text), [], none⟩ := by
  cases e
  all_goals rfl

/-- Renamed raw output is read as the renamed descriptors. It gives the graph that it gave before, or
fails for the reason and at the chunk for which it failed before, with the nickname renamed. -/
theorem renamed_output_resolves (f : Renaming) (r : Registry) {raw : RawOutput}
    (h : HasNicknames raw) :
    (∃ ds, raw.descriptors = .ok ds ∧ (f.output raw).descriptors = .ok (ds.map f.descriptor)) ∧
    (∀ g, resolve r raw = .ok g → resolve r (f.output raw) = .ok g) ∧
    ∀ e, resolve r raw = .error e → ∃ e', resolve r (f.output raw) = .error e' ∧
      e'.failure = .error ⟨.inconsistent e.reason e.chunk? (e.nickname?.map f.text), [], none⟩ := by
  refine ⟨h.descriptors, ?_, ?_⟩
  · intro g hg
    rw [resolve_output f r h, hg]
    rfl
  · intro e he
    refine ⟨f.inconsistency e, ?_, failure_inconsistency f e⟩
    rw [resolve_output f r h, he]
    rfl

def crossed : Renaming where
  image := Equiv.swap ⟨"a", by decide⟩ ⟨"b", by decide⟩
  injective := Equiv.injective _

theorem stair_renamed :
    let twice : RawOutput := ⟨["a:1", "b:2:a", "b:3:a"], []⟩
    (HasNicknames stairOutput ∧ HasNicknames twice) ∧
    crossed.output stairOutput = ⟨["b:1", "a:2:b", "c:3:a,b"], ["./a.js"]⟩ ∧
    resolve stairRegistry (crossed.output stairOutput) = .ok stairGraph ∧
    resolve stairRegistry twice = .error (.boundTwice "C" "b") ∧
    ∃ e, resolve stairRegistry (crossed.output twice) = .error e ∧
      e.failure = .error ⟨.inconsistent "Nickname is already bound to another chunk" (some "C")
        (some "a"), [], none⟩ := by
  intro twice
  have hstair : HasNicknames stairOutput := List.forall_mem_cons.mpr ⟨⟨_, rfl, by decide⟩,
    List.forall_mem_cons.mpr ⟨⟨_, rfl, by decide⟩, List.forall_mem_singleton.mpr ⟨_, rfl, by decide⟩⟩⟩
  have htwice : HasNicknames twice := List.forall_mem_cons.mpr ⟨⟨_, rfl, by decide⟩,
    List.forall_mem_cons.mpr ⟨⟨_, rfl, by decide⟩, List.forall_mem_singleton.mpr ⟨_, rfl, by decide⟩⟩⟩
  have hfails : resolve stairRegistry twice = .error (.boundTwice "C" "b") := rfl
  obtain ⟨-, hgraph, -⟩ := renamed_output_resolves crossed stairRegistry hstair
  obtain ⟨-, -, herror⟩ := renamed_output_resolves crossed stairRegistry htwice
  exact ⟨⟨hstair, htwice⟩, rfl, hgraph _ rfl, hfails, herror _ hfails⟩

end ChunkBuild
