import ChunkBuild.Proofs.Wrapper
/-! # The names that a factory binds

A dependency is named by a nickname and becomes a parameter by an alias. Different nicknames are bound to
different nodes and different nodes have different aliases, so the parameters repeat what the descriptor
repeats, and nothing else. Main statement: the parameters are distinct exactly when no dependency is
named twice, and the namespace object is shadowed by one exactly when its name is the alias of an
input. -/
namespace ChunkBuild

open ChunkBuild.Text

variable {w : WrapperStyle} {r : Registry} {ds : List Descriptor} {g : Graph} {i : Nat} {n m : Node}
  {d : Descriptor} {nick other : String} {a b : Node}

/-- A nickname and the node that the run binds to it. -/
def Names (ds : List Descriptor) (g : Graph) (nick : String) (m : Node) : Prop :=
  ∃ (j : Nat) (e : Descriptor), ds[j]? = some e ∧ e.nickname = nick ∧ g.nodes[j]? = some m

theorem Names.mem (h : Names ds g nick m) : m ∈ g.nodes := by
  obtain ⟨j, e, -, -, hm⟩ := h
  exact List.mem_of_getElem? hm

namespace Layout

theorem names_dependencies (hl : Layout r ds g) (hn : g.nodes[i]? = some n) (hd : ds[i]? = some d) :
    List.Forall₂ (Names ds g) d.dependencies n.dependencies := by
  obtain ⟨hlength, hat⟩ := hl.dependency_at i n d hn hd
  refine List.forall₂_iff_get.mpr ⟨hlength.symm, fun k hk hk' => ?_⟩
  obtain ⟨j, e, m, -, he, hnick, hm, hdep⟩ := hat k _ (List.getElem?_eq_getElem hk)
  obtain rfl : n.dependencies[k] = m :=
    Option.some.inj ((List.getElem?_eq_getElem hk').symm.trans hdep)
  exact ⟨j, e, he, hnick, hm⟩

/-- Nicknames and aliases tell the same nodes apart. -/
theorem alias_eq_iff (hl : Layout r ds g) (ha : Names ds g nick a) (hb : Names ds g other b) :
    nick = other ↔ a.chunk.importAlias = b.chunk.importAlias := by
  have hmem := ha.mem
  have hmem' := hb.mem
  obtain ⟨j, d, hd, rfl, hj⟩ := ha
  obtain ⟨k, e, he, rfl, hk⟩ := hb
  constructor
  · intro hnick
    have hsame : (ds.map (·.nickname))[j]? = (ds.map (·.nickname))[k]? := by
      rw [List.getElem?_map, List.getElem?_map, hd, he, Option.map_some, Option.map_some, hnick]
    have hlt : j < (ds.map (·.nickname)).length := by
      rw [List.length_map]
      exact (List.getElem?_eq_some_iff.mp hd).1
    obtain rfl := (List.getElem?_inj hlt hl.distinct).mp hsame
    obtain rfl := Option.some.inj (hj.symm.trans hk)
    rfl
  · intro halias
    obtain rfl := hl.eq_of_not_distinct hmem hmem' (.inr halias)
    obtain rfl : j = k := (hl.node_at j a hj).2.1.symm.trans (hl.node_at k a hk).2.1
    obtain rfl := Option.some.inj (hd.symm.trans he)
    rfl

theorem nodup_aliases_iff (hl : Layout r ds g) (hn : g.nodes[i]? = some n) (hd : ds[i]? = some d) :
    (n.dependencies.map (·.chunk.importAlias)).Nodup ↔ d.dependencies.Nodup := by
  have hne {nick other a b} (ha : Names ds g nick a) (hb : Names ds g other b) :
      nick ≠ other ↔ a.chunk.importAlias ≠ b.chunk.importAlias := not_congr (hl.alias_eq_iff ha hb)
  rw [List.Nodup, List.pairwise_map]
  exact (pairwise_iff_of_forall₂ (hl.names_dependencies hn hd) hne).symm

/-- The first chunk is added only where no dependency has its name, and then none has its alias. -/
theorem nodup_inputs_iff (hl : Layout r ds g) (hn : g.nodes[i]? = some n) :
    ((WrapperStyle.inputs n).map (·.chunk.importAlias)).Nodup ↔
      (n.dependencies.map (·.chunk.importAlias)).Nodup := by
  rw [WrapperStyle.inputs]
  split_ifs with hadded
  · rfl
  · rw [Bool.or_eq_true, not_or, List.contains_iff_mem] at hadded
    have hfresh : n.root.chunk.importAlias ∉ n.dependencies.map (·.chunk.importAlias) := by
      intro halias
      obtain ⟨m, hm, halias⟩ := List.mem_map.mp halias
      obtain ⟨j, -, hj⟩ := hl.earlier hn hm
      obtain rfl := hl.eq_of_not_distinct (List.mem_of_getElem? hj)
        (List.mem_of_getElem? (hl.root_at hn)) (.inr halias)
      exact hadded.2 (List.mem_map_of_mem hm)
    rw [List.map_append, List.map_singleton, List.nodup_append]
    constructor
    · exact fun h => h.1
    · intro h
      refine ⟨h, List.nodup_singleton _, fun a ha b hb => ?_⟩
      rw [List.mem_singleton.mp hb]
      exact fun hab => hfresh (hab ▸ ha)

theorem mem_inputs_iff (hl : Layout r ds g) (hn : g.nodes[i]? = some n) :
    m ∈ WrapperStyle.inputs n ↔ i ≠ 0 ∧ (m ∈ n.dependencies ∨ m = n.root) := by
  by_cases hi : i = 0
  · have hroot : n.isRoot = true := (hl.isRoot_iff hn).mpr hi
    have hdeps : n.dependencies = [] := List.isEmpty_iff.mp hroot
    rw [WrapperStyle.inputs, hroot, Bool.true_or, if_pos rfl, hdeps]
    exact iff_of_false List.not_mem_nil fun h => h.1 hi
  · obtain ⟨-, hroot⟩ := hl.inputs_earlier hn hi
    rw [and_iff_right hi]
    constructor
    · intro hm
      rw [WrapperStyle.inputs] at hm
      split_ifs at hm
      · exact .inl hm
      · exact (List.mem_append.mp hm).imp_right List.mem_singleton.mp
    · rintro (hm | rfl)
      · rw [WrapperStyle.inputs]
        split_ifs
        · exact hm
        · exact List.mem_append_left _ hm
      · exact hroot

theorem mem_dependencies_iff (hl : Layout r ds g) (hn : g.nodes[i]? = some n) (hd : ds[i]? = some d) :
    m ∈ n.dependencies ↔ ∃ nick ∈ d.dependencies, Names ds g nick m := by
  have hnames := hl.names_dependencies hn hd
  constructor
  · intro hm
    exact exists_left_of_forall₂ hnames hm
  · rintro ⟨nick, hnick, hm⟩
    obtain ⟨m', hm', hother⟩ := exists_left_of_forall₂ hnames.flip hnick
    have halias := (hl.alias_eq_iff hm hother).mp rfl
    obtain rfl := hl.eq_of_not_distinct hm.mem (Names.mem hother) (.inr halias)
    exact hm'

/-- An input is the first chunk or one that the descriptor names. -/
theorem exists_input_iff (hl : Layout r ds g) (hn : g.nodes[i]? = some n) (hd : ds[i]? = some d)
    {p : Chunk → Prop} : (∃ m ∈ WrapperStyle.inputs n, p m.chunk) ↔
      i ≠ 0 ∧ ∃ (j : Nat) (c : Chunk) (e : Descriptor), r.chunks[j]? = some c ∧ ds[j]? = some e ∧
        (j = 0 ∨ e.nickname ∈ d.dependencies) ∧ p c := by
  constructor
  · rintro ⟨m, hm, hp⟩
    obtain ⟨hi, hm⟩ := (hl.mem_inputs_iff hn).mp hm
    refine ⟨hi, ?_⟩
    rcases hm with hm | rfl
    · obtain ⟨nick, hnick, j, e, he, rfl, hj⟩ := (hl.mem_dependencies_iff hn hd).mp hm
      exact ⟨j, m.chunk, e, (hl.node_at j m hj).1, he, .inr hnick, hp⟩
    · have hroot := hl.root_at hn
      have hlength : 0 < ds.length := by
        rw [hl.described, ← hl.size_eq]
        exact (List.getElem?_eq_some_iff.mp hroot).1
      exact ⟨0, _, _, (hl.node_at 0 _ hroot).1, List.getElem?_eq_getElem hlength, .inl rfl, hp⟩
  · rintro ⟨hi, j, c, e, hc, he, hnamed, hp⟩
    have hlength : j < g.nodes.length := by
      rw [hl.size_eq]
      exact (List.getElem?_eq_some_iff.mp hc).1
    have hj := List.getElem?_eq_getElem hlength
    obtain rfl : c = g.nodes[j].chunk := Option.some.inj (hc.symm.trans (hl.node_at j _ hj).1)
    refine ⟨g.nodes[j], (hl.mem_inputs_iff hn).mpr ⟨hi, ?_⟩, hp⟩
    rcases hnamed with rfl | hnick
    · exact .inr (Option.some.inj (hj.symm.trans (hl.root_at hn)))
    · exact .inl ((hl.mem_dependencies_iff hn hd).mpr ⟨_, hnick, j, e, he, rfl, hj⟩)

end Layout

theorem declares_namespace (hp : n.chunk.preamble = .null) :
    ∃ value, (w.loader n).before = "const " ++ w.namespaceName ++ "=" ++ value := by
  rw [WrapperStyle.loader, hp, WrapperStyle.declaredText, WrapperStyle.defaultPreamble]
  split_ifs
  · have hbraces : "=\x7b\x7d;" = "=" ++ "\x7b\x7d;" := rfl
    refine ⟨"\x7b\x7d;", ?_⟩
    rw [hbraces, String.append_assoc, String.append_assoc, String.append_assoc]
  · refine ⟨n.root.chunk.importAlias ++ "." ++ w.handle ++ ";", ?_⟩
    simp only [String.append_assoc]

/-- The parameters of a wrapper are distinct exactly when its descriptor names no dependency twice. The
namespace object is declared under the name of a parameter exactly when that name is the alias of the
first chunk or of one that the descriptor names. -/
theorem parameters_distinct_iff (w : WrapperStyle) {r : Registry} {raw : RawOutput} {g : Graph}
    (hg : resolve r raw = .ok g) (hdefault : ∀ c ∈ r.chunks, c.preamble = .null) :
    ∃ ds, raw.descriptors = .ok ds ∧ ∀ (i : Nat) (n : Node), g.nodes[i]? = some n →
      ∃ d, ds[i]? = some d ∧ w.wrapper n = (w.loader n).text w n.chunk.exportsPath ∧
        (∃ value, (w.loader n).before = "const " ++ w.namespaceName ++ "=" ++ value) ∧
        ((w.loader n).parameters.Nodup ↔ d.dependencies.Nodup) ∧
        (w.namespaceName ∈ (w.loader n).parameters ↔ i ≠ 0 ∧
          ∃ (j : Nat) (c : Chunk) (e : Descriptor), r.chunks[j]? = some c ∧ ds[j]? = some e ∧
            (j = 0 ∨ e.nickname ∈ d.dependencies) ∧ c.importAlias = w.namespaceName) := by
  obtain ⟨ds, hparsed, hl⟩ := resolve_layout hg
  refine ⟨ds, mapM_eq_ok_iff.mpr hparsed, fun i n hn => ?_⟩
  have hlength : i < ds.length := by
    rw [hl.described, ← hl.size_eq]
    exact (List.getElem?_eq_some_iff.mp hn).1
  have hd := List.getElem?_eq_getElem hlength
  have hchunk : n.chunk ∈ r.chunks := List.mem_of_getElem? (hl.node_at i n hn).1
  refine ⟨ds[i], hd, w.wrapper_eq n, declares_namespace (hdefault _ hchunk), ?_, ?_⟩
  · exact (hl.nodup_inputs_iff hn).trans (hl.nodup_aliases_iff hn hd)
  · rw [← hl.exists_input_iff hn hd]
    exact List.mem_map

theorem stair_parameters_distinct :
    resolve stairRegistry stairOutput = .ok stairGraph ∧
    (∀ c ∈ stairRegistry.chunks, c.preamble = .null) ∧
    ∃ last, stairGraph.nodes[2]? = some last ∧ (WrapperStyle.loader {} last).parameters = ["B", "A"] ∧
      (WrapperStyle.loader {} last).parameters.Nodup := by
  have hresolve : resolve stairRegistry stairOutput = .ok stairGraph := rfl
  have hdefault : ∀ c ∈ stairRegistry.chunks, c.preamble = .null := fun c hc => (stair_plain c hc).1
  obtain ⟨ds, hds, hall⟩ := parameters_distinct_iff {} hresolve hdefault
  have hread : stairOutput.descriptors = .ok [⟨"a", 1, []⟩, ⟨"b", 2, ["a"]⟩, ⟨"c", 3, ["b", "a"]⟩] := rfl
  obtain rfl := Except.ok.inj (hds.symm.trans hread)
  obtain ⟨d, hd, -, -, hdistinct, -⟩ := hall 2 _ rfl
  obtain rfl := Option.some.inj hd
  exact ⟨hresolve, hdefault, _, rfl, rfl, hdistinct.mpr (by decide)⟩

def dollarRegistry : Registry := ⟨[stairChunk "$" (by decide), stairChunk "D" (by decide)], by decide⟩

-- An alias that is the name of the namespace object is bound twice.
example : ∃ g n, resolve dollarRegistry ⟨["a:1", "b:2:a"], []⟩ = .ok g ∧ g.nodes[1]? = some n ∧
    (WrapperStyle.loader {} n).parameters = ["$"] ∧
    (WrapperStyle.loader {} n).before = "const $=$.internal_;" :=
  ⟨_, _, rfl, rfl, rfl, rfl⟩

end ChunkBuild
