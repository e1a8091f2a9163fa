import ChunkBuild.Proofs.Chunk.Registry
import ChunkBuild.Proofs.Graph.Binding
import Mathlib.Logic.Relation
/-! # The order of a resolved graph

Each entry of the table is the node of an earlier position, so dependencies lead backwards and every
chain of them ends. Main statement: the graph lies as its descriptors say, chains are no longer than
the position they start at, and first dependencies lead from every node to the first one. -/
namespace ChunkBuild

def DependsOn (n m : Node) : Prop := m ∈ n.dependencies

def FirstDependency (n m : Node) : Prop := n.dependencies.head? = some m

/-- How the nodes of a graph lie when the descriptors are bound to the declared chunks. -/
structure Layout (r : Registry) (ds : List Descriptor) (g : Graph) : Prop where
  size_eq : g.nodes.length = r.size
  described : ds.length = r.size
  distinct : (ds.map (·.nickname)).Nodup
  node_at : ∀ (i : Nat) (n : Node), g.nodes[i]? = some n →
    r.chunks[i]? = some n.chunk ∧ n.index = i ∧ (n.dependencies = [] ↔ i = 0)
  dependency_at : ∀ (i : Nat) (n : Node) (d : Descriptor),
    g.nodes[i]? = some n → ds[i]? = some d →
    n.dependencies.length = d.dependencies.length ∧
    ∀ (k : Nat) (nick : String), d.dependencies[k]? = some nick →
      ∃ (j : Nat) (e : Descriptor) (m : Node), j < i ∧ ds[j]? = some e ∧ e.nickname = nick ∧
        g.nodes[j]? = some m ∧ n.dependencies[k]? = some m

/-- From a node at a position no chain is endless, and the walk along first dependencies stops at the
root of the graph. -/
structure Rooted (g : Graph) (i : Nat) (n : Node) : Prop where
  chain_length_le : ∀ path : List Node, (n :: path).IsChain DependsOn → path.length ≤ i
  walk : Relation.ReflTransGen FirstDependency n n.root
  stops : n.root.dependencies = []
  root_eq : g.root? = some n.root

variable {table : Bound} {ps : List (Descriptor × Chunk)} {ns : List Node}

def tableOf (ps : List (Descriptor × Chunk)) (ns : List Node) : Bound :=
  ps.zipWith (fun p n => (p.1.nickname, n)) ns

theorem Binds.length_eq (h : Binds table ps ns) : ps.length = ns.length := by
  induction h with
  | nil => rfl
  | cons _ _ _ ih => simp [ih]

/-- At each position the table holds exactly the nodes before it. -/
theorem Binds.describes_at (h : Binds table ps ns) {i : Nat} {d : Descriptor} {c : Chunk} {n : Node}
    (hp : ps[i]? = some (d, c)) (hn : ns[i]? = some n) :
    Describes (table ++ (tableOf ps ns).take i) d c n := by
  induction h generalizing i with
  | nil => cases hp
  | cons _ hd _ ih =>
    cases i with
    | zero =>
      cases hp
      cases hn
      simpa using hd
    | succ i => simpa [tableOf] using ih (by simpa using hp) (by simpa using hn)

theorem mem_take_tableOf {i : Nat} {nick : String} {m : Node}
    (h : (nick, m) ∈ (tableOf ps ns).take i) :
    ∃ (j : Nat) (e : Descriptor) (b : Chunk), j < i ∧ ps[j]? = some (e, b) ∧ e.nickname = nick ∧
      ns[j]? = some m := by
  obtain ⟨j, hj⟩ := List.mem_iff_getElem?.mp h
  rw [List.getElem?_take] at hj
  split_ifs at hj with hlt
  obtain ⟨⟨e, b⟩, m', hp, hn, heq⟩ := List.getElem?_zipWith_eq_some.mp hj
  cases heq
  exact ⟨j, e, b, hlt, hp, rfl, hn⟩

theorem resolve_layout {r : Registry} {raw : RawOutput} {g : Graph} (h : resolve r raw = .ok g) :
    ∃ ds, List.Forall₂ (fun s d => Descriptor.parse s = .ok d) raw.chunk ds ∧ Layout r ds g := by
  obtain ⟨ds, hp, hl, hb, -⟩ := resolve_eq_ok_iff.mp h
  have hlen : g.nodes.length = r.size := by
    rw [← hb.length_eq, List.length_zip, hl]
    exact Nat.min_self _
  -- every node has its descriptor and its chunk at the same position
  have hat {i : Nat} {n : Node} (hn : g.nodes[i]? = some n) :
      ∃ d c, ds[i]? = some d ∧ r.chunks[i]? = some c ∧
        Describes ((tableOf (ds.zip r.chunks) g.nodes).take i) d c n := by
    obtain ⟨hi, -⟩ := List.getElem?_eq_some_iff.mp hn
    have hd := List.getElem?_eq_getElem (l := ds) (by omega : i < ds.length)
    have hc := List.getElem?_eq_getElem (l := r.chunks) (hi.trans_eq hlen)
    have hz : (ds.zip r.chunks)[i]? = some (ds[i], r.chunks[i]) :=
      List.getElem?_zip_eq_some.mpr ⟨hd, hc⟩
    exact ⟨_, _, hd, hc, by simpa using hb.describes_at hz hn⟩
  have hbind : Bindable ds := by
    obtain ⟨es, hq, -, hbind⟩ := exists_graph_iff.mp ⟨g, h⟩
    obtain rfl : ds = es := Except.ok.inj
      ((mapM_eq_ok_iff.mpr hp).symm.trans (mapM_eq_ok_iff.mpr hq))
    exact hbind
  refine ⟨ds, hp, hlen, hl, hbind.distinct, ?_, ?_⟩
  · intro i n hn
    obtain ⟨d, c, hd, hc, hdes⟩ := hat hn
    have hi : i < g.nodes.length := (List.getElem?_eq_some_iff.mp hn).1
    refine ⟨hdes.chunk ▸ hc, ?_, ?_⟩
    · have hr : r.chunks.length = r.size := rfl
      rw [hdes.index, List.length_take, tableOf, List.length_zipWith, List.length_zip]
      omega
    · have hdeps : n.dependencies = [] ↔ d.dependencies = [] := by
        rw [← List.length_eq_zero_iff, ← List.length_eq_zero_iff, hdes.dependencies.length_eq]
      rw [hdeps]
      exact (bindable_iff.mp hbind i d hd).rooted.trans (take_nicknames_eq_nil_iff hd)
  · intro i n d hn hd
    obtain ⟨d', c, hd', -, hdes⟩ := hat hn
    obtain rfl : d = d' := Option.some.inj (hd.symm.trans hd')
    refine ⟨hdes.dependencies.length_eq.symm, ?_⟩
    intro k nick hk
    obtain ⟨hlt, hk'⟩ := List.getElem?_eq_some_iff.mp hk
    have hlt' : k < n.dependencies.length := hdes.dependencies.length_eq ▸ hlt
    have hm : (d.dependencies[k], n.dependencies[k]) ∈ _ := hdes.dependencies.get hlt hlt'
    obtain ⟨j, e, b, hj, hz, he, hnj⟩ := mem_take_tableOf hm
    exact ⟨j, e, n.dependencies[k], hj, (List.getElem?_zip_eq_some.mp hz).1, he.trans hk', hnj,
      List.getElem?_eq_getElem hlt'⟩

theorem root_reached (n : Node) :
    Relation.ReflTransGen FirstDependency n n.root ∧ n.root.dependencies = [] := by
  fun_induction Node.root n with
  | case1 c i k => exact ⟨.refl, rfl⟩
  | case2 c i k m deps ih => exact ⟨.head rfl ih.1, ih.2⟩

namespace Layout

variable {r : Registry} {ds : List Descriptor} {g : Graph}

theorem chunks_eq (hl : Layout r ds g) : g.nodes.map Node.chunk = r.chunks := by
  apply List.ext_getElem?
  intro i
  rw [List.getElem?_map]
  cases hn : g.nodes[i]? with
  | none =>
    have hi : r.chunks.length ≤ i := hl.size_eq.ge.trans (List.getElem?_eq_none_iff.mp hn)
    rw [List.getElem?_eq_none hi]
    rfl
  | some n => exact (hl.node_at i n hn).1.symm

/-- Dependencies lead to earlier positions. -/
theorem earlier (hl : Layout r ds g) {i : Nat} {n m : Node} (hn : g.nodes[i]? = some n)
    (hm : DependsOn n m) : ∃ j, j < i ∧ g.nodes[j]? = some m := by
  obtain ⟨hi, -⟩ := List.getElem?_eq_some_iff.mp hn
  have hd := List.getElem?_eq_getElem (l := ds) (i := i) (by
    rw [hl.described, ← hl.size_eq]
    exact hi)
  obtain ⟨hlen, hdep⟩ := hl.dependency_at i n _ hn hd
  obtain ⟨k, hk⟩ := List.mem_iff_getElem?.mp hm
  obtain ⟨hlt, -⟩ := List.getElem?_eq_some_iff.mp hk
  obtain ⟨j, -, m', hj, -, -, hnj, hk'⟩ :=
    hdep k _ (List.getElem?_eq_getElem (hlen ▸ hlt))
  obtain rfl : m = m' := Option.some.inj (hk.symm.trans hk')
  exact ⟨j, hj, hnj⟩

/-- Positions fall along a chain, so it is no longer than the position it starts at. -/
theorem chain_length_le (hl : Layout r ds g) {i : Nat} {n : Node} {path : List Node}
    (hn : g.nodes[i]? = some n) (hc : (n :: path).IsChain DependsOn) : path.length ≤ i := by
  induction path generalizing i n with
  | nil => exact Nat.zero_le i
  | cons m path ih =>
    rw [List.isChain_cons_cons] at hc
    obtain ⟨j, hj, hm⟩ := hl.earlier hn hc.1
    have := ih hm hc.2
    simp only [List.length_cons]
    omega

/-- The walk ends where there are no dependencies, and that is at the first position only. -/
theorem root_eq (hl : Layout r ds g) {i : Nat} {n : Node} (hn : g.nodes[i]? = some n) :
    g.root? = some n.root := by
  induction i using Nat.strong_induction_on generalizing n with
  | h i ih =>
    obtain ⟨-, -, hroot⟩ := hl.node_at i n hn
    obtain ⟨c, k, f, deps⟩ := n
    cases deps with
    | nil =>
      obtain rfl : i = 0 := hroot.mp rfl
      rw [Graph.root?, List.head?_eq_getElem?, hn, Node.root]
    | cons m deps =>
      obtain ⟨j, hj, hm⟩ := hl.earlier hn List.mem_cons_self
      rw [Node.root]
      exact ih j hj hm

end Layout

theorem resolved_names_distinct {r : Registry} {raw : RawOutput} {g : Graph}
    (hg : resolve r raw = .ok g) : g.nodes.Pairwise fun m n => m.name ≠ n.name := by
  obtain ⟨ds, -, hl⟩ := resolve_layout hg
  have hdistinct := r.distinct
  rw [← hl.chunks_eq, List.pairwise_map] at hdistinct
  exact hdistinct.imp fun h => h.1

theorem resolved_graph_order {r : Registry} {raw : RawOutput} {g : Graph}
    (h : resolve r raw = .ok g) :
    ∃ ds, List.Forall₂ (fun s d => Descriptor.parse s = .ok d) raw.chunk ds ∧ Layout r ds g ∧
      ∀ (i : Nat) (n : Node), g.nodes[i]? = some n → Rooted g i n := by
  obtain ⟨ds, hp, hl⟩ := resolve_layout h
  refine ⟨ds, hp, hl, ?_⟩
  intro i n hn
  obtain ⟨hwalk, hstop⟩ := root_reached n
  exact ⟨fun path hc => hl.chain_length_le hn hc, hwalk, hstop, hl.root_eq hn⟩

/-! ## Three chunks, the last one depending on both others -/

def stairChunk (name : String)
    (h : Declaration.problem? ⟨name, "./e.js", name, name, .null, .null⟩ = none) : Chunk :=
  ⟨⟨name, "./e.js", name, name, .null, .null⟩, h⟩

def stairRegistry : Registry :=
  ⟨[stairChunk "A" (by decide), stairChunk "B" (by decide), stairChunk "C" (by decide)], by decide⟩

theorem stair_plain : ∀ c ∈ stairRegistry.chunks, c.preamble = .null ∧ c.postamble = .null :=
  List.forall_mem_cons.mpr ⟨⟨rfl, rfl⟩, List.forall_mem_cons.mpr ⟨⟨rfl, rfl⟩,
    List.forall_mem_singleton.mpr ⟨rfl, rfl⟩⟩⟩

def stairOutput : RawOutput := ⟨["a:1", "b:2:a", "c:3:b,a"], ["./a.js"]⟩

def stairGraph : Graph :=
  let a : Node := ⟨stairChunk "A" (by decide), 0, 1, []⟩
  let b : Node := ⟨stairChunk "B" (by decide), 1, 2, [a]⟩
  ⟨[a, b, ⟨stairChunk "C" (by decide), 2, 3, [b, a]⟩], ["./a.js"]⟩

theorem stair_graph_order :
    resolve stairRegistry stairOutput = .ok stairGraph ∧
    ∃ ds, List.Forall₂ (fun s d => Descriptor.parse s = .ok d) stairOutput.chunk ds ∧
      Layout stairRegistry ds stairGraph ∧
      ∀ (i : Nat) (n : Node), stairGraph.nodes[i]? = some n → Rooted stairGraph i n :=
  ⟨rfl, resolved_graph_order rfl⟩

end ChunkBuild
