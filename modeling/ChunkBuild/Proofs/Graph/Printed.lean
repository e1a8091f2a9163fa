import ChunkBuild.Proofs.Descriptor
import ChunkBuild.Proofs.Graph.Order
/-! # A graph under its configured names

A resolved graph is written as raw output in which the configured names stand for the nicknames.
Names are as distinct as nicknames, so binding each node to its own name keeps every step of a run.
Main statement: what is written of a resolved graph resolves to that graph. -/
namespace ChunkBuild

open ChunkBuild.Text ChunkBuild.Json

def Bound.named (table : Bound) : Bound := table.map fun p => (p.2.name, p.2)

variable {table : Bound} {d : Descriptor} {c : Chunk} {n m : Node} {r : Registry} {raw : RawOutput}
  {g : Graph}

theorem Bound.named_append (s t : Bound) : Bound.named (s ++ t) = s.named ++ t.named :=
  List.map_append

theorem Bound.mem_named {nick : String} (hm : (nick, m) ∈ table) : (m.name, m) ∈ table.named :=
  List.mem_map.mpr ⟨(nick, m), hm, rfl⟩

/-! ## Descriptors of nodes -/

theorem Node.descriptor_dependencies (n : Node) :
    n.descriptor.dependencies = n.dependencies.map Node.name := rfl

theorem Node.descriptor_isWritable (hn : n.fileCount < 10 ^ digitLimit) :
    n.descriptor.IsWritable where
  nickname := ⟨n.chunk.name_sound.1, n.chunk.name_sound.2.1⟩
  count := hn
  dependencies := by
    intro s hs
    obtain ⟨m, -, rfl⟩ := List.mem_map.mp hs
    exact m.chunk.name_sound

theorem fileCount_lt (hg : resolve r raw = .ok g) (hn : n ∈ g.nodes) :
    n.fileCount < 10 ^ digitLimit := by
  obtain ⟨ds, hp, -, hb, -⟩ := resolve_eq_ok_iff.mp hg
  obtain ⟨t, d, c, hm, hd⟩ := hb.describes hn
  obtain ⟨s, -, hs⟩ := exists_left_of_forall₂ hp (List.of_mem_zip hm).1
  exact hd.fileCount ▸ parse_fileCount_lt hs

theorem parse_spec (hg : resolve r raw = .ok g) (hn : n ∈ g.nodes) :
    Descriptor.parse n.spec = .ok n.descriptor :=
  Descriptor.parse_text (Node.descriptor_isWritable (fileCount_lt hg hn))

/-! ## Binding under names -/

theorem Describes.dependency_bound (hd : Describes table d c n) (hm : m ∈ n.dependencies) :
    ∃ nick, (nick, m) ∈ table := by
  obtain ⟨nick, -, hb⟩ := exists_left_of_forall₂ hd.dependencies hm
  exact ⟨nick, hb⟩

theorem Describes.named (hd : Describes table d c n) :
    Describes table.named n.descriptor n.chunk n where
  chunk := rfl
  index := by
    rw [hd.index, Bound.named, List.length_map]
  fileCount := rfl
  dependencies := by
    have hbound : ∀ m ∈ n.dependencies, (m.name, m) ∈ table.named := by
      intro m hm
      obtain ⟨nick, hb⟩ := hd.dependency_bound hm
      exact Bound.mem_named hb
    rw [n.descriptor_dependencies, List.forall₂_map_left_iff, List.forall₂_same]
    exact hbound

/-- A node that describes an admissible descriptor is admissible under its own name when no node before
it has that name. -/
theorem Admissible.named (ha : Admissible table.nicknames d) (hd : Describes table d c n)
    (hfresh : n.name ∉ table.named.nicknames) :
    Admissible table.named.nicknames n.descriptor where
  earlier := by
    intro name hname
    obtain ⟨m, hm, rfl⟩ := List.mem_map.mp hname
    obtain ⟨nick, hb⟩ := hd.dependency_bound hm
    exact List.mem_map.mpr ⟨_, Bound.mem_named hb, rfl⟩
  rooted := by
    have hdeps : n.descriptor.dependencies = [] ↔ d.dependencies = [] := by
      rw [n.descriptor_dependencies, List.map_eq_nil_iff, ← List.length_eq_zero_iff,
        ← List.length_eq_zero_iff, hd.dependencies.length_eq]
    have htable : table.named.nicknames = [] ↔ table.nicknames = [] := by
      rw [nicknames_eq_nil, nicknames_eq_nil, Bound.named, List.map_eq_nil_iff]
    rw [hdeps, htable]
    exact ha.rooted
  fresh := hfresh

/-- The same nodes are bound when the names of all of them are distinct. -/
theorem Binds.named {ps : List (Descriptor × Chunk)} {ns : List Node} (h : Binds table ps ns)
    (hdistinct : (table.named.nicknames ++ ns.map Node.name).Nodup) :
    Binds table.named (ns.map fun n => (n.descriptor, n.chunk)) ns := by
  induction h with
  | nil table => exact .nil table.named
  | @cons table d c n ps ns ha hd _ ih =>
    have hfresh : n.name ∉ table.named.nicknames := by
      intro hm
      exact (List.nodup_append.mp hdistinct).2.2 n.name hm n.name
        (List.mem_map_of_mem List.mem_cons_self) rfl
    have hrest := ih (by
      rw [Bound.named_append, nicknames_append, List.append_assoc]
      exact hdistinct)
    rw [Bound.named_append] at hrest
    exact .cons (ha.named hd hfresh) hd.named hrest

/-! ## The written graph -/

/-- The first two fields of the graph as data are raw output, whatever follows them. -/
theorem ofValue_graph (g : Graph) : RawOutput.ofValue (.obj g.toValue) = .ok ⟨g.specs, g.jsFiles⟩ :=
  RawOutput.ofValue_fields g.specs g.jsFiles _

theorem printed_graph_resolves (hg : resolve r raw = .ok g) :
    ∃ printed, RawOutput.ofValue (.obj g.toValue) = .ok printed ∧
      printed.chunk = g.specs ∧ printed.descriptors = .ok (g.nodes.map Node.descriptor) ∧
      resolve r printed = .ok g := by
  obtain ⟨ds, hp, hl⟩ := resolve_layout hg
  obtain ⟨es, -, -, hb, -⟩ := resolve_eq_ok_iff.mp hg
  have hparse : List.Forall₂ (fun s d => Descriptor.parse s = .ok d) g.specs
      (g.nodes.map Node.descriptor) := by
    rw [Graph.specs, List.forall₂_map_left_iff, List.forall₂_map_right_iff, List.forall₂_same]
    intro n hn
    exact parse_spec hg hn
  have hbinds : Binds [] ((g.nodes.map Node.descriptor).zip r.chunks) g.nodes := by
    rw [← hl.chunks_eq, List.zip_map']
    apply hb.named
    exact List.pairwise_map.mpr (resolved_names_distinct hg)
  have hlength : (g.nodes.map Node.descriptor).length = r.size := by
    rw [List.length_map]
    exact hl.size_eq
  refine ⟨⟨g.specs, g.jsFiles⟩, ofValue_graph g, rfl, mapM_eq_ok_iff.mpr hparse, ?_⟩
  exact resolve_eq_ok_iff.mpr ⟨_, hparse, hlength, hbinds, rfl⟩

theorem stair_graph_resolves :
    resolve stairRegistry stairOutput = .ok stairGraph ∧
    resolve stairRegistry ⟨["A:1", "B:2:A", "C:3:B,A"], ["./a.js"]⟩ = .ok stairGraph := by
  have hg : resolve stairRegistry stairOutput = .ok stairGraph := rfl
  obtain ⟨printed, hprinted, -, -, hresolved⟩ := printed_graph_resolves hg
  have heq : RawOutput.ofValue (.obj stairGraph.toValue) =
      .ok ⟨["A:1", "B:2:A", "C:3:B,A"], ["./a.js"]⟩ := rfl
  rw [hprinted] at heq
  cases heq
  exact ⟨hg, hresolved⟩

end ChunkBuild
