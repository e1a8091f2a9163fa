import ChunkBuild.Proofs.Wrapper
/-! # The first chunks of a graph

Descriptors are bound in order, so the nodes that a run binds first are those of the run that ends
there. Any first chunks make a registry of their own, since distinct names stay distinct. Main
statement: the first chunks under the first descriptors resolve to the first nodes, which are written
and wrapped as they were among all. -/
namespace ChunkBuild

variable {table : Bound} {ps : List (Descriptor × Chunk)} {ns : List Node} {r : Registry}
  {raw : RawOutput} {g : Graph} {k : Nat}

def RawOutput.first (raw : RawOutput) (k : Nat) : RawOutput := { raw with chunk := raw.chunk.take k }

def Graph.first (g : Graph) (k : Nat) : Graph := { g with nodes := g.nodes.take k }

/-! ## Registries -/

theorem Registry.sound_take (r : Registry) (hk : 1 ≤ k) :
    registryProblem? (r.chunks.take k) = none := by
  rw [registryProblem?_eq_none_iff, Ne, List.take_eq_nil_iff, not_or]
  exact ⟨⟨Nat.ne_of_gt hk, r.chunks_ne_nil⟩, r.distinct.sublist (List.take_sublist k r.chunks)⟩

def Registry.first (r : Registry) (k : Nat) (hk : 1 ≤ k) : Registry :=
  ⟨r.chunks.take k, r.sound_take hk⟩

/-! ## Resolving -/

/-- What a run binds at its start does not depend on where it ends. -/
theorem Binds.take (h : Binds table ps ns) (k : Nat) : Binds table (ps.take k) (ns.take k) := by
  induction h generalizing k with
  | nil table =>
    rw [List.take_nil, List.take_nil]
    exact .nil table
  | @cons table _ _ _ _ _ ha hd _ ih =>
    cases k with
    | zero => exact .nil table
    | succ k => exact .cons ha hd (ih k)

theorem resolve_first (hg : resolve r raw = .ok g) (hk : 1 ≤ k) :
    resolve (r.first k hk) (raw.first k) = .ok (g.first k) := by
  obtain ⟨ds, hparse, hlength, hbinds, hjs⟩ := resolve_eq_ok_iff.mp hg
  refine resolve_eq_ok_iff.mpr ⟨ds.take k, List.forall₂_take k hparse, ?_, ?_, hjs⟩
  · have hsize : (r.first k hk).size = min k r.size := List.length_take
    rw [List.length_take, hlength, hsize]
  · have hzip : (ds.take k).zip (r.first k hk).chunks = (ds.zip r.chunks).take k :=
      List.take_zipWith.symm
    rw [hzip]
    exact hbinds.take k

/-! ## Wrapping -/

theorem wrappers_first (w : WrapperStyle) (hg : resolve r raw = .ok g) (hk : 1 ≤ k) :
    w.wrappers (g.first k) = (w.wrappers g).take k := by
  rw [w.wrappers_eq (resolved_names_distinct hg),
    w.wrappers_eq (resolved_names_distinct (resolve_first hg hk)), ← List.map_take]
  rfl

/-- No chunk that is declared later changes a node, its text or its wrapper. -/
theorem first_chunks_unchanged (w : WrapperStyle) (hg : resolve r raw = .ok g) (hk : 1 ≤ k) :
    ∃ s, Registry.ofChunks (r.chunks.take k) = .ok s ∧ s.chunks = r.chunks.take k ∧
      resolve s (raw.first k) = .ok (g.first k) ∧
      (g.first k).specs = g.specs.take k ∧
      w.wrappers (g.first k) = (w.wrappers g).take k ∧
      w.wrapperSpecs (g.first k) = (w.wrapperSpecs g).take k := by
  have hspecs : (g.first k).specs = g.specs.take k := List.map_take
  have hwrapped : w.wrapperSpecs (g.first k) = (w.wrapperSpecs g).take k := by
    rw [WrapperStyle.wrapperSpecs, WrapperStyle.wrapperSpecs, wrappers_first w hg hk, List.map_take]
  exact ⟨r.first k hk, (r.first k hk).ofChunks_chunks, rfl, resolve_first hg hk, hspecs,
    wrappers_first w hg hk, hwrapped⟩

theorem stair_first_two :
    resolve stairRegistry stairOutput = .ok stairGraph ∧
    ∃ s, Registry.ofChunks (stairRegistry.chunks.take 2) = .ok s ∧
      resolve s ⟨["a:1", "b:2:a"], ["./a.js"]⟩ = .ok ⟨stairGraph.nodes.take 2, ["./a.js"]⟩ ∧
      (WrapperStyle.wrappers {} stairGraph).length = 3 ∧
      WrapperStyle.wrappers {} ⟨stairGraph.nodes.take 2, ["./a.js"]⟩ =
        (WrapperStyle.wrappers {} stairGraph).take 2 := by
  have hg : resolve stairRegistry stairOutput = .ok stairGraph := rfl
  obtain ⟨s, hmade, -, hresolved, -, hwrappers, -⟩ :=
    first_chunks_unchanged {} hg (show 1 ≤ 2 by decide)
  exact ⟨hg, s, hmade, hresolved, rfl, hwrappers⟩

end ChunkBuild
