import ChunkBuild.Proofs.Build.Loading
import ChunkBuild.Proofs.Build.Plan
import ChunkBuild.Proofs.Path.Below
/-! # Where built files lie

Chunk names are put behind the build directory, by the system's rules for paths where files are moved and
by text alone where the compiler is told. Main statement: every file of a build lies strictly below the
build directory when its name leads down, no other name does so for every build directory, and both rules
agree on names that do not start at the root. -/
namespace ChunkBuild

open ChunkBuild.Text ChunkBuild.Json

variable {p : Project} {n : Node} {g : Graph} {h k : Host}

theorem valuesOf_prefix (p : Project) (g : Graph) (command staged : List String) (out : Path) :
    ∃ args, Compiler.compilerCommand command (p.planFor g).options staged out = command ++ args ∧
      Compiler.valuesOf "chunk_output_path_prefix" args = [out.text ++ "/"] := by
  refine ⟨_, Compiler.compilerCommand_eq, ?_⟩
  rw [valuesOf_planned p g staged out (by decide), planFor_options]
  simp [Compiler.Options.toFields, Compiler.runFields, Compiler.texts, Value.display]

namespace Project

/-! ## Source maps -/

theorem mapBeside_ne_up (q : Path) : q.name ++ ".map" ≠ ".." := by
  intro h
  have hlast := congrArg (fun s => s.toList.getLast?) h
  simp only [String.toList_append, List.getLast?_append] at hlast
  cases hlast

theorem mapBeside_below {d : Path} {s : String} (hs : Path.LeadsDown s) :
    (mapBeside (d.child s)).IsBelow d :=
  Path.isBelow_child_withName hs (mapBeside_ne_up _)

theorem map_of_finalizeOutput {q : Path} {out : Path × Option Path}
    (hr : p.finalizeOutput n q h = .ok out k) : ∀ m ∈ out.2, m = mapBeside (p.target n) := by
  obtain ⟨_, l, -, hrest⟩ := Job.bind_eq_ok.mp hr
  obtain ⟨found, l, -, hrest⟩ := Job.bind_eq_ok.mp hrest
  cases found with
  | false =>
    obtain ⟨_, _, -, hdone⟩ := Job.bind_eq_ok.mp hrest
    cases hdone
    exact fun m hm => nomatch hm
  | true =>
    rw [if_pos rfl] at hrest
    obtain ⟨_, _, -, hrest⟩ := Job.bind_eq_ok.mp hrest
    obtain ⟨_, -, hrest⟩ := Job.lift_bind_eq_ok.mp hrest
    obtain ⟨_, _, -, hdone⟩ := Job.bind_eq_ok.mp hrest
    cases hdone
    exact fun m hm => (Option.some.inj hm).symm

theorem maps_of_finalizeOutputs {pairs : List (Node × Path)} {done : List (Path × Option Path)}
    (hr : p.finalizeOutputs pairs h = .ok done k) :
    ∀ m ∈ done.filterMap (·.2), ∃ q ∈ pairs, m = mapBeside (p.target q.1) := by
  induction pairs generalizing h done with
  | nil =>
    cases hr
    exact fun m hm => nomatch hm
  | cons q pairs ih =>
    obtain ⟨first, l, hone, hrest⟩ := Job.bind_eq_ok.mp hr
    obtain ⟨later, _, hmany, hdone⟩ := Job.bind_eq_ok.mp hrest
    cases hdone
    intro m hm
    obtain ⟨out, hout, hmap⟩ := List.mem_filterMap.mp hm
    rcases List.mem_cons.mp hout with rfl | hout
    · exact ⟨q, List.mem_cons_self, map_of_finalizeOutput hone m hmap⟩
    · obtain ⟨q', hq, hm⟩ := ih hmany m (List.mem_filterMap.mpr ⟨out, hout, hmap⟩)
      exact ⟨q', List.mem_cons_of_mem _ hq, hm⟩

theorem maps_of_finalize {plan : Plan} {sources : List Path} {result : BuildResult}
    (hr : p.finalize plan sources h = .ok result k) :
    ∀ m ∈ result.maps, ∃ n ∈ plan.graph.nodes, m = mapBeside (p.target n) := by
  unfold finalize at hr
  split at hr
  · obtain ⟨_, _, -, hthrow⟩ := Job.bind_eq_ok.mp hr
    cases hthrow
  · obtain ⟨done, _, hdone, hresult⟩ := Job.bind_eq_ok.mp hr
    cases hresult
    intro m hm
    obtain ⟨q, hq, hmap⟩ := maps_of_finalizeOutputs hdone m hm
    exact ⟨q.1, (List.of_mem_zip hq).1, hmap⟩

end Project

/-- What a build writes below its directory. Files whose names lead down stay there, whatever the
directory is, and only those do. -/
theorem built_files_inside (p : Project) (g : Graph) (hd : p.buildDirectory.IsPlain) :
    (∀ sources h result k, p.finalize (p.planFor g) sources h = .ok result k →
      result.outputs = g.nodes.map p.target ∧
      ∀ m ∈ result.maps, ∃ n ∈ g.nodes, m = mapBeside (p.target n)) ∧
    (∀ (c : CompilerTool) staged directory h emitted k,
      c.compile (p.planFor g).options staged p.buildDirectory directory h = .ok emitted k →
      emitted = g.nodes.map p.emitted) ∧
    (∀ n ∈ g.nodes,
      (Path.LeadsDown (p.wrapperStyle.fileName n) →
        (p.target n).IsBelow p.buildDirectory ∧
        (mapBeside (p.target n)).IsBelow p.buildDirectory) ∧
      (Path.LeadsDown (n.name ++ ".js") → (p.emitted n).IsBelow p.buildDirectory) ∧
      (Path.LeadsDown (p.wrapperStyle.fileName n) ↔
        ∀ d : Path, ({ p with buildDirectory := d }.target n).IsBelow d)) ∧
    ∀ command staged, ∃ args,
      Compiler.compilerCommand command (p.planFor g).options staged p.buildDirectory =
        command ++ args ∧
      ∃ start, Compiler.valuesOf "chunk_output_path_prefix" args = [start] ∧
        ∀ n ∈ g.nodes, (Path.ofText (n.name ++ ".js")).isAbsolute = false →
          ∀ cwd, (Path.ofText (start ++ (n.name ++ ".js"))).resolve cwd =
            (p.emitted n).resolve cwd := by
  refine ⟨?_, ?_, ?_, ?_⟩
  · intro sources h result k hr
    exact ⟨Project.outputs_of_finalize hr, Project.maps_of_finalize hr⟩
  · intro c staged directory h emitted k hr
    obtain ⟨-, hemitted⟩ := (compile_eq_ok_iff (chunkNames_planFor p g)).mp hr
    rw [hemitted, Compiler.emittedFiles, List.map_map]
    rfl
  · intro n _
    exact ⟨fun hn => ⟨Path.isBelow_child hn, Project.mapBeside_below hn⟩, Path.isBelow_child,
      Path.leadsDown_iff⟩
  · intro command staged
    obtain ⟨args, hargs, hstart⟩ := valuesOf_prefix p g command staged p.buildDirectory
    exact ⟨args, hargs, _, hstart, fun n _ hn => Path.resolve_ofText_below hd hn⟩

/-! ## Three files inside and two outside -/

def emittedHost : Host :=
  { files :=
      [(["p"], .directory), (["p", "build"], .directory), (["p", "build", "A.js"], .file [65]),
        (["p", "build", "A.js.map"], .file [123, 125]), (["p", "build", "B.js"], .file [66]),
        (["p", "build", "C.js"], .file [67])]
    current := ⟨.root, ["p"]⟩
    home := ⟨.root, []⟩ }

theorem stair_finalized : ∃ result kept,
    shadowProject.finalize (shadowProject.planFor stairGraph) stairTargets emittedHost =
      .ok result kept ∧
    decide ((kept.files.at? ["p", "build", "A_compressed.js.map"]).isSome = true) = true :=
  Job.exists_of_leaves (by decide +kernel)

theorem stair_files_inside :
    (∃ result kept,
      shadowProject.finalize (shadowProject.planFor stairGraph) stairTargets emittedHost =
        .ok result kept ∧
      result.outputs = stairGraph.nodes.map shadowProject.target ∧
      ∀ m ∈ result.maps, ∃ n ∈ stairGraph.nodes, m = mapBeside (shadowProject.target n)) ∧
    (∃ kept, CompilerTool.compile { command := ["google-closure-compiler"] }
        (shadowProject.planFor stairGraph).options ["core/a.js"] shadowProject.buildDirectory none
        compilingHost = .ok stairTargets kept ∧
      stairTargets = stairGraph.nodes.map shadowProject.emitted) ∧
    (∀ n ∈ stairGraph.nodes, (shadowProject.target n).IsBelow shadowProject.buildDirectory ∧
      (mapBeside (shadowProject.target n)).IsBelow shadowProject.buildDirectory ∧
      (shadowProject.emitted n).IsBelow shadowProject.buildDirectory) ∧
    ∃ args, Compiler.compilerCommand ["google-closure-compiler"]
        (shadowProject.planFor stairGraph).options ["core/a.js"] shadowProject.buildDirectory =
        ["google-closure-compiler"] ++ args ∧
      ∃ start, Compiler.valuesOf "chunk_output_path_prefix" args = [start] ∧
        ∀ n ∈ stairGraph.nodes, ∀ cwd, (Path.ofText (start ++ (n.name ++ ".js"))).resolve cwd =
          (shadowProject.emitted n).resolve cwd := by
  have hplain : shadowProject.buildDirectory.IsPlain := by
    unfold Path.IsPlain
    decide +kernel
  obtain ⟨hfinal, hemit, hbelow, htold⟩ := built_files_inside shadowProject stairGraph hplain
  have hflat : ∀ n ∈ stairGraph.nodes,
      ∀ s ∈ [shadowProject.wrapperStyle.fileName n, n.name ++ ".js"],
        '/' ∉ s.toList ∧ 2 ≤ s.toList.length ∧ s ≠ ".." := by decide +kernel
  have hdown (n) (hn : n ∈ stairGraph.nodes) :
      Path.LeadsDown (shadowProject.wrapperStyle.fileName n) ∧
      Path.LeadsDown (n.name ++ ".js") := by
    obtain ⟨hfile, hscript⟩ := List.forall_mem_cons.mp (hflat n hn)
    obtain ⟨hslash, hlong, hup⟩ := hfile
    obtain ⟨hslash', hlong', hup'⟩ := List.forall_mem_singleton.mp hscript
    exact ⟨Path.leadsDown_of_no_slash hslash hlong hup,
      Path.leadsDown_of_no_slash hslash' hlong' hup'⟩
  obtain ⟨result, kept, hrun, -⟩ := stair_finalized
  obtain ⟨left, hcompiled⟩ := stair_compiles
  obtain ⟨args, hargs, start, hstart, hsame⟩ := htold ["google-closure-compiler"] ["core/a.js"]
  refine ⟨⟨result, kept, hrun, hfinal _ _ _ _ hrun⟩, ⟨left, hcompiled, hemit _ _ _ _ _ _ hcompiled⟩,
    fun n hn => ?_, args, hargs, start, hstart, fun n hn => hsame n hn (hdown n hn).2.relative⟩
  obtain ⟨hfiles, hemitted, -⟩ := hbelow n hn
  obtain ⟨htarget, hmap⟩ := hfiles (hdown n hn).1
  exact ⟨htarget, hmap, hemitted (hdown n hn).2⟩

def upChunk : Chunk := ⟨⟨"../b", "./y.js", "Y", "Y", .null, .null⟩, by decide⟩

def upNode : Node := ⟨upChunk, 1, 1, [plainRoot]⟩

/-- A name can lead up or start at the root, and then the file lies elsewhere. -/
theorem files_outside :
    (resolve ⟨[plainChunk, upChunk], by decide⟩ pairOutput =
        .ok ⟨[plainRoot, upNode], pairOutput.js⟩ ∧
      (shadowProject.target upNode).normalize.text = "/p/b_compressed.js" ∧
      ¬ (shadowProject.target upNode).IsBelow shadowProject.buildDirectory ∧
      ¬ (shadowProject.emitted upNode).IsBelow shadowProject.buildDirectory) ∧
    resolve ⟨[rootedChunk, plainChunk], by decide⟩ pairOutput =
        .ok ⟨[rootedRoot, plainNode], pairOutput.js⟩ ∧
      (shadowProject.target rootedRoot).normalize.text = "/c_compressed.js" ∧
      ¬ (shadowProject.target rootedRoot).IsBelow shadowProject.buildDirectory := by
  constructor
  · exact ⟨rfl, by decide +kernel, by decide +kernel, by decide +kernel⟩
  · exact ⟨rfl, by decide +kernel, by decide +kernel⟩

end ChunkBuild
