import ChunkBuild.Proofs.Build.Outputs
import ChunkBuild.Proofs.Compiler.Command
import ChunkBuild.Proofs.Graph.Printed
import ChunkBuild.Proofs.Wrapper
/-! # What the compiler is handed

A plan goes to the compiler as texts: a descriptor and a wrapper for each chunk, told apart by the
first colon. Main statement: these texts give back what was planned, chunk by chunk, and what the
compiler names afterwards is one file for each chunk. -/
namespace ChunkBuild

open ChunkBuild.Text ChunkBuild.Json

variable {p : Project} {r : Registry} {raw : RawOutput} {g : Graph} {n : Node} {h k : Host}

/-! ## Options of a plan -/

theorem planFor_options (p : Project) (g : Graph) : (p.planFor g).options = p.options.toFields ++
    [("chunk", .texts g.specs),
      ("chunk_wrapper",
        .texts ((p.wrapperStyle.wrappers g).map fun (name, text) => name ++ ":" ++ text)),
      ("rename_prefix_namespace", p.namespaceOption)] := rfl

/-- What the arguments of a run say under a name is what the plan and the run say under it. -/
theorem valuesOf_planned (p : Project) (g : Graph) (staged : List String) (out : Path) {key : String}
    (hk : '=' ∉ key.toList) :
    Compiler.valuesOf key
        (Compiler.renderFlags ((p.planFor g).options ++ Compiler.runFields staged out)) =
      ((p.planFor g).options ++ Compiler.runFields staged out).flatMap fun f =>
        if f.1 = key then Compiler.texts f.2 else [] := by
  have hnames : ((p.planFor g).options ++ Compiler.runFields staged out).map (·.1) =
      ["compilation_level", "warning_level", "language_in", "language_out", "rewrite_polyfills",
        "hide_warnings_for", "define", "externs", "jscomp_error", "chunk", "chunk_wrapper",
        "rename_prefix_namespace", "chunk_output_path_prefix", "create_source_map", "js"] := rfl
  have hfree : ∀ key ∈ ((p.planFor g).options ++ Compiler.runFields staged out).map (·.1),
      '=' ∉ key.toList := by
    rw [hnames]
    decide
  exact Compiler.valuesOf_renderFlags hk fun f hf => hfree f.1 (List.mem_map_of_mem hf)

theorem valuesOf_command (p : Project) (g : Graph) (command staged : List String) (out : Path) :
    ∃ args, Compiler.compilerCommand command (p.planFor g).options staged out = command ++ args ∧
      Compiler.valuesOf "chunk" args = g.specs ∧
      Compiler.valuesOf "chunk_wrapper" args =
        (p.wrapperStyle.wrappers g).map (fun (name, text) => name ++ ":" ++ text) ∧
      Compiler.valuesOf "js" args = staged := by
  refine ⟨_, Compiler.compilerCommand_eq, ?_, ?_, ?_⟩
  · rw [valuesOf_planned p g staged out (by decide), planFor_options]
    simp [Compiler.Options.toFields, Compiler.runFields, Compiler.texts_texts]
  · rw [valuesOf_planned p g staged out (by decide), planFor_options]
    simp [Compiler.Options.toFields, Compiler.runFields, Compiler.texts_texts]
  · rw [valuesOf_planned p g staged out (by decide), planFor_options]
    simp [Compiler.Options.toFields, Compiler.runFields, Compiler.texts_texts]

/-- The compiler looks for the names where the descriptors say them. -/
theorem chunkNames_planFor (p : Project) (g : Graph) :
    CompilerTool.chunkNames (p.planFor g).options = .ok (g.nodes.map Node.name) := by
  have hget : (p.planFor g).options.get? "chunk" = some (.texts g.specs) := rfl
  have hname (n : Node) : String.ofList (n.spec.toList.takeWhile (· ≠ ':')) = n.name := by
    have hspec : n.spec.toList = n.name.toList ++ ':' :: ((natText n.fileCount).toList ++
        (if n.dependencyNames.isEmpty then "" else ":" ++ join "," n.dependencyNames).toList) := by
      rw [Node.spec, Descriptor.text, String.toList_append, String.toList_append,
        String.toList_append, List.append_assoc, List.append_assoc]
      rfl
    rw [hspec]
    exact (congrArg String.ofList (takeWhile_ne_append n.chunk.name_sound.2.1)).trans
      String.ofList_toList
  have hnames : Compiler.chunkNames g.specs = g.nodes.map Node.name := by
    rw [Compiler.chunkNames, Graph.specs, List.map_map]
    exact List.map_congr_left fun n _ => hname n
  have htexts := Value.texts?_texts g.specs
  rw [CompilerTool.chunkNames, hget, Option.getD_some, ← hnames]
  rw [Value.texts] at htexts ⊢
  dsimp only
  rw [htexts]

/-! ## A run of the compiler -/

def CompilerTool.EndsWell (c : CompilerTool) (options : Fields Value) (sources : List String)
    (out : Path) (directory : Option String) (h k : Host) : Prop :=
  ∃ made logged stdout stderr, Job.ensureDirectories out h = .ok () made ∧
    Job.logged .info ("Compiling " ++ natText sources.length ++ " files with " ++ c.name) made =
      .ok () logged ∧
    Job.start (Compiler.compilerCommand c.command options sources out)
      ((directory.filter (!·.isEmpty)).or (c.directory.map Path.text)) logged =
      .ok (.ended 0 stdout stderr) k

theorem compile_eq_ok_iff {c : CompilerTool} {options : Fields Value} {sources names : List String}
    {out : Path} {directory : Option String} {emitted : List Path}
    (hn : CompilerTool.chunkNames options = .ok names) :
    c.compile options sources out directory h = .ok emitted k ↔
      c.EndsWell options sources out directory h k ∧ emitted = Compiler.emittedFiles out names := by
  constructor
  · intro hr
    obtain ⟨_, made, hmade, hr⟩ := Job.bind_eq_ok.mp hr
    obtain ⟨_, logged, hlogged, hr⟩ := Job.bind_eq_ok.mp hr
    obtain ⟨ending, ran, hran, hr⟩ := Job.bind_eq_ok.mp hr
    rcases Job.outcome_eq_ok.mp hran with ⟨ending, hstart, rfl⟩ | ⟨e, hstart, rfl⟩
    · cases ending with
      | refused f => cases hr
      | ended exit stdout stderr =>
        dsimp only at hr
        by_cases hexit : exit = 0
        · subst hexit
          rw [if_neg (not_not.mpr rfl)] at hr
          obtain ⟨_, hnames, hdone⟩ := Job.lift_bind_eq_ok.mp hr
          rw [hn] at hnames
          cases hnames
          cases hdone
          exact ⟨⟨made, logged, stdout, stderr, hmade, hlogged, hstart⟩, rfl⟩
        · rw [if_pos hexit] at hr
          cases hr
    · -- a program that cannot be started fails the run, whatever the reason
      cases e
      all_goals cases hr
  · rintro ⟨⟨made, logged, stdout, stderr, hmade, hlogged, hstart⟩, rfl⟩
    rw [CompilerTool.compile, Job.bind_of_ok hmade, Job.bind_of_ok hlogged,
      Job.bind_of_ok (Job.outcome_of_ok hstart), hn]
    rfl

/-- There is a file for each chunk, so none of them is missing when the files get their final names. -/
theorem finalize_of_length {plan : Plan} {emitted : List Path}
    (hl : emitted.length = plan.graph.size) : p.finalize plan emitted = (do
      let done ← p.finalizeOutputs (plan.graph.nodes.zip emitted)
      pure { plan := plan, outputs := done.map (·.1), maps := done.filterMap (·.2) }) := by
  rw [Project.finalize, if_neg (not_not.mpr hl)]

/-- What is planned for each chunk is read off the arguments again, in declared order. -/
theorem command_carries_plan (p : Project) {r : Registry} {raw : RawOutput} {g : Graph}
    (hg : resolve r raw = .ok g) :
    g.nodes.map Node.chunk = r.chunks ∧
    (∀ (command staged : List String) (out : Path), ∃ args,
      Compiler.compilerCommand command (p.planFor g).options staged out = command ++ args ∧
      (Compiler.valuesOf "chunk" args).map Descriptor.parse =
        g.nodes.map (fun n => .ok ⟨n.name, n.fileCount, n.dependencyNames⟩) ∧
      (Compiler.valuesOf "chunk_wrapper" args).map (splitAtMost 2 ":") =
        g.nodes.map (fun n => [n.name, p.wrapperStyle.wrapper n]) ∧
      Compiler.valuesOf "js" args = staged) ∧
    ∀ (c : CompilerTool) (staged : List String) (out : Path) (directory : Option String)
      (h k : Host) (emitted : List Path),
      (c.compile (p.planFor g).options staged out directory h = .ok emitted k ↔
        c.EndsWell (p.planFor g).options staged out directory h k ∧
        emitted = g.nodes.map fun n => out.child (n.name ++ ".js")) ∧
      (c.compile (p.planFor g).options staged out directory h = .ok emitted k →
        emitted.length = (p.planFor g).graph.size ∧
        p.finalize (p.planFor g) emitted = (do
          let done ← p.finalizeOutputs (g.nodes.zip emitted)
          pure { plan := p.planFor g, outputs := done.map (·.1), maps := done.filterMap (·.2) })) := by
  obtain ⟨ds, -, hl⟩ := resolve_layout hg
  have hwrappers := p.wrapperStyle.wrappers_eq (resolved_names_distinct hg)
  refine ⟨hl.chunks_eq, ?_, ?_⟩
  · intro command staged out
    obtain ⟨args, hargs, hchunk, hwrapper, hjs⟩ := valuesOf_command p g command staged out
    refine ⟨args, hargs, ?_, ?_, hjs⟩
    · rw [hchunk, Graph.specs, List.map_map]
      apply List.map_congr_left
      intro n hn
      exact parse_spec hg hn
    · rw [hwrapper, hwrappers, List.map_map, List.map_map]
      apply List.map_congr_left
      intro n hn
      exact splitAtMost_two rfl n.chunk.name_sound.2.1
  · intro c staged out directory h k emitted
    have hiff : c.compile (p.planFor g).options staged out directory h = .ok emitted k ↔
        c.EndsWell (p.planFor g).options staged out directory h k ∧
        emitted = g.nodes.map fun n => out.child (n.name ++ ".js") := by
      rw [compile_eq_ok_iff (chunkNames_planFor p g), Compiler.emittedFiles, List.map_map]
      rfl
    refine ⟨hiff, fun hr => ?_⟩
    obtain ⟨-, rfl⟩ := hiff.mp hr
    have hlength : (g.nodes.map fun n => out.child (n.name ++ ".js")).length =
        (p.planFor g).graph.size := List.length_map _
    exact ⟨hlength, finalize_of_length hlength⟩

/-! ## Three chunks and one run -/

def compilingHost : Host :=
  { files := [(["p"], .directory)]
    current := ⟨.root, ["p"]⟩
    home := ⟨.root, []⟩
    tools := { behaviours := [("google-closure-compiler", [.ends [] 0 "" none])] } }

def stairTargets : List Path :=
  ["A.js", "B.js", "C.js"].map shadowProject.buildDirectory.child

theorem stair_compiles : ∃ kept,
    CompilerTool.compile { command := ["google-closure-compiler"] }
      (shadowProject.planFor stairGraph).options ["core/a.js"] shadowProject.buildDirectory none
      compilingHost = .ok stairTargets kept :=
  Job.exists_of_result (by decide +kernel)

theorem stair_command_carries_plan :
    resolve stairRegistry stairOutput = .ok stairGraph ∧
    (∃ args, Compiler.compilerCommand ["google-closure-compiler"]
        (shadowProject.planFor stairGraph).options ["core/a.js"] shadowProject.buildDirectory =
          ["google-closure-compiler"] ++ args ∧
      (Compiler.valuesOf "chunk" args).map Descriptor.parse =
        [.ok ⟨"A", 1, []⟩, .ok ⟨"B", 2, ["A"]⟩, .ok ⟨"C", 3, ["B", "A"]⟩] ∧
      Compiler.valuesOf "js" args = ["core/a.js"]) ∧
    ∃ kept, CompilerTool.compile { command := ["google-closure-compiler"] }
        (shadowProject.planFor stairGraph).options ["core/a.js"] shadowProject.buildDirectory none
        compilingHost = .ok stairTargets kept ∧
      stairTargets.length = 3 := by
  have hresolve : resolve stairRegistry stairOutput = .ok stairGraph := rfl
  obtain ⟨-, hcommand, hcompile⟩ := command_carries_plan shadowProject hresolve
  obtain ⟨args, hargs, hchunk, -, hjs⟩ := hcommand ["google-closure-compiler"] ["core/a.js"]
    shadowProject.buildDirectory
  obtain ⟨kept, hrun⟩ := stair_compiles
  obtain ⟨hlength, -⟩ := (hcompile _ _ _ _ _ _ _).2 hrun
  exact ⟨hresolve, ⟨args, hargs, hchunk, hjs⟩, kept, hrun, hlength⟩

end ChunkBuild
