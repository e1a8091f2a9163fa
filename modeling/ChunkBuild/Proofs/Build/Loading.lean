import ChunkBuild.Build
import ChunkBuild.Proofs.Build.Outputs
import ChunkBuild.Proofs.Path.Normal
import ChunkBuild.Proofs.Wrapper
/-! # Where wrappers load from

A wrapper names the files of its inputs beside its own file, and the build gives every chunk a file under
the build directory. Main statement: both are the same file for every chunk whose own file lies directly
in the build directory, and for no other one as long as the name of the input does not lead up. -/
namespace ChunkBuild

open ChunkBuild.Text ChunkBuild.Json

variable {p : Project} {n d : Node} {s : String} {h k : Host}

/-! ## Paths beside a file -/

namespace Path

variable {q : Path}

theorem ofText_here : ofText ("./" ++ s) = ⟨.relative, partsOf s.toList⟩ := by
  have hsplit : splitOn ['/'] ('.' :: '/' :: s.toList) = ['.'] :: splitOn ['/'] s.toList := rfl
  have htext : ("./" ++ s).toList = '.' :: '/' :: s.toList := String.toList_append
  rw [ofText, partsOf, htext, hsplit]
  rfl

/-- A relative path may be written from here. -/
theorem child_here (hr : (ofText s).isAbsolute = false) : q.child ("./" ++ s) = q.child s := by
  have hsame : (⟨.relative, partsOf s.toList⟩ : Path) = ofText s := by
    rw [← isAbsolute_eq_false_iff.mp hr]
    rfl
  rw [child, child, ofText_here, hsame]

theorem parent_child_of_no_slash (hs : '/' ∉ s.toList) (hl : 2 ≤ s.toList.length) :
    (q.child s).parent = q := by
  rw [child_of_no_slash hs hl, parent, List.dropLast_concat]

end Path

namespace Project

def loadedFrom (p : Project) (n d : Node) : Path :=
  (p.target n).parent.child ("./" ++ p.wrapperStyle.fileName d)

/-- A wrapper looks where the build puts the file. -/
def FindsFile (p : Project) (n d : Node) : Prop :=
  (p.loadedFrom n d).normalize = (p.target d).normalize

def LiesFlat (p : Project) (n : Node) : Prop :=
  (p.target n).parent.normalize = p.buildDirectory.normalize

theorem two_le_length_fileName : 2 ≤ (p.wrapperStyle.fileName n).toList.length := by
  have hname : n.name.toList.length ≠ 0 := by
    intro hnil
    exact n.chunk.name_sound.1 (String.toList_eq_nil_iff.mp (List.length_eq_zero_iff.mp hnil))
  have hdot : ".".toList.length = 1 := rfl
  rw [WrapperStyle.fileName]
  simp only [String.toList_append, List.length_append]
  omega

theorem liesFlat_of_no_slash (hs : '/' ∉ (p.wrapperStyle.fileName n).toList) : p.LiesFlat n := by
  rw [LiesFlat, target, Path.parent_child_of_no_slash hs two_le_length_fileName]

theorem findsFile_of_liesFlat (hr : (Path.ofText (p.wrapperStyle.fileName d)).isAbsolute = false)
    (hn : p.LiesFlat n) : p.FindsFile n d := by
  rw [FindsFile, loadedFrom, Path.child_here hr]
  exact Path.normalize_join_congr hn hr

theorem findsFile_iff (hr : (Path.ofText (p.wrapperStyle.fileName d)).isAbsolute = false)
    (hup : ".." ∉ (Path.ofText (p.wrapperStyle.fileName d)).parts) :
    p.FindsFile n d ↔ p.LiesFlat n := by
  rw [FindsFile, loadedFrom, Path.child_here hr]
  exact Path.normalize_join_eq_iff hr hup

/-! ## The files that are written -/

theorem target_of_finalizeOutput {q : Path} {out : Path × Option Path}
    (hr : p.finalizeOutput n q h = .ok out k) : out.1 = p.target n := by
  obtain ⟨_, m, -, hrest⟩ := Job.bind_eq_ok.mp hr
  obtain ⟨found, l, -, hrest⟩ := Job.bind_eq_ok.mp hrest
  cases found with
  | false =>
    obtain ⟨_, _, -, hdone⟩ := Job.bind_eq_ok.mp hrest
    cases hdone
    rfl
  | true =>
    rw [if_pos rfl] at hrest
    obtain ⟨_, _, -, hrest⟩ := Job.bind_eq_ok.mp hrest
    obtain ⟨_, -, hrest⟩ := Job.lift_bind_eq_ok.mp hrest
    obtain ⟨_, _, -, hdone⟩ := Job.bind_eq_ok.mp hrest
    cases hdone
    rfl

theorem targets_of_finalizeOutputs {pairs : List (Node × Path)} {done : List (Path × Option Path)}
    (hr : p.finalizeOutputs pairs h = .ok done k) :
    done.map (·.1) = pairs.map fun q => p.target q.1 := by
  induction pairs generalizing h done with
  | nil =>
    cases hr
    rfl
  | cons q pairs ih =>
    obtain ⟨n, source⟩ := q
    obtain ⟨first, m, hone, hrest⟩ := Job.bind_eq_ok.mp hr
    obtain ⟨later, _, hmany, hdone⟩ := Job.bind_eq_ok.mp hrest
    cases hdone
    rw [List.map_cons, List.map_cons, target_of_finalizeOutput hone, ih hmany]

theorem outputs_of_finalize {plan : Plan} {sources : List Path} {result : BuildResult}
    (hr : p.finalize plan sources h = .ok result k) :
    result.outputs = plan.graph.nodes.map p.target := by
  have hlength : sources.length = plan.graph.size := by
    by_contra hne
    unfold finalize at hr
    rw [if_pos hne] at hr
    obtain ⟨_, _, -, hthrow⟩ := Job.bind_eq_ok.mp hr
    cases hthrow
  obtain ⟨done, hdone, houtputs⟩ := finalizeOutputs_of_finalize hr
  have hpairs : (plan.graph.nodes.zip sources).map Prod.fst = plan.graph.nodes :=
    List.map_fst_zip hlength.ge
  rw [houtputs, targets_of_finalizeOutputs hdone]
  conv_rhs => rw [← hpairs, List.map_map]
  rfl

end Project

/-! ## Inputs -/

/-- What a wrapper is handed is a chunk of the graph, and the wrapper names its file. -/
theorem inputs_of_resolved {r : Registry} {raw : RawOutput} {g : Graph} (hg : resolve r raw = .ok g)
    (hn : n ∈ g.nodes) (hd : d ∈ WrapperStyle.inputs n) (w : WrapperStyle) :
    d ∈ g.nodes ∧ ∃ i, (w.loader n).Offers w i d := by
  obtain ⟨ds, -, hl⟩ := resolve_layout hg
  obtain ⟨i, hi⟩ := List.mem_iff_getElem?.mp hn
  obtain ⟨k, hk⟩ := List.mem_iff_getElem?.mp hd
  refine ⟨?_, k, offers_of_input hk⟩
  by_cases hroot : i = 0
  · -- the first chunk is handed nothing
    have hfirst : n.isRoot = true := (hl.isRoot_iff hi).mpr hroot
    have hdeps : n.dependencies = [] := List.isEmpty_iff.mp hfirst
    rw [WrapperStyle.inputs, hfirst, Bool.true_or, if_pos rfl, hdeps] at hd
    cases hd
  · obtain ⟨j, -, hj⟩ := (hl.inputs_earlier hi hroot).1 d hd
    exact List.mem_of_getElem? hj

/-- The wrappers of a plan name files that the build writes, unless the chunk's own file lies elsewhere
than in the build directory or the input is called by an absolute path. -/
theorem wrappers_find_files (p : Project) {r : Registry} {raw : RawOutput} {g : Graph}
    (hg : resolve r raw = .ok g) :
    (p.planFor g).wrappers = g.nodes.map (fun n => (n.name,
      (p.wrapperStyle.loader n).text p.wrapperStyle n.chunk.exportsPath)) ∧
    (∀ sources h result k, p.finalize (p.planFor g) sources h = .ok result k →
      result.outputs = g.nodes.map p.target) ∧
    (∀ n ∈ g.nodes, '/' ∉ (p.wrapperStyle.fileName n).toList → p.LiesFlat n) ∧
    ∀ n ∈ g.nodes, ∀ d ∈ WrapperStyle.inputs n,
      (d ∈ g.nodes ∧ ∃ i, (p.wrapperStyle.loader n).Offers p.wrapperStyle i d) ∧
      ((Path.ofText (p.wrapperStyle.fileName d)).isAbsolute = false →
        (p.LiesFlat n → p.FindsFile n d) ∧
        (".." ∉ (Path.ofText (p.wrapperStyle.fileName d)).parts →
          (p.FindsFile n d ↔ p.LiesFlat n))) := by
  refine ⟨?_, ?_, ?_, ?_⟩
  · rw [Project.planFor, p.wrapperStyle.wrappers_eq (resolved_names_distinct hg)]
    exact List.map_congr_left fun n _ => congrArg (Prod.mk n.name) (p.wrapperStyle.wrapper_eq n)
  · intro sources h result k hr
    exact Project.outputs_of_finalize hr
  · exact fun n _ hs => Project.liesFlat_of_no_slash hs
  · intro n hn d hd
    refine ⟨inputs_of_resolved hg hn hd p.wrapperStyle, fun hr => ⟨?_, ?_⟩⟩
    · exact Project.findsFile_of_liesFlat hr
    · exact Project.findsFile_iff hr

theorem stair_files_found : ∃ first last, stairGraph.nodes[0]? = some first ∧
    stairGraph.nodes[2]? = some last ∧ first ∈ WrapperStyle.inputs last ∧
    shadowProject.FindsFile last first := by
  have hresolve : resolve stairRegistry stairOutput = .ok stairGraph := rfl
  obtain ⟨-, -, hflat, hfinds⟩ := wrappers_find_files shadowProject hresolve
  refine ⟨_, _, rfl, rfl, List.mem_of_getElem? (i := 1) rfl, ?_⟩
  obtain ⟨-, hfound⟩ := hfinds _ (List.mem_of_getElem? (i := 2) rfl) _
    (List.mem_of_getElem? (i := 1) rfl)
  exact (hfound (by decide +kernel)).1 (hflat _ (List.mem_of_getElem? (i := 2) rfl) (by decide))

/-! ## Files that are looked for elsewhere -/

def plainChunk : Chunk := ⟨⟨"a", "./x.js", "X", "X", .null, .null⟩, by decide⟩

def lowerChunk : Chunk := ⟨⟨"sub/b", "./y.js", "Y", "Y", .null, .null⟩, by decide⟩

def rootedChunk : Chunk := ⟨⟨"/c", "./z.js", "Z", "Z", .null, .null⟩, by decide⟩

def plainRoot : Node := ⟨plainChunk, 0, 1, []⟩

def lowerNode : Node := ⟨lowerChunk, 1, 1, [plainRoot]⟩

def rootedRoot : Node := ⟨rootedChunk, 0, 1, []⟩

def plainNode : Node := ⟨plainChunk, 1, 1, [rootedRoot]⟩

/-- Below a directory of its own a chunk looks there for its input, and an absolute name is looked for
in the build directory. -/
theorem files_looked_for_elsewhere :
    (resolve ⟨[plainChunk, lowerChunk], by decide⟩ pairOutput =
        .ok ⟨[plainRoot, lowerNode], pairOutput.js⟩ ∧
      plainRoot ∈ WrapperStyle.inputs lowerNode ∧
      (shadowProject.wrapperStyle.loader lowerNode).files = ["\"./a_compressed.js\""] ∧
      (shadowProject.loadedFrom lowerNode plainRoot).normalize.text =
        "/p/build/sub/a_compressed.js" ∧
      (shadowProject.target plainRoot).normalize.text = "/p/build/a_compressed.js" ∧
      ¬ shadowProject.FindsFile lowerNode plainRoot) ∧
    resolve ⟨[rootedChunk, plainChunk], by decide⟩ pairOutput =
        .ok ⟨[rootedRoot, plainNode], pairOutput.js⟩ ∧
      rootedRoot ∈ WrapperStyle.inputs plainNode ∧
      (shadowProject.loadedFrom plainNode rootedRoot).normalize.text =
        "/p/build/c_compressed.js" ∧
      (shadowProject.target rootedRoot).normalize.text = "/c_compressed.js" ∧
      ¬ shadowProject.FindsFile plainNode rootedRoot := by
  have hlower : ¬ shadowProject.FindsFile lowerNode plainRoot := by
    unfold Project.FindsFile
    decide +kernel
  have hrooted : ¬ shadowProject.FindsFile plainNode rootedRoot := by
    unfold Project.FindsFile
    decide +kernel
  constructor
  · exact ⟨rfl, List.mem_cons_self, by decide +kernel, by decide +kernel, by decide +kernel, hlower⟩
  · exact ⟨rfl, List.mem_cons_self, by decide +kernel, by decide +kernel, hrooted⟩

end ChunkBuild
