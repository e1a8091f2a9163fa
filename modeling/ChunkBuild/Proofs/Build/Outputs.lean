import ChunkBuild.Build
import ChunkBuild.Proofs.Chunk.Registry
import ChunkBuild.Proofs.Graph.Order
import ChunkBuild.Proofs.Host.Moving
import ChunkBuild.Proofs.Source.MapContent
/-! # Which outputs a build keeps

Emitted files get their final names one after the other in one directory. A chunk's final name may
be the name of the file that is emitted for a later chunk: then the later chunk is given the earlier
one's output, and its own is lost. Main statement: every output is kept exactly when no chunk's target
is the emitted file or the target of a later chunk. -/
namespace ChunkBuild

open ChunkBuild.Text ChunkBuild.Json ChunkBuild.FileTree

variable {p : Project} {n : Node} {h m k : Host} {a b : Location}

def IsScript (loc : Location) : Prop := EndIn loc 's'

theorem not_isScript (h : EndIn a 'p') : ¬ IsScript a := by
  intro hs
  cases h.unique hs

namespace Project

def emitted (p : Project) (n : Node) : Path := p.buildDirectory.child (n.name ++ ".js")

theorem emitted_endIn : EndIn (p.emitted n).parts 's' := by
  have hs : (n.name ++ ".js").toList = n.name.toList ++ ['.', 'j', 's'] := String.toList_append
  exact Path.endIn_child hs (by decide) (by decide) rfl

theorem target_endIn (hx : p.wrapperStyle.extension = "js") : EndIn (p.target n).parts 's' := by
  have hs : (p.wrapperStyle.fileName n).toList =
      (n.name ++ p.wrapperStyle.compiledSuffix).toList ++ ['.', 'j', 's'] := by
    rw [WrapperStyle.fileName, hx, String.append_assoc, String.toList_append]
    rfl
  exact Path.endIn_child hs (by decide) (by decide) rfl

end Project

theorem mapBeside_endIn (q : Path) : EndIn (mapBeside q).parts 'p' := by
  refine Path.endIn_withName ?_
  rw [String.toList_append, List.getLast?_append]
  rfl

/-! ## One chunk -/

theorem Host.LeadsTo.isScript {q : Path} (hq : h.LeadsTo q a) (he : EndIn q.parts 's') :
    IsScript a :=
  hq.endIn he (by decide) (by decide)

theorem Host.LeadsTo.not_isScript {q : Path} (hq : h.LeadsTo q a) (he : EndIn q.parts 'p') :
    ¬ IsScript a :=
  ChunkBuild.not_isScript (hq.endIn he (by decide) (by decide))

/-- Moving and changing a source map touches no script. -/
theorem unchanged_of_finalizeMap (hs : h.IsSettled) {source target : Path}
    (hsource : EndIn source.parts 'p') (htarget : EndIn target.parts 'p')
    {t : Source.PathTransform} {root name : Value} {fields : Fields Value}
    (hmove : Job.rename source target h = .ok () m)
    (hchange : Source.changeMapFile target t root name m = .ok fields k) :
    Unchanged IsScript h.files k.files ∧ k.current = h.current := by
  obtain ⟨a, b, files, ha, hb, -, -, hr, rfl⟩ := Job.rename_eq_ok.mp hmove
  obtain ⟨loc, old, new, hloc, hold, rfl⟩ := Source.put_of_changeMapFile hchange
  obtain rfl : b = loc := hb.agree hloc rfl
  have hnotb : ¬ IsScript b := hb.not_isScript htarget
  have hane : a ≠ [] := (ha.endIn hsource (by decide) (by decide)).ne_nil
  have hbne : b ≠ [] := (hb.endIn htarget (by decide) (by decide)).ne_nil
  have hfile : h.files.at? a = some (.file old) := (at?_of_rename hr hane hbne) ▸ hold
  have hmoved := moved_of_rename hr hfile (ha.reaches hs) (hb.reaches hs)
  have hstay := hmoved.unchanged (K := IsScript) (fun _ _ => trivial)
    (ha.not_isScript hsource) hnotb
  exact ⟨hstay.trans (unchanged_put hold hnotb), rfl⟩

theorem moved_of_finalizeOutput (hx : p.wrapperStyle.extension = "js") (hs : h.IsSettled)
    {source : Path} (he : EndIn source.parts 's') (ha : h.LeadsTo source a)
    (hd : h.files.at? a ≠ some .directory) {r : Path × Option Path}
    (hr : p.finalizeOutput n source h = .ok r k) :
    ∃ b, h.LeadsTo (p.target n) b ∧ Moved IsScript h.files k.files a b ∧ k.current = h.current ∧
      r.1 = p.target n := by
  obtain ⟨_, m, hmove, hrest⟩ := Job.bind_eq_ok.mp hr
  obtain ⟨other, b, files, hother, hb, -, -, hfiles, rfl⟩ := Job.rename_eq_ok.mp hmove
  obtain rfl := ha.unique hother
  obtain ⟨content, hfile⟩ : ∃ content, h.files.at? a = some (.file content) := by
    cases hat : h.files.at? a with
    | none => exact absurd hat (found_of_rename hfiles)
    | some e =>
      cases e with
      | file content => exact ⟨content, rfl⟩
      | directory => exact absurd hat hd
  have hmoved := (moved_of_rename hfiles hfile (ha.reaches hs) (hb.reaches hs)).mono
    (K := IsScript) fun _ _ => trivial
  refine ⟨b, hb, ?_⟩
  obtain ⟨found, _, hexists, hmap⟩ := Job.bind_eq_ok.mp hrest
  obtain rfl := Job.exists?_eq_ok hexists
  cases found with
  | false =>
    cases hmap
    exact ⟨hmoved, rfl, rfl⟩
  | true =>
    rw [if_pos rfl] at hmap
    obtain ⟨_, moved, hrename, hnext⟩ := Job.bind_eq_ok.mp hmap
    obtain ⟨paths, -, hchanged⟩ := Job.lift_bind_eq_ok.mp hnext
    obtain ⟨fields, changed, hchange, hdone⟩ := Job.bind_eq_ok.mp hchanged
    cases hdone
    have hsettled := hs.of_stands (k := { h with files := files }) rfl hmoved.stands
    obtain ⟨hstay, hcurrent⟩ := unchanged_of_finalizeMap hsettled (mapBeside_endIn _)
      (mapBeside_endIn _) hrename hchange
    refine ⟨hmoved.trans hstay ⟨ha.isScript he, ha.reaches hs⟩ ?_, hcurrent, rfl⟩
    exact ⟨hb.isScript (Project.target_endIn hx), hb.reaches hs⟩

/-! ## All chunks -/

def Project.moves (p : Project) (h : Host) (pairs : List (Node × Path)) :
    List (Location × Location) :=
  pairs.map fun q => (h.place q.2, h.place (p.target q.1))

structure Host.HoldsNoDirectory (h : Host) (q : Path) : Prop where
  leads : h.LeadsTo q (h.place q)
  script : EndIn q.parts 's'
  free : h.files.at? (h.place q) ≠ some .directory

theorem Host.HoldsNoDirectory.of_moved {q : Path} (hq : h.HoldsNoDirectory q) (hs : h.IsSettled)
    (hc : m.current = h.current) (hd : ∀ c, h.files.Stands c ↔ m.files.Stands c) :
    m.place q = h.place q ∧ m.HoldsNoDirectory q := by
  have hleads := hq.leads.of_stands hs hc hd
  have hplace := hleads.place_eq
  refine ⟨hplace, hplace ▸ hleads, hq.script, ?_⟩
  rw [hplace]
  intro hat
  -- a directory at a place that is reached stands, so it stood before
  have hreached : m.files.Reaches (h.place q) := (reaches_iff hd).mp (hq.leads.reaches hs)
  exact hq.free ((hd _).mpr (hreached.stands_of_directory hat) _ List.prefix_rfl)

theorem moves_of_finalizeOutputs (hx : p.wrapperStyle.extension = "js")
    {pairs : List (Node × Path)} (hs : h.IsSettled) (hq : ∀ q ∈ pairs, h.HoldsNoDirectory q.2)
    {done : List (Path × Option Path)} (hr : p.finalizeOutputs pairs h = .ok done k) :
    Moves IsScript h.files (p.moves h pairs) k.files ∧ k.current = h.current ∧
      (∀ q ∈ pairs, h.LeadsTo (p.target q.1) (h.place (p.target q.1))) ∧
      done.map (·.1) = pairs.map fun q => p.target q.1 := by
  induction pairs generalizing h done with
  | nil =>
    cases hr
    exact ⟨.nil _, rfl, fun q hq => (nomatch hq), rfl⟩
  | cons q pairs ih =>
    obtain ⟨n, source⟩ := q
    obtain ⟨hfirst, hlater⟩ := List.forall_mem_cons.mp hq
    dsimp only at hfirst
    obtain ⟨first, m, hone, hrest⟩ := Job.bind_eq_ok.mp hr
    obtain ⟨later, _, hmany, hdone⟩ := Job.bind_eq_ok.mp hrest
    cases hdone
    obtain ⟨b, hb, hmoved, hc, htarget⟩ :=
      moved_of_finalizeOutput hx hs hfirst.script hfirst.leads hfirst.free hone
    obtain rfl := hb.place_eq
    have hms := hs.of_stands hc hmoved.stands
    have hsame := fun q hq => (hlater q hq).of_moved hs hc hmoved.stands
    obtain ⟨hmoves, hck, hleads, hnames⟩ := ih hms (fun q hq => (hsame q hq).2) hmany
    -- the targets led to the same places before the first move
    have hback : ∀ q ∈ pairs, h.LeadsTo (p.target q.1) (m.place (p.target q.1)) := fun q hq =>
      (hleads q hq).of_stands hms hc.symm fun c => (hmoved.stands c).symm
    have hroutes : p.moves m pairs = p.moves h pairs := by
      refine List.map_congr_left fun q hq => ?_
      rw [(hsame q hq).1, (hback q hq).place_eq]
    rw [hroutes] at hmoves
    refine ⟨?_, hck.trans hc, ?_, ?_⟩
    · exact .cons hmoved hmoves
    · refine List.forall_mem_cons.mpr ⟨hb, fun q hq => ?_⟩
      rw [(hback q hq).place_eq]
      exact hback q hq
    · rw [List.map_cons, List.map_cons, htarget, hnames]

/-! ## What is kept -/

variable {nodes : List Node}

def Emits (p : Project) (nodes : List Node) (h : Host) : Prop :=
  ∀ n ∈ nodes, ∃ content, h.Has (p.emitted n) (.file content)

/-- Every target holds what was emitted for its chunk, at a place of its own. -/
structure KeepsOutputs (p : Project) (nodes : List Node) (h k : Host) : Prop where
  content : ∀ n ∈ nodes, ∀ content,
    h.Has (p.emitted n) (.file content) → k.Has (p.target n) (.file content)
  own : nodes.Pairwise fun m n => h.locate (p.target m) ≠ h.locate (p.target n)

/-- No chunk's target is the emitted file or the target of a later chunk. -/
def TargetsApart (p : Project) (nodes : List Node) (h : Host) : Prop :=
  nodes.Pairwise fun m n => h.locate (p.target m) ≠ h.locate (p.emitted n) ∧
    h.locate (p.target m) ≠ h.locate (p.target n)

def Project.routes (p : Project) (h : Host) (nodes : List Node) : List (Location × Location) :=
  nodes.map fun n => (h.place (p.emitted n), h.place (p.target n))

structure Routed (p : Project) (nodes : List Node) (h : Host) : Prop where
  emits : Emits p nodes h
  targets : ∀ n ∈ nodes, h.LeadsTo (p.target n) (h.place (p.target n))

theorem Emits.leads (he : Emits p nodes h) (hn : n ∈ nodes) :
    h.LeadsTo (p.emitted n) (h.place (p.emitted n)) := by
  obtain ⟨_, loc, hl, -⟩ := he n hn
  rwa [hl.place_eq]

theorem Emits.isFile (he : Emits p nodes h) (hn : n ∈ nodes) :
    ∃ content, h.files.at? (h.place (p.emitted n)) = some (.file content) := by
  obtain ⟨content, hhas⟩ := he n hn
  exact ⟨content, (he.leads hn).has_iff.mp hhas⟩

theorem Host.LeadsTo.located_place {q : Path} (hq : h.LeadsTo q a) :
    h.locate q = .ok (h.place q) := by
  rw [hq.place_eq, hq.located]

/-- Every move starts and ends at a script that is reached. -/
theorem Routed.counts (hx : p.wrapperStyle.extension = "js") (hs : h.IsSettled)
    (hd : Routed p nodes h) : Counts IsScript h.files (p.routes h nodes) := by
  refine List.forall_mem_map.mpr fun n hn => ?_
  have hsource := hd.emits.leads hn
  have htarget := hd.targets n hn
  exact ⟨⟨hsource.isScript Project.emitted_endIn, hsource.reaches hs⟩,
    htarget.isScript (Project.target_endIn hx), htarget.reaches hs⟩

theorem Routed.keepsOutputs_iff (hs : h.IsSettled) (hd : Routed p nodes h)
    (hm : Moves IsScript h.files (p.routes h nodes) k.files) (hc : k.current = h.current) :
    KeepsOutputs p nodes h k ↔ Arrived h.files k.files (p.routes h nodes) := by
  have hown : (p.routes h nodes).Pairwise (fun x y => x.2 ≠ y.2) ↔
      nodes.Pairwise fun m n => h.locate (p.target m) ≠ h.locate (p.target n) := by
    rw [Project.routes, List.pairwise_map]
    refine List.Pairwise.iff_of_mem fun hx hy => ?_
    rw [(hd.targets _ hx).located_place, (hd.targets _ hy).located_place, Ne, Ne, Except.ok.injEq]
  have htarget (n : Node) (hn : n ∈ nodes) (content : Bytes) :
      k.Has (p.target n) (.file content) ↔
        k.files.at? (h.place (p.target n)) = some (.file content) :=
    ((hd.targets n hn).of_stands hs hc hm.stands).has_iff
  constructor
  · rintro ⟨hcontent, hapart⟩
    refine ⟨List.forall_mem_map.mpr fun n hn => ?_, hown.mpr hapart⟩
    obtain ⟨content, hfile⟩ := hd.emits.isFile hn
    rw [hfile, ← htarget n hn content]
    exact hcontent n hn content ((hd.emits.leads hn).has_iff.mpr hfile)
  · rintro ⟨harrived, hapart⟩
    refine ⟨fun n hn content hhas => ?_, hown.mp hapart⟩
    rw [htarget n hn content, List.forall_mem_map.mp harrived n hn]
    exact (hd.emits.leads hn).has_iff.mp hhas

theorem Routed.targetsApart_iff (hd : Routed p nodes h) :
    TargetsApart p nodes h ↔ Apart (p.routes h nodes) := by
  rw [Apart, Project.routes, List.pairwise_map]
  refine List.Pairwise.iff_of_mem fun hx hy => ?_
  rw [(hd.targets _ hx).located_place, (hd.targets _ hy).located_place,
    (hd.emits.leads hy).located_place]
  simp only [ne_eq, Except.ok.injEq]

/-! ## Names without slashes -/

/-- A name that is one part of a path, of characters only. -/
def IsFlat (s : String) : Prop := ∀ c ∈ s.toList, c ≠ '/' ∧ c.toNat < firstMark

theorem IsFlat.append {s t : String} (hs : IsFlat s) (ht : IsFlat t) : IsFlat (s ++ t) := by
  intro c hc
  rw [String.toList_append, List.mem_append] at hc
  rcases hc with hc | hc
  · exact hs c hc
  · exact ht c hc

theorem Host.LeadsTo.getLast?_script {directory : Path} {s : String} (hs : IsFlat s)
    (hp : h.LeadsTo (directory.child (s ++ ".js")) a) : a.getLast? = some (s ++ ".js") := by
  have hflat : IsFlat (s ++ ".js") := hs.append (forall_mem_of_all (by decide))
  have hlist : (s ++ ".js").toList = s.toList ++ ['.', 'j', 's'] := String.toList_append
  have hslash : '/' ∉ (s ++ ".js").toList := fun hc => (hflat '/' hc).1 rfl
  have hlength : 2 ≤ (s ++ ".js").toList.length := by
    rw [hlist, List.length_append]
    exact Nat.le_add_left _ _
  have hparts : (directory.child (s ++ ".js")).parts.getLast? = some (s ++ ".js") := by
    rw [Path.child_of_no_slash hslash hlength, List.getLast?_concat]
  have hlast : (s ++ ".js").toList.getLast? = some 's' := by
    rw [hlist, List.getLast?_append]
    rfl
  rw [hp.getLast? hparts hlast (by decide), systemText_of_unmarked fun c hc => (hflat c hc).2]

/-- Scripts of different names in one directory have different places. -/
theorem locate_script_eq_iff {directory : Path} {s t : String} (hs : IsFlat s) (ht : IsFlat t)
    (ha : h.LeadsTo (directory.child (s ++ ".js")) a)
    (hb : h.LeadsTo (directory.child (t ++ ".js")) b) :
    h.locate (directory.child (s ++ ".js")) = h.locate (directory.child (t ++ ".js")) ↔ s = t := by
  constructor
  · intro he
    rw [ha.located, hb.located] at he
    obtain rfl := Except.ok.inj he
    have hname := (ha.getLast?_script hs).symm.trans (hb.getLast?_script ht)
    exact (String.append_left_inj ".js").mp (Option.some.inj hname)
  · rintro rfl
    rfl

theorem target_eq (hx : p.wrapperStyle.extension = "js") :
    p.target n = p.buildDirectory.child (n.name ++ p.wrapperStyle.compiledSuffix ++ ".js") := by
  rw [Project.target, WrapperStyle.fileName, hx, String.append_assoc]
  rfl

theorem Routed.targetsApart_iff_names (hx : p.wrapperStyle.extension = "js")
    (hd : Routed p nodes h) (hn : nodes.Pairwise fun m n => m.name ≠ n.name)
    (hsuffix : IsFlat p.wrapperStyle.compiledSuffix) (hflat : ∀ n ∈ nodes, IsFlat n.name) :
    TargetsApart p nodes h ↔
      nodes.Pairwise fun m n => m.name ++ p.wrapperStyle.compiledSuffix ≠ n.name := by
  have hlocate {m n : Node} (hm : m ∈ nodes) (hn : n ∈ nodes) :
      (h.locate (p.target m) = h.locate (p.emitted n) ↔
        m.name ++ p.wrapperStyle.compiledSuffix = n.name) ∧
      (h.locate (p.target m) = h.locate (p.target n) ↔ m.name = n.name) := by
    have htm := hd.targets m hm
    have htn := hd.targets n hn
    rw [target_eq hx] at htm htn ⊢
    rw [target_eq hx]
    have hfm := (hflat m hm).append hsuffix
    have hfn := (hflat n hn).append hsuffix
    refine ⟨locate_script_eq_iff hfm (hflat n hn) htm (hd.emits.leads hn), ?_⟩
    rw [locate_script_eq_iff hfm hfn htm htn]
    exact String.append_left_inj _
  constructor
  · intro hapart
    exact hapart.imp_of_mem fun hm hn hne he => hne.1 ((hlocate hm hn).1.mpr he)
  · intro hnames
    exact (hnames.and hn).imp_of_mem fun hm hn hne =>
      ⟨fun he => hne.1 ((hlocate hm hn).1.mp he), fun he => hne.2 ((hlocate hm hn).2.mp he)⟩

/-! ## A whole build -/

theorem finalizeOutputs_of_finalize {plan : Plan} {sources : List Path} {result : BuildResult}
    (hr : p.finalize plan sources h = .ok result k) :
    ∃ done, p.finalizeOutputs (plan.graph.nodes.zip sources) h = .ok done k ∧
      result.outputs = done.map (·.1) := by
  unfold Project.finalize at hr
  split at hr
  · obtain ⟨_, _, hname, hthrow⟩ := Job.bind_eq_ok.mp hr
    cases hthrow
  · obtain ⟨done, _, hdone, hresult⟩ := Job.bind_eq_ok.mp hr
    cases hresult
    exact ⟨done, hdone, rfl⟩

theorem moves_of_finalize {plan : Plan} {result : BuildResult}
    (hx : p.wrapperStyle.extension = "js") (hs : h.IsSettled)
    (he : Emits p plan.graph.nodes h)
    (hr : p.finalize plan
      (Compiler.emittedFiles p.buildDirectory (plan.graph.nodes.map Node.name)) h = .ok result k) :
    Routed p plan.graph.nodes h ∧ k.current = h.current ∧
      Moves IsScript h.files (p.routes h plan.graph.nodes) k.files ∧
      result.outputs = plan.graph.nodes.map p.target := by
  obtain ⟨done, hdone, houtputs⟩ := finalizeOutputs_of_finalize hr
  have hpairs : plan.graph.nodes.zip
      (Compiler.emittedFiles p.buildDirectory (plan.graph.nodes.map Node.name)) =
      plan.graph.nodes.map fun n => (n, p.emitted n) := by
    rw [Compiler.emittedFiles, List.map_map, List.map_prod_left_eq_zip]
    rfl
  have hscripts : ∀ q ∈ plan.graph.nodes.map fun n => (n, p.emitted n), h.HoldsNoDirectory q.2 := by
    refine List.forall_mem_map.mpr fun n hn => ⟨he.leads hn, Project.emitted_endIn, ?_⟩
    obtain ⟨content, hfile⟩ := he.isFile hn
    rw [hfile]
    exact fun h => nomatch h
  rw [hpairs] at hdone
  obtain ⟨hmoves, hc, hleads, hnames⟩ := moves_of_finalizeOutputs hx hs hscripts hdone
  rw [Project.moves, List.map_map] at hmoves
  refine ⟨⟨he, List.forall_mem_map.mp hleads⟩, hc, hmoves, ?_⟩
  rw [houtputs, hnames, List.map_map]
  rfl

/-- When the outputs of a resolved graph get their final names, all are kept exactly when no chunk's
target is the emitted file or the target of a later chunk. Under names without slashes that is when
no chunk is called as an earlier one with the suffix. -/
theorem outputs_kept_iff {registry : Registry} {raw : RawOutput} {plan : Plan}
    {result : BuildResult} (hg : resolve registry raw = .ok plan.graph)
    (hx : p.wrapperStyle.extension = "js") (hs : h.IsSettled)
    (he : Emits p plan.graph.nodes h)
    (hr : p.finalize plan
      (Compiler.emittedFiles p.buildDirectory (plan.graph.nodes.map Node.name)) h = .ok result k) :
    result.outputs = plan.graph.nodes.map p.target ∧
    (KeepsOutputs p plan.graph.nodes h k ↔ TargetsApart p plan.graph.nodes h) ∧
    (IsFlat p.wrapperStyle.compiledSuffix → (∀ n ∈ plan.graph.nodes, IsFlat n.name) →
      (KeepsOutputs p plan.graph.nodes h k ↔
        plan.graph.nodes.Pairwise fun m n =>
          m.name ++ p.wrapperStyle.compiledSuffix ≠ n.name)) := by
  obtain ⟨hd, hc, hmoves, houtputs⟩ := moves_of_finalize hx hs he hr
  have hfound : ∀ m ∈ p.routes h plan.graph.nodes, h.files.at? m.1 ≠ none := by
    refine List.forall_mem_map.mpr fun n hn => ?_
    obtain ⟨content, hfile⟩ := he.isFile hn
    rw [hfile]
    exact fun h => nomatch h
  have hiff : KeepsOutputs p plan.graph.nodes h k ↔ TargetsApart p plan.graph.nodes h := by
    rw [hd.keepsOutputs_iff hs hmoves hc, hmoves.arrived_iff_apart (hd.counts hx hs) hfound,
      hd.targetsApart_iff]
  refine ⟨houtputs, hiff, fun hsuffix hflat => ?_⟩
  rw [hiff]
  exact hd.targetsApart_iff_names hx (resolved_names_distinct hg) hsuffix hflat

/-! ## Two chunks, one called as the other with the suffix -/

def shadowProject : Project :=
  { directory := ⟨.root, ["p"]⟩
    resolver :=
      { calculator := .fit { command := ["closure-calculate-chunks"] }
        cache := .fit ⟨⟨.relative, ["chunks.json"]⟩⟩
        projectDirectory := ⟨.root, ["p"]⟩ }
    wrapperStyle := {}
    compiler := .fit { command := ["google-closure-compiler"] }
    depsFile := "deps.js"
    baseFile := "base.js"
    buildDirectory := ⟨.root, ["p", "build"]⟩
    stagingDirectory := ⟨.root, ["p", "staging"]⟩ }

def shadowHost : Host :=
  { files :=
      [(["p"], .directory), (["p", "build"], .directory), (["p", "build", "a.js"], .file [65]),
        (["p", "build", "a_compressed.js"], .file [66])]
    current := ⟨.root, ["p"]⟩
    home := ⟨.root, []⟩ }

def shortChunk : Chunk := stairChunk "a" (by decide)

def longChunk : Chunk := stairChunk "a_compressed" (by decide)

def pairOutput : RawOutput := ⟨["x:1", "y:1:x"], ["./e.js"]⟩

def pairPlan (first second : Chunk) : Plan :=
  let root : Node := ⟨first, 0, 1, []⟩
  ⟨⟨[root, ⟨second, 1, 1, [root]⟩], ["./e.js"]⟩, [], []⟩

def pairFinalized (first second : Chunk) : Job BuildResult :=
  shadowProject.finalize (pairPlan first second) (Compiler.emittedFiles shadowProject.buildDirectory
    ((pairPlan first second).graph.nodes.map Node.name))

/-- In this order the second chunk is given what was emitted for the first one. -/
theorem shadowed_run : ∃ result kept,
    pairFinalized shortChunk longChunk shadowHost = .ok result kept ∧
    decide (kept.files.at? ["p", "build", "a_compressed.js"] = none ∧
      kept.files.at? ["p", "build", "a_compressed_compressed.js"] = some (.file [65])) = true :=
  Job.exists_of_leaves (by decide +kernel)

theorem unshadowed_run : ∃ result kept,
    pairFinalized longChunk shortChunk shadowHost = .ok result kept ∧
    decide (kept.files.at? ["p", "build", "a_compressed_compressed.js"] =
      some (.file [66])) = true :=
  Job.exists_of_leaves (by decide +kernel)

theorem shadowHost_has {n : Node} (h : n.name = "a" ∨ n.name = "a_compressed") :
    ∃ content, shadowHost.Has (shadowProject.emitted n) (.file content) := by
  rw [Project.emitted]
  rcases h with h | h
  · rw [h]
    exact ⟨[65], ["p", "build", "a.js"], ⟨by decide +kernel, by decide +kernel⟩, rfl⟩
  · rw [h]
    exact ⟨[66], ["p", "build", "a_compressed.js"], ⟨by decide +kernel, by decide +kernel⟩, rfl⟩

/-- The names are the same in both orders; only the one that comes later is shadowed. -/
theorem pair_outputs_kept_in_one_order :
    (∃ result kept, pairFinalized shortChunk longChunk shadowHost = .ok result kept ∧
      kept.files.at? ["p", "build", "a_compressed.js"] = none ∧
      kept.files.at? ["p", "build", "a_compressed_compressed.js"] = some (.file [65]) ∧
      ¬ KeepsOutputs shadowProject (pairPlan shortChunk longChunk).graph.nodes shadowHost kept) ∧
    ∃ result kept, pairFinalized longChunk shortChunk shadowHost = .ok result kept ∧
      kept.files.at? ["p", "build", "a_compressed_compressed.js"] = some (.file [66]) ∧
      KeepsOutputs shadowProject (pairPlan longChunk shortChunk).graph.nodes shadowHost kept := by
  have hsettled : shadowHost.IsSettled := stands_concat_iff.mpr ⟨stands_nil, rfl⟩
  have hsuffix : IsFlat shadowProject.wrapperStyle.compiledSuffix :=
    forall_mem_of_all (by decide)
  have hflat : IsFlat "a" ∧ IsFlat "a_compressed" :=
    ⟨forall_mem_of_all (by decide), forall_mem_of_all (by decide)⟩
  constructor
  · obtain ⟨result, kept, hrun, hfound⟩ := shadowed_run
    have hg : resolve ⟨[shortChunk, longChunk], by decide⟩ pairOutput =
      .ok (pairPlan shortChunk longChunk).graph := rfl
    have hemits : Emits shadowProject (pairPlan shortChunk longChunk).graph.nodes shadowHost :=
      List.forall_mem_cons.mpr ⟨shadowHost_has (.inl rfl),
        List.forall_mem_singleton.mpr (shadowHost_has (.inr rfl))⟩
    obtain ⟨-, -, hiff⟩ := outputs_kept_iff hg rfl hsettled hemits hrun
    obtain ⟨hmissing, hother⟩ := of_decide_eq_true hfound
    refine ⟨result, kept, hrun, hmissing, hother, ?_⟩
    rw [hiff hsuffix (List.forall_mem_cons.mpr ⟨hflat.1, List.forall_mem_singleton.mpr hflat.2⟩)]
    exact fun h => (List.pairwise_cons.mp h).1 _ List.mem_cons_self rfl
  · obtain ⟨result, kept, hrun, hfound⟩ := unshadowed_run
    have hg : resolve ⟨[longChunk, shortChunk], by decide⟩ pairOutput =
      .ok (pairPlan longChunk shortChunk).graph := rfl
    have hemits : Emits shadowProject (pairPlan longChunk shortChunk).graph.nodes shadowHost :=
      List.forall_mem_cons.mpr ⟨shadowHost_has (.inr rfl),
        List.forall_mem_singleton.mpr (shadowHost_has (.inl rfl))⟩
    obtain ⟨-, -, hiff⟩ := outputs_kept_iff hg rfl hsettled hemits hrun
    refine ⟨result, kept, hrun, of_decide_eq_true hfound, ?_⟩
    rw [hiff hsuffix (List.forall_mem_cons.mpr ⟨hflat.2, List.forall_mem_singleton.mpr hflat.1⟩)]
    refine .cons ?_ (.cons (fun _ h => nomatch h) .nil)
    rw [List.forall_mem_singleton]
    exact fun h => absurd h (by decide)

end ChunkBuild
