import ChunkBuild.Proofs.Chunk.Alias
import ChunkBuild.Proofs.Json.Literal
import ChunkBuild.Proofs.Wrapper
/-! # The place of the compiled body

Aliases and exports paths hold no percent sign, and what stands around the names of the inputs breaks
every occurrence of the placeholder. So above its own line it is found exactly where the name of an
input holds it. Main statement: the placeholder stands once in a wrapper exactly when no name of an
input holds it, and the body is then put in its place only. -/
namespace ChunkBuild

open ChunkBuild.Text ChunkBuild.Json

variable {w : WrapperStyle} {n m : Node} {c : Char} {s : String} {u v : List Char} {l : Loader}

def bodyMark : List Char := "%output%".toList

/-! ## Names without percent signs -/

theorem Chunk.notMem_importAlias (d : Chunk) (hc : continuesName (readDollar c) = false) :
    c ∉ d.importAlias.toList := notMem_of_isBindingName hc d.isBindingName_importAlias

theorem Chunk.notMem_exportsPath (d : Chunk) (hc : continuesName (readDollar c) = false)
    (hdot : c ≠ '.') : c ∉ d.exportsPath.toList := by
  have hparts := List.all_eq_true.mp d.isExportsPath_exportsPath
  have hjoin : join "." (split "." d.exportsPath) = d.exportsPath := join_split (by decide) _
  rw [← hjoin]
  refine notMem_join ?_ fun part hpart => notMem_of_isBindingName hc (hparts part hpart)
  exact fun h => hdot (List.mem_singleton.mp h)

/-! ## Where a name occurs -/

theorem bodyMark_eq_cons : bodyMark = '%' :: "output%".toList := rfl

theorem bodyMark_eq_concat : bodyMark = "%output".toList ++ ['%'] := rfl

/-- The mark begins with a percent sign. -/
theorem bodyMark_infix_append_iff_right (hu : '%' ∉ u) :
    bodyMark <:+: u ++ v ↔ bodyMark <:+: v := by
  rw [bodyMark_eq_cons, infix_append_iff_of_head hu]

/-- The mark ends with a percent sign. -/
theorem bodyMark_infix_append_iff_left (hv : '%' ∉ v) :
    bodyMark <:+: u ++ v ↔ bodyMark <:+: u := by
  rw [bodyMark_eq_concat, infix_append_iff_of_last hv]

theorem bodyMark_infix_join_iff {ts : List String} :
    bodyMark <:+: (join ", " ts).toList ↔ ∃ t ∈ ts, bodyMark <:+: t.toList := by
  have hcomma : ", ".toList = ',' :: [' '] := rfl
  rw [toList_join, hcomma, bodyMark_eq_cons, infix_intercalate_iff (by decide) (by decide)]
  simp only [List.mem_map, exists_exists_and_eq_and]

theorem bodyMark_infix_fileLiteral_iff :
    bodyMark <:+: (WrapperStyle.fileLiteral {} m).toList ↔ bodyMark <:+: m.name.toList := by
  have hname : ("./" ++ WrapperStyle.fileName {} m).toList =
      "./".toList ++ m.name.toList ++ "_compressed.js".toList := by
    have hsuffix : "_compressed.js" = "_compressed" ++ "." ++ "js" := rfl
    rw [WrapperStyle.fileName, hsuffix]
    simp only [String.toList_append, List.append_assoc]
  have hliteral : ∀ c ∈ '%' :: "output%".toList, IsLiteral c := forall_mem_of_all (by decide)
  rw [WrapperStyle.fileLiteral, bodyMark_eq_cons, infix_stringText_iff hliteral, hname,
    ← bodyMark_eq_cons]
  exact (bodyMark_infix_append_iff_left (by decide)).trans (bodyMark_infix_append_iff_right (by decide))

/-! ## Where a wrapper holds the mark -/

/-- Above its own line the mark is only in what names the files. -/
theorem Loader.exists_around (l : Loader) {exported : String} (he : '%' ∉ exported.toList)
    (hglobals : ∀ t ∈ l.globals, '%' ∉ t.toList) (hparameters : ∀ t ∈ l.parameters, '%' ∉ t.toList)
    (hbefore : '%' ∉ l.before.toList) (hafter : '%' ∉ l.after.toList) :
    ∃ above below, l.text {} exported = above ++ "\n" ++ "%output%" ++ ("\n" ++ below) ∧
      '%' ∉ ("\n" ++ below).toList ∧
      (bodyMark <:+: above.toList ↔
        (∃ t ∈ l.files, bodyMark <:+: t.toList) ∨ ∃ t ∈ l.required, bodyMark <:+: t.toList) := by
  have hglobal : '%' ∉ (join ", " l.globals).toList := notMem_join (by decide) hglobals
  have hparameter : '%' ∉ (join ", " l.parameters).toList := notMem_join (by decide) hparameters
  have hbracket : "], factory);\n".toList = ']' :: ", factory);\n".toList := rfl
  refine ⟨?above,
    l.after ++ ("\n" ++ ("return " ++ ("$" ++ ("." ++ (exported ++ ";\n\x7d));\n"))))), ?cut, ?below, ?_⟩
  case cut =>
    simp only [← String.append_assoc]
    rfl
  case below =>
    simp only [String.toList_append, List.mem_append, not_or]
    exact ⟨by decide, hafter, by decide, by decide, by decide, by decide, he, by decide⟩
  simp only [String.toList_append]
  -- no occurrence ends behind the last file, and none begins before the first one
  simp (disch := first | assumption | decide) only [bodyMark_infix_append_iff_left]
  simp (disch := decide) only [List.append_assoc, bodyMark_infix_append_iff_right]
  -- the bracket keeps the two lists of files apart
  rw [hbracket, List.cons_append, infix_append_cons_iff (by decide) (by decide)]
  simp (disch := decide) only [bodyMark_infix_append_iff_right, bodyMark_infix_join_iff]

theorem inputs_hold_mark_iff (n : Node) :
    ((∃ t ∈ (WrapperStyle.loader {} n).files, bodyMark <:+: t.toList) ∨
      ∃ t ∈ (WrapperStyle.loader {} n).required, bodyMark <:+: t.toList) ↔
    ∃ m ∈ WrapperStyle.inputs n, contains "%output%" m.name = true := by
  have hrequired {t : String} :
      bodyMark <:+: ("require(" ++ t ++ ")").toList ↔ bodyMark <:+: t.toList := by
    rw [String.toList_append, String.toList_append, bodyMark_infix_append_iff_left (by decide),
      bodyMark_infix_append_iff_right (by decide)]
  simp only [WrapperStyle.loader, List.map_map, List.mem_map, exists_exists_and_eq_and,
    Function.comp_apply, hrequired, or_self, bodyMark_infix_fileLiteral_iff, contains_iff]
  rfl

theorem percent_notMem_before (hp : n.chunk.preamble = .null) :
    '%' ∉ (WrapperStyle.loader {} n).before.toList := by
  have halias := n.root.chunk.notMem_importAlias (c := '%') (by decide)
  rw [WrapperStyle.loader, hp, WrapperStyle.declaredText, WrapperStyle.defaultPreamble]
  split_ifs
  · change '%' ∉ "const $=\x7b\x7d;".toList
    decide
  · simp only [String.toList_append, List.mem_append, not_or, and_assoc]
    exact ⟨by decide, by decide, by decide, halias, by decide, by decide, by decide⟩

theorem percent_notMem_after (hq : n.chunk.postamble = .null) :
    '%' ∉ (WrapperStyle.loader {} n).after.toList := by
  have hexports := n.chunk.notMem_exportsPath (c := '%') (by decide) (by decide)
  rw [WrapperStyle.loader, hq, WrapperStyle.declaredText, WrapperStyle.defaultPostamble]
  split_ifs
  · simp only [String.toList_append, List.mem_append, not_or, and_assoc]
    exact ⟨by decide, by decide, hexports, by decide, by decide, by decide, by decide, by decide⟩
  · exact List.not_mem_nil

theorem wrapper_around (hp : n.chunk.preamble = .null) (hq : n.chunk.postamble = .null) :
    ∃ above below, WrapperStyle.wrapper {} n = above ++ "\n" ++ "%output%" ++ ("\n" ++ below) ∧
      '%' ∉ ("\n" ++ below).toList ∧
      (bodyMark <:+: above.toList ↔
        ∃ m ∈ WrapperStyle.inputs n, contains "%output%" m.name = true) := by
  have hexports (d : Chunk) : '%' ∉ d.exportsPath.toList :=
    d.notMem_exportsPath (by decide) (by decide)
  have hglobals : ∀ t ∈ (WrapperStyle.loader {} n).globals, '%' ∉ t.toList := by
    refine List.forall_mem_map.mpr fun m _ => ?_
    rw [String.toList_append, List.mem_append, not_or]
    exact ⟨by decide, hexports m.chunk⟩
  have hparameters : ∀ t ∈ (WrapperStyle.loader {} n).parameters, '%' ∉ t.toList :=
    List.forall_mem_map.mpr fun m _ => m.chunk.notMem_importAlias (by decide)
  rw [WrapperStyle.wrapper_eq, ← inputs_hold_mark_iff]
  exact Loader.exists_around _ (hexports n.chunk) hglobals hparameters (percent_notMem_before hp)
    (percent_notMem_after hq)

/-- The placeholder stands in a wrapper once exactly when no name of an input holds it. It is then on a
line of its own, and replacing it puts the body there and changes nothing else. -/
theorem placeholder_once_iff {r : Registry} {raw : RawOutput} {g : Graph} {n : Node}
    (hg : resolve r raw = .ok g)
    (hdefault : ∀ c ∈ r.chunks, c.preamble = .null ∧ c.postamble = .null) (hn : n ∈ g.nodes) :
    (occurrences "%output%" (WrapperStyle.wrapper {} n) = 1 ↔
      ∀ m ∈ WrapperStyle.inputs n, contains "%output%" m.name = false) ∧
    ((∀ m ∈ WrapperStyle.inputs n, contains "%output%" m.name = false) →
      ∃ above below, WrapperStyle.wrapper {} n = above ++ "\n" ++ "%output%" ++ ("\n" ++ below) ∧
        ∀ body, replace "%output%" body (WrapperStyle.wrapper {} n) =
          above ++ "\n" ++ body ++ ("\n" ++ below)) := by
  obtain ⟨ds, -, hl⟩ := resolve_layout hg
  obtain ⟨i, hi⟩ := List.mem_iff_getElem?.mp hn
  obtain ⟨hp, hq⟩ := hdefault n.chunk (List.mem_of_getElem? (hl.node_at i n hi).1)
  obtain ⟨above, below, htext, hbelow, habove⟩ := wrapper_around hp hq
  have hfree : ¬ bodyMark <:+: ("\n" ++ below).toList := fun h => hbelow (h.subset List.mem_cons_self)
  have hnone : ¬ bodyMark <:+: above.toList ↔
      ∀ m ∈ WrapperStyle.inputs n, contains "%output%" m.name = false := by
    rw [habove]
    simp only [not_exists, not_and, Bool.not_eq_true]
  constructor
  · rw [htext, ← hnone]
    exact occurrences_eq_one_iff (by decide) (by decide) hfree
  · intro hnames
    refine ⟨above, below, htext, fun body => ?_⟩
    rw [htext]
    exact replace_of_single (by decide) (by decide) (hnone.mpr hnames) hfree body

/-! ## A name that is the placeholder -/

def markChunk : Chunk := ⟨⟨"%output%", "./x.js", "X", "X", .null, .null⟩, by decide⟩

def markRegistry : Registry := ⟨[markChunk, afterHalfChunk], by decide⟩

def markRoot : Node := ⟨markChunk, 0, 1, []⟩

def afterMark : Node := ⟨afterHalfChunk, 1, 1, [markRoot]⟩

theorem placeholder_once_or_more :
    (resolve stairRegistry stairOutput = .ok stairGraph ∧
      (∀ c ∈ stairRegistry.chunks, c.preamble = .null ∧ c.postamble = .null) ∧
      ∃ last, last ∈ stairGraph.nodes ∧ (WrapperStyle.loader {} last).parameters = ["B", "A"] ∧
        occurrences "%output%" (WrapperStyle.wrapper {} last) = 1) ∧
    resolve markRegistry ⟨["x:1", "y:1:x"], []⟩ = .ok ⟨[markRoot, afterMark], []⟩ ∧
    (∀ c ∈ markRegistry.chunks, c.preamble = .null ∧ c.postamble = .null) ∧
    occurrences "%output%" (WrapperStyle.wrapper {} markRoot) = 1 ∧
    occurrences "%output%" (WrapperStyle.wrapper {} afterMark) ≠ 1 := by
  have hstair : resolve stairRegistry stairOutput = .ok stairGraph := rfl
  have hmark : resolve markRegistry ⟨["x:1", "y:1:x"], []⟩ = .ok ⟨[markRoot, afterMark], []⟩ := rfl
  have hmarks : ∀ c ∈ markRegistry.chunks, c.preamble = .null ∧ c.postamble = .null :=
    List.forall_mem_cons.mpr ⟨⟨rfl, rfl⟩, List.forall_mem_singleton.mpr ⟨rfl, rfl⟩⟩
  have hlast := List.mem_of_getElem? (show stairGraph.nodes[2]? = some _ from rfl)
  obtain ⟨honce, -⟩ := placeholder_once_iff hstair stair_plain hlast
  obtain ⟨hroot, -⟩ := placeholder_once_iff hmark hmarks List.mem_cons_self
  obtain ⟨hafter, -⟩ := placeholder_once_iff hmark hmarks (List.mem_cons_of_mem _ List.mem_cons_self)
  refine ⟨⟨hstair, stair_plain, _, hlast, rfl, honce.mpr ?_⟩, hmark, hmarks, hroot.mpr ?_, ?_⟩
  · exact List.forall_mem_cons.mpr ⟨rfl, List.forall_mem_singleton.mpr rfl⟩
  · exact fun m hm => absurd hm List.not_mem_nil
  · intro h
    have hname : contains "%output%" "%output%" = false := hafter.mp h markRoot List.mem_cons_self
    exact absurd hname (by decide)

end ChunkBuild
