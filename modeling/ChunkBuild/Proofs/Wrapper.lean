import ChunkBuild.Proofs.Graph.Order
import ChunkBuild.Proofs.Json.ReadBack
import ChunkBuild.Wrapper
/-! # One namespace for all chunks

The first chunk has no inputs and creates the namespace object. Every other chunk is handed earlier
chunks, the first one among them, and no other parameter of its factory goes by that one's alias. Main
statement: the loaders of a wrapper name the same chunks in the same order, and the namespace object is
read from what the first one exports. -/
namespace ChunkBuild

open ChunkBuild.Text ChunkBuild.Json

/-- The parts in which wrappers differ: what each way of loading names, the parameters of the factory
and the lines around the body. -/
structure Loader where
  files : List String
  required : List String
  globals : List String
  parameters : List String
  before : String
  after : String

namespace WrapperStyle

variable (w : WrapperStyle)

def creation : String := "const " ++ w.namespaceName ++ "=\x7b\x7d;"

def publication (exported : String) : String :=
  w.namespaceName ++ "." ++ exported ++ "." ++ w.handle ++ "=" ++ w.namespaceName ++ ";"

def retrieval (parameter : String) : String :=
  "const " ++ w.namespaceName ++ "=" ++ parameter ++ "." ++ w.handle ++ ";"

def loader (n : Node) : Loader where
  files := (inputs n).map w.fileLiteral
  required := ((inputs n).map w.fileLiteral).map fun f => "require(" ++ f ++ ")"
  globals := (inputs n).map fun i => "root." ++ i.chunk.exportsPath
  parameters := (inputs n).map fun i => i.chunk.importAlias
  before := declaredText (w.defaultPreamble n) n.chunk.preamble
  after := declaredText (w.defaultPostamble n) n.chunk.postamble

end WrapperStyle

def Loader.text (l : Loader) (w : WrapperStyle) (exported : String) : String :=
  "// Do not edit this file; automatically generated.\n\n/* eslint-disable */\n" ++
    ";(function(root, factory) \x7b\n" ++
    "  if (typeof define === 'function' && define.amd) \x7b // AMD\n" ++
    "    define([" ++ join ", " l.files ++ "], factory);\n" ++
    "  \x7d else if (typeof exports === 'object') \x7b // Node.js\n" ++
    "    module.exports = factory(" ++ join ", " l.required ++ ");\n" ++
    "  \x7d else \x7b // Browser\n" ++
    "    root." ++ exported ++ " = factory(" ++ join ", " l.globals ++ ");\n" ++
    "  \x7d\n" ++
    "\x7d(this, function(" ++ join ", " l.parameters ++ ") \x7b\n" ++
    l.before ++ "\n" ++ w.placeholder ++ "\n" ++ l.after ++ "\n" ++
    "return " ++ w.namespaceName ++ "." ++ exported ++ ";\n\x7d));\n"

structure Loader.Offers (l : Loader) (w : WrapperStyle) (k : Nat) (m : Node) : Prop where
  file : ∃ literal, l.files[k]? = some literal ∧
    parse literal = .ok (.str (rejoined ("./" ++ w.fileName m))) ∧
    l.required[k]? = some ("require(" ++ literal ++ ")")
  global : l.globals[k]? = some ("root." ++ m.chunk.exportsPath)
  parameter : l.parameters[k]? = some m.chunk.importAlias

/-- The wrapper of a chunk at a position is handed earlier chunks and reads the namespace object from
the first one. -/
structure Loader.Fetches (l : Loader) (w : WrapperStyle) (g : Graph) (i : Nat) : Prop where
  lengths : l.files.length = l.parameters.length ∧ l.required.length = l.parameters.length ∧
    l.globals.length = l.parameters.length
  entry : ∀ k < l.parameters.length, ∃ j m, j < i ∧ g.nodes[j]? = some m ∧ l.Offers w k m
  root : ∃ m, g.nodes[0]? = some m ∧ (∃ k, l.Offers w k m) ∧
    l.before = w.retrieval m.chunk.importAlias ∧ l.after = "" ∧
    ∀ k, l.parameters[k]? = some m.chunk.importAlias → l.Offers w k m

variable {w : WrapperStyle} {r : Registry} {ds : List Descriptor} {g : Graph} {i k : Nat} {n m : Node}

/-! ## Wrappers by name -/

theorem WrapperStyle.wrapper_eq (w : WrapperStyle) (n : Node) :
    w.wrapper n = (w.loader n).text w n.chunk.exportsPath := rfl

theorem foldl_put_eq {α β : Type} {key : α → String} {value : α → β} {xs : List α}
    {done : Fields β} (h : (done.map (·.1) ++ xs.map key).Nodup) :
    xs.foldl (fun acc x => acc.put (key x) (value x)) done =
      done ++ xs.map fun x => (key x, value x) := by
  induction xs generalizing done with
  | nil => exact (List.append_nil done).symm
  | cons x xs ih =>
    have hput : done.put (key x) (value x) = done ++ [(key x, value x)] :=
      Fields.put_of_not_mem (not_mem_of_nodup h)
    rw [List.foldl_cons, hput, ih, List.map_cons, List.append_assoc]
    · rfl
    · simpa using h

theorem WrapperStyle.wrappers_eq (w : WrapperStyle)
    (hd : g.nodes.Pairwise fun m n => m.name ≠ n.name) :
    w.wrappers g = g.nodes.map fun n => (n.name, w.wrapper n) := by
  have hkeys : (([] : Fields String).map (·.1) ++ g.nodes.map Node.name).Nodup :=
    List.pairwise_map.mpr hd
  exact foldl_put_eq hkeys

/-! ## The chunks that a wrapper is handed -/

namespace Layout

theorem isRoot_iff (hl : Layout r ds g) (hn : g.nodes[i]? = some n) : n.isRoot = true ↔ i = 0 := by
  rw [Node.isRoot, List.isEmpty_iff]
  exact (hl.node_at i n hn).2.2

/-- Two nodes of one name are the same, and so are two that are bound to one parameter. -/
theorem eq_of_not_distinct (hl : Layout r ds g) (hn : n ∈ g.nodes) (hm : m ∈ g.nodes)
    (h : n.name = m.name ∨ n.chunk.importAlias = m.chunk.importAlias) : n = m := by
  have hpair : g.nodes.Pairwise fun a b => Distinct a.chunk b.chunk := by
    rw [← List.pairwise_map (f := Node.chunk), hl.chunks_eq]
    exact r.distinct
  have : Std.Symm fun a b : Node => Distinct a.chunk b.chunk :=
    ⟨fun a b hab => ⟨hab.1.symm, hab.2.symm⟩⟩
  by_contra hne
  obtain ⟨hname, halias⟩ := hpair.forall hn hm hne
  rcases h with h | h
  · exact hname h
  · exact halias h

theorem root_at (hl : Layout r ds g) (hn : g.nodes[i]? = some n) : g.nodes[0]? = some n.root := by
  rw [← List.head?_eq_getElem?]
  exact hl.root_eq hn

/-- The inputs lie before the chunk, and the first chunk is one of them. -/
theorem inputs_earlier (hl : Layout r ds g) (hn : g.nodes[i]? = some n) (hi : i ≠ 0) :
    (∀ m ∈ WrapperStyle.inputs n, ∃ j, j < i ∧ g.nodes[j]? = some m) ∧
      n.root ∈ WrapperStyle.inputs n := by
  have hroot := hl.root_at hn
  have hnot : n.isRoot = false := by
    rw [← Bool.not_eq_true, hl.isRoot_iff hn]
    exact hi
  rw [WrapperStyle.inputs, hnot, Bool.false_or]
  by_cases hdirect : n.dependencyNames.contains n.root.name = true
  · rw [if_pos hdirect]
    -- the test is by name, and no other chunk has the name of the first one
    obtain ⟨m, hm, hname⟩ := List.mem_map.mp (List.contains_iff_mem.mp hdirect)
    obtain ⟨j, -, hj⟩ := hl.earlier hn hm
    obtain rfl := hl.eq_of_not_distinct (List.mem_of_getElem? hj) (List.mem_of_getElem? hroot)
      (.inl hname)
    exact ⟨fun m hm => hl.earlier hn hm, hm⟩
  · rw [if_neg hdirect]
    refine ⟨fun m hm => ?_, List.mem_append_right _ List.mem_cons_self⟩
    rcases List.mem_append.mp hm with hm | hm
    · exact hl.earlier hn hm
    · rw [List.mem_singleton.mp hm]
      exact ⟨0, Nat.pos_of_ne_zero hi, hroot⟩

end Layout

theorem offers_of_input (h : (WrapperStyle.inputs n)[k]? = some m) : (w.loader n).Offers w k m where
  file := by
    refine ⟨w.fileLiteral m, ?_, parse_stringText _, ?_⟩
    · rw [WrapperStyle.loader, List.getElem?_map, h]
      rfl
    · rw [WrapperStyle.loader, List.getElem?_map, List.getElem?_map, h]
      rfl
  global := by
    rw [WrapperStyle.loader, List.getElem?_map, h]
    rfl
  parameter := by
    rw [WrapperStyle.loader, List.getElem?_map, h]
    rfl

/-! ## The lines around the body -/

/-- A parameter goes by an identifier, which no brace begins. -/
theorem retrieval_ne_creation (c : Chunk) : w.retrieval c.importAlias ≠ w.creation := by
  have halias := c.isBindingName_importAlias
  intro h
  rw [WrapperStyle.retrieval, WrapperStyle.creation, ← String.toList_inj] at h
  simp only [String.toList_append, List.append_assoc, List.append_cancel_left_eq] at h
  rw [isBindingName] at halias
  cases hc : c.importAlias.toList with
  | nil =>
    rw [hc] at halias
    cases halias
  | cons a cs =>
    have hequals : "=".toList = ['='] := rfl
    have hcreation : "=\x7b\x7d;".toList = ['=', '\x7b', '\x7d', ';'] := rfl
    -- behind the equals sign one line has the parameter and the other one a brace
    rw [hc, hequals, hcreation] at h
    rw [hc] at halias
    obtain ⟨-, h⟩ := List.cons.inj h
    obtain ⟨rfl, -⟩ := List.cons.inj h
    rw [List.map_cons, isIdentifierChars, Bool.and_eq_true] at halias
    exact absurd halias.1 (by decide)

theorem loader_root (hl : Layout r ds g) (hn : g.nodes[0]? = some n)
    (hp : n.chunk.preamble = .null) (hq : n.chunk.postamble = .null) :
    w.loader n = ⟨[], [], [], [], w.creation, w.publication n.chunk.exportsPath⟩ := by
  have hroot : n.isRoot = true := (hl.isRoot_iff hn).mpr rfl
  have hdeps : n.dependencies = [] := List.isEmpty_iff.mp hroot
  have hinputs : WrapperStyle.inputs n = [] := by
    rw [WrapperStyle.inputs, hroot, Bool.true_or, if_pos rfl, hdeps]
  rw [WrapperStyle.loader, hinputs, hp, hq, WrapperStyle.declaredText, WrapperStyle.declaredText,
    WrapperStyle.defaultPreamble, WrapperStyle.defaultPostamble, hroot]
  rfl

theorem loader_fetches (hl : Layout r ds g) (hn : g.nodes[i]? = some n) (hi : i ≠ 0)
    (hp : n.chunk.preamble = .null) (hq : n.chunk.postamble = .null) :
    (w.loader n).Fetches w g i := by
  have hroot : n.isRoot = false := by
    rw [← Bool.not_eq_true, hl.isRoot_iff hn]
    exact hi
  obtain ⟨hearlier, hmem⟩ := hl.inputs_earlier hn hi
  have hentry : ∀ k < (w.loader n).parameters.length,
      ∃ j m, j < i ∧ g.nodes[j]? = some m ∧ (w.loader n).Offers w k m := by
    intro k hk
    have hk' : k < (WrapperStyle.inputs n).length := by simpa [WrapperStyle.loader] using hk
    have hm := List.getElem?_eq_getElem hk'
    obtain ⟨j, hj, hat⟩ := hearlier _ (List.mem_of_getElem? hm)
    exact ⟨j, _, hj, hat, offers_of_input hm⟩
  constructor
  · simp [WrapperStyle.loader]
  · exact hentry
  · obtain ⟨k, hk⟩ := List.mem_iff_getElem?.mp hmem
    refine ⟨n.root, hl.root_at hn, ⟨k, offers_of_input hk⟩, ?_, ?_, ?_⟩
    · rw [WrapperStyle.loader, hp, WrapperStyle.declaredText, WrapperStyle.defaultPreamble, hroot]
      rfl
    · rw [WrapperStyle.loader, hq, WrapperStyle.declaredText, WrapperStyle.defaultPostamble, hroot]
      rfl
    · intro k' hk'
      obtain ⟨j, m, -, hat, hoffers⟩ := hentry k' (List.getElem?_eq_some_iff.mp hk').1
      have halias := Option.some.inj (hoffers.parameter.symm.trans hk')
      obtain rfl := hl.eq_of_not_distinct (List.mem_of_getElem? hat)
        (List.mem_of_getElem? (hl.root_at hn)) (.inr halias)
      exact hoffers

/-- A wrapper for each chunk in declared order, of which the first one creates the namespace object and
each other one fetches it. -/
theorem wrappers_share_namespace (w : WrapperStyle) {r : Registry} {raw : RawOutput} {g : Graph}
    (hg : resolve r raw = .ok g)
    (hdefault : ∀ c ∈ r.chunks, c.preamble = .null ∧ c.postamble = .null) :
    (w.wrappers g).map (·.1) = r.chunks.map (·.name) ∧
    w.wrappers g = g.nodes.map (fun n => (n.name, (w.loader n).text w n.chunk.exportsPath)) ∧
    (∀ (i : Nat) (n : Node), g.nodes[i]? = some n →
      ((w.loader n).before = w.creation ↔ i = 0) ∧
      (i = 0 → w.loader n = ⟨[], [], [], [], w.creation, w.publication n.chunk.exportsPath⟩) ∧
      (i ≠ 0 → (w.loader n).Fetches w g i)) ∧
    ∀ s : String, rejoined s = s ↔ IsWhole s := by
  obtain ⟨ds, -, hl⟩ := resolve_layout hg
  have hwrappers :
      w.wrappers g = g.nodes.map fun n => (n.name, (w.loader n).text w n.chunk.exportsPath) := by
    rw [w.wrappers_eq (resolved_names_distinct hg)]
    exact List.map_congr_left fun n _ => congrArg (Prod.mk n.name) (w.wrapper_eq n)
  refine ⟨?_, hwrappers, ?_, fun s => rejoined_eq_iff⟩
  · rw [hwrappers, ← hl.chunks_eq, List.map_map, List.map_map]
    rfl
  · intro i n hn
    obtain ⟨hp, hq⟩ := hdefault n.chunk (List.mem_of_getElem? (hl.node_at i n hn).1)
    have hroot : i = 0 →
        w.loader n = ⟨[], [], [], [], w.creation, w.publication n.chunk.exportsPath⟩ := by
      rintro rfl
      exact loader_root hl hn hp hq
    have hfetches : i ≠ 0 → (w.loader n).Fetches w g i := fun hi => loader_fetches hl hn hi hp hq
    refine ⟨⟨?_, fun hi => by rw [hroot hi]⟩, hroot, hfetches⟩
    intro hbefore
    by_contra hi
    obtain ⟨m, -, -, hreads, -⟩ := (hfetches hi).root
    exact retrieval_ne_creation m.chunk (hreads.symm.trans hbefore)

theorem stair_wrappers :
    resolve stairRegistry stairOutput = .ok stairGraph ∧
    (∀ c ∈ stairRegistry.chunks, c.preamble = .null ∧ c.postamble = .null) ∧
    ∃ first last, stairGraph.nodes[0]? = some first ∧ stairGraph.nodes[2]? = some last ∧
      WrapperStyle.loader {} first = ⟨[], [], [], [], "const $=\x7b\x7d;", "$.A.internal_=$;"⟩ ∧
      (WrapperStyle.loader {} last).parameters = ["B", "A"] ∧
      (WrapperStyle.loader {} last).Fetches {} stairGraph 2 := by
  have hresolve : resolve stairRegistry stairOutput = .ok stairGraph := rfl
  have hdefault : ∀ c ∈ stairRegistry.chunks, c.preamble = .null ∧ c.postamble = .null :=
    List.forall_mem_cons.mpr ⟨⟨rfl, rfl⟩, List.forall_mem_cons.mpr ⟨⟨rfl, rfl⟩,
      List.forall_mem_singleton.mpr ⟨rfl, rfl⟩⟩⟩
  obtain ⟨-, -, hloaders, -⟩ := wrappers_share_namespace {} hresolve hdefault
  obtain ⟨-, hfirst, -⟩ := hloaders 0 _ rfl
  obtain ⟨-, -, hlast⟩ := hloaders 2 _ rfl
  exact ⟨hresolve, hdefault, _, _, rfl, rfl, hfirst rfl, rfl, hlast (by decide)⟩

/-! ## A name that ends in a half -/

def halfChunk : Chunk :=
  ⟨⟨String.ofList ('a' :: ofPoints [0xD83D]), "./x.js", "X", "X", .null, .null⟩, by decide⟩

def afterHalfChunk : Chunk := ⟨⟨"b", "./y.js", "Y", "Y", .null, .null⟩, by decide⟩

def halfRegistry : Registry := ⟨[halfChunk, afterHalfChunk], by decide⟩

def halfRoot : Node := ⟨halfChunk, 0, 1, []⟩

def afterHalf : Node := ⟨afterHalfChunk, 1, 1, [halfRoot]⟩

def halfStyle : WrapperStyle := { compiledSuffix := String.ofList (ofPoints [0xDE00]) }

theorem halves_come_back_as_one :
    resolve halfRegistry ⟨["x:1", "y:1:x"], ["./x.js", "./y.js"]⟩ =
      .ok ⟨[halfRoot, afterHalf], ["./x.js", "./y.js"]⟩ ∧
    (∀ c ∈ halfRegistry.chunks, c.preamble = .null ∧ c.postamble = .null) ∧
    ∃ literal, (halfStyle.loader afterHalf).files = [literal] ∧
      halfStyle.wrapper afterHalf = (halfStyle.loader afterHalf).text halfStyle "Y" ∧
      parse literal = .ok (.str "./a😀.js") ∧
      parse literal ≠ .ok (.str ("./" ++ halfStyle.fileName halfRoot)) := by
  have hjoined : rejoined ("./" ++ halfStyle.fileName halfRoot) = "./a😀.js" := by decide +kernel
  have hparse : parse (halfStyle.fileLiteral halfRoot) = .ok (.str "./a😀.js") := by
    rw [WrapperStyle.fileLiteral, parse_stringText, hjoined]
  refine ⟨rfl, ?_, _, rfl, rfl, hparse, ?_⟩
  · exact List.forall_mem_cons.mpr ⟨⟨rfl, rfl⟩, List.forall_mem_singleton.mpr ⟨rfl, rfl⟩⟩
  · rw [hparse]
    intro h
    have hname : "./a😀.js" = "./" ++ halfStyle.fileName halfRoot := Value.str.inj (Except.ok.inj h)
    exact absurd hname (by decide +kernel)

end ChunkBuild
