import ChunkBuild.Compiler.Run
import ChunkBuild.Proofs.Text.Pieces
/-! # Arguments by option

An option is named up to the first equals sign of an argument, so what is said under one name is found
under no other. Main statement: the arguments of a compiler run say under each name what the options
say, in order, and then what the run adds. -/
namespace ChunkBuild.Compiler

open ChunkBuild.Json ChunkBuild.Text

def valuesOf (key : String) (args : List String) : List String :=
  args.filterMap fun a => (after? ("--" ++ key ++ "=").toList a.toList).map String.ofList

def texts : Value → List String
  | .null | .bool _ => []
  | .arr items => items.map Value.display
  | v => [v.display]

def runFields (sources : List String) (outputDirectory : Path) : Fields Value :=
  [("chunk_output_path_prefix", .str (outputDirectory.text ++ "/")),
    ("create_source_map", .str "%outname%.map"), ("js", .texts sources)]

variable {key name : String} {command sources : List String} {options : Fields Value} {out : Path}

theorem after?_flag (hk : '=' ∉ key.toList) (hn : '=' ∉ name.toList) (x : String) :
    after? ("--" ++ key ++ "=").toList ("--" ++ name ++ "=" ++ x).toList =
      if name = key then some x.toList else none := by
  split_ifs with h
  · rw [after?_eq_some_iff, h, String.toList_append]
  · rw [Option.eq_none_iff_forall_ne_some]
    intro r hr
    rw [after?_eq_some_iff] at hr
    simp only [String.toList_append, List.append_assoc, List.append_cancel_left_eq] at hr
    have hequals : "=".toList = ['='] := rfl
    -- both names end at the first equals sign
    have hnames := congrArg (List.takeWhile (· ≠ '=')) hr
    rw [hequals, List.singleton_append, List.singleton_append, takeWhile_ne_append hn,
      takeWhile_ne_append hk, String.toList_inj] at hnames
    exact h hnames

theorem after?_bare (hn : '=' ∉ name.toList) :
    after? ("--" ++ key ++ "=").toList ("--" ++ name).toList = none := by
  rw [Option.eq_none_iff_forall_ne_some]
  intro r hr
  rw [after?_eq_some_iff] at hr
  simp only [String.toList_append, List.append_assoc, List.append_cancel_left_eq] at hr
  exact hn (hr ▸ List.mem_append_right _ List.mem_cons_self)

theorem texts_texts (xs : List String) : texts (.texts xs) = xs := by
  have hid : Value.display ∘ Value.str = id := funext fun _ => rfl
  rw [Value.texts, texts, List.map_map, hid, List.map_id]

theorem renderFlags_cons (f : String × Value) (r : Fields Value) :
    renderFlags (f :: r) = renderFlag f.1 f.2 ++ renderFlags r :=
  List.flatMap_cons

theorem renderFlags_append (r s : Fields Value) :
    renderFlags (r ++ s) = renderFlags r ++ renderFlags s :=
  List.flatMap_append

theorem valuesOf_append (key : String) (args more : List String) :
    valuesOf key (args ++ more) = valuesOf key args ++ valuesOf key more :=
  List.filterMap_append

theorem valuesOf_flags (hk : '=' ∉ key.toList) (hn : '=' ∉ name.toList) (xs : List String) :
    valuesOf key (xs.map fun x => "--" ++ name ++ "=" ++ x) = if name = key then xs else [] := by
  induction xs with
  | nil => exact (ite_self []).symm
  | cons x xs ih =>
    rw [valuesOf] at ih ⊢
    rw [List.map_cons, List.filterMap_cons, after?_flag hk hn, ih]
    by_cases h : name = key
    · rw [if_pos h, if_pos h, if_pos h, Option.map_some, String.ofList_toList]
    · rw [if_neg h, if_neg h, if_neg h, Option.map_none]

/-- A granted option is a flag that says nothing; any other one has a flag for each of its texts. -/
theorem renderFlag_eq (name : String) (v : Value) :
    renderFlag name v = (texts v).map (fun x => "--" ++ name ++ "=" ++ x) ∨
      v = .bool true ∧ renderFlag name v = ["--" ++ name] := by
  cases v with
  | bool b =>
    cases b with
    | true => exact .inr ⟨rfl, rfl⟩
    | false => exact .inl rfl
  | arr items =>
    left
    rw [texts, List.map_map]
    rfl
  | null | int _ | float _ | str _ | obj _ | calendar _ => exact .inl rfl

theorem valuesOf_renderFlag (hk : '=' ∉ key.toList) (hn : '=' ∉ name.toList) (v : Value) :
    valuesOf key (renderFlag name v) = if name = key then texts v else [] := by
  rcases renderFlag_eq name v with h | ⟨rfl, h⟩
  · rw [h, valuesOf_flags hk hn]
  · rw [h, valuesOf, List.filterMap_cons, after?_bare hn]
    exact (ite_self []).symm

theorem valuesOf_renderFlags (hk : '=' ∉ key.toList) (hn : ∀ f ∈ options, '=' ∉ f.1.toList) :
    valuesOf key (renderFlags options) =
      options.flatMap fun f => if f.1 = key then texts f.2 else [] := by
  induction options with
  | nil => rfl
  | cons f r ih =>
    rw [List.forall_mem_cons] at hn
    rw [renderFlags_cons, valuesOf_append, valuesOf_renderFlag hk hn.1, ih hn.2, List.flatMap_cons]

theorem compilerCommand_eq : compilerCommand command options sources out =
    command ++ renderFlags (options ++ runFields sources out) := by
  have hjs : renderFlag "js" (.texts sources) = sources.map ("--js=" ++ ·) := by
    rw [Value.texts, renderFlag, List.map_map]
    rfl
  have hrun : renderFlags (runFields sources out) =
      ["--chunk_output_path_prefix=" ++ out.text ++ "/", "--create_source_map=%outname%.map"] ++
        sources.map ("--js=" ++ ·) := by
    rw [runFields, renderFlags_cons, renderFlags_cons, renderFlags_cons, hjs, String.append_assoc]
    exact congrArg (_ :: _ :: ·) (List.append_nil _)
  rw [compilerCommand, renderFlags_append, hrun, List.append_assoc, List.append_assoc]

end ChunkBuild.Compiler
