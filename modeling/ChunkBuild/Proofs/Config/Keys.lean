import ChunkBuild.Config.Layers
import ChunkBuild.Proofs.Config.Merge
import ChunkBuild.Proofs.Host.Jobs
import ChunkBuild.Proofs.Item
import ChunkBuild.Proofs.Json.Reads
/-! # Keys of what is read

Files and variables give each key once, in a whole layer and in each of its sections. -/
namespace ChunkBuild.Json

open ChunkBuild.Text

/-- A value in which each key stands once, as far as objects lie directly in one another. -/
inductive Value.IsKeyed : Value → Prop where
  | obj {fields : Fields Value} : (fields.map (·.1)).Nodup → (∀ f ∈ fields, IsKeyed f.2) →
    IsKeyed (.obj fields)
  | other {v : Value} : (∀ fields, v ≠ .obj fields) → IsKeyed v

variable {depth : Nat} {s rest : List Char} {v : Value}

theorem Value.IsKeyed.put {fields : Fields Value} {key : String}
    (hf : (fields.map (·.1)).Nodup ∧ ∀ f ∈ fields, f.2.IsKeyed) (hv : v.IsKeyed) :
    ((fields.put key v).map (·.1)).Nodup ∧ ∀ f ∈ fields.put key v, f.2.IsKeyed := by
  refine ⟨Fields.nodup_put hf.1, fun f hmem => ?_⟩
  rcases Fields.mem_put hmem with hmem | hval
  · exact hf.2 f hmem
  · rw [hval]
    exact hv

theorem Numeral.value_keyed {n : Numeral} (h : n.value = .ok v) : v.IsKeyed := by
  unfold Numeral.value at h
  split at h
  · split at h
    · cases h
    · cases h
      exact .other fun _ h => nomatch h
  · cases h
    exact .other fun _ h => nomatch h

theorem readScalar_keyed (h : readScalar s = .ok (v, rest)) : v.IsKeyed := by
  unfold readScalar at h
  split at h
  case h_7 =>
    split at h
    · next hnumber =>
      cases h
      rw [readNumber_eq] at hnumber
      obtain ⟨⟨n, _⟩, -, hn⟩ := Option.map_eq_some_iff.mp hnumber
      exact Numeral.value_keyed (Prod.mk.inj hn).1
    · cases h
    · cases h
  all_goals
    cases h
    exact .other fun _ h => nomatch h

def Reading.IsKeyed : Reading → Prop
  | .members done => (done.map (·.1)).Nodup ∧ ∀ f ∈ done, f.2.IsKeyed
  | _ => True

/-- Reading puts the fields of an object one after the other under keys of their own. -/
theorem keyed_of_reads {g : Reading} (h : Reads g depth s v rest) (hg : g.IsKeyed) :
    v.IsKeyed := by
  have hlist {items : List Value} : (Value.arr items).IsKeyed := .other fun _ h => nomatch h
  induction h with
  | text => exact .other fun _ h => nomatch h
  | scalar hs => exact readScalar_keyed hs
  | emptyList | lastItem => exact hlist
  | list _ ih => exact ih trivial
  | item _ _ _ _ ihr => exact ihr trivial
  | emptyObject => exact .obj .nil fun _ h => nomatch h
  | object _ ih => exact ih ⟨List.nodup_nil, fun _ h => nomatch h⟩
  | lastMember _ _ _ _ ih =>
    obtain ⟨hnodup, hkeyed⟩ := Value.IsKeyed.put hg (ih trivial)
    exact .obj hnodup hkeyed
  | member _ _ _ _ _ ih ihr => exact ihr (Value.IsKeyed.put hg (ih trivial))

theorem parse_keyed {text : String} (h : parse text = .ok v) : v.IsKeyed := by
  obtain ⟨_, _, hreads⟩ := reads_of_parse h
  exact keyed_of_reads hreads trivial

end ChunkBuild.Json

namespace ChunkBuild.Yaml

open ChunkBuild.Json

inductive Content.IsKeyed : Content → Prop where
  | scalar {s : Scalar} : s.toValue.IsKeyed → IsKeyed (.scalar s)
  | unreadable {e : ReadError} : IsKeyed (.unreadable e)
  | sequence {items : List Content} : (∀ c ∈ items, IsKeyed c) → IsKeyed (.sequence items)
  | mapping {mark : Option Nat} {pairs : List (Content × Content)} : (∀ p ∈ pairs, IsKeyed p.2) →
    IsKeyed (.mapping mark pairs)
  | unmergeable : IsKeyed .unmergeable

theorem mem_putKey {k : Scalar} {item : Item} {l : List (Scalar × Item)} {p : Scalar × Item}
    (h : p ∈ putKey k item l) : p ∈ l ∨ p.2 = item := by
  induction l with
  | nil => exact .inr (congrArg Prod.snd (List.mem_singleton.mp h))
  | cons q l ih =>
    rw [putKey] at h
    split at h
    · rcases List.mem_cons.mp h with rfl | h
      · exact .inr rfl
      · exact .inl (List.mem_cons_of_mem _ h)
    · rcases List.mem_cons.mp h with rfl | h
      · exact .inl List.mem_cons_self
      · exact (ih h).imp_left (List.mem_cons_of_mem _)

theorem mem_foldl_putKey {pairs done : List (Scalar × Item)} {p : Scalar × Item}
    (h : p ∈ pairs.foldl (fun acc q => putKey q.1 q.2 acc) done) :
    p ∈ done ∨ ∃ q ∈ pairs, p.2 = q.2 := by
  induction pairs generalizing done with
  | nil => exact .inl h
  | cons q pairs ih =>
    rcases ih h with hput | ⟨q', hq, hp⟩
    · exact (mem_putKey hput).imp_right fun hp => ⟨q, List.mem_cons_self, hp⟩
    · exact .inr ⟨q', List.mem_cons_of_mem _ hq, hp⟩

theorem keyedFields_keyed {pairs : List (Scalar × Item)} (h : ∀ p ∈ pairs, p.2.toValue.IsKeyed)
    (mark : Option Nat) : (Item.mapping mark (keyedFields pairs)).toValue.IsKeyed := by
  refine .obj ?_ fun f hf => ?_
  · rw [Item.keys_fieldValues]
    exact Fields.nodup_putAll .nil
  · obtain ⟨g, hg, rfl⟩ := Item.mem_fieldValues hf
    rcases Fields.mem_putAll hg with hnil | ⟨g', hg, hitem⟩
    · cases hnil
    · obtain ⟨p, hp, rfl⟩ := List.mem_map.mp hg
      rcases mem_foldl_putKey hp with hnil | ⟨q, hq, hpq⟩
      · cases hnil
      · dsimp only
        rw [hitem, hpq]
        exact h q hq

theorem mem_pairItems {pairs : List (Content × Content)} {q : Scalar × Item}
    (h : q ∈ pairItems pairs) : ∃ p ∈ pairs, q.2 = p.2.item := by
  induction pairs with
  | nil => cases h
  | cons p pairs ih =>
    obtain ⟨k, v⟩ := p
    have hlater (h : q ∈ pairItems pairs) : ∃ p ∈ (k, v) :: pairs, q.2 = p.2.item := by
      obtain ⟨p, hp, hq⟩ := ih h
      exact ⟨p, List.mem_cons_of_mem _ hp, hq⟩
    cases k with
    | scalar k =>
      rw [pairItems] at h
      rcases List.mem_cons.mp h with rfl | h
      · exact ⟨_, List.mem_cons_self, rfl⟩
      · exact hlater h
    | _ => exact hlater h

theorem Content.IsKeyed.item {c : Content} (h : c.IsKeyed) : c.item.toValue.IsKeyed := by
  induction h with
  | scalar hs =>
    rw [Content.item, Item.toValue_ofValue]
    exact hs
  | mapping _ ih =>
    rw [Content.item]
    refine keyedFields_keyed (fun q hq => ?_) _
    obtain ⟨p, hp, hitem⟩ := mem_pairItems hq
    rw [hitem]
    exact ih p hp
  | _ =>
    rw [Content.item]
    exact .other fun _ h => nomatch h

theorem plainScalar_keyed {text : String} {x : Scalar} (h : plainScalar text = .ok x) :
    x.toValue.IsKeyed := by
  refine .other fun fields hx => ?_
  unfold plainScalar at h
  dsimp only at h
  split at h
  · cases h
    cases hx
  · obtain ⟨_, -, rfl⟩ := except_map_eq_ok.mp h
    cases hx
  · obtain ⟨_, -, rfl⟩ := except_map_eq_ok.mp h
    cases hx
  · split at h
    · cases h
      cases hx
    · split at h
      · cases h
      · split at h
        · obtain ⟨_, -, rfl⟩ := except_map_eq_ok.mp h
          cases hx
        · cases h
          cases hx

theorem ofText_keyed (text : String) (plain : Bool) : (Content.ofText text plain).IsKeyed := by
  unfold Content.ofText
  split
  · split
    · next hs => exact .scalar (plainScalar_keyed hs)
    · exact .unreadable
  · exact .scalar (.other fun _ h => nomatch h)

theorem mergedPairs?_keyed {c : Content} {merged : List (Content × Content)} (hc : c.IsKeyed)
    (h : mergedPairs? c = some merged) : ∀ p ∈ merged, p.2.IsKeyed := by
  cases hc with
  | mapping hp =>
    cases h
    exact hp
  | sequence hi =>
    intro p hp
    obtain ⟨lists, hlists, rfl⟩ := Option.map_eq_some_iff.mp h
    obtain ⟨pairs, hpairs, hp⟩ := List.mem_flatten.mp hp
    obtain ⟨c, hc, hpairsOf⟩ := mem_of_mapM_eq_some hlists (List.mem_reverse.mp hpairs)
    cases hi c hc with
    | mapping hkeyed =>
      cases hpairsOf
      exact hkeyed p hp
    | _ => cases hpairsOf
  | _ => cases h

theorem joinedPairs_keyed {pairs : List (Option Content × Content)}
    (h : ∀ p ∈ pairs, p.2.IsKeyed) (mark : Option Nat) : (joinedPairs mark pairs).IsKeyed := by
  unfold joinedPairs
  dsimp only
  split
  · next merged hm =>
    refine .mapping (List.forall_mem_append.mpr ⟨fun p hp => ?_, fun p hp => ?_⟩)
    · obtain ⟨l, hl, hp⟩ := List.mem_flatten.mp hp
      obtain ⟨q, hq, hmerged⟩ := mem_of_mapM_eq_some hm hl
      exact mergedPairs?_keyed (h q (List.mem_filter.mp hq).1) hmerged p hp
    · obtain ⟨q, hq, hown⟩ := List.mem_filterMap.mp hp
      obtain ⟨k, -, rfl⟩ := Option.map_eq_some_iff.mp hown
      exact h q hq
  · exact .unmergeable

mutual

theorem content_keyed : ∀ n : Node, n.content.IsKeyed
  | .scalar text plain => by
    rw [Node.content]
    exact ofText_keyed text plain
  | .sequence ns => by
    rw [Node.content]
    exact .sequence (itemContents_keyed ns)
  | .mapping mark ps => by
    rw [Node.content]
    exact joinedPairs_keyed (pairContents_keyed ps) mark
  | .anchored _ _ | .reference _ => by
    rw [Node.content]
    exact .unreadable

theorem itemContents_keyed : ∀ ns : List Node, ∀ c ∈ itemContents ns, c.IsKeyed
  | [] => fun _ h => by
    rw [itemContents] at h
    cases h
  | n :: ns => by
    rw [itemContents]
    exact List.forall_mem_cons.mpr ⟨content_keyed n, itemContents_keyed ns⟩

theorem pairContents_keyed : ∀ ps : List (Node × Node), ∀ p ∈ pairContents ps, p.2.IsKeyed
  | [] => fun _ h => by
    rw [pairContents] at h
    cases h
  | (k, v) :: ps => by
    rw [pairContents]
    exact List.forall_mem_cons.mpr ⟨content_keyed v, pairContents_keyed ps⟩

end

theorem parse_keyed {s : String} {c : Content} (h : Content.parse s = .ok c) : c.IsKeyed := by
  obtain ⟨n, -, h⟩ := except_bind_eq_ok.mp h
  dsimp only at h
  split at h
  · cases h
  · cases h
    exact content_keyed n

end ChunkBuild.Yaml

namespace ChunkBuild.Config

open ChunkBuild.Json

/-! ## Layers -/

theorem isLayer_of_keyed {fields : Fields Value} (h : (Value.obj fields).IsKeyed) :
    IsLayer fields := by
  cases h with
  | obj hnodup hkeyed =>
    refine ⟨hnodup, fun {name inner} hinner => ?_⟩
    cases hkeyed _ (Fields.mem_of_get? hinner) with
    | obj hnodup => exact hnodup
    | other h => exact absurd rfl (h inner)
  | other h => exact absurd rfl (h fields)

/-- A reader gives each key of a mapping once. -/
def IsKeyedReader (yaml : YamlReader) : Prop := ∀ s d, yaml s = .ok d → d.item.toValue.IsKeyed

theorem readYaml_keyed : IsKeyedReader readYaml := by
  intro s d h
  obtain ⟨c, hc, rfl⟩ := except_map_eq_ok.mp h
  exact (Yaml.parse_keyed hc).item

theorem fields_ofFields (fields : Fields Value) : (Layer.ofFields fields).fields = fields :=
  Item.fieldValues_ofFields fields

theorem keyed_fields {layer : Fields Value} (h : (Value.obj layer).IsKeyed) :
    (layer.map (·.1)).Nodup ∧ ∀ f ∈ layer, f.2.IsKeyed := by
  cases h with
  | obj hkeys hvalues => exact ⟨hkeys, hvalues⟩
  | other h => exact absurd rfl (h layer)

theorem keyed_nil : (Value.obj []).IsKeyed := .obj .nil fun _ h => nomatch h

theorem keyed_layerOf {p : Path} {item : Item} {l : Layer} (hi : item.toValue.IsKeyed)
    (h : layerOf p item = .ok l) : (Value.obj l.fields).IsKeyed := by
  cases item with
  | null =>
    cases h
    exact keyed_nil
  | mapping mark fields =>
    cases h
    exact hi
  | _ => cases h

/-- The layer of a text in JSON has no marks. -/
theorem exists_of_layerOfJson {p : Path} {s : String} {l : Layer} (h : layerOfJson p s = .ok l) :
    ∃ fields, l = .ofFields fields ∧ (Value.obj fields).IsKeyed := by
  unfold layerOfJson at h
  split at h
  · next v hv =>
    have hkeyed := parse_keyed hv
    cases v with
    | null =>
      cases h
      exact ⟨[], rfl, keyed_nil⟩
    | obj fields =>
      cases h
      exact ⟨fields, rfl, hkeyed⟩
    | _ => cases h
  · cases h
  · cases h
  · cases h

variable {yaml : YamlReader}

theorem keyed_layerOfYaml {p : Path} {s : String} {l : Layer} (hy : IsKeyedReader yaml)
    (h : layerOfYaml yaml p s = .ok l) : (Value.obj l.fields).IsKeyed := by
  unfold layerOfYaml at h
  split at h
  · next d hd =>
    obtain ⟨_, hl, rfl⟩ := except_map_eq_ok.mp h
    have hlayer := keyed_layerOf (hy s d hd) hl
    exact hlayer
  · cases h
  · cases h
  · cases h
  · cases h

theorem loadFile_eq_ok {p : Path} {l : Layer} {h k : Host} (hl : loadFileBy yaml p h = .ok l k) :
    ∃ s, (if isYaml p then layerOfYaml yaml p s else layerOfJson p s) = .ok l := by
  obtain ⟨found, _, -, hl⟩ := Job.bind_eq_ok.mp hl
  cases found with
  | false => cases hl
  | true =>
    obtain ⟨read, _, -, hl⟩ := Job.bind_eq_ok.mp hl
    split at hl
    · next s => exact ⟨s, (Job.lift_eq_ok.mp hl).1⟩
    · cases hl
    · cases hl

/-- The layer of a file in JSON has no marks. -/
theorem exists_of_loadFile {p : Path} {l : Layer} {h k : Host} (hp : isYaml p = false)
    (hl : loadFileBy yaml p h = .ok l k) :
    ∃ fields, l = .ofFields fields ∧ (Value.obj fields).IsKeyed := by
  obtain ⟨s, hs⟩ := loadFile_eq_ok hl
  rw [hp, if_neg Bool.false_ne_true] at hs
  exact exists_of_layerOfJson hs

/-- A file gives each key once. -/
theorem keyed_loadFile {p : Path} {l : Layer} {h k : Host} (hy : IsKeyedReader yaml)
    (hl : loadFileBy yaml p h = .ok l k) : (Value.obj l.fields).IsKeyed := by
  obtain ⟨s, hs⟩ := loadFile_eq_ok hl
  split at hs
  · exact keyed_layerOfYaml hy hs
  · obtain ⟨fields, rfl, hkeyed⟩ := exists_of_layerOfJson hs
    rwa [fields_ofFields]

theorem keyed_loadProjectFile {directory : Path} {file : Option Path} {l : Layer} {h k : Host}
    (hy : IsKeyedReader yaml) (hl : loadProjectFile yaml directory file h = .ok l k) :
    (Value.obj l.fields).IsKeyed := by
  cases file with
  | some p => exact keyed_loadFile hy hl
  | none =>
    obtain ⟨found, _, -, hl⟩ := Job.bind_eq_ok.mp hl
    cases found with
    | some p => exact keyed_loadFile hy hl
    | none =>
      cases hl
      exact keyed_nil

theorem isYaml_userFile (home : Path) : isYaml (userFile home) = false := by
  have hdirectory : Path.ofText ".chunklink" = ⟨.relative, [".chunklink"]⟩ := by decide
  have hfile : Path.ofText "config.json" = ⟨.relative, ["config.json"]⟩ := by decide
  have hname : (userFile home).name = "config.json" := by
    rw [userFile, Path.child, Path.child, hdirectory, hfile]
    simp [Path.join, Path.isAbsolute, Path.name]
  rw [isYaml, Path.suffix, hname]
  decide

/-- The user's file is in JSON, so its layer has no marks. -/
theorem exists_of_loadUserFile {l : Layer} {h k : Host} (hl : loadUserFile h = .ok l k) :
    ∃ fields, l = .ofFields fields ∧ (Value.obj fields).IsKeyed := by
  obtain ⟨_, _, -, hl⟩ := Job.bind_eq_ok.mp hl
  obtain ⟨home, _, -, hl⟩ := Job.bind_eq_ok.mp hl
  obtain ⟨stands, _, -, hl⟩ := Job.bind_eq_ok.mp hl
  cases stands with
  | false =>
    cases hl
    exact ⟨[], rfl, keyed_nil⟩
  | true =>
    obtain ⟨read, _, hread, hl⟩ := Job.bind_eq_ok.mp hl
    split at hl
    · cases hl
      obtain ⟨_, hload, hsame⟩ | ⟨_, -, hsame⟩ := Job.outcome_eq_ok.mp hread
      · cases hsame
        exact exists_of_loadFile (isYaml_userFile home) hload
      · cases hsame
    · obtain ⟨_, _, -, hl⟩ := Job.bind_eq_ok.mp hl
      cases hl
      exact ⟨[], rfl, keyed_nil⟩
    · cases hl

theorem keyed_loadUserFile {l : Layer} {h k : Host} (hl : loadUserFile h = .ok l k) :
    (Value.obj l.fields).IsKeyed := by
  obtain ⟨fields, rfl, hkeyed⟩ := exists_of_loadUserFile hl
  rwa [fields_ofFields]

/-! ## Variables -/

theorem nodup_respelled (n : Naming) (group : Group) (fields : Fields Value) :
    ((respelled n group fields).map (·.1)).Nodup := by
  have hfold (done : Fields Value) (hd : (done.map (·.1)).Nodup) :
      ((fields.foldl (fun acc f =>
        let name := (group.fields.find? fun known => n.spelled known = n.spelled f.1).getD f.1
        acc.put name f.2) done).map (·.1)).Nodup := by
    induction fields generalizing done with
    | nil => exact hd
    | cons f r ih => exact ih _ (Fields.nodup_put hd)
  exact hfold [] .nil

theorem nodup_groupVariable {vs : Variables} {name : String} {group : Group}
    {inner : Fields Value} (h : groupVariable vs name group = .ok (some (.obj inner))) :
    (inner.map (·.1)).Nodup := by
  unfold groupVariable at h
  split at h
  · split at h
    · cases h
    · obtain ⟨v, -, h⟩ := except_bind_eq_ok.mp h
      split at h
      · cases h
      · obtain ⟨_, -, h⟩ := except_bind_eq_ok.mp h
        cases h
        exact nodup_respelled _ _ _
      · next hv =>
        cases h
        exact absurd rfl (hv inner)
  · obtain ⟨_, -, h⟩ := except_bind_eq_ok.mp h
    split at h
    · cases h
    · cases h
      exact nodup_respelled _ _ _

/-- What variables say, group by group and with what they say about the flag at the end. -/
theorem ofEnvironment_eq_ok {source : String} {n : Naming} {environment : Fields (Option String)}
    {fields : Fields Value} (h : ofEnvironment source n environment = .ok fields) :
    ∃ vs given found, List.Sublist given groups ∧
      List.Forall₂ (fun g f => g.1 = f.1 ∧ groupVariable vs g.1 g.2 = .ok (some f.2)) given found ∧
      fields = found ++ (vs.text? "debug").toList.map fun s => ("debug", vs.value s) := by
  obtain ⟨vs, -, h⟩ := except_bind_eq_ok.mp h
  obtain ⟨found, hfound, h⟩ := except_bind_eq_ok.mp h
  cases h
  obtain ⟨given, hgiven, hall⟩ := filterMapM_eq_ok hfound
  refine ⟨vs, given, found, hgiven, hall.imp fun g f hone => ?_, rfl⟩
  obtain ⟨said, hsaid, hone⟩ := except_bind_eq_ok.mp hone
  obtain ⟨v, rfl, rfl⟩ := Option.map_eq_some_iff.mp (Except.ok.inj hone)
  exact ⟨rfl, hsaid⟩

/-- Variables give each setting once. -/
theorem isLayer_ofEnvironment {source : String} {n : Naming}
    {environment : Fields (Option String)} {fields : Fields Value}
    (h : ofEnvironment source n environment = .ok fields) : IsLayer fields := by
  obtain ⟨vs, given, found, hgiven, hall, rfl⟩ := ofEnvironment_eq_ok h
  have hkeys : given.map (·.1) = found.map (·.1) := by
    rw [← List.forall₂_eq_eq_eq, List.forall₂_map_left_iff, List.forall₂_map_right_iff]
    exact hall.imp fun _ _ hone => hone.1
  constructor
  · have hnames : settingNames.Nodup := by decide
    refine List.Sublist.nodup ?_ hnames
    rw [List.map_append, ← hkeys, settingNames]
    refine (hgiven.map _).append ?_
    cases vs.text? "debug" with
    | none => exact List.nil_sublist _
    | some s => exact .refl _
  · intro name inner hinner
    rcases List.mem_append.mp (Fields.mem_of_get? hinner) with hmem | hmem
    · obtain ⟨g, -, hname, hg⟩ := exists_left_of_forall₂ hall hmem
      exact nodup_groupVariable hg
    · obtain ⟨s, -, hs⟩ := List.mem_map.mp hmem
      -- a text or null, whatever the variable says
      have hvalue : vs.value s = .obj inner := congrArg Prod.snd hs
      unfold Variables.value at hvalue
      split at hvalue
      · cases hvalue
      · cases hvalue

end ChunkBuild.Config
