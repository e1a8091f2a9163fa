import ChunkBuild.Proofs.Host.Looking
import ChunkBuild.Proofs.Json.Content
import ChunkBuild.Source.Map
/-! # What a rewritten map holds

The bytes of a map's file decide what becomes of it. A map that is read is written again with its sources
changed in place and its names set, and reads back as such. What cannot be read, or is no object, is left
as it is. The number of the sources is asked for when the file is written, so a map without one is changed
and fails. -/
namespace ChunkBuild.Source

open ChunkBuild.Json ChunkBuild.Text

variable {change : String → Except Failure String} {root name : Option String}
  {map old new changed : Fields Value} {key : String} {h k : Host} {p : Path} {bytes : Bytes}

/-! ## Maps in their files -/

theorem has_of_readText {s : String} (hr : Job.readText p h = .ok s k) :
    ∃ content, h.Has p (.file content) ∧ k = h := by
  obtain ⟨raw, m, hraw, hs⟩ := Job.bind_eq_ok.mp hr
  obtain ⟨content, hhas, -, rfl⟩ := Job.readRaw_eq_ok.mp hraw
  cases hs
  exact ⟨content, hhas, rfl⟩

theorem has_of_readMap {v : Value} (hr : readMap p h = .ok v k) :
    ∃ content, h.Has p (.file content) ∧ k = h := by
  obtain ⟨outcome, m, houtcome, hv⟩ := Job.bind_eq_ok.mp hr
  rcases Job.outcome_eq_ok.mp houtcome with ⟨s, hs, rfl⟩ | ⟨e, -, rfl⟩
  · obtain ⟨content, hhas, rfl⟩ := has_of_readText hs
    refine ⟨content, hhas, ?_⟩
    dsimp only at hv
    cases hp : parse s with
    | ok v =>
      rw [hp] at hv
      cases hv
      rfl
    | error problem =>
      rw [hp] at hv
      cases problem
      all_goals cases hv
  · cases e
    all_goals cases hv

/-- A map that was changed stood at its place, and only what stands there is another one. -/
theorem put_of_changeMapFile {t : PathTransform} {sourceRoot fileName : Value}
    {fields : Fields Value} (hr : changeMapFile p t sourceRoot fileName h = .ok fields k) :
    ∃ loc old new, h.LeadsTo p loc ∧ h.files.at? loc = some (.file old) ∧
      k = { h with files := h.files.put loc (.file new) } := by
  obtain ⟨v, _, hread, hchange⟩ := Job.bind_eq_ok.mp hr
  obtain ⟨old, ⟨loc, hp, hold⟩, rfl⟩ := has_of_readMap hread
  obtain ⟨map, -, hrestore⟩ := Job.lift_bind_eq_ok.mp hchange
  obtain ⟨restored, -, hrest⟩ := Job.lift_bind_eq_ok.mp hrestore
  obtain ⟨_, m, hwrite, hcount⟩ := Job.bind_eq_ok.mp hrest
  obtain ⟨other, hother, -, rfl⟩ := Job.writeBytes_eq_ok.mp hwrite
  obtain rfl := hp.unique hother
  refine ⟨loc, old, encodeUtf8 (Value.obj (changeNames sourceRoot fileName restored)).compact,
    hp, hold, ?_⟩
  cases hn : sourceCount? (changeNames sourceRoot fileName restored) with
  | some n =>
    rw [hn] at hcount
    cases hcount
    rfl
  | none =>
    rw [hn] at hcount
    cases hcount

/-! ## Changes -/

structure IsChange (change : String → Except Failure String) (root name : Option String)
    (old new : Fields Value) : Prop where
  items : ∀ items, old.get? "sources" = some (.arr items) → ∃ others,
    new.get? "sources" = some (.arr others) ∧
      List.Forall₂ (fun v u => changeSource change v = .ok u) items others
  otherwise : (∀ items, old.get? "sources" ≠ some (.arr items)) →
    new.get? "sources" = old.get? "sources"
  root : new.get? "sourceRoot" = (root.map Value.str).or (old.get? "sourceRoot")
  name : new.get? "file" = (name.map Value.str).or (old.get? "file")
  others : ∀ key, key ≠ "sources" → key ≠ "sourceRoot" → key ≠ "file" →
    new.get? key = old.get? key

theorem get?_changeField_self (map : Fields Value) (key : String) (o : Option String) :
    (changeField key map (.ofOption .str o)).get? key = (o.map Value.str).or (map.get? key) := by
  cases o with
  | none => rfl
  | some s => exact Fields.get?_put_self map key (.str s)

theorem get?_changeField_of_ne {other : String} (hne : key ≠ other) (o : Option String) :
    (changeField key map (.ofOption .str o)).get? other = map.get? other := by
  cases o with
  | none => rfl
  | some s => exact Fields.get?_put_of_ne hne

theorem get?_changeNames (hroot : key ≠ "sourceRoot") (hname : key ≠ "file") :
    (changeNames (.ofOption .str root) (.ofOption .str name) map).get? key = map.get? key := by
  rw [changeNames, get?_changeField_of_ne hname.symm, get?_changeField_of_ne hroot.symm]

theorem get?_changeSources (hm : changeSources change old = .ok map) (hk : key ≠ "sources") :
    map.get? key = old.get? key := by
  unfold changeSources at hm
  split at hm
  · obtain ⟨others, -, rfl⟩ := except_map_eq_ok.mp hm
    exact Fields.get?_put_of_ne hk.symm
  · cases hm
    rfl

theorem isChange_of_ok (root name : Option String) (hm : changeSources change old = .ok map) :
    IsChange change root name old
      (changeNames (.ofOption .str root) (.ofOption .str name) map) where
  items := by
    intro items hitems
    rw [changeSources, hitems] at hm
    obtain ⟨others, hothers, rfl⟩ := except_map_eq_ok.mp hm
    refine ⟨others, ?_, mapM_eq_ok_iff.mp hothers⟩
    rw [get?_changeNames (by decide) (by decide), Fields.get?_put_self]
  otherwise := by
    intro hno
    rw [get?_changeNames (by decide) (by decide)]
    unfold changeSources at hm
    split at hm
    · next items hitems => exact absurd hitems (hno items)
    · cases hm
      rfl
  root := by
    rw [changeNames, get?_changeField_of_ne (by decide), get?_changeField_self,
      get?_changeSources hm (by decide)]
  name := by
    rw [changeNames, get?_changeField_self, get?_changeField_of_ne (by decide),
      get?_changeSources hm (by decide)]
  others := by
    intro key hsources hroot hname
    rw [get?_changeNames hroot hname, get?_changeSources hm hsources]

theorem IsChange.sourceCount (hc : IsChange change root name old new) :
    sourceCount? new = sourceCount? old := by
  by_cases hlist : ∃ items, old.get? "sources" = some (.arr items)
  · obtain ⟨items, hitems⟩ := hlist
    obtain ⟨others, hothers, hall⟩ := hc.items items hitems
    rw [sourceCount?, sourceCount?, hitems, hothers]
    dsimp only
    rw [hall.length_eq]
  · rw [sourceCount?, sourceCount?, hc.otherwise fun items hitems => hlist ⟨items, hitems⟩]

/-! ## Printing -/

/-- A value as it is read when it was printed: a text with its halves side by side joined. -/
def readAs : Value → Value
  | .str s => .str (rejoined s)
  | v => v

def rejoinedChange (change : String → Except Failure String) (s : String) : Except Failure String :=
  (change s).map rejoined

theorem compact_readAs (v : Value) : (readAs v).compact = v.compact := by
  cases v with
  | str s => exact stringText_rejoined s
  | _ => rfl

theorem changeSource_rejoined (v : Value) :
    changeSource (rejoinedChange change) v = (changeSource change v).map readAs := by
  cases v with
  | str s =>
    rw [changeSource, changeSource, rejoinedChange]
    cases change s with
    | ok t => rfl
    | error e => rfl
  | _ => rfl

theorem compactItems_readAs (items : List Value) :
    compactItems (items.map readAs) = compactItems items := by
  induction items with
  | nil => rfl
  | cons v r ih =>
    cases r with
    | nil => exact compact_readAs v
    | cons w r =>
      rw [List.map_cons] at ih
      rw [List.map_cons, List.map_cons, compactItems, compactItems, compact_readAs, ih]

def PrintedAlike (fs gs : Fields Value) : Prop :=
  List.Forall₂ (fun f g => f.1 = g.1 ∧ f.2.compact = g.2.compact) fs gs

variable {fs gs : Fields Value} {v w : Value}

theorem PrintedAlike.refl (fs : Fields Value) : PrintedAlike fs fs :=
  List.forall₂_same.mpr fun _ _ => ⟨rfl, rfl⟩

theorem PrintedAlike.put (h : PrintedAlike fs gs) (hv : v.compact = w.compact) :
    PrintedAlike (fs.put key v) (gs.put key w) := by
  induction h with
  | nil => exact .cons ⟨rfl, hv⟩ .nil
  | @cons f g _ _ hf hr ih =>
    obtain ⟨k, u⟩ := f
    obtain ⟨_, u'⟩ := g
    obtain ⟨rfl, hu⟩ := hf
    rw [Fields.put, Fields.put]
    split
    · exact .cons ⟨rfl, hv⟩ hr
    · exact .cons ⟨rfl, hu⟩ ih

theorem PrintedAlike.compactFields_eq (h : PrintedAlike fs gs) :
    compactFields fs = compactFields gs := by
  induction h with
  | nil => rfl
  | @cons f g _ _ hf hr ih =>
    obtain ⟨k, u⟩ := f
    obtain ⟨_, u'⟩ := g
    obtain ⟨rfl, hu⟩ := hf
    dsimp only at hu
    cases hr with
    | nil => rw [compactFields, compactFields, hu]
    | cons hone hmany => rw [compactFields, compactFields, hu, ih]

theorem PrintedAlike.compact_eq (h : PrintedAlike fs gs) :
    (Value.obj fs).compact = (Value.obj gs).compact := by
  rw [Value.compact, Value.compact, h.compactFields_eq]

theorem PrintedAlike.changeField (h : PrintedAlike fs gs) (key : String) (o : Option String) :
    PrintedAlike (changeField key fs (.ofOption .str o))
      (changeField key gs (.ofOption .str (o.map rejoined))) := by
  cases o with
  | none => exact h
  | some s => exact h.put (stringText_rejoined s).symm

/-- A changed map is printed as one that is read back is. -/
theorem exists_alike (hm : changeSources change old = .ok map) :
    ∃ other, changeSources (rejoinedChange change) old = .ok other ∧ PrintedAlike map other := by
  unfold changeSources at hm ⊢
  split at hm
  · next items hitems =>
    obtain ⟨others, hothers, rfl⟩ := except_map_eq_ok.mp hm
    have hread : items.mapM (changeSource (rejoinedChange change)) = .ok (others.map readAs) := by
      refine mapM_eq_ok_iff.mpr (List.forall₂_map_right_iff.mpr ?_)
      refine (mapM_eq_ok_iff.mp hothers).imp fun v u hu => ?_
      rw [changeSource_rejoined, hu]
      rfl
    refine ⟨_, except_map_eq_ok.mpr ⟨_, hread, rfl⟩, (PrintedAlike.refl old).put ?_⟩
    rw [Value.compact, Value.compact, compactItems_readAs]
  · cases hm
    exact ⟨_, rfl, .refl _⟩

/-! ## Readable maps -/

theorem isWhole_key (h : key.toList.all (fun c => decide (c.toNat < firstMark)) = true) :
    IsWhole key :=
  (isWhole_of_unmarked (forall_mem_of_all h)).1

variable {room : Nat}

theorem isReadable_changeField (h : (Value.obj map).IsReadable (room + 1)) (hk : IsWhole key)
    {o : Option String} (ho : ∀ s, o = some s → IsWhole s) :
    (Value.obj (changeField key map (.ofOption .str o))).IsReadable (room + 1) := by
  cases o with
  | none => exact h
  | some s => exact isReadable_put h hk (.str (ho s rfl))

theorem isReadable_changeSource {v u : Value} (hc : ∀ s t, change s = .ok t → IsWhole t)
    (hv : v.IsReadable room) (hu : changeSource change v = .ok u) : u.IsReadable room := by
  cases v with
  | str s =>
    obtain ⟨t, ht, rfl⟩ := except_map_eq_ok.mp hu
    exact .str (hc s t ht)
  | _ =>
    cases hu
    exact hv

theorem isReadable_changeSources (hc : ∀ s t, change s = .ok t → IsWhole t)
    (hold : (Value.obj old).IsReadable (room + 1)) (hm : changeSources change old = .ok map) :
    (Value.obj map).IsReadable (room + 1) := by
  unfold changeSources at hm
  split at hm
  · next items hitems =>
    obtain ⟨others, hothers, rfl⟩ := except_map_eq_ok.mp hm
    refine isReadable_put hold (isWhole_key (by decide)) ?_
    cases hold with
    | obj _ _ hvalues =>
      cases hvalues _ (Fields.mem_of_get? hitems) with
      | arr hall =>
        refine .arr fun u hu => ?_
        obtain ⟨v, hv, hvu⟩ := exists_left_of_forall₂ (mapM_eq_ok_iff.mp hothers) hu
        exact isReadable_changeSource hc (hall v hv) hvu
  · cases hm
    exact hold

/-- What is written of a changed map is that map as it is read back. -/
theorem writtenValue_of_change (root name : Option String) (hold : (Value.obj old).IsReadable depthLimit)
    (hm : changeSources change old = .ok map) : ∃ written,
      writtenValue? (encodeUtf8
        (Value.obj (changeNames (.ofOption .str root) (.ofOption .str name) map)).compact) =
        some (.obj written) ∧
      IsChange (rejoinedChange change) (root.map rejoined) (name.map rejoined) old written := by
  obtain ⟨other, hother, halike⟩ := exists_alike hm
  have hrejoined (o : Option String) : ∀ s, o.map rejoined = some s → IsWhole s := by
    intro s hs
    obtain ⟨t, -, rfl⟩ := Option.map_eq_some_iff.mp hs
    exact rejoined_isWhole t
  have hwhole : ∀ s t, rejoinedChange change s = .ok t → IsWhole t := by
    intro s t ht
    obtain ⟨u, -, rfl⟩ := except_map_eq_ok.mp ht
    exact rejoined_isWhole u
  have hlimit : depthLimit = 987 + 1 := rfl
  rw [hlimit] at hold
  have hrootKey : IsWhole "sourceRoot" := isWhole_key (by decide)
  have hnameKey : IsWhole "file" := isWhole_key (by decide)
  have hread := isReadable_changeField (isReadable_changeField
    (isReadable_changeSources hwhole hold hother) hrootKey (hrejoined root)) hnameKey (hrejoined name)
  rw [← hlimit] at hread
  have hprinted := (halike.changeField "sourceRoot" root).changeField "file" name
  have hwritten := writtenValue_compact hread
  rw [← hprinted.compact_eq] at hwritten
  exact ⟨_, hwritten, isChange_of_ok _ _ hother⟩

/-! ## Reading -/

inductive MapRead (p : Path) : Option Failure → Option Value → Except Failure Value → Prop where
  | value {v : Value} : MapRead p none (some v) (.ok v)
  | malformed {reason : String} :
    MapRead p none none (.error (unreadableMap p reason .malformedJson))
  | brokenOff {e : Failure} : e.IsForeign → MapRead p (some e) none (.error e)

theorem readMap_of_has (hp : h.Has p (.file bytes)) :
    ∃ r, MapRead p (breakOff? bytes) (writtenValue? bytes) r ∧ readMap p h = Job.lift r h := by
  rw [breakOff?, writtenValue?]
  cases hd : decodeUtf8 bytes with
  | error problem =>
    refine ⟨_, .brokenOff fun _ => Failure.noConfusion, ?_⟩
    rw [readMap, Job.bind_of_ok (Job.outcome_of_error (Job.readText_of_undecodable hp hd))]
    rfl
  | ok text =>
    have halike := parse_unifyLineEnds text
    rw [readMap, Job.bind_of_ok (Job.outcome_of_ok (Job.readText_of_has hp hd))]
    dsimp only
    generalize parse text = x at halike
    generalize parse (String.ofList (unifyLineEnds text.toList)) = y at halike
    cases halike with
    | read => exact ⟨_, .value, rfl⟩
    | malformed => exact ⟨_, .malformed, rfl⟩
    | @stopped stop =>
      cases stop with
      | malformed => exact ⟨_, .malformed, rfl⟩
      | integer => exact ⟨_, .brokenOff fun _ => Failure.noConfusion, rfl⟩
      | tooDeep => exact ⟨_, .brokenOff fun _ => Failure.noConfusion, rfl⟩

/-! ## Rewriting -/

structure Rewritten (p : Path) (change : String → Except Failure String) (root name : Option String)
    (fields changed : Fields Value) (h k : Host) : Prop where
  returned : IsChange change root name fields changed
  held : ∃ loc new written, h.LeadsTo p loc ∧
    k = { h with files := h.files.put loc (.file new) } ∧
    writtenValue? new = some (.obj written) ∧
    IsChange (rejoinedChange change) (root.map rejoined) (name.map rejoined) fields written

/-- What becomes of a map's file that holds some bytes. Only a map whose sources have no number is
changed although rewriting it fails. -/
inductive Rewriting (p : Path) (change : String → Except Failure String) (root name : Option String)
    (bytes : Bytes) (h : Host) : EStateM.Result Failure Host (Fields Value) → Prop where
  | brokenOff {e : Failure} : breakOff? bytes = some e → e.IsForeign →
    Rewriting p change root name bytes h (.error e h)
  | malformed {reason : String} : breakOff? bytes = none → writtenValue? bytes = none →
    Rewriting p change root name bytes h (.error (unreadableMap p reason .malformedJson) h)
  | noObject {v : Value} : writtenValue? bytes = some v → (∀ fields, v ≠ .obj fields) →
    Rewriting p change root name bytes h
      (.error (.noAttribute ("'" ++ v.kindName ++ "' object has no attribute 'get'")) h)
  | refused {fields : Fields Value} {items : List Value} {s : String} {e : Failure} :
    writtenValue? bytes = some (.obj fields) → fields.get? "sources" = some (.arr items) →
    .str s ∈ items → change s = .error e → Rewriting p change root name bytes h (.error e h)
  | done {fields changed : Fields Value} {k : Host} {n : Nat} :
    writtenValue? bytes = some (.obj fields) → Rewritten p change root name fields changed h k →
    sourceCount? fields = some n → Rewriting p change root name bytes h (.ok changed k)
  | uncounted {fields changed : Fields Value} {k : Host} :
    writtenValue? bytes = some (.obj fields) → Rewritten p change root name fields changed h k →
    sourceCount? fields = none → Rewriting p change root name bytes h
      (.error (.badType ("object of type '" ++ (lookup fields "sources").kindName ++
        "' has no len()")) k)

theorem IsChange.exists_changed (hc : IsChange change root name old new) {items : List Value}
    {s : String} (hitems : old.get? "sources" = some (.arr items)) (hs : .str s ∈ items) :
    ∃ t, change s = .ok t := by
  obtain ⟨others, -, hall⟩ := hc.items items hitems
  obtain ⟨u, -, hu⟩ := exists_left_of_forall₂ hall.flip hs
  obtain ⟨t, ht, -⟩ := except_map_eq_ok.mp hu
  exact ⟨t, ht⟩

theorem refused_of_error {e : Failure} (hm : changeSources change old = .error e) :
    ∃ items s, old.get? "sources" = some (.arr items) ∧ .str s ∈ items ∧ change s = .error e := by
  unfold changeSources at hm
  split at hm
  · next items hitems =>
    obtain ⟨v, hv, he⟩ := exists_of_mapM_eq_error (except_map_eq_error.mp hm)
    cases v with
    | str s => exact ⟨items, s, hitems, hv, except_map_eq_error.mp he⟩
    | _ => cases he
  · cases hm

theorem IsChange.lookup_sources (hc : IsChange change root name old new)
    (hno : sourceCount? old = none) : lookup new "sources" = lookup old "sources" := by
  rw [lookup, lookup, hc.otherwise]
  intro items hitems
  rw [sourceCount?, hitems] at hno
  cases hno

theorem rewriting_of_has (change : String → Except Failure String) (root name : Option String)
    (hp : h.Has p (.file bytes)) :
    Rewriting p change root name bytes h
      (rewriteMapFile p change (.ofOption .str root) (.ofOption .str name) h) := by
  obtain ⟨r, hread, hr⟩ := readMap_of_has hp
  generalize hb : breakOff? bytes = broken at hread
  generalize hw : writtenValue? bytes = value at hread
  cases hread with
  | brokenOff hno =>
    rw [rewriteMapFile, Job.bind_of_error hr]
    exact .brokenOff hb hno
  | malformed =>
    rw [rewriteMapFile, Job.bind_of_error hr]
    exact .malformed hb hw
  | @value v =>
    rw [rewriteMapFile, Job.bind_of_ok hr]
    cases v with
    | obj fields =>
      have hfields : Job.lift (mapFields (.obj fields)) h = .ok fields h := rfl
      rw [Job.bind_of_ok hfields]
      cases hm : changeSources change fields with
      | error e =>
        obtain ⟨items, s, hitems, hs, he⟩ := refused_of_error hm
        have hlift : Job.lift (.error e : Except Failure (Fields Value)) h = .error e h := rfl
        rw [Job.bind_of_error hlift]
        exact .refused hw hitems hs he
      | ok map =>
        obtain ⟨loc, hloc, hfile⟩ := hp
        obtain ⟨written, hwritten, hheld⟩ :=
          writtenValue_of_change root name (isReadable_of_writtenValue hw) hm
        have hreturned := isChange_of_ok root name hm
        have hlift : Job.lift (.ok map : Except Failure (Fields Value)) h = .ok map h := rfl
        rw [Job.bind_of_ok hlift]
        generalize changeNames (.ofOption .str root) (.ofOption .str name) map = changed at *
        have hwrite : Job.writeText p (Value.obj changed).compact h = .ok () { h with
            files := h.files.put loc (.file (encodeUtf8 (Value.obj changed).compact)) } :=
          Job.writeBytes_eq_ok.mpr ⟨loc, hloc, by rw [hfile]; exact nofun, rfl⟩
        have hdone : Rewritten p change root name fields changed h _ :=
          ⟨hreturned, loc, _, written, hloc, rfl, hwritten, hheld⟩
        rw [Job.bind_of_ok hwrite, hreturned.sourceCount]
        cases hn : sourceCount? fields with
        | some n => exact .done hw hdone hn
        | none =>
          rw [hreturned.lookup_sources hn]
          exact .uncounted hw hdone hn
    | _ => exact .noObject hw fun _ => Value.noConfusion

/-- Either the changed map is returned and stands in its file, or the failure is that of a map that cannot
be read and nothing has changed. -/
def AllOrNothing (p : Path) (change : String → Except Failure String) (root name : Option String)
    (bytes : Bytes) (h : Host) (r : EStateM.Result Failure Host (Fields Value)) : Prop :=
  (∃ fields changed k, writtenValue? bytes = some (.obj fields) ∧
    Rewritten p change root name fields changed h k ∧ r = .ok changed k) ∨
  ∃ reason cause, r = .error (unreadableMap p reason cause) h

/-- A map whose sources have a number and can all be changed is rewritten in its file as a whole, and text
that is no JSON is refused as such with the file left alone. All other contents lead to other failures:
bytes that break off reading, values that are no objects and sources that cannot be changed leave the file
alone as well, and a map whose sources have no number is written before it fails. -/
theorem map_rewritten_or_kept (change : String → Except Failure String) (root name : Option String)
    (hp : h.Has p (.file bytes)) :
    Rewriting p change root name bytes h
      (rewriteMapFile p change (.ofOption .str root) (.ofOption .str name) h) ∧
    ((∀ s reason cause, change s ≠ .error (unreadableMap p reason cause)) →
      (AllOrNothing p change root name bytes h
          (rewriteMapFile p change (.ofOption .str root) (.ofOption .str name) h) ↔
        breakOff? bytes = none ∧ ∀ v, writtenValue? bytes = some v →
          ∃ fields : Fields Value, v = .obj fields ∧ (sourceCount? fields).isSome = true ∧
            ∀ items s, fields.get? "sources" = some (.arr items) → .str s ∈ items →
              ∃ t, change s = .ok t)) := by
  have hrewriting := rewriting_of_has change root name hp
  refine ⟨hrewriting, fun hown => ?_⟩
  generalize rewriteMapFile p change (.ofOption .str root) (.ofOption .str name) h = r at hrewriting
  have hother {e : Failure} {m : Host} (he : ∀ reason cause, e ≠ unreadableMap p reason cause) :
      ¬ AllOrNothing p change root name bytes h (.error e m) := by
    rintro (⟨_, _, _, -, -, hr⟩ | ⟨reason, cause, hr⟩)
    · cases hr
    · cases hr
      exact he reason cause rfl
  cases hrewriting with
  | brokenOff hb he =>
    refine iff_of_false (hother fun _ _ => he _) ?_
    rintro ⟨hnone, -⟩
    cases hb.symm.trans hnone
  | malformed hb hw =>
    refine iff_of_true (.inr ⟨_, _, rfl⟩) ⟨hb, fun v hv => ?_⟩
    cases hw.symm.trans hv
  | noObject hw hno =>
    refine iff_of_false (hother fun _ _ => Failure.noConfusion) ?_
    rintro ⟨-, hall⟩
    obtain ⟨fields, hfields, -⟩ := hall _ hw
    exact hno fields hfields
  | @refused _ items s e hw hitems hs he =>
    refine iff_of_false (hother fun reason cause hsame => ?_) ?_
    · rw [hsame] at he
      exact hown s reason cause he
    · rintro ⟨-, hall⟩
      obtain ⟨fields, hfields, -, hchanged⟩ := hall _ hw
      cases hfields
      obtain ⟨t, ht⟩ := hchanged items s hitems hs
      cases he.symm.trans ht
  | done hw hdone hn =>
    refine iff_of_true (.inl ⟨_, _, _, hw, hdone, rfl⟩) ⟨breakOff_of_writtenValue hw, ?_⟩
    intro v hv
    cases hw.symm.trans hv
    exact ⟨_, rfl, by rw [hn]; rfl, fun _ _ => hdone.returned.exists_changed⟩
  | uncounted hw hdone hn =>
    refine iff_of_false (hother fun _ _ => Failure.noConfusion) ?_
    rintro ⟨-, hall⟩
    obtain ⟨fields, hfields, hsome, -⟩ := hall _ hw
    cases hfields
    rw [hn] at hsome
    cases hsome

/-! ## Maps of three kinds -/

def mapPath : Path := ⟨.relative, ["a.map"]⟩

def mapHost (bytes : Bytes) : Host :=
  { files := [(["p"], .directory), (["p", "a.map"], .file bytes)], current := ⟨.root, ["p"]⟩,
    home := ⟨.root, ["p"]⟩ }

theorem mapHost_has (bytes : Bytes) : (mapHost bytes).Has mapPath (.file bytes) :=
  ⟨["p", "a.map"], ⟨rfl, rfl⟩, rfl⟩

def listedMap : Fields Value := [("version", .int 3), ("sources", .arr [.str "a.js", .null])]

def unlistedMap : Fields Value := [("sources", .null)]

def mapBytes (map : Fields Value) : Bytes := encodeUtf8 (Value.obj map).compact

theorem writtenValue_mapBytes {map : Fields Value} (h : (Value.obj map).IsReadable depthLimit) :
    writtenValue? (mapBytes map) = some (.obj map) := writtenValue_compact h

theorem listedMap_isReadable : (Value.obj listedMap).IsReadable depthLimit := by
  refine isReadable_obj (show _ = ["version", "sources"] from rfl) (by decide) (by decide) ?_
  rw [listedMap, List.forall_mem_cons, List.forall_mem_singleton]
  refine ⟨.int (Nat.lt_of_lt_of_le (show 3 < 10 by decide) (Nat.le_self_pow (by decide) 10)),
    .arr ?_⟩
  rw [List.forall_mem_cons, List.forall_mem_singleton]
  exact ⟨.str (isWhole_key (by decide)), .null⟩

theorem unlistedMap_isReadable : (Value.obj unlistedMap).IsReadable depthLimit := by
  refine isReadable_obj (show _ = ["sources"] from rfl) (by decide) (by decide) ?_
  rw [unlistedMap, List.forall_mem_singleton]
  exact .null

def belowSource (path : String) : Except Failure String := .ok ("src/" ++ path)

/-- The sources of a map are changed in its file. A map without a number of sources is written and fails,
and a byte that starts nothing breaks off reading. -/
theorem listed_map_rewritten :
    AllOrNothing mapPath belowSource none (some "o.js") (mapBytes listedMap)
      (mapHost (mapBytes listedMap))
      (rewriteMapFile mapPath belowSource .null (.str "o.js") (mapHost (mapBytes listedMap))) ∧
    ¬ AllOrNothing mapPath belowSource none (some "o.js") (mapBytes unlistedMap)
      (mapHost (mapBytes unlistedMap))
      (rewriteMapFile mapPath belowSource .null (.str "o.js") (mapHost (mapBytes unlistedMap))) ∧
    ¬ AllOrNothing mapPath belowSource none (some "o.js") [0xFF] (mapHost [0xFF])
      (rewriteMapFile mapPath belowSource .null (.str "o.js") (mapHost [0xFF])) := by
  have hiff (bytes : Bytes) :=
    (map_rewritten_or_kept belowSource none (some "o.js") (mapHost_has bytes)).2
      fun _ _ _ hfailed => nomatch hfailed
  have hlisted := writtenValue_mapBytes listedMap_isReadable
  have hunlisted := writtenValue_mapBytes unlistedMap_isReadable
  refine ⟨(hiff _).mpr ⟨breakOff_of_writtenValue hlisted, fun v hv => ?_⟩, fun hall => ?_,
    fun hall => ?_⟩
  · cases hlisted.symm.trans hv
    exact ⟨listedMap, rfl, rfl, fun _ s _ _ => ⟨_, rfl⟩⟩
  · obtain ⟨fields, hfields, hsome, -⟩ := ((hiff _).mp hall).2 _ hunlisted
    cases hfields
    cases hsome
  · cases ((hiff _).mp hall).1

end ChunkBuild.Source
