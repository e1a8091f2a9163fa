import ChunkBuild.Proofs.Host.Frame
import ChunkBuild.Proofs.Resolver.Fallback
/-! # What the cache gives back

What the cache gives back is a matter of what stands at its file alone. Main statement: raw output
that was kept is given back with the halves of characters put together. -/
namespace ChunkBuild

open ChunkBuild.Text ChunkBuild.Json

/-- Raw output as it is read back: halves side by side are one character then. -/
def RawOutput.rejoined (raw : RawOutput) : RawOutput :=
  ⟨raw.chunk.map Text.rejoined, raw.js.map Text.rejoined⟩

theorem RawOutput.rejoined_isWhole (raw : RawOutput) : raw.rejoined.IsWhole := by
  constructor
  · exact List.forall_mem_map.mpr fun s _ => Text.rejoined_isWhole s
  · exact List.forall_mem_map.mpr fun s _ => Text.rejoined_isWhole s

theorem RawOutput.rejoined_of_isWhole {raw : RawOutput} (hw : raw.IsWhole) :
    raw.rejoined = raw := by
  have hsame {xs : List String} (hx : ∀ s ∈ xs, Text.IsWhole s) : xs.map Text.rejoined = xs := by
    rw [List.map_congr_left fun s hs => Text.rejoined_eq_iff.mpr (hx s hs), List.map_id']
  rw [rejoined, hsame hw.chunk, hsame hw.js]

namespace Cache

def state (c : Cache) (h : Host) : Except Failure (Option Entry) := (Job.entryAt? c.file).result h

def holding (raw : RawOutput) : Except Failure (Option Entry) :=
  .ok (some (.file (encodeUtf8 (content raw))))

variable {c : Cache} {raw : RawOutput} {h : Host}

/-! ## What is read back -/

theorem itemsSpelled_rejoined (w : Spacing) (depth : Nat) (lead : List Char) (xs : List String) :
    itemsSpelled w depth lead ((xs.map Text.rejoined).map .str) =
      itemsSpelled w depth lead (xs.map .str) := by
  induction xs generalizing lead with
  | nil => rfl
  | cons s r ih =>
    simp only [List.map_cons, itemsSpelled, Value.spelled, stringText_rejoined]
    rw [ih]

theorem spelled_texts_rejoined (w : Spacing) (depth : Nat) (xs : List String) :
    (Value.texts (xs.map Text.rejoined)).spelled w depth = (Value.texts xs).spelled w depth := by
  cases xs with
  | nil => rfl
  | cons s r =>
    have hitems := itemsSpelled_rejoined w depth (w.first depth) (s :: r)
    rw [Value.texts, Value.texts, List.map_cons, List.map_cons, List.map_cons, Value.spelled,
      Value.spelled]
    exact congrArg _ hitems

/-- Raw output is kept as the text of what is read back. -/
theorem content_rejoined (raw : RawOutput) : content raw.rejoined = content raw := by
  have hspelled : raw.rejoined.toValue.spelled indentation 0 =
      raw.toValue.spelled indentation 0 := by
    simp only [RawOutput.toValue, RawOutput.rejoined, Value.spelled, fieldsSpelled,
      spelled_texts_rejoined]
  rw [content, content, ← String.toList_inj, String.toList_append, String.toList_append,
    indented_toList, indented_toList, hspelled]

/-! ## The state of the cache -/

def read (c : Cache) : Option Entry → Except Failure RawOutput
  | some (.file bytes) =>
    match decodeUtf8 bytes with
    | .error e => .error (c.unusable e.message (some .undecodable))
    | .ok s =>
      match Calculator.readOutput (String.ofList (unifyLineEnds s.toList)) with
      | .ok raw => .ok raw
      | .error (.unreadable (.tooDeep kind)) => .error (.tooDeep kind.message)
      | .error p => .error (c.unusable p.message (some p.cause))
  | _ => .error (c.unusable "file not found" none)

theorem load_of_absent (hno : c.isPresent h = .ok false h) :
    c.load h = .error (c.unusable "file not found" none) h := by
  rw [load, Job.bind_of_ok hno]
  rfl

theorem result_load_of_has {bytes : Bytes} (hp : h.Has c.file (.file bytes)) :
    c.load.result h = c.read (some (.file bytes)) := by
  have hthere : c.isPresent h = .ok true h := Job.isFile_of_has hp
  rw [Job.result, load, Job.bind_of_ok hthere, read]
  simp only [Bool.not_true, Bool.false_eq_true, if_false]
  cases hs : decodeUtf8 bytes with
  | error e =>
    rw [Job.bind_of_ok (Job.outcome_of_error (Job.readText_of_undecodable hp hs))]
    rfl
  | ok s =>
    rw [Job.bind_of_ok (Job.outcome_of_ok (Job.readText_of_has hp hs))]
    dsimp only
    cases Calculator.readOutput (String.ofList (unifyLineEnds s.toList)) with
    | ok raw => rfl
    | error p =>
      cases p with
      | misshapen p => rfl
      | unreadable e => cases e <;> rfl

theorem result_load (c : Cache) (h : Host) : c.load.result h = (c.state h).bind c.read := by
  cases hs : c.state h with
  | error e =>
    have hpresent : c.isPresent h = .error e h :=
      Job.bind_of_error (Job.keeps_entryAt?.eq_error hs)
    have hload : c.load h = .error e h := Job.bind_of_error hpresent
    exact Job.result_of_error hload
  | ok entry =>
    have hentry := Job.keeps_entryAt?.eq_ok hs
    cases entry with
    | none => exact Job.result_of_error (load_of_absent (Job.bind_of_ok hentry))
    | some entry =>
      cases entry with
      | directory => exact Job.result_of_error (load_of_absent (Job.bind_of_ok hentry))
      | file bytes => exact result_load_of_has (Job.result_entryAt?_eq_iff.mp hs)

theorem load_of_holding (hs : c.state h = holding raw) : c.load h = .ok raw.rejoined h := by
  apply load_of_has raw.rejoined_isWhole
  rw [content_rejoined]
  exact Job.result_entryAt?_eq_iff.mp hs

theorem keeps_load : Job.Keeps id c.load := by
  refine .bind Job.keeps_isFile fun isThere => ?_
  split
  · exact .throw _
  · refine .bind Job.keeps_readText.outcome fun r => ?_
    split
    · exact .throw _
    · exact .throw _
    · exact .throw _
    · exact .throw _
    · split
      · exact .pure _
      · exact .throw _
      · exact .throw _

/-- No file can be written where a directory stands. -/
theorem save_of_directory (hparent : h.Has c.file.parent .directory)
    (hd : h.Has c.file .directory) (raw : RawOutput) : ∃ e, c.save raw h = .error e h := by
  obtain ⟨loc, ⟨hv, hl⟩, he⟩ := hd
  have hwrite : Job.writeText c.file (content raw) h =
      .error (Job.faultAt c.file .isDirectory) h := by
    rw [Job.writeText, Job.writeBytes, Job.atPlace_eq]
    simp only [hv, hl, FileTree.write, he]
    rfl
  exact ⟨_, (Job.bind_of_ok (Job.ensureDirectories_of_has hparent)).trans hwrite⟩

/-- The log does not count. -/
theorem state_logged (log : List (LogLevel × String)) : c.state { h with log := log } = c.state h :=
  Job.result_entryAt?_of_same rfl rfl

end Cache

end ChunkBuild
