import ChunkBuild.Proofs.Config.Snapshot
import ChunkBuild.Proofs.Config.Surroundings
import ChunkBuild.Proofs.Host.Absent
import ChunkBuild.Proofs.Json.LineEnds
/-! # What is read from configuration files

What a configuration file gives is a matter of what stands at its path: of the content of a file, and of
nothing else where there is none. -/
namespace ChunkBuild

open ChunkBuild.Json ChunkBuild.Text

namespace Config

variable {yaml : YamlReader} {p directory : Path} {bytes : Bytes} {h k : Host}

/-! ## One file -/

def layerOfContent (yaml : YamlReader) (p : Path) (bytes : Bytes) : Except Failure Layer :=
  if isYaml p then
    match decodeUtf8Stream bytes with
    | .ok s => layerOfYaml yaml p (String.ofList (unifyLineEnds s.toList))
    | .error e => .error (.undecodable e.message)
  else
    match decodeUtf8 bytes with
    | .ok s => layerOfJson p (String.ofList (unifyLineEnds s.toList))
    | .error e => .error (.undecodable e.message)

def layerAt (yaml : YamlReader) (p : Path) : Option Entry → Except Failure Layer
  | some (.file bytes) => layerOfContent yaml p bytes
  | _ => .error (unusableFile p "Config file not found")

theorem readYamlText_of_has {s : String} (hp : h.Has p (.file bytes))
    (hs : decodeUtf8Stream bytes = .ok s) :
    readYamlText p h = .ok (String.ofList (unifyLineEnds s.toList)) h := by
  rw [readYamlText, Job.bind_of_ok (Job.readBytes_eq_ok.mpr ⟨hp, rfl⟩), hs]
  rfl

theorem readYamlText_of_undecodable {problem : Utf8Problem} (hp : h.Has p (.file bytes))
    (hs : decodeUtf8Stream bytes = .error problem) :
    readYamlText p h = .error (.undecodable problem.message) h := by
  rw [readYamlText, Job.bind_of_ok (Job.readBytes_eq_ok.mpr ⟨hp, rfl⟩), hs]
  rfl

theorem result_loadFile_of_has (hp : h.Has p (.file bytes)) :
    (loadFileBy yaml p).result h = layerOfContent yaml p bytes := by
  rw [Job.result, loadFileBy, Job.bind_of_ok (Job.isFile_of_has hp), layerOfContent]
  simp only [Bool.not_true, Bool.false_eq_true, if_false]
  cases isYaml p with
  | true =>
    cases hs : decodeUtf8Stream bytes with
    | error e =>
      rw [if_pos rfl, Job.bind_of_ok (Job.outcome_of_error (readYamlText_of_undecodable hp hs))]
      rfl
    | ok s =>
      rw [if_pos rfl, Job.bind_of_ok (Job.outcome_of_ok (readYamlText_of_has hp hs))]
      exact Job.result_lift _ h
  | false =>
    simp only [Bool.false_eq_true, if_false]
    cases hs : decodeUtf8 bytes with
    | error e =>
      rw [Job.bind_of_ok (Job.outcome_of_error (Job.readText_of_undecodable hp hs))]
      rfl
    | ok s =>
      rw [Job.bind_of_ok (Job.outcome_of_ok (Job.readText_of_has hp hs))]
      exact Job.result_lift _ h

theorem result_loadFile (yaml : YamlReader) (p : Path) (h : Host) :
    (loadFileBy yaml p).result h = ((Job.entryAt? p).result h).bind (layerAt yaml p) := by
  cases hs : (Job.entryAt? p).result h with
  | error e =>
    have hfile : Job.isFile p h = .error e h := Job.bind_of_error (Job.keeps_entryAt?.eq_error hs)
    exact Job.result_of_error (Job.bind_of_error hfile)
  | ok entry =>
    have hentry := Job.keeps_entryAt?.eq_ok hs
    have hmissing (hno : Job.isFile p h = .ok false h) :
        (loadFileBy yaml p).result h = .error (unusableFile p "Config file not found") := by
      rw [loadFileBy, Job.result, Job.bind_of_ok hno]
      rfl
    cases entry with
    | none => exact hmissing (Job.bind_of_ok hentry)
    | some entry =>
      cases entry with
      | directory => exact hmissing (Job.bind_of_ok hentry)
      | file bytes => exact result_loadFile_of_has (Job.result_entryAt?_eq_iff.mp hs)

/-! ## The user's file -/

def userLayerAt (p : Path) : Option Entry → Except Failure Layer
  | none => .ok {}
  | some entry =>
    match layerAt readYaml p (some entry) with
    | .error (.error _) => .ok {}
    | r => r

theorem result_exists?_bind {β : Type} {f : Bool → Job β} : (Job.exists? p >>= f).result h =
    ((Job.entryAt? p).result h).bind fun entry => (f entry.isSome).result h := by
  rw [Job.keeps_exists?.result_bind, Job.exists?, Job.keeps_entryAt?.result_bind]
  cases (Job.entryAt? p).result h with
  | ok entry => rfl
  | error e => rfl

theorem result_loadUserFile (h : Host) : loadUserFile.result h =
    h.homeDirectory.bind fun home =>
      ((Job.entryAt? (userFile home)).result h).bind (userLayerAt (userFile home)) := by
  rw [loadUserFile, Job.result_get_bind, (Job.Keeps.lift h.homeDirectory).result_bind,
    Job.result_lift]
  refine congrArg _ (funext fun home => ?_)
  rw [result_exists?_bind]
  cases hs : (Job.entryAt? (userFile home)).result h with
  | error e => rfl
  | ok entry =>
    cases entry with
    | none => rfl
    | some entry =>
      have hload := result_loadFile readYaml (userFile home) h
      rw [hs] at hload
      have hlayer : (loadFile (userFile home)).result h =
        layerAt readYaml (userFile home) (some entry) := hload
      simp only [Except.bind, Option.isSome_some, Bool.not_true, Bool.false_eq_true, if_false,
        userLayerAt]
      have hkeeps : Job.Keeps id (loadFile (userFile home)) := keeps_loadFile
      rw [← hlayer]
      cases hr : (loadFile (userFile home)).result h with
      | ok l =>
        rw [Job.result, Job.bind_of_ok (Job.outcome_of_ok (hkeeps.eq_ok hr))]
        rfl
      | error e =>
        rw [Job.result, Job.bind_of_ok (Job.outcome_of_error (hkeeps.eq_error hr))]
        cases e with
        | error e => rfl
        | _ => rfl

/-! ## The project's file -/

def projectFile (directory : Path) : (file : Option Path) → Job (Option Path)
  | some p => pure (some p)
  | none => findFile? directory projectFileNames

theorem looks_projectFile {file : Option Path} :
    Job.Looks Host.scene (projectFile directory file) := by
  have hfind (names : List String) : Job.Looks Host.scene (findFile? directory names) := by
    induction names with
    | nil => exact .pure none
    | cons name r ih =>
      refine Job.looks_isFile.bind fun isThere => ?_
      cases isThere with
      | false => exact ih
      | true => exact .pure _
  cases file with
  | some p => exact .pure _
  | none => exact hfind _

/-- The layer of a project's file when there is one. -/
theorem result_loadProjectFile (yaml : YamlReader) (directory : Path) (file : Option Path)
    (h : Host) : (loadProjectFile yaml directory file).result h =
      ((projectFile directory file).result h).bind fun found => match found with
        | some p => (loadFileBy yaml p).result h
        | none => .ok {} := by
  cases file with
  | some p => rfl
  | none =>
    rw [loadProjectFile, keeps_findFile?.result_bind]
    refine congrArg _ (funext fun found => ?_)
    cases found with
    | none => rfl
    | some p => rfl

end Config

end ChunkBuild
