import ChunkBuild.Host.Files
import ChunkBuild.Proofs.Host.FileTree
import ChunkBuild.Proofs.Host.Jobs
import ChunkBuild.Proofs.Json.Quoted
import ChunkBuild.Proofs.Path
import ChunkBuild.Proofs.Results
import ChunkBuild.Proofs.Text.SystemText
import ChunkBuild.Proofs.Text.Utf8
/-! # What file operations do

Each operation is said by the place its path leads to and by what stands there. -/
namespace ChunkBuild

open ChunkBuild.Text

/-- A path that the system takes, and its place. -/
structure Host.LeadsTo (h : Host) (p : Path) (loc : Location) : Prop where
  valid : pathProblem? p.text = none
  located : h.locate p = .ok loc

def Host.Has (h : Host) (p : Path) (e : Entry) : Prop :=
  ∃ loc, h.LeadsTo p loc ∧ h.files.at? loc = some e

variable {α : Type} {h k : Host} {p : Path} {loc : Location} {e : Entry} {content : Bytes}

theorem Host.LeadsTo.unique {other : Location} (hp : h.LeadsTo p loc) (hq : h.LeadsTo p other) :
    loc = other :=
  Except.ok.inj (hp.located.symm.trans hq.located)

def Host.start (h : Host) (p : Path) : Location := if p.isAbsolute then [] else h.current.parts

theorem Host.leadsTo_iff : h.LeadsTo p loc ↔ pathProblem? p.text = none ∧
    ¬ pathLimit ≤ (systemBytes p.text).length ∧ h.files.walk (h.start p) p.parts = .ok loc := by
  constructor
  · rintro ⟨hv, hl⟩
    unfold Host.locate at hl
    split at hl
    · cases hl
    · next hlen => exact ⟨hv, hlen, hl⟩
  · rintro ⟨hv, hlen, hw⟩
    refine ⟨hv, ?_⟩
    rw [Host.locate, if_neg hlen]
    exact hw

theorem Host.start_eq (hc : k.current = h.current) : k.start p = h.start p := by
  rw [Host.start, Host.start, hc]

/-- Paths lead to the same places as long as the directories stand. -/
theorem Host.LeadsTo.of_keeps (hp : h.LeadsTo p loc) (hc : k.current = h.current)
    (hf : FileTree.KeepsDirectories h.files k.files) : k.LeadsTo p loc := by
  obtain ⟨hv, hlen, hw⟩ := Host.leadsTo_iff.mp hp
  refine Host.leadsTo_iff.mpr ⟨hv, hlen, ?_⟩
  rw [Host.start_eq hc]
  exact FileTree.walk_of_keepsDirectories hf hw

/-- Only the files and the current directory count. -/
theorem Host.LeadsTo.of_same (hp : h.LeadsTo p loc) (hf : k.files = h.files)
    (hc : k.current = h.current) : k.LeadsTo p loc := by
  refine hp.of_keeps hc ?_
  rw [hf]
  exact fun _ hd => hd

/-- Where a path leads is a matter of the current directory alone. -/
theorem Host.LeadsTo.agree {other : Location} (hp : h.LeadsTo p loc) (hq : k.LeadsTo p other)
    (hc : k.current = h.current) : loc = other := by
  obtain ⟨-, -, hw⟩ := Host.leadsTo_iff.mp hp
  obtain ⟨-, -, hv⟩ := Host.leadsTo_iff.mp hq
  rw [Host.start_eq hc] at hv
  exact FileTree.walk_unique hw hv

@[irreducible]
def Host.place (h : Host) (p : Path) : Location :=
  match h.locate p with
  | .ok loc => loc
  | .error _ => []

theorem Host.LeadsTo.place_eq (hp : h.LeadsTo p loc) : h.place p = loc := by
  rw [Host.place, hp.located]

theorem Host.LeadsTo.has_iff (hp : h.LeadsTo p loc) : h.Has p e ↔ h.files.at? loc = some e := by
  constructor
  · rintro ⟨other, hq, he⟩
    rwa [hp.unique hq]
  · exact fun he => ⟨loc, hp, he⟩

/-- The place of a path has its last name as the system gives it back. A name that does not end in a
dot leads nowhere else. -/
theorem Host.LeadsTo.getLast? {name : String} {c : Char} (hp : h.LeadsTo p loc)
    (hn : p.parts.getLast? = some name) (hlast : name.toList.getLast? = some c) (hdot : c ≠ '.') :
    loc.getLast? = some (systemText name) := by
  obtain ⟨parts, hparts⟩ := List.getLast?_eq_some_iff.mp hn
  obtain ⟨-, -, hw⟩ := Host.leadsTo_iff.mp hp
  have hne (s : String) (hs : s.toList.getLast? ≠ some c) : name ≠ s := by
    rintro rfl
    exact hs hlast
  rw [hparts] at hw
  refine FileTree.getLast?_of_walk ?_ (hne "." ?_) (hne ".." ?_) hw
  · rw [← Bool.not_eq_true, String.isEmpty_iff]
    exact hne "" (fun h => nomatch h)
  · exact fun h => hdot (Option.some.inj h).symm
  · exact fun h => hdot (Option.some.inj h).symm

/-- A place ends as its path does. -/
theorem Host.LeadsTo.endIn {c : Char} (hp : h.LeadsTo p loc) (he : EndIn p.parts c)
    (hc : c.toNat < 0x80) (hdot : c ≠ '.') : EndIn loc c := by
  obtain ⟨name, hn, hlast⟩ := he
  exact ⟨systemText name, hp.getLast? hn hlast hdot, getLast?_systemText hc hlast⟩

theorem Host.Has.of_same (hp : h.Has p e) (hf : k.files = h.files) (hc : k.current = h.current) :
    k.Has p e := by
  obtain ⟨loc, hl, he⟩ := hp
  exact ⟨loc, hl.of_same hf hc, hf ▸ he⟩

/-! ## Settled hosts -/

/-- The current directory stands, as that of a running program does. -/
def Host.IsSettled (h : Host) : Prop := h.files.Stands h.current.parts

theorem Host.IsSettled.stands_start (hs : h.IsSettled) : h.files.Stands (h.start p) := by
  rw [Host.start]
  split
  · exact FileTree.stands_nil
  · exact hs

/-- What a settled host keeps as long as the same directories stand. -/
theorem Host.IsSettled.of_stands (hs : h.IsSettled) (hc : k.current = h.current)
    (hd : ∀ c, h.files.Stands c ↔ k.files.Stands c) : k.IsSettled := by
  rw [Host.IsSettled, hc]
  exact (hd _).mp hs

theorem Host.LeadsTo.of_stands (hp : h.LeadsTo p loc) (hs : h.IsSettled)
    (hc : k.current = h.current) (hd : ∀ c, h.files.Stands c ↔ k.files.Stands c) :
    k.LeadsTo p loc := by
  obtain ⟨hv, hlen, hw⟩ := Host.leadsTo_iff.mp hp
  refine Host.leadsTo_iff.mpr ⟨hv, hlen, ?_⟩
  rw [Host.start_eq hc]
  exact FileTree.walk_of_stands (fun c => (hd c).mp) hs.stands_start hw

theorem Host.LeadsTo.reaches (hp : h.LeadsTo p loc) (hs : h.IsSettled) : h.files.Reaches loc := by
  obtain ⟨-, -, hw⟩ := Host.leadsTo_iff.mp hp
  exact FileTree.reaches_of_walk hs.stands_start hw

namespace Job

def faultAt (p : Path) (problem : FileProblem) : Failure :=
  .file { problem := problem, path := p.text }

/-- A computation at a place in one piece: only when it succeeds are the files changed. -/
theorem atPlace_eq (f : FileTree → Location → Except FileProblem (α × FileTree)) :
    atPlace p f h =
      match pathProblem? p.text, h.locate p with
      | some e, _ => .error e h
      | none, .error e => .error (faultAt p e) h
      | none, .ok loc =>
        match f h.files loc with
        | .error e => .error (faultAt p e) h
        | .ok (a, files) => .ok a { h with files := files } := by
  unfold atPlace checkPathText
  cases hp : pathProblem? p.text with
  | some e => rfl
  | none =>
    rw [bind_of_ok pure_apply, get_bind]
    cases hl : h.locate p with
    | error e => rfl
    | ok loc =>
      dsimp only
      cases hf : f h.files loc with
      | error e => rfl
      | ok r => rfl

theorem atPlace_eq_ok {f : FileTree → Location → Except FileProblem (α × FileTree)} {a : α} :
    atPlace p f h = .ok a k ↔ ∃ loc files, h.LeadsTo p loc ∧ f h.files loc = .ok (a, files) ∧
      k = { h with files := files } := by
  rw [atPlace_eq]
  constructor
  · intro hp
    split at hp
    · cases hp
    · cases hp
    · next loc hv hl =>
      split at hp
      · cases hp
      · next a files hf =>
        cases hp
        exact ⟨loc, files, ⟨hv, hl⟩, hf, rfl⟩
  · rintro ⟨loc, files, ⟨hv, hl⟩, hf, rfl⟩
    simp only [hv, hl, hf]

theorem read_eq_ok {t : FileTree} :
    t.read loc = .ok content ↔ t.at? loc = some (.file content) := by
  unfold FileTree.read
  split
  all_goals simp_all

theorem readBytes_eq_ok : readBytes p h = .ok content k ↔ h.Has p (.file content) ∧ k = h := by
  rw [readBytes, atPlace_eq_ok]
  constructor
  · rintro ⟨loc, files, hp, hf, rfl⟩
    obtain ⟨c, hc, hr⟩ := except_map_eq_ok.mp hf
    cases hr
    exact ⟨⟨loc, hp, read_eq_ok.mp hc⟩, rfl⟩
  · rintro ⟨⟨loc, hp, hc⟩, rfl⟩
    exact ⟨loc, k.files, hp, except_map_eq_ok.mpr ⟨content, read_eq_ok.mpr hc, rfl⟩, rfl⟩

theorem write_eq_ok {t u : FileTree} : t.write loc content = .ok u ↔
    t.at? loc ≠ some .directory ∧ u = t.put loc (.file content) := by
  cases ht : t.at? loc with
  | none => simp [FileTree.write, ht, eq_comm]
  | some e => cases e <;> simp [FileTree.write, ht, eq_comm]

theorem writeBytes_eq_ok : writeBytes p content h = .ok () k ↔
    ∃ loc, h.LeadsTo p loc ∧ h.files.at? loc ≠ some .directory ∧
      k = { h with files := h.files.put loc (.file content) } := by
  rw [writeBytes, atPlace_eq_ok]
  constructor
  · rintro ⟨loc, files, hp, hf, rfl⟩
    obtain ⟨u, hu, hr⟩ := except_map_eq_ok.mp hf
    cases hr
    obtain ⟨hd, rfl⟩ := write_eq_ok.mp hu
    exact ⟨loc, hp, hd, rfl⟩
  · rintro ⟨loc, hp, hd, rfl⟩
    exact ⟨loc, _, hp, except_map_eq_ok.mpr ⟨_, write_eq_ok.mpr ⟨hd, rfl⟩, rfl⟩, rfl⟩

/-- What is written to a file stands there. -/
theorem has_of_writeBytes (hw : writeBytes p content h = .ok () k) : k.Has p (.file content) := by
  obtain ⟨loc, hp, hd, rfl⟩ := writeBytes_eq_ok.mp hw
  have hne : loc ≠ [] := by
    rintro rfl
    exact hd FileTree.at?_nil
  exact ⟨loc, hp.of_keeps rfl (FileTree.keepsDirectories_put hd), FileTree.at?_put_self hne⟩

theorem checkPathText_eq_ok {s : String} :
    checkPathText s h = .ok () k ↔ pathProblem? s = none ∧ k = h := by
  unfold checkPathText
  cases pathProblem? s with
  | some e => simp
  | none => simp [eq_comm]

/-- A rename moves what stands at one place to another. -/
theorem rename_eq_ok {source target : Path} : rename source target h = .ok () k ↔
    ∃ a b files, h.LeadsTo source a ∧ h.LeadsTo target b ∧ endsInName source = true ∧
      endsInName target = true ∧ h.files.rename a b = .ok files ∧
      k = { h with files := files } := by
  unfold rename
  constructor
  · intro hr
    obtain ⟨_, _, hsource, hnext⟩ := bind_eq_ok.mp hr
    obtain ⟨hs, rfl⟩ := checkPathText_eq_ok.mp hsource
    obtain ⟨_, m, htarget, hmove⟩ := bind_eq_ok.mp hnext
    obtain ⟨ht, rfl⟩ := checkPathText_eq_ok.mp htarget
    rw [get_bind] at hmove
    cases ha : m.locate source with
    | error e =>
      rw [ha] at hmove
      cases hmove
    | ok a =>
    cases hb : m.locate target with
    | error e =>
      rw [ha, hb] at hmove
      cases hmove
    | ok b =>
    simp only [ha, hb, bind, Except.bind] at hmove
    by_cases he : (endsInName source && endsInName target) = true
    · rw [if_pos he] at hmove
      rw [Bool.and_eq_true] at he
      cases hf : m.files.rename a b with
      | error e =>
        rw [hf] at hmove
        cases hmove
      | ok files =>
        rw [hf] at hmove
        cases hmove
        exact ⟨a, b, files, ⟨hs, ha⟩, ⟨ht, hb⟩, he.1, he.2, hf, rfl⟩
    · rw [if_neg he] at hmove
      cases hmove
  · rintro ⟨a, b, files, ⟨hs, ha⟩, ⟨ht, hb⟩, hsource, htarget, hm, rfl⟩
    rw [bind_of_ok (checkPathText_eq_ok.mpr ⟨hs, rfl⟩),
      bind_of_ok (checkPathText_eq_ok.mpr ⟨ht, rfl⟩), get_bind]
    simp only [ha, hb, hsource, htarget, Bool.and_self, if_true, bind, Except.bind, hm]
    rfl

/-- Looking at a path changes nothing. -/
theorem exists?_eq_ok {b : Bool} (he : exists? p h = .ok b k) : k = h := by
  obtain ⟨o, m, hentry, hb⟩ := bind_eq_ok.mp he
  cases hb
  unfold entryAt? at hentry
  rw [get_bind] at hentry
  cases hv : pathProblem? p.text with
  | some e =>
    rw [hv] at hentry
    cases hentry
    rfl
  | none =>
  cases hl : h.locate p with
  | error e =>
    rw [hv, hl] at hentry
    cases e
    all_goals cases hentry
    all_goals rfl
  | ok loc =>
    rw [hv, hl] at hentry
    cases hentry
    rfl

theorem resolved_eq_ok {r : Path} :
    resolved p h = .ok r k ↔ pathProblem? p.text = none ∧ r = p.resolve h.current ∧ k = h := by
  unfold resolved
  rw [bind_eq_ok]
  constructor
  · rintro ⟨_, m, hcheck, hr⟩
    obtain ⟨hvalid, rfl⟩ := checkPathText_eq_ok.mp hcheck
    obtain ⟨rfl, rfl⟩ := EStateM.Result.ok.inj hr
    exact ⟨hvalid, rfl, rfl⟩
  · rintro ⟨hvalid, rfl, rfl⟩
    exact ⟨(), k, checkPathText_eq_ok.mpr ⟨hvalid, rfl⟩, rfl⟩

theorem readRaw_eq_ok {s : String} : readRaw p h = .ok s k ↔
    ∃ content, h.Has p (.file content) ∧ decodeUtf8 content = .ok s ∧ k = h := by
  unfold readRaw
  rw [bind_eq_ok]
  constructor
  · rintro ⟨content, m, hread, hs⟩
    obtain ⟨hfile, rfl⟩ := readBytes_eq_ok.mp hread
    unfold decoded at hs
    cases hd : decodeUtf8 content with
    | ok text =>
      rw [hd] at hs
      obtain ⟨rfl, rfl⟩ := EStateM.Result.ok.inj hs
      exact ⟨content, hfile, hd, rfl⟩
    | error e =>
      rw [hd] at hs
      cases hs
  · rintro ⟨content, hfile, hd, rfl⟩
    refine ⟨content, k, readBytes_eq_ok.mpr ⟨hfile, rfl⟩, ?_⟩
    rw [decoded, hd]
    rfl

theorem readText_of_has {s : String} (hp : h.Has p (.file content))
    (hs : decodeUtf8 content = .ok s) :
    readText p h = .ok (String.ofList (unifyLineEnds s.toList)) h := by
  rw [readText, bind_of_ok (readRaw_eq_ok.mpr ⟨content, hp, hs, rfl⟩)]
  rfl

/-- What is printed is read back from its bytes, its line ends included. -/
theorem readText_of_plain {s : String} (hs : ∀ c ∈ s.toList, Json.IsPlain c)
    (hp : h.Has p (.file (encodeUtf8 s))) : readText p h = .ok s h := by
  obtain ⟨hwhole, hhalf⟩ := isWhole_of_unmarked fun c hc => Nat.lt_trans (hs c hc).1 (by decide)
  rw [readText_of_has hp (decodeUtf8_encodeUtf8 hwhole hhalf),
    unifyLineEnds_of_no_return fun c hc => (hs c hc).2, String.ofList_toList]

theorem readText_of_undecodable {problem : Utf8Problem} (hp : h.Has p (.file content))
    (hs : decodeUtf8 content = .error problem) :
    readText p h = .error (.undecodable problem.message) h := by
  have hraw : readRaw p h = .error (.undecodable problem.message) h := by
    rw [readRaw, bind_of_ok (readBytes_eq_ok.mpr ⟨hp, rfl⟩), decoded, hs]
    rfl
  exact bind_of_error hraw

theorem entryAt?_of_has (hp : h.Has p e) : entryAt? p h = .ok (some e) h := by
  obtain ⟨loc, ⟨hv, hl⟩, he⟩ := hp
  unfold entryAt?
  rw [get_bind]
  simp only [hv, hl]
  rw [get_bind, he]
  rfl

theorem isFile_of_has (hp : h.Has p (.file content)) : isFile p h = .ok true h := by
  rw [isFile, bind_of_ok (entryAt?_of_has hp)]
  rfl

theorem isDirectory_of_has (hp : h.Has p .directory) : isDirectory p h = .ok true h := by
  rw [isDirectory, bind_of_ok (entryAt?_of_has hp)]
  rfl

/-- A directory that stands will do. -/
theorem ensureDirectory_of_has (hp : h.Has p .directory) : ensureDirectory p h = .ok () h := by
  obtain ⟨loc, ⟨hv, hl⟩, he⟩ := id hp
  have hmake : makeDirectory p h = .error (faultAt p .exists) h := by
    rw [makeDirectory, atPlace_eq]
    simp only [hv, hl, FileTree.makeDirectory, he]
    rfl
  rw [ensureDirectory, bind_of_ok (outcome_of_error hmake)]
  simp only [faultAt, ne_eq, reduceCtorEq, not_false_eq_true, decide_true, Bool.true_and]
  rw [bind_of_ok (isDirectory_of_has hp)]
  rfl

theorem ensureDirectoriesFrom_of_has {anchor : Anchor} {rest : List String}
    (hp : h.Has ⟨anchor, rest.reverse⟩ .directory) :
    ensureDirectoriesFrom anchor rest h = .ok () h := by
  cases rest with
  | nil => exact ensureDirectory_of_has hp
  | cons name rest =>
    rw [ensureDirectoriesFrom, bind_of_ok (outcome_of_ok (ensureDirectory_of_has hp))]
    rfl

theorem ensureDirectories_of_has (hp : h.Has p .directory) :
    ensureDirectories p h = .ok () h := by
  refine ensureDirectoriesFrom_of_has ?_
  rwa [List.reverse_reverse]

end Job

end ChunkBuild
