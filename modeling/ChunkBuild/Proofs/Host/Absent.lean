import ChunkBuild.Proofs.Host.Frame
/-! # A host without one of its files

When a file is taken away nothing stands at its place, and at every other place there stands what stood
there before. A walk through the file fails either way, for another reason. -/
namespace ChunkBuild

open ChunkBuild.Text

namespace FileTree

variable {t : FileTree} {loc here c : Location} {content : Bytes}

theorem ne_nil_of_file (hf : t.at? loc = some (.file content)) : loc ≠ [] := by
  rintro rfl
  cases hf

theorem at?_remove_of_apart (h : ¬ loc <+: c) : (t.remove loc).at? c = t.at? c := by
  by_cases hc : c = []
  · rw [hc]
    rfl
  · rw [at?_eq_find hc, at?_eq_find hc, find_remove_of_apart h]

theorem at?_remove_of_prefix (hc : c ≠ []) (h : loc <+: c) : (t.remove loc).at? c = none := by
  rw [at?_eq_find hc, find_remove_of_prefix h]
  rfl

/-- No place below a file is reached. -/
theorem Stands.apart (hs : t.Stands c) (hf : t.at? loc = some (.file content)) : ¬ loc <+: c := by
  intro h
  cases (hs loc h).symm.trans hf

/-- A walk fails where it would go on from the file, and is the same otherwise. -/
theorem walk_remove (hf : t.at? loc = some (.file content)) {names : List String}
    (hs : t.Stands here) : (t.remove loc).walk here names = t.walk here names ∨
      t.walk here names = .error .notDirectory ∧
        (t.remove loc).walk here names = .error .notFound := by
  induction names generalizing here with
  | nil => exact .inl rfl
  | cons name names ih =>
    cases names with
    | nil => exact .inl rfl
    | cons next names =>
      rw [walk, walk]
      by_cases hdot : (name.isEmpty || name = ".") = true
      · rw [if_pos hdot, if_pos hdot]
        exact ih hs
      · rw [if_neg hdot, if_neg hdot]
        by_cases hup : name = ".."
        · rw [if_pos hup, if_pos hup]
          exact ih (hs.of_prefix (List.dropLast_prefix here))
        · rw [if_neg hup, if_neg hup]
          cases he : entered here name with
          | error e => exact .inl rfl
          | ok l =>
            dsimp only
            obtain ⟨last, rfl⟩ : ∃ last, l = here ++ [last] := by
              unfold entered at he
              split at he
              · cases he
              · exact ⟨_, (Except.ok.inj he).symm⟩
            by_cases hl : loc = here ++ [last]
            · rw [← hl, hf, at?_remove_of_prefix (ne_nil_of_file hf) List.prefix_rfl]
              exact .inr ⟨rfl, rfl⟩
            · have hapart : ¬ loc <+: here ++ [last] := by
                intro h
                rcases List.prefix_concat_iff.mp h with h | h
                · exact hl h
                · exact hs.apart hf h
              rw [at?_remove_of_apart hapart]
              cases hd : t.at? (here ++ [last]) with
              | none => exact .inl rfl
              | some e =>
                cases e with
                | file content => exact .inl rfl
                | directory => exact ih (stands_concat_iff.mpr ⟨hs, hd⟩)

end FileTree

def Host.without (h : Host) (loc : Location) : Host := { h with files := h.files.remove loc }

variable {h : Host} {p : Path} {loc : Location} {content : Bytes}

theorem Host.locate_without (hs : h.IsSettled) (hf : h.files.at? loc = some (.file content)) :
    (h.without loc).locate p = h.locate p ∨
      h.locate p = .error .notDirectory ∧ (h.without loc).locate p = .error .notFound := by
  rw [Host.locate, Host.locate]
  by_cases hlong : pathLimit ≤ (systemBytes p.text).length
  · rw [if_pos hlong, if_pos hlong]
    exact .inl rfl
  · rw [if_neg hlong, if_neg hlong]
    exact FileTree.walk_remove hf (hs.stands_start (p := p))

namespace Job

/-- Elsewhere there stands what stood there. -/
theorem result_entryAt?_without (hs : h.IsSettled) (hf : h.files.at? loc = some (.file content))
    (hp : ¬ h.LeadsTo p loc) : (entryAt? p).result (h.without loc) = (entryAt? p).result h := by
  rw [result_entryAt?, result_entryAt?]
  cases hv : pathProblem? p.text with
  | some e => rfl
  | none =>
    rcases Host.locate_without hs hf (p := p) with hsame | ⟨hfile, hgone⟩
    · rw [hsame]
      cases hl : h.locate p with
      | error e =>
        cases e
        all_goals rfl
      | ok l =>
        have hreaches := Host.LeadsTo.reaches ⟨hv, hl⟩ hs
        have hapart : ¬ loc <+: l := by
          intro h
          by_cases hne : loc = l
          · exact hp ⟨hv, hne ▸ hl⟩
          · cases (hreaches.at_of_prefix h hne).symm.trans hf
        exact congrArg Except.ok (FileTree.at?_remove_of_apart hapart)
    · rw [hfile, hgone]

/-- Nothing stands where the file was. -/
theorem result_entryAt?_without_self (hs : h.IsSettled)
    (hf : h.files.at? loc = some (.file content)) (hp : h.LeadsTo p loc) :
    (entryAt? p).result (h.without loc) = .ok none := by
  rw [result_entryAt?, hp.valid]
  rcases Host.locate_without hs hf (p := p) with hsame | ⟨hfile, -⟩
  · rw [hsame, hp.located]
    exact congrArg Except.ok
      (FileTree.at?_remove_of_prefix (FileTree.ne_nil_of_file hf) List.prefix_rfl)
  · cases hp.located.symm.trans hfile

end Job

end ChunkBuild
