import ChunkBuild.Graph
import ChunkBuild.Proofs.Results
import ChunkBuild.Proofs.Text.Integer
import Mathlib.Data.List.Nodup
/-! # Binding descriptors to declared chunks

A step binds one descriptor, with the nodes bound before it in a table. It succeeds exactly when the
descriptor is admissible behind the nicknames of that table, and the node then describes its chunk.
A run binds all descriptors in order, so what it needs is admissibility behind each prefix.
Main statement: raw output resolves exactly when it is resolvable, and else it is inconsistent. -/
namespace ChunkBuild

open ChunkBuild.Text ChunkBuild.Json

def Bound.nicknames (table : Bound) : List String := table.map (·.1)

structure Admissible (before : List String) (d : Descriptor) : Prop where
  earlier : ∀ nick ∈ d.dependencies, nick ∈ before
  rooted : d.dependencies = [] ↔ before = []
  fresh : d.nickname ∉ before

structure Describes (table : Bound) (d : Descriptor) (c : Chunk) (n : Node) : Prop where
  chunk : n.chunk = c
  index : n.index = table.length
  fileCount : n.fileCount = d.fileCount
  dependencies : List.Forall₂ (fun nick m => (nick, m) ∈ table) d.dependencies n.dependencies

/-- A whole run: every descriptor is admissible behind those before it, its node describes it. -/
inductive Binds : Bound → List (Descriptor × Chunk) → List Node → Prop where
  | nil (table) : Binds table [] []
  | cons {table d c n ps ns} : Admissible table.nicknames d → Describes table d c n →
      Binds (table ++ [(d.nickname, n)]) ps ns → Binds table ((d, c) :: ps) (n :: ns)

variable {table : Bound} {d : Descriptor} {c : Chunk} {n : Node}

@[simp] theorem nicknames_append (s t : Bound) :
    Bound.nicknames (s ++ t) = s.nicknames ++ t.nicknames := List.map_append

@[simp] theorem nicknames_single (nick : String) (n : Node) :
    Bound.nicknames [(nick, n)] = [nick] := rfl

theorem nicknames_eq_nil : table.nicknames = [] ↔ table = [] := List.map_eq_nil_iff

/-! ## One step -/

theorem get_isSome_iff {nick : String} :
    (table.get? nick).isSome = true ↔ nick ∈ table.nicknames := by
  simp [Bound.get?, Bound.nicknames, List.find?_isSome]

/-- Distinct nicknames make the table a function, so the first entry is the only one. -/
theorem get_eq_some_iff (ht : table.nicknames.Nodup) {nick : String} :
    table.get? nick = some n ↔ (nick, n) ∈ table := by
  induction table with
  | nil => simp [Bound.get?]
  | cons p r ih =>
    obtain ⟨hp, hr⟩ := List.nodup_cons.mp ht
    by_cases h : p.1 = nick
    · subst h
      have hn : ∀ m, (p.1, m) ∉ r := fun m hm => hp (List.mem_map.mpr ⟨_, hm, rfl⟩)
      constructor
      · intro hg
        have : p.2 = n := by simpa [Bound.get?] using hg
        subst this
        exact List.mem_cons_self
      · intro hm
        rcases List.mem_cons.mp hm with hm | hm
        · have hv : p.2 = n := (congrArg Prod.snd hm).symm
          simp [Bound.get?, hv]
        · exact absurd hm (hn n)
    · have hg : Bound.get? (p :: r) nick = Bound.get? r nick := by
        simp [Bound.get?, List.find?_cons_of_neg, h]
      have hne : (nick, n) ≠ p := fun hm => h (congrArg Prod.fst hm).symm
      rw [hg, ih hr, List.mem_cons, or_iff_right hne]

theorem nodes_eq_ok_iff {nicks : List String} {ns : List Node} :
    table.nodes c nicks = .ok ns ↔
      List.Forall₂ (fun nick m => table.get? nick = some m) nicks ns := by
  induction nicks generalizing ns with
  | nil => cases ns <;> simp [Bound.nodes]
  | cons nick r ih =>
    cases hg : table.get? nick with
    | none => simp [Bound.nodes, hg, List.forall₂_cons_left_iff]
    | some m =>
      simp only [Bound.nodes, hg, except_map_eq_ok, List.forall₂_cons_left_iff, Option.some.injEq]
      constructor
      · rintro ⟨ms, hms, rfl⟩
        exact ⟨m, ms, rfl, ih.mp hms, rfl⟩
      · rintro ⟨_, ms, rfl, hms, rfl⟩
        exact ⟨ms, ih.mpr hms, rfl⟩

theorem exists_nodes_iff {nicks : List String} :
    (∃ ns, table.nodes c nicks = .ok ns) ↔ ∀ nick ∈ nicks, nick ∈ table.nicknames := by
  simp only [nodes_eq_ok_iff, exists_forall₂_iff, ← get_isSome_iff, Option.isSome_iff_exists]

theorem nodes_eq_nil_iff {nicks : List String} {ns : List Node}
    (h : table.nodes c nicks = .ok ns) : ns = [] ↔ nicks = [] := by
  rw [← List.length_eq_zero_iff, ← List.length_eq_zero_iff, (nodes_eq_ok_iff.mp h).length_eq]

/-- Neither guard of a step holds exactly when both lists are empty or none is. -/
theorem guards_pass_iff {α β : Type} {xs : List α} {ys : List β} :
    ((xs.isEmpty && !ys.isEmpty) = false ∧ (!xs.isEmpty && ys.isEmpty) = false) ↔
      (ys = [] ↔ xs = []) := by
  cases xs <;> cases ys <;> simp

/-- The step accepts exactly the admissible descriptors, and the node then describes the chunk. -/
theorem resolveNode_eq_ok_iff (ht : table.nicknames.Nodup) :
    resolveNode table d c = .ok n ↔ Admissible table.nicknames d ∧ Describes table d c n := by
  cases hn : table.nodes c d.dependencies with
  | error e =>
    have hx : ¬ ∃ ns, table.nodes c d.dependencies = .ok ns := by simp [hn]
    constructor
    · intro h
      simp [resolveNode, hn] at h
    · rintro ⟨ha, -⟩
      exact absurd (exists_nodes_iff.mpr ha.earlier) hx
  | ok deps =>
    have hd := nodes_eq_ok_iff.mp hn
    simp only [get_eq_some_iff ht] at hd
    have hroot : (d.dependencies = [] ↔ table.nicknames = []) ↔ (deps = [] ↔ table = []) := by
      rw [nodes_eq_nil_iff hn, nicknames_eq_nil]
    constructor
    · intro h
      simp only [resolveNode, hn, Node.make] at h
      split_ifs at h with h₁ h₂ h₃
      cases h
      refine ⟨⟨exists_nodes_iff.mp ⟨_, hn⟩, hroot.mpr (guards_pass_iff.mp ?_), ?_⟩,
        rfl, rfl, rfl, hd⟩
      · exact ⟨by simpa using h₁, by simpa using h₂⟩
      · rwa [get_isSome_iff] at h₃
    · rintro ⟨ha, hm⟩
      obtain ⟨nc, ni, nf, nd⟩ := n
      obtain ⟨rfl, rfl, rfl, hr⟩ := hm
      have hnd : table.nodes nc d.dependencies = .ok nd := by
        rw [nodes_eq_ok_iff]
        simpa only [get_eq_some_iff ht] using hr
      obtain rfl : deps = nd := Except.ok.inj (hn.symm.trans hnd)
      obtain ⟨h₁, h₂⟩ := guards_pass_iff.mpr (hroot.mp ha.rooted)
      have h₃ : (table.get? d.nickname).isSome = false := by
        rw [← Bool.not_eq_true, get_isSome_iff]
        exact ha.fresh
      simp [resolveNode, hn, Node.make, h₁, h₂, h₃]

theorem exists_describes (ha : Admissible table.nicknames d) (c : Chunk) :
    ∃ n, Describes table d c n := by
  have hx : ∀ nick ∈ d.dependencies, ∃ m, (nick, m) ∈ table := by
    intro nick hk
    obtain ⟨⟨_, m⟩, hm, rfl⟩ := List.mem_map.mp (ha.earlier nick hk)
    exact ⟨m, hm⟩
  obtain ⟨ns, hns⟩ := exists_forall₂_iff.mpr hx
  exact ⟨⟨c, table.length, d.fileCount, ns⟩, rfl, rfl, rfl, hns⟩

theorem nodup_extended (ht : table.nicknames.Nodup) (ha : Admissible table.nicknames d) (n : Node) :
    (Bound.nicknames (table ++ [(d.nickname, n)])).Nodup := by
  simp only [nicknames_append, nicknames_single]
  exact List.nodup_append.mpr ⟨ht, by simp, by
    rintro a hm b hb rfl
    exact ha.fresh (List.mem_singleton.mp hb ▸ hm)⟩

/-! ## A run -/

theorem resolveFrom_eq_ok_iff (ht : table.nicknames.Nodup) {ps : List (Descriptor × Chunk)}
    {ns : List Node} : resolveFrom table ps = .ok ns ↔ Binds table ps ns := by
  induction ps generalizing table ns with
  | nil =>
    constructor
    · intro h
      cases h
      exact .nil table
    · intro h
      cases h
      rfl
  | cons p r ih =>
    obtain ⟨d, c⟩ := p
    constructor
    · intro h
      cases hn : resolveNode table d c with
      | error e => simp [resolveFrom, hn] at h
      | ok n =>
        simp only [resolveFrom, hn] at h
        obtain ⟨ms, hms, rfl⟩ := except_map_eq_ok.mp h
        obtain ⟨ha, hd⟩ := (resolveNode_eq_ok_iff ht).mp hn
        exact .cons ha hd ((ih (nodup_extended ht ha n)).mp hms)
    · intro h
      cases h with
      | @cons _ _ _ n _ ms ha hd hr =>
        have hn := (resolveNode_eq_ok_iff ht).mpr ⟨ha, hd⟩
        simp only [resolveFrom, hn]
        exact except_map_eq_ok.mpr ⟨ms, (ih (nodup_extended ht ha n)).mpr hr, rfl⟩

/-- A run needs no more than admissibility of each descriptor behind the nicknames before it. -/
theorem exists_binds_iff {ps : List (Descriptor × Chunk)} :
    (∃ ns, Binds table ps ns) ↔ ∀ i d c, ps[i]? = some (d, c) →
      Admissible (table.nicknames ++ (ps.map (·.1.nickname)).take i) d := by
  induction ps generalizing table with
  | nil =>
    constructor
    · intro _ i d c h
      simp at h
    · intro _
      exact ⟨[], .nil table⟩
  | cons p r ih =>
    obtain ⟨d, c⟩ := p
    constructor
    · rintro ⟨ns, h⟩ i e b hi
      cases h with
      | @cons _ _ _ n _ ms ha hd hr =>
        cases i with
        | zero =>
          cases hi
          simpa using ha
        | succ i =>
          have := ih.mp ⟨ms, hr⟩ i e b (by simpa using hi)
          simpa using this
    · intro h
      have ha : Admissible table.nicknames d := by simpa using h 0 d c rfl
      obtain ⟨n, hd⟩ := exists_describes ha c
      obtain ⟨ms, hr⟩ : ∃ ms, Binds (table ++ [(d.nickname, n)]) r ms := ih.mpr (by
        intro i e b hi
        have := h (i + 1) e b (by simpa using hi)
        simpa using this)
      exact ⟨n :: ms, .cons ha hd hr⟩

/-- The rules for descriptors in order, said of all of them at once. -/
structure Bindable (ds : List Descriptor) : Prop where
  root_free : ∀ d : Descriptor, ds[0]? = some d → d.dependencies = []
  later_depends : ∀ (i : Nat) (d : Descriptor), 0 < i → ds[i]? = some d → d.dependencies ≠ []
  earlier : ∀ (i : Nat) (d : Descriptor), ds[i]? = some d → ∀ nick ∈ d.dependencies,
    ∃ (j : Nat) (e : Descriptor), j < i ∧ ds[j]? = some e ∧ e.nickname = nick
  distinct : (ds.map (·.nickname)).Nodup

theorem mem_take_nicknames_iff {ds : List Descriptor} {i : Nat} {nick : String} :
    nick ∈ (ds.map (·.nickname)).take i ↔
      ∃ (j : Nat) (e : Descriptor), j < i ∧ ds[j]? = some e ∧ e.nickname = nick := by
  rw [List.mem_iff_getElem?]
  constructor
  · rintro ⟨j, hj⟩
    rw [List.getElem?_take] at hj
    split_ifs at hj with hlt
    rw [List.getElem?_map] at hj
    obtain ⟨e, he, rfl⟩ := Option.map_eq_some_iff.mp hj
    exact ⟨j, e, hlt, he, rfl⟩
  · rintro ⟨j, e, hlt, he, rfl⟩
    exact ⟨j, by simp [hlt, he]⟩

theorem take_nicknames_eq_nil_iff {ds : List Descriptor} {i : Nat} {d : Descriptor}
    (hd : ds[i]? = some d) : (ds.map (·.nickname)).take i = [] ↔ i = 0 := by
  obtain ⟨hi, -⟩ := List.getElem?_eq_some_iff.mp hd
  rw [← List.length_eq_zero_iff]
  simp only [List.length_take, List.length_map]
  omega

/-- The rules of all positions together say what each step asks for. -/
theorem bindable_iff {ds : List Descriptor} :
    Bindable ds ↔
      ∀ (i : Nat) (d : Descriptor), ds[i]? = some d →
        Admissible ((ds.map (·.nickname)).take i) d := by
  constructor
  · intro h i d hd
    refine ⟨fun nick hn => mem_take_nicknames_iff.mpr (h.earlier i d hd nick hn), ?_, ?_⟩
    · rw [take_nicknames_eq_nil_iff hd]
      constructor
      · intro hn
        by_contra hi
        exact h.later_depends i d (by omega) hd hn
      · rintro rfl
        exact h.root_free d hd
    · intro hm
      obtain ⟨j, e, hj, he, hn⟩ := mem_take_nicknames_iff.mp hm
      obtain ⟨hi, -⟩ := List.getElem?_eq_some_iff.mp hd
      apply List.nodup_iff_getElem?_ne_getElem?.mp h.distinct j i hj (by simpa using hi)
      simp [he, hd, hn]
  · intro h
    refine ⟨fun d hd => (h 0 d hd).rooted.mpr rfl, ?_, ?_, ?_⟩
    · intro i d hi hd hn
      exact absurd ((take_nicknames_eq_nil_iff hd).mp ((h i d hd).rooted.mp hn)) (by omega)
    · intro i d hd nick hn
      exact mem_take_nicknames_iff.mp ((h i d hd).earlier nick hn)
    · rw [List.nodup_iff_getElem?_ne_getElem?]
      intro i j hij hj he
      rw [List.length_map] at hj
      have hd : ds[j]? = some ds[j] := List.getElem?_eq_getElem hj
      apply (h j _ hd).fresh
      rw [List.mem_iff_getElem?]
      exact ⟨i, by rw [List.getElem?_take_of_lt hij, he]; simp [hd]⟩

/-- Raw output that fits declared chunks. -/
def Resolvable (r : Registry) (raw : RawOutput) : Prop :=
  ∃ ds, List.Forall₂ (fun s d => Descriptor.parse s = .ok d) raw.chunk ds ∧
    ds.length = r.size ∧ Bindable ds

theorem resolve_eq_ok_iff {r : Registry} {raw : RawOutput} {g : Graph} :
    resolve r raw = .ok g ↔
      ∃ ds, List.Forall₂ (fun s d => Descriptor.parse s = .ok d) raw.chunk ds ∧
        ds.length = r.size ∧ Binds [] (ds.zip r.chunks) g.nodes ∧ g.jsFiles = raw.js := by
  have hnil : Bound.nicknames [] = [] := rfl
  have hrun {ps ns} : resolveFrom [] ps = .ok ns ↔ Binds [] ps ns :=
    resolveFrom_eq_ok_iff (by simp [hnil])
  simp only [← mapM_eq_ok_iff]
  change _ ↔ ∃ ds, raw.descriptors = .ok ds ∧ _
  cases hds : raw.descriptors with
  | error e => simp [resolve, hds]
  | ok ds =>
    simp only [resolve, hds, Except.ok.injEq, exists_eq_left']
    by_cases hl : ds.length = r.size
    · simp only [hl, ne_eq, not_true_eq_false, if_false, true_and, except_map_eq_ok, hrun]
      constructor
      · rintro ⟨ns, hb, rfl⟩
        exact ⟨hb, rfl⟩
      · rintro ⟨hb, hj⟩
        exact ⟨g.nodes, hb, by rw [← hj]⟩
    · simp [hl]

/-- Every node of a run describes one of its chunks, in some table. -/
theorem Binds.describes {ps : List (Descriptor × Chunk)} {ns : List Node} (h : Binds table ps ns)
    {n : Node} (hn : n ∈ ns) : ∃ t d c, (d, c) ∈ ps ∧ Describes t d c n := by
  induction h with
  | nil => cases hn
  | @cons t d c m ps ms _ hd _ ih =>
    rcases List.mem_cons.mp hn with rfl | hn
    · exact ⟨t, d, c, List.mem_cons_self, hd⟩
    · obtain ⟨u, e, b, hm, he⟩ := ih hn
      exact ⟨u, e, b, List.mem_cons_of_mem _ hm, he⟩

/-- A count that was read has no more digits than are written. -/
theorem parse_fileCount_lt {s : String} {d : Descriptor} (h : Descriptor.parse s = .ok d) :
    d.fileCount < 10 ^ digitLimit := by
  unfold Descriptor.parse at h
  split at h
  · cases h
  · split at h
    · cases h
    · cases h
    · next hr =>
      cases h
      exact readInteger_lt hr

theorem make_fields (n : Node) :
    Node.make n.chunk n.index n.fileCount n.dependencies = .ok n := by
  cases n
  rfl

theorem printInteger_natCast {n : Nat} (h : n < 10 ^ digitLimit) :
    printInteger n = .ok (natText n) := by
  rw [printInteger, Nat.pow_eq, Int.natAbs_natCast, if_pos h]
  rfl

theorem zip_nicknames {ds : List Descriptor} {cs : List Chunk} (h : ds.length = cs.length) :
    (ds.zip cs).map (·.1.nickname) = ds.map (·.nickname) := by
  rw [show (fun p : Descriptor × Chunk => p.1.nickname) = (·.nickname) ∘ Prod.fst from rfl,
    ← List.map_map, List.map_fst_zip h.le]

theorem exists_graph_iff {r : Registry} {raw : RawOutput} :
    (∃ g, resolve r raw = .ok g) ↔ Resolvable r raw := by
  -- positions of descriptors and of descriptors with their chunks are the same
  have hzip {ds : List Descriptor} (hl : ds.length = r.size) :
      Bindable ds ↔ ∃ ns, Binds [] (ds.zip r.chunks) ns := by
    rw [bindable_iff, exists_binds_iff, zip_nicknames hl]
    constructor
    · intro h i d c hi
      exact h i d (List.getElem?_zip_eq_some.mp hi).1
    · intro h i d hd
      obtain ⟨hi, -⟩ := List.getElem?_eq_some_iff.mp hd
      have hc := List.getElem?_eq_getElem (l := r.chunks) (hi.trans_eq hl)
      exact h i d _ (List.getElem?_zip_eq_some.mpr ⟨hd, hc⟩)
  constructor
  · rintro ⟨g, hg⟩
    obtain ⟨ds, hp, hl, hb, -⟩ := resolve_eq_ok_iff.mp hg
    exact ⟨ds, hp, hl, (hzip hl).mpr ⟨g.nodes, hb⟩⟩
  · rintro ⟨ds, hp, hl, hb⟩
    obtain ⟨ns, hns⟩ := (hzip hl).mp hb
    exact ⟨⟨ns, raw.js⟩, resolve_eq_ok_iff.mpr ⟨ds, hp, hl, hns, rfl⟩⟩

/-- The checks of a node and the length of what is written of it never stop a resolution: its
failures are inconsistencies. -/
theorem resolves_exactly_resolvable (r : Registry) (raw : RawOutput) :
    ((∃ g, resolve r raw = .ok g) ↔ Resolvable r raw) ∧
    (∀ g, resolve r raw = .ok g → ∀ n ∈ g.nodes,
      Node.make n.chunk n.index n.fileCount n.dependencies = .ok n ∧
      printInteger n.fileCount = .ok (natText n.fileCount)) ∧
    (¬ Resolvable r raw → ∃ i, resolve r raw = .error i ∧
      ∃ reason chunk nickname, i.failure = .error ⟨.inconsistent reason chunk nickname, [], none⟩) := by
  refine ⟨exists_graph_iff, ?_, ?_⟩
  · intro g hg n hn
    obtain ⟨ds, hp, hl, hb, -⟩ := resolve_eq_ok_iff.mp hg
    obtain ⟨t, d, c, hm, hd⟩ := hb.describes hn
    obtain ⟨s, -, hs⟩ := exists_left_of_forall₂ hp (List.of_mem_zip hm).1
    exact ⟨make_fields n, printInteger_natCast (hd.fileCount ▸ parse_fileCount_lt hs)⟩
  · intro hr
    cases h : resolve r raw with
    | ok g => exact absurd (exists_graph_iff.mp ⟨g, h⟩) hr
    | error i => exact ⟨i, rfl, i.reason, i.chunk?, i.nickname?, rfl⟩

end ChunkBuild
