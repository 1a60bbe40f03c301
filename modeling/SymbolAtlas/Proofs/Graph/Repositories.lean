import Mathlib.Tactic
import SymbolAtlas.Proofs.Graph.History

/-!
# The repository around a path

A path is looked up among the roots of all repositories: of those at or above it, the one with the
most components is taken. The roots are kept in an index, whose entries may come in any order. Yet
there is nothing to choose: of the roots at or above one path no two have equally many components
(`IsLongest.unique`), since both are beginnings of the same path.

* `exists_foldl_deeper` — what is kept along the entries.
* `repositoryOf?_eq_some_iff` — what looking up gives, in terms of the entries in whatever order.
* `find?_repositories_run` — the entries of an atlas are the roots that were added to it.
* `repositoryOf?_run` — what looking up gives, in terms of the roots that were added.
-/

namespace SymbolAtlas

/-! ### The longest of the roots around a path -/

/-- Of those roots that the path begins with, this one has the most components. -/
structure IsLongest (roots : List (List Component)) (path root : List Component) : Prop where
  mem : root ∈ roots
  around : root <+: path
  longest : ∀ other ∈ roots, other <+: path → other.length ≤ root.length

theorem eq_of_isPrefix_of_length_eq {path a b : List Component} (ha : a <+: path) (hb : b <+: path)
    (h : a.length = b.length) : a = b :=
  (List.prefix_of_prefix_length_le ha hb h.le).eq_of_length h

theorem IsLongest.unique {roots : List (List Component)} {path a b : List Component}
    (ha : IsLongest roots path a) (hb : IsLongest roots path b) : a = b := by
  have hle := hb.longest a ha.mem ha.around
  have hge := ha.longest b hb.mem hb.around
  exact eq_of_isPrefix_of_length_eq ha.around hb.around (hle.antisymm hge)

theorem IsLongest.congr {roots others : List (List Component)} {path root : List Component}
    (h : IsLongest roots path root) (hroots : ∀ key, key ∈ roots ↔ key ∈ others) :
    IsLongest others path root where
  mem := (hroots root).1 h.mem
  around := h.around
  longest other hother := h.longest other ((hroots other).2 hother)

namespace Atlas

/-- Along the entries, one with the most components is kept. -/
theorem exists_foldl_deeper (b : List Component × Nat) (entries : List (List Component × Nat)) :
    ∃ e ∈ b :: entries, entries.foldl deeper (some b) = some e ∧
      ∀ f ∈ b :: entries, f.1.length ≤ e.1.length := by
  induction entries generalizing b with
  | nil => exact ⟨b, List.mem_cons_self, rfl, by simp⟩
  | cons a entries ih =>
    by_cases hlt : a.1.length < b.1.length
    · obtain ⟨e, he, hfold, hmax⟩ := ih b
      have hb := hmax b List.mem_cons_self
      refine ⟨e, ?_, by simpa only [List.foldl_cons, deeper, if_pos hlt] using hfold, ?_⟩
      · exact List.cons_subset_cons b (List.subset_cons_self a entries) he
      · rintro f (_ | ⟨_, _ | ⟨_, hf⟩⟩)
        · exact hb
        · omega
        · exact hmax f (List.mem_cons_of_mem b hf)
    · obtain ⟨e, he, hfold, hmax⟩ := ih a
      have ha := hmax a List.mem_cons_self
      refine ⟨e, List.mem_cons_of_mem b he,
        by simpa only [List.foldl_cons, deeper, if_neg hlt] using hfold, ?_⟩
      rintro f (_ | ⟨_, hf⟩)
      · omega
      · exact hmax f hf

section

variable {g : Atlas} {path : Path} {n : Nat}

/-- The entries of the index of repositories that a path begins with. -/
theorem repositoryOf?_cases (g : Atlas) (path : Path) :
    (g.repositoryOf? path = none ∧
      ∀ e ∈ g.repositories.entries, ¬ e.1 <+: path.components) ∨
    ∃ e ∈ g.repositories.entries, g.repositoryOf? path = some e.2 ∧
      IsLongest (g.repositories.entries.map Prod.fst) path.components e.1 := by
  have hmem {e : List Component × Nat} :
      e ∈ g.repositories.entries.filter (fun e => e.1.isPrefixOf path.components) ↔
        e ∈ g.repositories.entries ∧ e.1 <+: path.components := by
    simp
  rw [repositoryOf?]
  cases hfilter : g.repositories.entries.filter fun e => e.1.isPrefixOf path.components with
  | nil =>
    refine .inl ⟨rfl, fun e he hprefix => ?_⟩
    have := hmem.2 ⟨he, hprefix⟩
    rw [hfilter] at this
    cases this
  | cons b entries =>
    obtain ⟨e, he, hfold, hmax⟩ := exists_foldl_deeper b entries
    rw [hfilter] at hmem
    obtain ⟨hentry, hprefix⟩ := hmem.1 he
    refine .inr ⟨e, hentry, ?_, List.mem_map_of_mem hentry, hprefix, ?_⟩
    · rw [List.foldl_cons]
      exact congrArg (Option.map Prod.snd) hfold
    · rintro other hother haround
      obtain ⟨f, hf, rfl⟩ := List.mem_map.1 hother
      exact hmax f (hmem.2 ⟨hf, haround⟩)

theorem repositoryOf?_eq_some_iff (h : g.repositories.Keyed) :
    g.repositoryOf? path = some n ↔ ∃ key, (key, n) ∈ g.repositories.entries ∧
      IsLongest (g.repositories.entries.map Prod.fst) path.components key := by
  rcases repositoryOf?_cases g path with ⟨hnone, hentries⟩ | ⟨e, he, hsome, hlongest⟩
  · rw [hnone]
    refine ⟨nofun, ?_⟩
    rintro ⟨key, hkey, hlongest⟩
    exact absurd hlongest.around (hentries _ hkey)
  · rw [hsome, Option.some.injEq]
    constructor
    · rintro rfl
      exact ⟨e.1, he, hlongest⟩
    · rintro ⟨key, hkey, hlongest'⟩
      have hpair := List.inj_on_of_nodup_map h he hkey (hlongest.unique hlongest')
      rw [hpair]

theorem repositoryOf?_eq_none_iff :
    g.repositoryOf? path = none ↔ ∀ e ∈ g.repositories.entries, ¬ e.1 <+: path.components := by
  rcases repositoryOf?_cases g path with ⟨hnone, hentries⟩ | ⟨e, he, hsome, hlongest⟩
  · exact iff_of_true hnone hentries
  · rw [hsome]
    exact ⟨nofun, fun h => absurd hlongest.around (h e he)⟩

/-- The order of the entries makes no difference. -/
theorem repositoryOf?_perm (h : g.repositories.Keyed) {entries : List (List Component × Nat)}
    (hperm : entries.Perm g.repositories.entries) (path : Path) :
    { g with repositories := ⟨entries⟩ }.repositoryOf? path = g.repositoryOf? path := by
  have hkeys := hperm.map Prod.fst
  have hkeyed : (⟨entries⟩ : Index (List Component) Nat).Keyed := hkeys.nodup_iff.2 h
  refine Option.ext fun n => ?_
  rw [repositoryOf?_eq_some_iff h, repositoryOf?_eq_some_iff hkeyed]
  refine exists_congr fun key => and_congr hperm.mem_iff ⟨?_, ?_⟩
  · exact fun hlongest => hlongest.congr fun _ => hkeys.mem_iff
  · exact fun hlongest => hlongest.congr fun _ => hkeys.mem_iff.symm

/-- The root of the repository around a path, by its components. -/
def rootAround? (g : Atlas) (path : Path) : Option (List Component) :=
  ((g.repositoryOf? path).bind g.net.vertex?).map fun v => v.path.components

/-- The number under a root is that of its vertex. -/
theorem Inv.exists_vertex?_of_mem (h : g.Inv) {key : List Component}
    (hmem : (key, n) ∈ g.repositories.entries) :
    ∃ v, g.net.vertex? n = some v ∧ v.kind = .repository ∧ v.path.components = key := by
  have hfind := h.repositories.keyed.find?_eq_some_iff.2 hmem
  obtain ⟨v, hv, hkind, hpath⟩ := h.repositories.find?_eq_some_iff.1 hfind
  exact ⟨v, h.vertex?_eq_some_iff.2 hv, hkind, hpath⟩

theorem Inv.rootAround?_eq_some_iff (h : g.Inv) {key : List Component} :
    g.rootAround? path = some key ↔
      IsLongest (g.repositories.entries.map Prod.fst) path.components key := by
  rcases repositoryOf?_cases g path with ⟨hnone, hentries⟩ | ⟨e, he, hsome, hlongest⟩
  · rw [rootAround?, hnone]
    refine ⟨nofun, fun hlongest => ?_⟩
    obtain ⟨e, he, rfl⟩ := List.mem_map.1 hlongest.mem
    exact absurd hlongest.around (hentries e he)
  · obtain ⟨v, hv, -, hpath⟩ := h.exists_vertex?_of_mem he
    rw [rootAround?, hsome, Option.bind_some, hv, Option.map_some, hpath, Option.some.injEq]
    exact ⟨fun heq => heq ▸ hlongest, hlongest.unique⟩

/-! ### What changes the roots -/

/-- A root that is there already keeps its number. -/
theorem find?_addRepository (g : Atlas) (root : Path) (key : List Component) :
    (g.addRepository root).2.repositories.find? key =
      if key = root.components then some (g.addRepository root).1
      else g.repositories.find? key := by
  unfold addRepository
  split
  · next number hfind =>
    split
    · next hkey => rw [hkey, hfind]
    · rfl
  · exact Index.find?_insert _ _ _ _

theorem addRepository_fst_of_find? {root : Path}
    (h : g.repositories.find? root.components = some n) : (g.addRepository root).1 = n := by
  simp only [addRepository, h]

theorem repositories_removeFile (g : Atlas) (path : Path) :
    (g.removeFile path).repositories = g.repositories := by
  unfold removeFile
  split
  · rfl
  · next file hfile =>
    obtain ⟨qualified, simple, heq⟩ := exists_foldl_removeSymbol_eq
      { g with files := g.files.erase path.components } (g.members file)
    simp only [heq]

theorem repositories_ingest (g : Atlas) (repository : Option Nat) (path : Path) (found : Findings)
    (entities : List Entity) :
    (g.ingest repository path found entities).2.repositories = g.repositories := by
  obtain ⟨net, qualified, simple, heq⟩ := exists_foldl_addSymbol_eq path
    (g.removeFile path).net.vertices.next found.symbols
    ((g.removeFile path).withFile repository path)
  simp only [ingest_eq, heq]
  exact repositories_removeFile g path

theorem repositories_link (g : Atlas) : g.link.repositories = g.repositories := by
  obtain ⟨arcs, linked, unresolved, heq⟩ := exists_link_eq g
  rw [heq]

end

end Atlas

/-! ### The roots that were added -/

/-- The root of the repository that an operation adds. -/
def Operation.root? : Operation → Option Path
  | .addRepository root => some root
  | _ => none

/-- The roots of the repositories that operations add, each with the number that was given for
it. -/
def registrations (ops : List Operation) : List (Path × Nat) :=
  (ops.filterMap Operation.root?).zip (Session.run ops).issued

/-- The roots that operations add, by their components. -/
def addedRoots (ops : List Operation) : List (List Component) :=
  (registrations ops).map fun e => e.1.components

theorem length_issued_run (ops : List Operation) :
    (ops.filterMap Operation.root?).length = (Session.run ops).issued.length := by
  induction ops using List.reverseRecOn with
  | nil => rfl
  | append_singleton ops op ih =>
    rw [Session.run_concat, List.filterMap_append, List.length_append, ih]
    cases op <;> simp [Operation.root?, Session.apply]

theorem registrations_addRepository (ops : List Operation) (root : Path) :
    registrations (ops ++ [.addRepository root]) =
      registrations ops ++ [(root, ((Session.run ops).atlas.addRepository root).1)] := by
  rw [registrations, Session.run_concat, List.filterMap_append, Session.apply,
    List.zip_append (length_issued_run ops)]
  rfl

/-- An operation that adds no root changes neither the roots nor the numbers given for them. -/
theorem apply_of_root?_eq_none (s : Session) {op : Operation} (hop : op.root? = none) :
    (s.apply op).issued = s.issued ∧
      (s.apply op).atlas.repositories = s.atlas.repositories := by
  cases op with
  | addRepository root => cases hop
  | ingest repository path found entities =>
    exact ⟨rfl, Atlas.repositories_ingest _ _ path found entities⟩
  | removeFile path => exact ⟨rfl, s.atlas.repositories_removeFile path⟩
  | link => exact ⟨rfl, s.atlas.repositories_link⟩

theorem registrations_of_root?_eq_none (ops : List Operation) {op : Operation}
    (hop : op.root? = none) : registrations (ops ++ [op]) = registrations ops := by
  rw [registrations, Session.run_concat, List.filterMap_append, List.filterMap_cons_none hop,
    List.filterMap_nil, List.append_nil, (apply_of_root?_eq_none _ hop).1, registrations]

/-- Under a root there is the number that was given for it, whenever it was added and however it
was spelled. -/
theorem find?_repositories_run (ops : List Operation) {key : List Component} {n : Nat} :
    (Session.run ops).atlas.repositories.find? key = some n ↔
      ∃ root, (root, n) ∈ registrations ops ∧ root.components = key := by
  induction ops using List.reverseRecOn generalizing key n with
  | nil => simp [registrations, Session.run]
  | append_singleton ops op ih =>
    rw [Session.run_concat]
    cases hop : op.root? with
    | none =>
      rw [(apply_of_root?_eq_none _ hop).2, registrations_of_root?_eq_none ops hop, ih]
    | some root =>
      obtain rfl : op = .addRepository root := by cases op <;> simp_all [Operation.root?]
      rw [registrations_addRepository, Session.apply, Atlas.find?_addRepository]
      simp only [List.mem_append, List.mem_singleton, Prod.mk.injEq]
      split
      · next hkey =>
        rw [Option.some.injEq]
        constructor
        · rintro rfl
          exact ⟨root, .inr ⟨rfl, rfl⟩, hkey.symm⟩
        · rintro ⟨other, hother | ⟨-, rfl⟩, hcomponents⟩
          · -- The same root was added before, under this number.
            exact Atlas.addRepository_fst_of_find? (ih.2 ⟨other, hother, hcomponents.trans hkey⟩)
          · rfl
      · next hkey =>
        rw [ih]
        constructor
        · rintro ⟨other, hother, hcomponents⟩
          exact ⟨other, .inl hother, hcomponents⟩
        · rintro ⟨other, hother | ⟨rfl, -⟩, hcomponents⟩
          · exact ⟨other, hother, hcomponents⟩
          · exact absurd hcomponents.symm hkey

/-! ### Looking up a path -/

theorem mem_entries_run (ops : List Operation) {key : List Component} {n : Nat} :
    (key, n) ∈ (Session.run ops).atlas.repositories.entries ↔
      ∃ root, (root, n) ∈ registrations ops ∧ root.components = key := by
  rw [← find?_repositories_run, (Session.inv_run ops).repositories.keyed.find?_eq_some_iff]

theorem mem_keys_run (ops : List Operation) (key : List Component) :
    key ∈ (Session.run ops).atlas.repositories.entries.map Prod.fst ↔ key ∈ addedRoots ops := by
  rw [addedRoots, List.mem_map, List.mem_map]
  constructor
  · rintro ⟨⟨key, n⟩, he, rfl⟩
    obtain ⟨root, hmem, rfl⟩ := (mem_entries_run ops).1 he
    exact ⟨(root, n), hmem, rfl⟩
  · rintro ⟨e, he, rfl⟩
    exact ⟨(e.1.components, e.2), (mem_entries_run ops).2 ⟨e.1, he, rfl⟩, rfl⟩

theorem Path.startsWith_iff {path root : Path} :
    path.startsWith root = true ↔ root.components <+: path.components :=
  List.isPrefixOf_iff_prefix

/-- The root was added and got the number, the path lies at or below it, and of the roots of which
that is true it has the most components, and more than any other. The number is that of its
vertex. -/
structure Atlas.IsInnermost (g : Atlas) (added : List (Path × Nat)) (path root : Path) (n : Nat) :
    Prop where
  mem : (root, n) ∈ added
  around : path.startsWith root = true
  longest : ∀ e ∈ added, path.startsWith e.1 = true →
    e.1.components.length ≤ root.components.length
  unique : ∀ e ∈ added, path.startsWith e.1 = true →
    e.1.components.length = root.components.length → e.1.same root = true ∧ e.2 = n
  vertex : ∃ v, g.net.vertex? n = some v ∧ v.kind = .repository ∧ v.path.same root = true

/-- The number under the longest root is that of the innermost repository. -/
theorem isInnermost_run (ops : List Operation) {path root : Path} {n : Nat}
    (hmem : (root, n) ∈ registrations ops)
    (hlongest : IsLongest (addedRoots ops) path.components root.components) :
    (Session.run ops).atlas.IsInnermost (registrations ops) path root n where
  mem := hmem
  around := Path.startsWith_iff.2 hlongest.around
  longest e he haround :=
    hlongest.longest _ (List.mem_map_of_mem he) (Path.startsWith_iff.1 haround)
  unique e he haround hlength := by
    have hcomponents := eq_of_isPrefix_of_length_eq (Path.startsWith_iff.1 haround) hlongest.around
      hlength
    have hfind := (find?_repositories_run ops).2 ⟨e.1, he, hcomponents⟩
    rw [(find?_repositories_run ops).2 ⟨root, hmem, rfl⟩, Option.some.injEq] at hfind
    exact ⟨Path.same_iff.2 hcomponents, hfind.symm⟩
  vertex := by
    obtain ⟨v, hv, hkind, hpath⟩ := (Session.inv_run ops).exists_vertex?_of_mem
      ((mem_entries_run ops).2 ⟨root, hmem, rfl⟩)
    exact ⟨v, hv, hkind, Path.same_iff.2 hpath⟩

theorem Atlas.IsInnermost.isLongest {g : Atlas} {ops : List Operation} {path root : Path} {n : Nat}
    (h : g.IsInnermost (registrations ops) path root n) :
    IsLongest (addedRoots ops) path.components root.components where
  mem := List.mem_map_of_mem h.mem
  around := Path.startsWith_iff.1 h.around
  longest := by
    intro other hother haround
    obtain ⟨e, he, rfl⟩ := List.mem_map.1 hother
    exact h.longest e he (Path.startsWith_iff.2 haround)

/-- **The repository around a path is the innermost one.** After any operations, looking up a path
gives nothing if and only if it lies below no root that was added, and otherwise the number of the
one root above it with the most components. In which order the index holds its entries makes no
difference, nor in which order, how often and in which spelling the roots were added. -/
theorem repositoryOf?_run (ops : List Operation) (path : Path) :
    ((Session.run ops).atlas.repositoryOf? path = none ↔
        ∀ e ∈ registrations ops, path.startsWith e.1 = false) ∧
      (∀ n, (Session.run ops).atlas.repositoryOf? path = some n ↔
        ∃ root, (Session.run ops).atlas.IsInnermost (registrations ops) path root n) ∧
      (∀ entries, entries.Perm (Session.run ops).atlas.repositories.entries →
        { (Session.run ops).atlas with repositories := ⟨entries⟩ }.repositoryOf? path =
          (Session.run ops).atlas.repositoryOf? path) ∧
      ∀ others : List Operation,
        (∀ key, key ∈ addedRoots others ↔ key ∈ addedRoots ops) →
        (Session.run others).atlas.rootAround? path = (Session.run ops).atlas.rootAround? path := by
  have hkeyed := (Session.inv_run ops).repositories.keyed
  refine ⟨?_, fun n => ?_, fun entries hperm => Atlas.repositoryOf?_perm hkeyed hperm path,
    fun others hothers => Option.ext fun key => ?_⟩
  · rw [Atlas.repositoryOf?_eq_none_iff]
    constructor
    · intro h e he
      rw [← Bool.not_eq_true, Path.startsWith_iff]
      exact h (e.1.components, e.2) ((mem_entries_run ops).2 ⟨e.1, he, rfl⟩)
    · rintro h ⟨key, n⟩ he haround
      obtain ⟨root, hmem, rfl⟩ := (mem_entries_run ops).1 he
      have hnot := h (root, n) hmem
      rw [Path.startsWith_iff.2 haround] at hnot
      cases hnot
  · rw [Atlas.repositoryOf?_eq_some_iff hkeyed]
    constructor
    · rintro ⟨key, he, hlongest⟩
      obtain ⟨root, hmem, rfl⟩ := (mem_entries_run ops).1 he
      exact ⟨root, isInnermost_run ops hmem (hlongest.congr (mem_keys_run ops))⟩
    · rintro ⟨root, hinnermost⟩
      refine ⟨root.components, (mem_entries_run ops).2 ⟨root, hinnermost.mem, rfl⟩, ?_⟩
      exact hinnermost.isLongest.congr fun key => (mem_keys_run ops key).symm
  · rw [(Session.inv_run others).rootAround?_eq_some_iff,
      (Session.inv_run ops).rootAround?_eq_some_iff]
    have hkeys (key : List Component) :=
      (mem_keys_run others key).trans ((hothers key).trans (mem_keys_run ops key).symm)
    exact ⟨fun h => h.congr hkeys, fun h => h.congr fun key => (hkeys key).symm⟩

/-- One repository inside another, beside a third whose name begins alike. -/
def nestedRepositories : List Operation :=
  [.addRepository ⟨"/r/a"⟩, .addRepository ⟨"/r"⟩, .addRepository ⟨"/r//a/"⟩,
    .addRepository ⟨"/r/ab"⟩]

/-- The inner repository, added under two spellings, is found, from its own entry or another one
first, and also if the roots are added in the reverse order. -/
theorem repositoryOf?_run_nestedRepositories :
    let g := (Session.run nestedRepositories).atlas
    let other := (Session.run nestedRepositories.reverse).atlas
    g.repositoryOf? ⟨"/r/a/x.cs"⟩ = some 0 ∧
      (∃ root, g.IsInnermost (registrations nestedRepositories) ⟨"/r/a/x.cs"⟩ root 0) ∧
      { g with repositories := ⟨g.repositories.entries.reverse⟩ }.repositoryOf? ⟨"/r/a/x.cs"⟩ =
        some 0 ∧
      other.repositoryOf? ⟨"/r/a/x.cs"⟩ = some 1 ∧
      other.rootAround? ⟨"/r/a/x.cs"⟩ = g.rootAround? ⟨"/r/a/x.cs"⟩ ∧
      g.repositoryOf? ⟨"/ra/x.cs"⟩ = none := by
  intro g other
  have hfound : g.repositoryOf? ⟨"/r/a/x.cs"⟩ = some 0 := by decide +kernel
  obtain ⟨-, hsome, hperm, hothers⟩ := repositoryOf?_run nestedRepositories ⟨"/r/a/x.cs"⟩
  obtain ⟨hnone, -⟩ := repositoryOf?_run nestedRepositories ⟨"/ra/x.cs"⟩
  have hroots : (addedRoots nestedRepositories.reverse).Perm (addedRoots nestedRepositories) := by
    decide +kernel
  exact ⟨hfound, (hsome 0).1 hfound, (hperm _ (List.reverse_perm _)).trans hfound,
    by decide +kernel, hothers nestedRepositories.reverse fun _ => hroots.mem_iff,
    hnone.2 (by decide +kernel)⟩

end SymbolAtlas
