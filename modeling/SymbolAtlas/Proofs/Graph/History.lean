import Mathlib.Tactic
import SymbolAtlas.Proofs.Graph.Reachable
import SymbolAtlas.Proofs.Graph.Renaming

/-!
# Replaced and removed files leave no trace

A `Session` carries out operations on an atlas. An ingested file survives if no later operation
ingests or removes it again (`survivors`). What an atlas holds is what the surviving files hold, in
the order in which they were ingested (`holds_run`), so that after linking it answers like a fresh
atlas into which the repositories and then just these files went (`sameAnswers_canonical`).
-/

namespace SymbolAtlas

/-- What is done to an atlas. -/
inductive Operation where
  | addRepository (root : Path)
  /-- The file is in the repository that the call of `addRepository` with this position gave, the
  first one having position zero, or in none. -/
  | ingest (repository : Option Nat) (path : Path) (found : Findings) (entities : List Entity)
  | removeFile (path : Path)
  | link
  deriving DecidableEq, Repr

namespace Operation

def isAddRepository : Operation → Bool
  | .addRepository _ => true
  | _ => false

def isIngest : Operation → Bool
  | .ingest .. => true
  | _ => false

/-- The operation takes out what was known of the file. -/
def clears (op : Operation) (path : Path) : Bool :=
  match op with
  | .ingest _ other _ _ | .removeFile other => path.same other
  | _ => false

/-- The operation takes out what an earlier one put in. -/
def replaces (op earlier : Operation) : Bool :=
  match earlier with
  | .ingest _ path _ _ => op.clears path
  | _ => false

/-- The file and the symbols that an operation puts in. -/
def vertices : Operation → List Vertex
  | .ingest _ path found _ => .ofFile path :: found.symbols.map (.ofSymbol path)
  | _ => []

/-- The dependencies that an operation declares. -/
def pending : Operation → List Pending
  | .ingest _ path found _ => found.dependencies.map (.ofDependency path)
  | _ => []

/-- The entities that an operation puts in. -/
def entities : Operation → List (Path × Entity)
  | .ingest _ path _ entities => entities.map fun e => (path, e)
  | _ => []

end Operation

/-- An atlas, with the numbers that adding repositories gave. -/
structure Session where
  atlas : Atlas := {}
  issued : List Nat := []

namespace Session

/-- Carries out one operation. -/
def apply (s : Session) : Operation → Session
  | .addRepository root =>
    { atlas := (s.atlas.addRepository root).2
      issued := s.issued ++ [(s.atlas.addRepository root).1] }
  | .ingest repository path found entities =>
    { s with
      atlas := (s.atlas.ingest (repository.bind (s.issued[·]?)) path found entities).2 }
  | .removeFile path => { s with atlas := s.atlas.removeFile path }
  | .link => { s with atlas := s.atlas.link }

/-- Carries out operations on an empty atlas. -/
def run (ops : List Operation) : Session := ops.foldl apply {}

theorem run_concat (ops : List Operation) (op : Operation) :
    run (ops ++ [op]) = (run ops).apply op := by
  rw [run, List.foldl_append]
  rfl

theorem reachable_run (ops : List Operation) :
    Atlas.Reachable (run ops).issued (run ops).atlas := by
  induction ops using List.reverseRecOn with
  | nil => exact .empty
  | append_singleton ops op ih =>
    rw [run_concat]
    cases op with
    | addRepository root => exact .addRepository root ih
    | ingest repository path found entities =>
      refine .ingest _ path found entities ih fun n hn => ?_
      obtain ⟨k, -, hk⟩ := Option.bind_eq_some_iff.1 hn
      exact List.mem_of_getElem? hk
    | removeFile path => exact .removeFile path ih
    | link => exact .link ih

theorem inv_run (ops : List Operation) : (run ops).atlas.Inv := (reachable_run ops).inv

end Session

/-! ### Survivors -/

/-- The files that were ingested and neither replaced nor removed later. -/
def survivors : List Operation → List Operation
  | [] => []
  | op :: later =>
    if op.isIngest && !later.any (·.replaces op) then op :: survivors later else survivors later

/-- The same repositories, and then the surviving files only. -/
def canonical (ops : List Operation) : List Operation :=
  ops.filter Operation.isAddRepository ++ survivors ops

theorem survivors_concat (ops : List Operation) (op : Operation) :
    survivors (ops ++ [op]) =
      (survivors ops).filter (fun s => !op.replaces s) ++ if op.isIngest then [op] else [] := by
  induction ops with
  | nil => simp [survivors]
  | cons o ops ih =>
    simp only [List.cons_append, survivors, List.any_append, List.any_cons, List.any_nil,
      Bool.or_false, Bool.not_or, ih]
    cases o.isIngest <;> cases ops.any (·.replaces o) <;> cases hop : op.replaces o <;> simp [hop]

theorem survivors_sublist (ops : List Operation) : (survivors ops).Sublist ops := by
  induction ops with
  | nil => exact List.Sublist.refl []
  | cons op later ih =>
    rw [survivors]
    split
    · exact ih.cons_cons op
    · exact ih.cons op

theorem isIngest_of_mem_survivors {ops : List Operation} {s : Operation} (hs : s ∈ survivors ops) :
    s.isIngest := by
  induction ops with
  | nil => cases hs
  | cons op later ih =>
    rw [survivors] at hs
    split at hs
    case isTrue hop =>
      rcases List.mem_cons.1 hs with rfl | hs
      · exact (Bool.and_eq_true _ _ ▸ hop).1
      · exact ih hs
    case isFalse => exact ih hs

/-- Of survivors, none replaces another. -/
theorem survivors_survivors (ops : List Operation) : survivors (survivors ops) = survivors ops := by
  induction ops with
  | nil => rfl
  | cons op later ih =>
    rw [survivors]
    split
    case isTrue hop =>
      obtain ⟨hingest, hlater⟩ := Bool.and_eq_true_iff.1 hop
      have hsurvivors : (!(survivors later).any (·.replaces op)) = true := by
        rw [Bool.not_eq_true', List.any_eq_false] at hlater ⊢
        exact fun s hs => hlater s ((survivors_sublist later).subset hs)
      rw [survivors, hingest, hsurvivors, ih]
      rfl
    case isFalse => exact ih

theorem survivors_append_of_not_isIngest {before : List Operation}
    (h : ∀ op ∈ before, op.isIngest = false) (ops : List Operation) :
    survivors (before ++ ops) = survivors ops := by
  induction before with
  | nil => rfl
  | cons op before ih =>
    obtain ⟨hop, hbefore⟩ := List.forall_mem_cons.1 h
    rw [List.cons_append, survivors, hop]
    exact ih hbefore

theorem survivors_canonical (ops : List Operation) :
    survivors (canonical ops) = survivors ops := by
  rw [canonical, survivors_append_of_not_isIngest, survivors_survivors]
  intro op hop
  have := (List.mem_filter.1 hop).2
  cases op <;> simp_all [Operation.isAddRepository, Operation.isIngest]

/-! ### What an atlas holds -/

section

variable {s : Session}

/-- Among files and symbols, those that lie in a file are those with its path. -/
theorem map_filter_liesIn (rows : List (Nat × Vertex)) (path : Path) :
    ((rows.filter fun e => !e.2.liesIn path).filter fun e => e.2.kind ≠ .repository).map Prod.snd =
      ((rows.filter fun e => e.2.kind ≠ .repository).map Prod.snd).filter
        fun v => !v.path.same path := by
  rw [List.filter_map, List.filter_filter, List.filter_filter]
  congr 1
  refine List.filter_congr fun e _ => ?_
  by_cases hkind : e.2.kind = .repository <;> simp [Vertex.liesIn, hkind]

theorem fileRows_apply (h : s.atlas.Inv) (op : Operation) :
    (s.apply op).atlas.fileRows.map Prod.snd =
      op.vertices.reverse ++
        (s.atlas.fileRows.map Prod.snd).filter fun v => !op.clears v.path := by
  cases op with
  | addRepository root =>
    simp only [Session.apply, Operation.vertices, Operation.clears, Bool.not_false,
      List.filter_true, List.reverse_nil, List.nil_append]
    unfold Atlas.addRepository
    split
    · rfl
    · simp [Atlas.fileRows, Atlas.rows, Vertex.ofRepository]
  | ingest repository path found entities =>
    obtain ⟨new, hrows, hnew⟩ := h.exists_rows_ingest (repository.bind (s.issued[·]?)) path found
      entities
    have hkind : ∀ e ∈ new, e.2.kind ≠ .repository := by
      intro e he
      have hmem := List.mem_map_of_mem (f := Prod.snd) he
      rw [hnew, List.mem_reverse, List.mem_cons, List.mem_map] at hmem
      rcases hmem with hfile | ⟨symbol, -, hsymbol⟩
      · rw [hfile]
        simp [Vertex.ofFile]
      · rw [← hsymbol]
        simp [Vertex.ofSymbol]
    rw [Session.apply, Atlas.fileRows, hrows, List.filter_append, List.map_append, map_filter_liesIn,
      List.filter_eq_self.2 fun e he => by simpa using hkind e he, hnew]
    rfl
  | removeFile path =>
    rw [Session.apply, Atlas.fileRows, h.rows_removeFile, map_filter_liesIn]
    rfl
  | link =>
    rw [Session.apply, Atlas.fileRows, Atlas.rows_link]
    simp [Operation.vertices, Operation.clears, Atlas.fileRows]

theorem pending_apply (h : s.atlas.Inv) (op : Operation) :
    (s.apply op).atlas.pending =
      (s.atlas.pending.filter fun d => !op.clears d.path) ++ op.pending := by
  cases op with
  | addRepository root =>
    simp only [Session.apply, Atlas.addRepository]
    split <;> simp [Operation.clears, Operation.pending]
  | ingest repository path found entities =>
    rw [Session.apply, Atlas.pending_ingest, h.pending_removeFile]
    rfl
  | removeFile path =>
    rw [Session.apply, h.pending_removeFile]
    simp [Operation.clears, Operation.pending]
  | link =>
    obtain ⟨arcs, linked, unresolved, heq⟩ := Atlas.exists_link_eq s.atlas
    simp [Session.apply, heq, Operation.clears, Operation.pending]

theorem entities_apply (h : s.atlas.Inv) (op : Operation) :
    (s.apply op).atlas.entities =
      (s.atlas.entities.filter fun e => !op.clears e.1) ++ op.entities := by
  cases op with
  | addRepository root =>
    simp only [Session.apply, Atlas.addRepository]
    split <;> simp [Operation.clears, Operation.entities]
  | ingest repository path found entities =>
    rw [Session.apply, Atlas.entities_ingest, h.entities_removeFile]
    rfl
  | removeFile path =>
    rw [Session.apply, h.entities_removeFile]
    simp [Operation.clears, Operation.entities]
  | link =>
    obtain ⟨arcs, linked, unresolved, heq⟩ := Atlas.exists_link_eq s.atlas
    simp [Session.apply, heq, Operation.clears, Operation.entities]

end

/-- What an operation puts in belongs to the file that it ingests. -/
def Owns {β : Type} (content : Operation → List β) (path : β → Path) : Prop :=
  ∀ s, ∀ b ∈ content s, s.isIngest ∧ ∀ op : Operation, op.replaces s = op.clears (path b)

theorem owns_vertices : Owns Operation.vertices Vertex.path := by
  intro s v hv
  cases s with
  | ingest repository path found entities =>
    rcases List.mem_cons.1 hv with rfl | hv
    · exact ⟨rfl, fun _ => rfl⟩
    · obtain ⟨symbol, -, rfl⟩ := List.mem_map.1 hv
      exact ⟨rfl, fun _ => rfl⟩
  | addRepository root => cases hv
  | removeFile path => cases hv
  | link => cases hv

theorem owns_pending : Owns Operation.pending Pending.path := by
  intro s d hd
  cases s with
  | ingest repository path found entities =>
    obtain ⟨dependency, -, rfl⟩ := List.mem_map.1 hd
    exact ⟨rfl, fun _ => rfl⟩
  | addRepository root => cases hd
  | removeFile path => cases hd
  | link => cases hd

theorem owns_entities : Owns Operation.entities Prod.fst := by
  intro s e he
  cases s with
  | ingest repository path found entities =>
    obtain ⟨entity, -, rfl⟩ := List.mem_map.1 he
    exact ⟨rfl, fun _ => rfl⟩
  | addRepository root => cases he
  | removeFile path => cases he
  | link => cases he

/-- What a file put in goes as a whole. -/
theorem Owns.filter_flatMap {β : Type} {content : Operation → List β} {path : β → Path}
    (h : Owns content path) (op : Operation) (ops : List Operation) :
    (ops.flatMap content).filter (fun b => !op.clears (path b)) =
      (ops.filter fun s => !op.replaces s).flatMap content := by
  induction ops with
  | nil => rfl
  | cons s ops ih =>
    rw [List.flatMap_cons, List.filter_append, ih, List.filter_cons,
      List.filter_congr fun b hb => by rw [← (h s b hb).2 op]]
    cases op.replaces s <;> simp

/-- One more operation takes out what it replaces and puts in its own. -/
theorem Owns.flatMap_survivors_concat {β : Type} {content : Operation → List β} {path : β → Path}
    (h : Owns content path) (ops : List Operation) (op : Operation) :
    (survivors (ops ++ [op])).flatMap content =
      ((survivors ops).flatMap content).filter (fun b => !op.clears (path b)) ++ content op := by
  rw [survivors_concat, List.flatMap_append, h.filter_flatMap]
  congr 1
  cases hop : op.isIngest with
  | true => simp
  | false =>
    have hnil : content op = [] := by
      rw [List.eq_nil_iff_forall_not_mem]
      intro b hb
      rw [(h op b hb).1] at hop
      cases hop
    rw [hnil]
    rfl

/-- The atlas holds what the given files hold, in their order. -/
structure HoldsJust (files : List Operation) (g : Atlas) : Prop where
  fileRows : g.fileRows.map Prod.snd = (files.flatMap Operation.vertices).reverse
  pending : g.pending = files.flatMap Operation.pending
  entities : g.entities = files.flatMap Operation.entities

/-- An atlas holds just what the surviving files hold. -/
theorem holds_run (ops : List Operation) : HoldsJust (survivors ops) (Session.run ops).atlas := by
  induction ops using List.reverseRecOn with
  | nil => exact ⟨rfl, rfl, rfl⟩
  | append_singleton ops op ih =>
    have hinv := Session.inv_run ops
    rw [Session.run_concat]
    refine ⟨?_, ?_, ?_⟩
    · rw [fileRows_apply hinv, ih.fileRows, owns_vertices.flatMap_survivors_concat,
        List.reverse_append, List.filter_reverse]
    · rw [pending_apply hinv, ih.pending, owns_pending.flatMap_survivors_concat]
    · rw [entities_apply hinv, ih.entities, owns_entities.flatMap_survivors_concat]

/-! ### Repositories -/

/-- The vertices of the repositories, the newest first. -/
def Atlas.roots (g : Atlas) : List Vertex :=
  (g.rows.map Prod.snd).filter fun v => v.kind = .repository

theorem Atlas.Inv.roots_addRepository {g : Atlas} (h : g.Inv) (root : Path) :
    (g.addRepository root).2.roots =
      if ∃ v ∈ g.roots, v.path.components = root.components then g.roots
      else .ofRepository root :: g.roots := by
  cases hfind : g.repositories.find? root.components with
  | none =>
    have hnone : ¬ ∃ v ∈ g.roots, v.path.components = root.components := by
      rintro ⟨v, hv, hpath⟩
      obtain ⟨hmem, hkind⟩ := List.mem_filter.1 hv
      obtain ⟨⟨n, w⟩, hrow, rfl⟩ := List.mem_map.1 hmem
      rw [h.repositories.find?_eq_some_iff.2 ⟨w, hrow, by simpa using hkind, hpath⟩] at hfind
      cases hfind
    rw [if_neg hnone]
    simp only [Atlas.addRepository, hfind]
    simp [roots, rows, Vertex.ofRepository]
  | some n =>
    obtain ⟨v, hrow, hkind, hpath⟩ := h.repositories.find?_eq_some_iff.1 hfind
    have hv : v ∈ g.roots :=
      List.mem_filter.2 ⟨List.mem_map_of_mem hrow, by simpa using hkind⟩
    rw [if_pos ⟨v, hv, hpath⟩]
    simp only [Atlas.addRepository, hfind]

theorem roots_apply_of_not_isAddRepository {s : Session} (h : s.atlas.Inv) {op : Operation}
    (hop : op.isAddRepository = false) : (s.apply op).atlas.roots = s.atlas.roots := by
  -- Whatever lies in a file is no repository.
  have hclear : ∀ path : Path,
      ((s.atlas.rows.filter fun e => !e.2.liesIn path).map Prod.snd).filter
        (fun v => v.kind = .repository) = s.atlas.roots := by
    intro path
    rw [Atlas.roots, List.filter_map, List.filter_map, List.filter_filter]
    congr 1
    refine List.filter_congr fun e _ => ?_
    by_cases hkind : e.2.kind = .repository <;> simp [Vertex.liesIn, hkind]
  cases op with
  | addRepository root => cases hop
  | ingest repository path found entities =>
    obtain ⟨new, hrows, hnew⟩ := h.exists_rows_ingest (repository.bind (s.issued[·]?)) path found
      entities
    rw [Session.apply, Atlas.roots, hrows, List.map_append, List.filter_append, hclear, hnew]
    simp [Vertex.ofFile, Vertex.ofSymbol, List.filter_eq_nil_iff]
  | removeFile path => rw [Session.apply, Atlas.roots, h.rows_removeFile, hclear]
  | link => rw [Session.apply, Atlas.roots, Atlas.rows_link, Atlas.roots]

/-- The repositories of an atlas come from the operations that add them. -/
theorem roots_run (ops : List Operation) :
    (Session.run ops).atlas.roots =
      (Session.run (ops.filter Operation.isAddRepository)).atlas.roots := by
  induction ops using List.reverseRecOn with
  | nil => rfl
  | append_singleton ops op ih =>
    have hinv := Session.inv_run ops
    rw [List.filter_append, Session.run_concat]
    cases hop : op.isAddRepository with
    | false =>
      rw [roots_apply_of_not_isAddRepository hinv hop, ih, List.filter_cons_of_neg (by simp [hop]),
        List.filter_nil, List.append_nil]
    | true =>
      rw [List.filter_cons_of_pos hop, List.filter_nil, Session.run_concat]
      cases op with
      | addRepository root =>
        simp only [Session.apply, hinv.roots_addRepository,
          (Session.inv_run (ops.filter Operation.isAddRepository)).roots_addRepository, ih]
      | ingest repository path found entities => cases hop
      | removeFile path => cases hop
      | link => cases hop

theorem filter_isAddRepository_canonical (ops : List Operation) :
    (canonical ops).filter Operation.isAddRepository = ops.filter Operation.isAddRepository := by
  have hsurvivors : (survivors ops).filter Operation.isAddRepository = [] := by
    rw [List.filter_eq_nil_iff]
    intro s hs
    have := isIngest_of_mem_survivors hs
    cases s <;> simp_all [Operation.isIngest, Operation.isAddRepository]
  rw [canonical, List.filter_append, hsurvivors, List.append_nil, List.filter_filter]
  simp

/-- **Replaced and removed files leave no trace.** After linking, an atlas answers like a fresh one
to which the same repositories were added and then only the surviving files, in the order in which
they were last ingested. -/
theorem sameAnswers_canonical (ops : List Operation) :
    Atlas.SameAnswers (Session.run (ops ++ [.link])).atlas
      (Session.run (canonical ops ++ [.link])).atlas := by
  have hholds := holds_run ops
  have hholds' := holds_run (canonical ops)
  rw [survivors_canonical] at hholds'
  have hroots : (Session.run (canonical ops)).atlas.roots = (Session.run ops).atlas.roots := by
    rw [roots_run ops, roots_run (canonical ops), filter_isAddRepository_canonical]
  obtain ⟨f, hf⟩ := Atlas.Renaming.exists_of_map_snd_eq (Session.inv_run ops)
    (Session.inv_run (canonical ops)) (hholds'.fileRows.trans hholds.fileRows.symm)
  rw [Session.run_concat, Session.run_concat]
  refine (hf.link (hholds'.pending.trans hholds.pending.symm)).sameAnswers ?_ ?_
  · rw [Atlas.rows_link, Atlas.rows_link]
    exact hroots
  · obtain ⟨arcs, linked, unresolved, heq⟩ := Atlas.exists_link_eq (Session.run ops).atlas
    obtain ⟨arcs', linked', unresolved', heq'⟩ :=
      Atlas.exists_link_eq (Session.run (canonical ops)).atlas
    rw [heq, heq']
    exact hholds'.entities.trans hholds.entities.symm

end SymbolAtlas
