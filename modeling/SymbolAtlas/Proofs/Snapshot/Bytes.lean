import Mathlib.Tactic
import SymbolAtlas.Proofs.Snapshot.Codec
import SymbolAtlas.Snapshot.Basic

/-!
# A stored atlas can be loaded

A snapshot is `Storable` if its numbers, and the lengths of its texts and lists, fit in eight bytes.
The stored form of an atlas with such a snapshot is loaded as the atlas of that snapshot
(`Atlas.ofBytes_toBytes`).
-/

namespace SymbolAtlas

open Codec

/-! ### What can be stored -/

/-- The length of the encoded text fits in eight bytes. -/
def FitsText (s : String) : Prop := FitsSize (Bytes.ofString s).length

structure Vertex.Storable (v : Vertex) : Prop where
  name : FitsText v.name
  path : FitsText v.path.text
  startLine : FitsSize v.startLine
  endLine : FitsSize v.endLine
  signature : ∀ s ∈ v.signature, FitsText s

structure Pending.Storable (d : Pending) : Prop where
  path : FitsText d.path.text
  fromSymbol : FitsText d.fromSymbol
  toSymbol : FitsText d.toSymbol
  line : FitsSize d.line

structure Entity.Storable (e : Entity) : Prop where
  framework : FitsText e.framework
  kind : FitsText e.kind
  symbol : FitsText e.symbol
  line : FitsSize e.line

/-- All numbers and lengths fit in eight bytes. -/
structure Snapshot.Storable (s : Snapshot) : Prop where
  vertices : ∀ v ∈ s.vertices, v.Storable
  arcs : ∀ a ∈ s.arcs, FitsSize a.1 ∧ FitsSize a.2.1 ∧ FitsSize a.2.2.line
  pending : ∀ d ∈ s.pending, d.Storable
  entities : ∀ e ∈ s.entities, FitsText e.1.text ∧ e.2.Storable
  unresolved : FitsSize s.unresolved
  lengths : FitsSize s.vertices.length ∧ FitsSize s.arcs.length ∧ FitsSize s.pending.length ∧
    FitsSize s.entities.length

/-- The snapshot of the atlas can be stored. -/
def Atlas.Storable (g : Atlas) : Prop := (Snapshot.ofAtlas g).Storable

/-! Whether something can be stored is found out by looking at it. -/

instance (n : Nat) : Decidable (FitsSize n) := inferInstanceAs (Decidable (n < 256 ^ 8))

instance (s : String) : Decidable (FitsText s) := inferInstanceAs (Decidable (FitsSize _))

instance (v : Vertex) : Decidable v.Storable :=
  decidable_of_iff (FitsText v.name ∧ FitsText v.path.text ∧ FitsSize v.startLine ∧
      FitsSize v.endLine ∧ ∀ s ∈ v.signature, FitsText s)
    ⟨fun ⟨h₁, h₂, h₃, h₄, h₅⟩ => ⟨h₁, h₂, h₃, h₄, h₅⟩,
      fun h => ⟨h.name, h.path, h.startLine, h.endLine, h.signature⟩⟩

instance (d : Pending) : Decidable d.Storable :=
  decidable_of_iff (FitsText d.path.text ∧ FitsText d.fromSymbol ∧ FitsText d.toSymbol ∧
      FitsSize d.line)
    ⟨fun ⟨h₁, h₂, h₃, h₄⟩ => ⟨h₁, h₂, h₃, h₄⟩,
      fun h => ⟨h.path, h.fromSymbol, h.toSymbol, h.line⟩⟩

instance (e : Entity) : Decidable e.Storable :=
  decidable_of_iff (FitsText e.framework ∧ FitsText e.kind ∧ FitsText e.symbol ∧ FitsSize e.line)
    ⟨fun ⟨h₁, h₂, h₃, h₄⟩ => ⟨h₁, h₂, h₃, h₄⟩,
      fun h => ⟨h.framework, h.kind, h.symbol, h.line⟩⟩

instance (s : Snapshot) : Decidable s.Storable :=
  decidable_of_iff ((∀ v ∈ s.vertices, v.Storable) ∧
      (∀ a ∈ s.arcs, FitsSize a.1 ∧ FitsSize a.2.1 ∧ FitsSize a.2.2.line) ∧
      (∀ d ∈ s.pending, d.Storable) ∧ (∀ e ∈ s.entities, FitsText e.1.text ∧ e.2.Storable) ∧
      FitsSize s.unresolved ∧ FitsSize s.vertices.length ∧ FitsSize s.arcs.length ∧
      FitsSize s.pending.length ∧ FitsSize s.entities.length)
    ⟨fun ⟨h₁, h₂, h₃, h₄, h₅, h₆⟩ => ⟨h₁, h₂, h₃, h₄, h₅, h₆⟩,
      fun h => ⟨h.vertices, h.arcs, h.pending, h.entities, h.unresolved, h.lengths⟩⟩

instance (g : Atlas) : Decidable g.Storable := inferInstanceAs (Decidable (Snapshot.Storable _))

/-! ### The parts of a snapshot -/

namespace Snapshot

theorem mem_symbolKinds (kind : SymbolKind) : kind ∈ SymbolKind.all := by
  cases kind <;> decide

theorem mem_dependencyKinds (kind : DependencyKind) : kind ∈ DependencyKind.all := by
  cases kind <;> decide

theorem mem_visibilities (visibility : Visibility) : visibility ∈ Visibility.all := by
  cases visibility <;> decide

theorem readsBack_path {p : Path} (h : FitsText p.text) : path.ReadsBack p :=
  (readsBack_text h).through rfl

theorem readsBack_vertexKind (kind : VertexKind) : vertexKind.ReadsBack kind := by
  have htag : ∀ n < 256 ^ 4, (word 4).ReadsBack n := fun _ => readsBack_word
  intro rest
  cases kind with
  | repository => simp only [vertexKind, htag 0 (by decide) rest]
  | file => simp only [vertexKind, htag 1 (by decide) rest]
  | symbol kind =>
    have hkind := readsBack_choice (mem_symbolKinds kind) (by decide)
    simp only [vertexKind, List.append_assoc, htag 2 (by decide) _, hkind rest, Option.map_some]

theorem readsBack_edgeKind (kind : EdgeKind) : edgeKind.ReadsBack kind := by
  have htag : ∀ n < 256 ^ 4, (word 4).ReadsBack n := fun _ => readsBack_word
  intro rest
  cases kind with
  | contains => simp only [edgeKind, htag 0 (by decide) rest]
  | depends kind =>
    have hkind := readsBack_choice (mem_dependencyKinds kind) (by decide)
    simp only [edgeKind, List.append_assoc, htag 1 (by decide) _, hkind rest, Option.map_some]

theorem readsBack_vertex {v : Vertex} (h : v.Storable) : vertex.ReadsBack v := by
  refine ReadsBack.through (ReadsBack.pair (readsBack_text h.name) ?_) rfl
  refine ReadsBack.pair (readsBack_vertexKind _) (ReadsBack.pair (readsBack_path h.path) ?_)
  refine ReadsBack.pair (readsBack_size h.startLine) (ReadsBack.pair (readsBack_size h.endLine) ?_)
  refine ReadsBack.pair (readsBack_option fun visibility _ => ?_) ?_
  · exact readsBack_choice (mem_visibilities visibility) (by decide)
  · exact ReadsBack.pair (readsBack_bool _)
      (readsBack_option fun s hs => readsBack_text (h.signature s hs))

theorem readsBack_edge {e : Edge} (h : FitsSize e.line) : edge.ReadsBack e := by
  refine ReadsBack.through (ReadsBack.pair (readsBack_edgeKind _) ?_) rfl
  exact ReadsBack.pair (readsBack_size h) (readsBack_single _)

theorem readsBack_dependency {d : Pending} (h : d.Storable) : dependency.ReadsBack d := by
  refine ReadsBack.through (ReadsBack.pair (readsBack_path h.path) ?_) rfl
  refine ReadsBack.pair (readsBack_text h.fromSymbol) (ReadsBack.pair (readsBack_text h.toSymbol) ?_)
  refine ReadsBack.pair (readsBack_choice (mem_dependencyKinds _) (by decide)) ?_
  exact ReadsBack.pair (readsBack_size h.line) (readsBack_single _)

theorem readsBack_entity {e : Entity} (h : e.Storable) : entity.ReadsBack e := by
  refine ReadsBack.through (ReadsBack.pair (readsBack_text h.framework) ?_) rfl
  refine ReadsBack.pair (readsBack_text h.kind) (ReadsBack.pair (readsBack_text h.symbol) ?_)
  exact readsBack_size h.line

theorem readsBack_codec {s : Snapshot} (h : s.Storable) (hversion : s.version < 256 ^ 4) :
    codec.ReadsBack s := by
  obtain ⟨hvertices, harcs, hpending, hentities⟩ := h.lengths
  refine ReadsBack.through (ReadsBack.pair (readsBack_word hversion) ?_) rfl
  refine ReadsBack.pair (readsBack_list (fun v hv => readsBack_vertex (h.vertices v hv)) hvertices) ?_
  refine ReadsBack.pair (readsBack_list (fun a ha => ?_) harcs) ?_
  · obtain ⟨hsource, htarget, hline⟩ := h.arcs a ha
    exact ReadsBack.pair (readsBack_size hsource)
      (ReadsBack.pair (readsBack_size htarget) (readsBack_edge hline))
  refine ReadsBack.pair
    (readsBack_list (fun d hd => readsBack_dependency (h.pending d hd)) hpending) ?_
  refine ReadsBack.pair (readsBack_size h.unresolved) (readsBack_list (fun e he => ?_) hentities)
  obtain ⟨hpath, hentity⟩ := h.entities e he
  exact ReadsBack.pair (readsBack_path hpath) (readsBack_entity hentity)

end Snapshot

/-- What was stored is loaded. -/
theorem Atlas.ofBytes_toBytes {g : Atlas} (h : g.Storable) :
    Atlas.ofBytes g.toBytes = .ok (Snapshot.ofAtlas g).toAtlas := by
  have hread := Snapshot.readsBack_codec h (by change 1 < 256 ^ 4; decide) []
  rw [List.append_nil] at hread
  have hversion : (Snapshot.ofAtlas g).version = Snapshot.currentVersion := rfl
  simp only [Atlas.ofBytes, Atlas.toBytes, hread, if_pos hversion]

end SymbolAtlas
