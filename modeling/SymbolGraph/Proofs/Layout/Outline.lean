import Mathlib.Data.List.Forall2
import SymbolGraph.Proofs.Descent
import SymbolGraph.Proofs.Layout
import SymbolGraph.Proofs.Models

/-! The outline of a source file: its declarations in the order of the source, each with its line. Layouts
of files are described by outlines, which tell the lines of all nodes. -/
namespace SymbolGraph

/-- A class, function, property or type alias. -/
structure Declared where
  kind : NodeKind
  name : String
  line : Nat
  deriving DecidableEq, Repr

structure Outline where
  path : String
  package : String
  declarations : List Declared
  deriving DecidableEq, Repr

/-- What a node on a given line declares. -/
def Shape.declared? (line : Nat) : Shape → Option Declared
  | .classLike s => some ⟨.classLike,s.name,line⟩
  | .function s => some ⟨.function,s.name,line⟩
  | .property s => some ⟨.property,s.name,line⟩
  | .typeAlias s => some ⟨.typeAlias,s.name,line⟩
  | _ => none

namespace Arena

def declared? (a : Arena) (n : NodeId) : Option Declared :=
  match a.shape? n,a.location n with
  | some s,.file _ line => s.declared? line
  | _,_ => none

/-- The nearest declaration around a node, which may be the node itself. -/
def declaration? (a : Arena) (n : NodeId) : Option NodeId :=
  (n :: a.ancestors n).find? fun m => (a.declared? m).isSome

/-- The root above a node, or the node itself if it has no parent. -/
def root (a : Arena) (n : NodeId) : NodeId := (a.ancestors n).getLastD n

/-- A node is a file of a given outline. Its declarations are found on the way down from it. -/
structure Unfolds (a : Arena) (n : NodeId) (o : Outline) : Prop where
  location : a.location n = .file o.path 1
  shape : ∃ s, a.shape? n = some (.file s) ∧ IsLastSegment '/' o.path s.name ∧ s.package = o.package
  declarations : (a.descent n).filterMap a.declared? = o.declarations

/-- The arena is the forest of files of given outlines, numbered in the order of the source. -/
structure SourceOrdered (a : Arena) (outlines : List Outline) : Prop where
  shaped : ∀ n, (a.shape? n).isSome ↔ n.index < a.size
  files : ∀ n, n ∈ a.files ↔ n.index < a.size ∧ a.parent? n = none
  unfolds : List.Forall₂ a.Unfolds a.files outlines
  parent : ∀ n p, a.parent? n = some p → p.index < n.index ∧ (a.shape? p).isSome
  /-- Every node is listed once by its parent, and by no other node. -/
  listed : ∀ p s, a.shape? p = some s → ∀ n, s.children.count n = if a.parent? n = some p then 1 else 0
  admitted : ∀ p s, a.shape? p = some s → ∀ n place, (n,place) ∈ s.places →
    ∃ t, a.shape? n = some t ∧ place.admits t.kind
  descent : a.files.flatMap a.descent = a.nodes
  descends : ∀ n s, a.shape? n = some s → a.descent n = n :: s.children.flatMap a.descent
  /-- A node stands in the file above it, on the line of the nearest declaration, and on the first line if
  there is none. -/
  located : ∀ n, n.index < a.size → ∃ path line, a.location (a.root n) = .file path 1 ∧
    a.location n = .file path line ∧ (a.declaration? n).elim (line = 1) fun d => a.location d = .file path line

theorem SourceOrdered.children_nodup {a : Arena} {outlines : List Outline} (h : a.SourceOrdered outlines)
    {p : NodeId} {s : Shape} (hs : a.shape? p = some s) : s.children.Nodup :=
  List.nodup_iff_count.mpr fun n => by
    rw [h.listed p s hs n]
    split <;> omega

/-- A node stands in the file of its parent, and on the same line unless it is a declaration. -/
def Inherits (a : Arena) (n : NodeId) : Prop :=
  ∀ p, a.parent? n = some p → (a.location n).path? = (a.location p).path? ∧
    (a.declared? n = none → a.location n = a.location p)

end Arena

namespace Layout

variable {A B : Type} {spot : Spot} {ds ds' : List Declared}

/-- The declarations of a layout that stands at a given spot, whose other nodes inherit their lines. -/
def Outlines (x : Layout A) (spot : Spot) (ds : List Declared) : Prop :=
  ∀ (a : Arena) n, a.Holds n (x n).2 → (∀ p, spot.parent = some p → a.location p = .file spot.path spot.line) →
    (∀ i < (x n).2.length, a.Inherits ⟨n+i⟩) ∧
      (Arena.ids n (n + (x n).2.length)).filterMap a.declared? = ds

namespace Outlines

theorem pure (b : A) : Outlines (pure b) spot [] := by
  intro a n _ _
  rw [pure_apply]
  exact ⟨fun _ => nofun,by simp⟩

theorem bind {x : Layout A} {f : A → Layout B} (hx : Outlines x spot ds)
    (hf : ∀ b, Outlines (f b) spot ds') : Outlines (x >>= f) spot (ds ++ ds') := by
  intro a n holds above
  rw [bind_apply] at holds ⊢
  obtain ⟨first,declared⟩ := hx a n holds.left above
  obtain ⟨rest,declared'⟩ := hf _ a _ holds.right above
  refine ⟨fun i hi => ?_,?_⟩
  · rw [List.length_append] at hi
    by_cases h : i < (x n).2.length
    · exact first i h
    · have inner := rest (i - (x n).2.length) (by omega)
      rwa [show n + (x n).2.length + (i - (x n).2.length) = n + i by omega] at inner
  · rw [List.length_append,← Nat.add_assoc,← declared,← declared',← List.filterMap_append,
      Arena.ids_append (Nat.le_add_right _ _) (Nat.le_add_right _ _)]

theorem done {x : Layout A} (h : Outlines x spot ds) (f : A → B) :
    Outlines (x >>= fun b => Pure.pure (f b)) spot ds := by
  have all := h.bind fun b => .pure (f b)
  rwa [List.append_nil] at all

theorem cons {x : Layout B} {xs : Layout (List B)} (h : Outlines x spot ds) (h' : Outlines xs spot ds') :
    Outlines (do let b ← x; let bs ← xs; return b :: bs) spot (ds ++ ds') := h.bind fun b => h'.done (b :: ·)

theorem each {f : A → Layout B} {ds : A → List Declared} (h : ∀ b, Outlines (f b) spot (ds b)) (l : List A) :
    Outlines (each f l) spot (l.flatMap ds) := by
  induction l with
  | nil => exact .pure _
  | cons b l ih => exact (h b).cons ih

/-- Parts without declarations. -/
theorem plain {f : A → Layout B} (h : ∀ b, Outlines (f b) spot []) (l : List A) :
    Outlines (Layout.each f l) spot [] := by
  have all := each h l
  rwa [List.flatMap_eq_nil_iff.mpr fun _ _ => rfl] at all

theorem option {f : A → Layout B} (h : ∀ b, Outlines (f b) spot []) (o : Option A) :
    Outlines (option f o) spot [] := by
  cases o with
  | none => exact .pure _
  | some b =>
    rw [Layout.option,map_eq_pure_bind]
    exact (h b).done some

/-- A node on a line of its own or on that of the spot, in front of what stands below it. -/
theorem head (line : Nat) {shape : Spot → Layout Shape} {declared : Option Declared}
    (hd : ∀ spot n, (shape spot n).1.declared? line = declared)
    (same : declared = none → line = spot.line)
    (h : ∀ spot, Outlines (shape spot) spot ds) :
    Outlines (Layout.node (spot.onLine line) shape) spot (declared.toList ++ ds) := by
  intro a n holds above
  have slot := holds.head
  have location : a.location ⟨n⟩ = .file spot.path line := by rw [Arena.location,slot]; rfl
  have declares : a.declared? ⟨n⟩ = declared := by
    rw [Arena.declared?,holds.shape_head,location]
    exact hd _ _
  obtain ⟨below,listed⟩ := h ((spot.onLine line).below ⟨n⟩) a (n+1) holds.tail fun p e => by
    obtain rfl := Option.some.inj e
    exact location
  have size : (Layout.node (spot.onLine line) shape n).2.length =
      (shape ((spot.onLine line).below ⟨n⟩) (n+1)).2.length + 1 := rfl
  have last : n + (Layout.node (spot.onLine line) shape n).2.length =
      n + 1 + (shape ((spot.onLine line).below ⟨n⟩) (n+1)).2.length := by omega
  refine ⟨fun i hi p parent => ?_,?_⟩
  · cases i with
    | zero =>
      have e : spot.parent = some p := by
        rw [← parent,Nat.add_zero,Arena.parent?,slot]
        rfl
      rw [Nat.add_zero,location,above p e]
      exact ⟨rfl,fun none => by rw [same (declares.symm.trans none)]⟩
    | succ i =>
      rw [show n + (i+1) = n + 1 + i by omega] at parent ⊢
      exact below i (by omega) p parent
  · rw [last,Arena.ids_cons (by omega),List.filterMap_cons,declares,listed]
    cases declared <;> rfl

theorem node {shape : Spot → Layout Shape} (hd : ∀ line spot n, (shape spot n).1.declared? line = none)
    (h : ∀ spot, Outlines (shape spot) spot ds) : Outlines (Layout.node spot shape) spot ds :=
  head spot.line (hd spot.line) (fun _ => rfl) h

theorem declaration {shape : Spot → Layout Shape} (d : Declared)
    (hd : ∀ spot n, (shape spot n).1.declared? d.line = some d)
    (h : ∀ spot, Outlines (shape spot) spot ds) :
    Outlines (Layout.node (spot.onLine d.line) shape) spot (d :: ds) :=
  head d.line hd nofun h

/-- It does not matter where files stand. -/
theorem root {x : Layout A} (h : Outlines x spot ds) (none : spot.parent = none) (spot' : Spot) :
    Outlines x spot' ds := fun a n holds _ => h a n holds fun p e => by
  rw [none] at e
  cases e

end Outlines

/-- A layout of a file of a given outline. -/
structure IsFile (x : Layout NodeId) (o : Outline) : Prop where
  lays : Lays x none fun n => Place.root.on [n]
  outlines : Outlines x ⟨o.path,1,none⟩ o.declarations
  opens : ∀ n, ∃ s rest, x n = (⟨n⟩,⟨none,o.path,1,some (.file s)⟩ :: rest) ∧
    IsLastSegment '/' o.path s.name ∧ s.package = o.package

theorem IsFile.unfolds {x : Layout NodeId} {o : Outline} (h : IsFile x o) {a : Arena} {n : Nat}
    (holds : a.Holds n (x n).2) : a.Unfolds (x n).1 o := by
  obtain ⟨s,rest,e,name,package⟩ := h.opens n
  have forest := h.lays a n holds
  have listed := (h.outlines a n holds fun _ => nofun).2
  rw [e] at holds forest listed ⊢
  have start := Arena.lt_size_of_shape? holds.shape_head
  have descents := forest.descents (d := a.size) (by have := forest.le_size (Nat.le_of_lt start); omega)
  have descent : a.descent ⟨n⟩ = Arena.ids n (n + (rest.length + 1)) :=
    (List.flatMap_singleton _ _).symm.trans descents
  refine ⟨?_,⟨s,holds.shape_head,name,package⟩,?_⟩
  · rw [Arena.location,holds.head]
  · rw [descent]
    exact listed

variable {F : Type} {x : F → Layout NodeId} {outline : F → Outline}

theorem unfolds_each (h : ∀ f, IsFile (x f) (outline f)) {a : Arena} (fs : List F) (n : Nat)
    (holds : a.Holds n (each x fs n).2) : List.Forall₂ a.Unfolds (each x fs n).1 (fs.map outline) := by
  induction fs generalizing n with
  | nil => exact .nil
  | cons f fs ih =>
    refine .cons ((h f).unfolds holds.left) ?_
    have rest := holds.right.left
    exact ih _ rest

end Layout

namespace Arena

variable {a : Arena} {outlines : List Outline}

theorem Unfolds.declared?_eq_none {n : NodeId} {o : Outline} (h : a.Unfolds n o) : a.declared? n = none := by
  obtain ⟨s,shape,-⟩ := h.shape
  rw [declared?,shape,h.location]
  rfl

/-- If files are on their first lines, then all nodes are on the lines of the declarations around them. -/
theorem WellFormed.located (wf : a.WellFormed) (inherits : ∀ n, n.index < a.size → a.Inherits n)
    (roots : ∀ n, n.index < a.size → a.parent? n = none → ∃ o, a.Unfolds n o) (n : NodeId)
    (lt : n.index < a.size) : ∃ path line, a.location (a.root n) = .file path 1 ∧
      a.location n = .file path line ∧
      (a.declaration? n).elim (line = 1) fun d => a.location d = .file path line := by
  induction n using wf.climb with
  | root n top =>
    obtain ⟨o,file⟩ := roots n lt top
    refine ⟨o.path,1,?_,file.location,?_⟩
    · rw [Arena.root,ancestors_of_root top]
      exact file.location
    · rw [declaration?,ancestors_of_root top,List.find?_cons,file.declared?_eq_none]
      rfl
  | child n p parent ih =>
    obtain ⟨path,line,top,above,nearest⟩ := ih (Nat.lt_trans (wf.parent parent).1 lt)
    obtain ⟨same,kept⟩ := inherits n lt p parent
    have top' : a.location (a.root n) = .file path 1 := by
      rwa [Arena.root,wf.ancestors_of_parent parent,List.getLastD_cons]
    cases own : a.declared? n with
    | none =>
      refine ⟨path,line,top',(kept own).trans above,?_⟩
      rwa [declaration?,List.find?_cons,own,wf.ancestors_of_parent parent]
    | some d =>
      obtain ⟨path',line',own'⟩ : ∃ path line, a.location n = .file path line := by
        rw [Arena.declared?] at own
        split at own
        next place => exact ⟨_,_,place⟩
        next => cases own
      rw [own',above] at same
      obtain rfl : path' = path := Option.some.inj same
      refine ⟨path',line',top',own',?_⟩
      rw [declaration?,List.find?_cons,own]
      exact own'

end Arena

namespace Layout

variable {F : Type} {x : F → Layout NodeId} {outline : F → Outline}

/-- Files that are laid out one after the other make up an arena in the order of the source. -/
theorem IsFile.sourceOrdered (h : ∀ f, IsFile (x f) (outline f)) (o : Origin) (fs : List F) :
    (Arena.ofSlots o (each x fs).slots).SourceOrdered (fs.map outline) := by
  have lays : Lays (each x fs) none Place.root.on := .each fun f _ => (h f).lays
  have wf := lays.wellFormed o
  have forest := lays.forest o
  have holds := Arena.holds_ofSlots o (each x fs).slots
  have size : (Arena.ofSlots o (each x fs).slots).size = (each x fs 0).2.length := Arena.size_ofSlots o _
  have outlines : Outlines (each x fs) ⟨"",1,none⟩ _ := .each (fun f => (h f).outlines.root rfl _) fs
  generalize Arena.ofSlots o (each x fs).slots = a at *
  have files : a.files = (each x fs 0).1 := by
    rw [Arena.files,Arena.nodes_eq_ids,forest.filter_isRoot]
    simp
  have unfolds : List.Forall₂ a.Unfolds a.files (fs.map outline) := by
    rw [files]
    exact unfolds_each h fs 0 holds
  have mem_files : ∀ n, n ∈ a.files ↔ n.index < a.size ∧ a.parent? n = none := by
    intro n
    simp [Arena.files,Arena.mem_nodes]
  have inherits : ∀ n : NodeId, n.index < a.size → a.Inherits n := by
    intro n lt
    have below := (outlines a 0 holds (fun p e => by cases e)).1 n.index (size ▸ lt)
    rwa [Nat.zero_add] at below
  exact {
    shaped n := ⟨fun h => by
      obtain ⟨s,shape⟩ := Option.isSome_iff_exists.mp h
      exact Arena.lt_size_of_shape? shape,fun lt => by
      obtain ⟨s,shape⟩ := wf.shaped n lt
      rw [shape]; rfl⟩
    files := mem_files
    unfolds
    parent n p e := by
      obtain ⟨lt,s,-,shape,-⟩ := wf.parent e
      exact ⟨lt,by rw [shape]; rfl⟩
    listed p s shape n := forest.count_children wf shape n
    admitted p s shape n place listed := (wf.child shape listed).2
    descent := by
      have all := forest.descents (d := a.size) (Nat.sub_le _ _)
      rwa [Place.on_map_fst,← files,← Arena.nodes_eq_ids] at all
    descends n s shape := forest.descent_eq shape
    located n lt := wf.located inherits (fun n lt top => by
      obtain ⟨i,hi,rfl⟩ := List.mem_iff_getElem.mp ((mem_files n).mpr ⟨lt,top⟩)
      exact ⟨_,unfolds.get hi (unfolds.length_eq ▸ hi)⟩) n lt
  }

end Layout
end SymbolGraph
