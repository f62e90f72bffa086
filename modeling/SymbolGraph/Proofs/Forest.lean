import SymbolGraph.Arena

/-! Forests in an arena. The nodes of a tree take consecutive ids: first its root, then the trees below
the root, each in its place, in the order of a traversal. -/
namespace SymbolGraph

/-- Where a node stands: as a root, or in a child list of its parent. -/
inductive Place
  | root | annotationEntry | typeParameter | reference | parameter | declaration
  deriving DecidableEq, Repr

namespace Place

/-- The kinds of nodes that stand in a place. -/
def admits : Place → NodeKind → Bool
  | .root, .file => true
  | .annotationEntry, .annotationEntry => true
  | .typeParameter, .typeParameter => true
  | .reference, .typeReference => true
  | .parameter, .valueParameter => true
  | .declaration, .classLike => true
  | .declaration, .function => true
  | .declaration, .property => true
  | .declaration, .typeAlias => true
  | _, _ => false

/-- Nodes that stand in the same place. -/
def on (p : Place) (ns : List NodeId) : List (NodeId × Place) := ns.map (·,p)

@[simp] theorem on_nil (p : Place) : p.on [] = [] := rfl

@[simp] theorem on_append (p : Place) (ms ns : List NodeId) : p.on (ms ++ ns) = p.on ms ++ p.on ns :=
  List.map_append

@[simp] theorem mem_on {p q : Place} {n : NodeId} {ns : List NodeId} :
    (n,q) ∈ p.on ns ↔ n ∈ ns ∧ q = p := by
  simp only [on,List.mem_map,Prod.mk.injEq]
  constructor
  · rintro ⟨_,h,rfl,rfl⟩; exact ⟨h,rfl⟩
  · rintro ⟨h,rfl⟩; exact ⟨n,h,rfl,rfl⟩

@[simp] theorem on_map_fst (p : Place) (ns : List NodeId) : (p.on ns).map (·.1) = ns := by
  simp [on,Function.comp_def]

theorem not_admits_file {p : Place} (h : p ≠ .root) : p.admits .file = false := by
  cases p <;> first | rfl | exact absurd rfl h

end Place

namespace Shape

/-- The children of a node with their places, in the order of a traversal. -/
def places : Shape → List (NodeId × Place)
  | .file s => Place.annotationEntry.on s.annotations ++ Place.declaration.on s.declarations
  | .classLike s => Place.annotationEntry.on s.annotations ++ Place.typeParameter.on s.typeParameters
      ++ Place.reference.on s.superTypes ++ Place.declaration.on s.declarations
  | .function s => Place.annotationEntry.on s.annotations ++ Place.typeParameter.on s.typeParameters
      ++ Place.reference.on s.receiver.toList ++ Place.parameter.on s.parameters
      ++ Place.reference.on s.returnType.toList ++ Place.declaration.on s.localDeclarations
  | .property s => Place.annotationEntry.on s.annotations ++ Place.typeParameter.on s.typeParameters
      ++ Place.reference.on s.receiver.toList ++ Place.reference.on s.typeReference.toList
  | .typeAlias s => Place.annotationEntry.on s.annotations ++ Place.typeParameter.on s.typeParameters
      ++ Place.reference.on [s.target]
  | .typeParameter s => Place.reference.on s.bounds
  | .valueParameter s => Place.annotationEntry.on s.annotations ++ Place.reference.on s.typeReference.toList
  | .typeReference s => Place.annotationEntry.on s.annotations ++ Place.reference.on s.arguments
  | .annotationEntry s => Place.reference.on s.type.toList

theorem places_map_fst (s : Shape) : s.places.map (·.1) = s.children := by
  cases s <;> simp [places,children]

theorem mem_children {s : Shape} {c : NodeId} : c ∈ s.children ↔ ∃ place, (c,place) ∈ s.places := by
  simp [← s.places_map_fst]

theorem root_not_mem_places (s : Shape) (n : NodeId) : (n,Place.root) ∉ s.places := by
  cases s <;> simp [places]

end Shape

/-- The trees of given roots, below a given parent, take the ids from `n` up to `m`. -/
inductive Forest (a : Arena) : Option NodeId → Nat → List (NodeId × Place) → Nat → Prop
  | nil {p : Option NodeId} {n : Nat} : Forest a p n [] n
  | cons {p : Option NodeId} {n m k : Nat} {s : Shape} {place : Place} {rest : List (NodeId × Place)}
      (parent : a.parent? ⟨n⟩ = p) (shape : a.shape? ⟨n⟩ = some s) (admitted : place.admits s.kind)
      (below : Forest a (some ⟨n⟩) (n+1) s.places m) (after : Forest a p m rest k) :
      Forest a p n ((⟨n⟩,place) :: rest) k

namespace Forest

variable {a : Arena} {p : Option NodeId} {n m k : Nat} {l r : List (NodeId × Place)}

theorem le (h : Forest a p n l k) : n ≤ k := by
  induction h with
  | nil => exact Nat.le_refl _
  | cons _ _ _ _ _ below after => omega

theorem append (h : Forest a p n l m) (h' : Forest a p m r k) : Forest a p n (l ++ r) k := by
  induction h with
  | nil => exact h'
  | cons parent shape admitted below _ _ ih => exact .cons parent shape admitted below (ih h')

/-- A root of a forest. -/
theorem root (h : Forest a p n l k) {c : NodeId} {place : Place} (hc : (c,place) ∈ l) :
    n ≤ c.index ∧ c.index < k ∧ a.parent? c = p ∧
      ∃ s, a.shape? c = some s ∧ place.admits s.kind := by
  induction h with
  | nil => cases hc
  | @cons p n m k s _ rest parent shape admitted below after _ ih =>
    have hm := below.le
    have hk := after.le
    rcases List.mem_cons.mp hc with e | hc
    · obtain ⟨rfl,rfl⟩ := Prod.mk.inj e
      exact ⟨Nat.le_refl _,by simp only; omega,parent,s,shape,admitted⟩
    · obtain ⟨h₁,h₂,h₃⟩ := ih hc
      exact ⟨by omega,h₂,h₃⟩

/-- A node of a forest is a root of it or below another node of it. -/
theorem node (h : Forest a p n l k) {i : Nat} (ge : n ≤ i) (lt : i < k) :
    ∃ s m, a.shape? ⟨i⟩ = some s ∧ Forest a (some ⟨i⟩) (i+1) s.places m ∧
      ((a.parent? ⟨i⟩ = p ∧ ∃ place, (⟨i⟩,place) ∈ l) ∨
        ∃ j t place, j < i ∧ a.parent? ⟨i⟩ = some ⟨j⟩ ∧ a.shape? ⟨j⟩ = some t ∧
          (⟨i⟩,place) ∈ t.places) := by
  induction h with
  | nil => omega
  | @cons p n m k s place rest parent shape admitted below after ihb iha =>
    by_cases hn : i = n
    · subst hn
      exact ⟨s,m,shape,below,.inl ⟨parent,place,List.mem_cons_self⟩⟩
    · by_cases hm : i < m
      · obtain ⟨t,m',ht,hb,up⟩ := ihb (by omega) hm
        refine ⟨t,m',ht,hb,.inr ?_⟩
        rcases up with ⟨hp,place,hl⟩ | inner
        · exact ⟨n,s,place,by omega,hp,shape,hl⟩
        · exact inner
      · obtain ⟨t,m',ht,hb,up⟩ := iha (by omega) lt
        refine ⟨t,m',ht,hb,up.imp (fun ⟨hp,place,hl⟩ => ⟨hp,place,List.mem_cons_of_mem _ hl⟩) id⟩

end Forest

namespace Arena

/-- Every node has a shape, parents come before their children, children are found exactly where their
parents list them, and the nodes without a parent are the files. -/
structure WellFormed (a : Arena) : Prop where
  shaped : ∀ n : NodeId, n.index < a.size → ∃ s, a.shape? n = some s
  parent : ∀ {n p : NodeId}, a.parent? n = some p →
    p.index < n.index ∧ ∃ s place, a.shape? p = some s ∧ (n,place) ∈ s.places
  child : ∀ {n c : NodeId} {s : Shape} {place : Place}, a.shape? n = some s → (c,place) ∈ s.places →
    a.parent? c = some n ∧ ∃ t, a.shape? c = some t ∧ place.admits t.kind
  root : ∀ {n : NodeId} {s : Shape}, a.shape? n = some s → (a.parent? n = none ↔ s.kind = .file)

theorem lt_size_of_shape? {a : Arena} {n : NodeId} {s : Shape} (h : a.shape? n = some s) :
    n.index < a.size := by
  obtain ⟨slot,e,-⟩ := Option.bind_eq_some_iff.mp h
  exact (Array.getElem?_eq_some_iff.mp e).1

theorem lt_size_of_parent? {a : Arena} {n p : NodeId} (h : a.parent? n = some p) : n.index < a.size := by
  obtain ⟨slot,e,-⟩ := Option.bind_eq_some_iff.mp h
  exact (Array.getElem?_eq_some_iff.mp e).1

end Arena

/-- An arena that holds nothing but a forest of files is well-formed. -/
theorem Forest.wellFormed {a : Arena} {l : List (NodeId × Place)} (h : Forest a none 0 l a.size)
    (roots : ∀ c ∈ l, c.2 = .root) : a.WellFormed where
  shaped n hn := by
    obtain ⟨s,-,hs,-⟩ := h.node (Nat.zero_le n.index) hn
    exact ⟨s,hs⟩
  parent {n p} hp := by
    obtain ⟨_,_,-,-,⟨e,-⟩ | ⟨j,t,place,lt,e,ht,hl⟩⟩ :=
      h.node (Nat.zero_le n.index) (Arena.lt_size_of_parent? hp)
    · rw [hp] at e; cases e
    · obtain rfl : p = ⟨j⟩ := Option.some.inj (hp.symm.trans e)
      exact ⟨lt,t,place,ht,hl⟩
  child {n c s place} hs hc := by
    obtain ⟨_,_,hs',below,-⟩ := h.node (Nat.zero_le n.index) (Arena.lt_size_of_shape? hs)
    obtain rfl := Option.some.inj (hs.symm.trans hs')
    exact (below.root hc).2.2
  root {n s} hs := by
    obtain ⟨_,_,-,-,⟨e,place,hl⟩ | ⟨j,t,place,lt,e,ht,hl⟩⟩ :=
      h.node (Nat.zero_le n.index) (Arena.lt_size_of_shape? hs)
    · obtain ⟨-,-,-,s',hs',admitted⟩ := h.root hl
      obtain rfl := Option.some.inj (hs.symm.trans hs')
      obtain rfl := roots _ hl
      refine ⟨fun _ => ?_,fun _ => e⟩
      revert admitted
      cases s.kind <;> simp [Place.admits]
    · obtain ⟨_,_,ht',below,-⟩ := h.node (Nat.zero_le j) (Arena.lt_size_of_shape? ht)
      obtain rfl := Option.some.inj (ht.symm.trans ht')
      obtain ⟨-,-,-,s',hs',admitted⟩ := below.root hl
      obtain rfl := Option.some.inj (hs.symm.trans hs')
      refine ⟨fun none => absurd (e.symm.trans none) nofun,fun file => ?_⟩
      have inner : place ≠ .root := by rintro rfl; exact t.root_not_mem_places _ hl
      rw [file,Place.not_admits_file inner] at admitted
      cases admitted

end SymbolGraph
