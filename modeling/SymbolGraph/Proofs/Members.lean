import Mathlib.Data.List.Nodup
import SymbolGraph.Proofs.Direct.Declarations
import SymbolGraph.Proofs.Walk

/-! The members of nodes. A declaration stands among the members of its parent, once, and among those of no other
node. Its parent is a declaration again, or the file at the top. -/
namespace SymbolGraph
namespace Shape

/-- The declarations that a node lists: those inside it, and its type parameters. -/
def members : Shape → List NodeId
  | .file s => s.declarations
  | .classLike s => s.declarations ++ s.typeParameters
  | .function s => s.localDeclarations ++ s.typeParameters
  | .property s => s.typeParameters
  | .typeAlias s => s.typeParameters
  | .typeParameter _ | .valueParameter _ | .typeReference _ | .annotationEntry _ => []

theorem mem_members {s : Shape} {n : NodeId} :
    n ∈ s.members ↔ (n,Place.declaration) ∈ s.places ∨ (n,Place.typeParameter) ∈ s.places := by
  cases s <;> simp [members,places]

theorem nodup_members {s : Shape} (h : s.children.Nodup) : s.members.Nodup := by
  cases s with
  | file s => exact h.sublist (List.sublist_append_right _ _)
  | classLike s =>
    have pair : (s.typeParameters ++ s.declarations).Sublist (Shape.classLike s).children :=
      (List.sublist_append_right s.annotations _).trans (List.sublist_append_left _ s.superTypes) |>.append (.refl _)
    exact List.nodup_append_comm.mp (h.sublist pair)
  | function s =>
    have pair : (s.typeParameters ++ s.localDeclarations).Sublist (Shape.function s).children :=
      ((((List.sublist_append_right s.annotations _).trans (List.sublist_append_left _ s.receiver.toList)).trans
        (List.sublist_append_left _ s.parameters)).trans (List.sublist_append_left _ s.returnType.toList)).append
          (.refl _)
    exact List.nodup_append_comm.mp (h.sublist pair)
  | property s =>
    exact h.sublist (((List.sublist_append_right s.annotations _).trans
      (List.sublist_append_left _ s.receiver.toList)).trans (List.sublist_append_left _ s.typeReference.toList))
  | typeAlias s =>
    exact h.sublist ((List.sublist_append_right s.annotations _).trans (List.sublist_append_left _ [s.target]))
  | _ => exact .nil

end Shape

theorem Place.declares_of_admits {p : Place} {k : NodeKind} (admitted : p.admits k) (h : k.isDeclaration = true) :
    p = .declaration ∨ p = .typeParameter := by
  cases p <;> cases k <;> first | exact .inl rfl | exact .inr rfl | exact absurd h (by decide) | cases admitted

namespace Models

variable {ms : Models} {k d : NodeKey} {s t : Shape}

/-- The declaration around a node, if its parent is one. -/
def parentDeclaration? (ms : Models) (k : NodeKey) : Option NodeKey :=
  (ms.parent? k).filter fun p => (ms.shape? p).any (·.kind.isDeclaration)

theorem parentDeclaration?_of_parent {p : NodeKey} (parent : ms.parent? k = some p) (hs : ms.shape? p = some s) :
    ms.parentDeclaration? k = if s.kind.isDeclaration then some p else none := by
  rw [parentDeclaration?,parent,Option.filter_some,hs]
  rfl

theorem parentDeclaration?_eq_some (hs : ms.shape? d = some s) (declares : s.kind.isDeclaration = true) :
    ms.parentDeclaration? k = some d ↔ ms.parent? k = some d := by
  rw [parentDeclaration?,Option.filter_eq_some_iff,hs,Option.any_some]
  exact and_iff_left declares

theorem parent?_of_parentDeclaration? (h : ms.parentDeclaration? k = some d) :
    ms.parent? k = some d ∧ ∃ s, ms.shape? d = some s ∧ s.kind.isDeclaration = true := by
  obtain ⟨parent,declares⟩ := Option.filter_eq_some_iff.mp h
  cases hs : ms.shape? d with
  | none => rw [hs] at declares; cases declares
  | some s =>
    rw [hs] at declares
    exact ⟨parent,s,rfl,declares⟩

variable (hw : ms.WellFormed)
include hw

theorem mem_members (hk : ms.shape? k = some t) (declares : t.kind.isDeclaration = true)
    (hs : ms.shape? d = some s) : k ∈ s.members.map d.sibling ↔ ms.parent? k = some d := by
  constructor
  · intro h
    obtain ⟨n,hn,rfl⟩ := List.mem_map.mp h
    rcases Shape.mem_members.mp hn with listed | listed
    · exact (hw.child hs listed).1
    · exact (hw.child hs listed).1
  · intro parent
    obtain ⟨s',place,hs',listed,e⟩ := hw.parent parent
    obtain rfl := Option.some.inj (hs.symm.trans hs')
    obtain ⟨-,t',ht,admitted⟩ := hw.child hs listed
    have key : d.sibling k.node = k := by
      rw [e]
      rfl
    rw [key] at ht
    obtain rfl := Option.some.inj (hk.symm.trans ht)
    refine List.mem_map.mpr ⟨k.node,Shape.mem_members.mpr ?_,key⟩
    rcases Place.declares_of_admits admitted declares with rfl | rfl
    · exact .inl listed
    · exact .inr listed

/-- A declaration is listed by its parent once. -/
theorem count_members (once : ∀ k s, ms.shape? k = some s → s.children.Nodup) (hk : ms.shape? k = some t)
    (declares : t.kind.isDeclaration = true) (hs : ms.shape? d = some s) :
    (s.members.map d.sibling).count k = if ms.parent? k = some d then 1 else 0 := by
  have injective : Function.Injective d.sibling := fun m n h => congrArg NodeKey.node h
  rw [((Shape.nodup_members (once d s hs)).map injective).count]
  exact if_congr (mem_members hw hk declares hs) rfl rfl

/-- Where a declaration has no declaration around it, its parent is the file at the top. -/
theorem parent?_of_declaration (hk : ms.shape? k = some t) (declares : t.kind.isDeclaration = true) :
    ∃ p, ms.parent? k = some p ∧ (ms.parentDeclaration? k = some p ∨
      ms.parentDeclaration? k = none ∧ ms.parent? p = none ∧ ms.root k = p) := by
  obtain ⟨p,parent⟩ := hw.exists_parent hk (by rintro e; rw [e] at declares; cases declares)
  refine ⟨p,parent,?_⟩
  obtain ⟨s,place,hs,listed,e⟩ := hw.parent parent
  cases inside : s.kind.isDeclaration with
  | true => exact .inl ((parentDeclaration?_eq_some hs inside).mpr parent)
  | false =>
    have listed := mem_members hw hk declares hs |>.mpr parent
    obtain ⟨n,hn,-⟩ := List.mem_map.mp listed
    have file : s.kind = .file := by
      cases s <;> first | rfl | cases hn | cases inside
    have top : ms.parent? p = none := (hw.root hs).mpr file
    refine .inr ⟨?_,top,?_⟩
    · rw [parentDeclaration?_of_parent parent hs,inside]
      rfl
    · rw [root,hw.ancestors_of_parent parent,ancestors_of_root top]
      rfl

/-- A declaration has the file of its parent. -/
theorem root_of_parent (parent : ms.parent? k = some d) : ms.root k = ms.root d := by
  rw [root,hw.ancestors_of_parent parent,List.getLastD_cons,root]

end Models
end SymbolGraph
