import Mathlib.Data.List.Perm.Subperm
import SymbolGraph.Proofs.Forest

/-! The models of a run, when each of them is well-formed: what stands above a node and below it. -/
namespace SymbolGraph

namespace Arena

variable {a : Arena} {n p : NodeId}

theorem ancestors_of_root (h : a.parent? n = none) : a.ancestors n = [] := by
  rw [ancestors]
  cases a.size with
  | zero => rfl
  | succ k => rw [ancestorsUpTo,h]

/-- If the number of links is cut off, then all nodes on the way have parents. -/
theorem ancestorsUpTo_exhausted (a : Arena) (k : Nat) (n : NodeId) :
    a.parent? ((a.ancestorsUpTo k n).getLastD n) = none ∨
      (a.ancestorsUpTo k n).length = k ∧ ∀ m ∈ n :: a.ancestorsUpTo k n, m.index < a.size := by
  induction k generalizing n with
  | zero =>
    cases e : a.parent? n with
    | none => exact .inl e
    | some p => exact .inr ⟨rfl,List.forall_mem_singleton.mpr (lt_size_of_parent? e)⟩
  | succ k ih =>
    rw [ancestorsUpTo]
    cases e : a.parent? n with
    | none => exact .inl e
    | some p =>
      rw [List.getLastD_cons]
      refine (ih p).imp id ?_
      rintro ⟨length,known⟩
      exact ⟨congrArg (· + 1) length,List.forall_mem_cons.mpr ⟨lt_size_of_parent? e,known⟩⟩

/-- The ancestors of a node end in one without a parent, unless a node comes twice among them. -/
theorem parent?_getLastD_ancestors (h : (n :: a.ancestors n).Nodup) :
    a.parent? ((a.ancestors n).getLastD n) = none := by
  rcases a.ancestorsUpTo_exhausted a.size n with top | ⟨length,known⟩
  · exact top
  · have inside : n :: a.ancestors n ⊆ a.nodes := fun m hm =>
      List.mem_map.mpr ⟨m.index,List.mem_range.mpr (known m hm),rfl⟩
    have room := (List.subperm_of_subset h inside).length_le
    rw [List.length_cons,ancestors,length,nodes,List.length_map,List.length_range] at room
    omega

namespace WellFormed

/-- Climbs from a node to its root. -/
theorem climb (h : a.WellFormed) {motive : NodeId → Prop}
    (root : ∀ n, a.parent? n = none → motive n)
    (child : ∀ n p, a.parent? n = some p → motive p → motive n) (n : NodeId) : motive n := by
  obtain ⟨i⟩ := n
  induction i using Nat.strongRecOn with
  | ind i ih =>
    cases e : a.parent? ⟨i⟩ with
    | none => exact root _ e
    | some p => exact child _ p e (ih p.index (h.parent e).1)

theorem ancestorsUpTo_eq (h : a.WellFormed) {j k : Nat} (hj : n.index ≤ j) (hk : n.index ≤ k) :
    a.ancestorsUpTo j n = a.ancestorsUpTo k n := by
  induction n using h.climb generalizing j k with
  | root n e => cases j <;> cases k <;> simp [ancestorsUpTo,e]
  | child n p e ih =>
    have lt := (h.parent e).1
    obtain ⟨j,rfl⟩ : ∃ i, j = i + 1 := ⟨j-1,by omega⟩
    obtain ⟨k,rfl⟩ : ∃ i, k = i + 1 := ⟨k-1,by omega⟩
    have above : a.ancestorsUpTo j p = a.ancestorsUpTo k p := ih (by omega) (by omega)
    simp only [ancestorsUpTo,e,above]

theorem ancestors_of_parent (h : a.WellFormed) (e : a.parent? n = some p) :
    a.ancestors n = p :: a.ancestors p := by
  have lt := (h.parent e).1
  have room := lt_size_of_parent? e
  obtain ⟨k,hk⟩ : ∃ k, a.size = k + 1 := ⟨a.size - 1,by omega⟩
  have above : a.ancestorsUpTo k p = a.ancestorsUpTo (k+1) p := h.ancestorsUpTo_eq (by omega) (by omega)
  simp only [ancestors,hk,ancestorsUpTo,e]
  exact congrArg _ above

end WellFormed

end Arena

namespace Models

variable {ms : Models} {k p : NodeKey} {s : Shape}

def WellFormed (ms : Models) : Prop := ∀ a ∈ ms.toList, a.WellFormed

theorem shape?_eq {a : Arena} (h : ms.arena? k.source = some a) : ms.shape? k = a.shape? k.node := by
  simp [shape?,h]

theorem parent?_eq {a : Arena} (h : ms.arena? k.source = some a) :
    ms.parent? k = (a.parent? k.node).map k.sibling := by
  simp only [parent?,h]
  cases e : a.parent? k.node <;> simp [e]

theorem ancestors_eq {a : Arena} (h : ms.arena? k.source = some a) :
    ms.ancestors k = (a.ancestors k.node).map k.sibling := by
  simp [ancestors,h]

theorem exists_arena_of_shape? (h : ms.shape? k = some s) :
    ∃ a, ms.arena? k.source = some a ∧ a.shape? k.node = some s := by
  obtain ⟨a,ha,hs⟩ := Option.bind_eq_some_iff.mp h
  exact ⟨a,ha,hs⟩

theorem exists_arena_of_parent? (h : ms.parent? k = some p) :
    ∃ a, ms.arena? k.source = some a ∧ a.parent? k.node = some p.node ∧ p = k.sibling p.node := by
  obtain ⟨a,ha,hp⟩ := Option.bind_eq_some_iff.mp h
  obtain ⟨n,hn,e⟩ := Option.bind_eq_some_iff.mp hp
  obtain rfl := Option.some.inj e
  exact ⟨a,ha,hn,rfl⟩

theorem size_le {a : Arena} (h : a ∈ ms.toList) : a.size ≤ ms.size := by
  have sum : ∀ l : List Arena, a ∈ l → a.size ≤ l.foldr (fun a n => a.size + n) 0 := by
    intro l
    induction l with
    | nil => exact nofun
    | cons b l ih =>
      intro h
      rw [List.foldr_cons]
      rcases List.mem_cons.mp h with rfl | h
      · omega
      · have := ih h
        omega
  exact sum ms.toList h

theorem index_lt_size (h : ms.shape? k = some s) : k.node.index < ms.size := by
  obtain ⟨a,ha,hs⟩ := exists_arena_of_shape? h
  have lt := Arena.lt_size_of_shape? hs
  have le := size_le (List.mem_of_getElem? ha)
  omega

theorem ancestors_of_root (h : ms.parent? k = none) : ms.ancestors k = [] := by
  cases e : ms.arena? k.source with
  | none => simp [ancestors,e]
  | some a =>
    rw [parent?_eq e,Option.map_eq_none_iff] at h
    rw [ancestors_eq e,Arena.ancestors_of_root h,List.map_nil]

namespace WellFormed

variable (h : ms.WellFormed)
include h

theorem arena {i : SourceId} {a : Arena} (e : ms.arena? i = some a) : a.WellFormed :=
  h a (List.mem_of_getElem? e)

/-- A child that a node lists is there, of a kind that its place admits, and has the node as parent. -/
theorem child (hs : ms.shape? k = some s) {c : NodeId} {place : Place} (hc : (c,place) ∈ s.places) :
    ms.parent? (k.sibling c) = some k ∧
      ∃ t, ms.shape? (k.sibling c) = some t ∧ place.admits t.kind := by
  obtain ⟨a,ha,hs⟩ := exists_arena_of_shape? hs
  obtain ⟨hp,t,ht,admitted⟩ := (h.arena ha).child hs hc
  refine ⟨?_,t,?_,admitted⟩
  · rw [parent?_eq (k := k.sibling c) ha]
    simp [hp]; rfl
  · rw [shape?_eq (k := k.sibling c) ha]
    exact ht

/-- What a type alias is written with is a reference. -/
theorem aliasTarget {a : TypeAliasShape} (hs : ms.shape? k = some (.typeAlias a)) :
    ∃ r, ms.shape? (k.sibling a.target) = some (.typeReference r) := by
  have listed : (a.target,Place.reference) ∈ (Shape.typeAlias a).places := by
    simp [Shape.places]
  obtain ⟨-,t,ht,admitted⟩ := h.child hs listed
  cases t with
  | typeReference r => exact ⟨r,ht⟩
  | _ => cases admitted

/-- The parent of a node lists it. -/
theorem parent (hp : ms.parent? k = some p) :
    ∃ s place, ms.shape? p = some s ∧ (k.node,place) ∈ s.places ∧ p = k.sibling p.node := by
  obtain ⟨a,ha,hn,e⟩ := exists_arena_of_parent? hp
  obtain ⟨-,s,place,hs,hl⟩ := (h.arena ha).parent hn
  refine ⟨s,place,?_,hl,e⟩
  rw [e,shape?_eq (k := k.sibling p.node) ha]
  exact hs

/-- Parents come before their children. -/
theorem index_lt (hp : ms.parent? k = some p) : p.node.index < k.node.index := by
  obtain ⟨a,ha,hn,e⟩ := exists_arena_of_parent? hp
  exact ((h.arena ha).parent hn).1

theorem root (hs : ms.shape? k = some s) : ms.parent? k = none ↔ s.kind = .file := by
  obtain ⟨a,ha,hs⟩ := exists_arena_of_shape? hs
  rw [parent?_eq ha,Option.map_eq_none_iff]
  exact (h.arena ha).root hs

/-- Climbs from a node to its root. -/
theorem climb {motive : NodeKey → Prop} (root : ∀ k, ms.parent? k = none → motive k)
    (child : ∀ k p, ms.parent? k = some p → motive p → motive k) (k : NodeKey) : motive k := by
  cases e : ms.arena? k.source with
  | none => exact root k (by simp [parent?,e])
  | some a =>
    obtain ⟨i,n⟩ := k
    induction n using (h.arena e).climb with
    | root n hn => exact root _ (by rw [parent?_eq e,hn]; rfl)
    | child n p hp ih => exact child _ ⟨i,p⟩ (by rw [parent?_eq e,hp]; rfl) (ih e)

theorem ancestors_of_parent (hp : ms.parent? k = some p) : ms.ancestors k = p :: ms.ancestors p := by
  obtain ⟨a,ha,hn,e⟩ := exists_arena_of_parent? hp
  have ha' : ms.arena? p.source = some a := by rw [e]; exact ha
  have siblings : p.sibling = k.sibling := by rw [e]; rfl
  rw [ancestors_eq ha,ancestors_eq ha',(h.arena ha).ancestors_of_parent hn,List.map_cons,siblings,← e]

theorem exists_shape_of_mem_ancestors {j : NodeKey} (hj : j ∈ ms.ancestors k) :
    ∃ s, ms.shape? j = some s := by
  induction k using h.climb with
  | root k e => rw [ancestors_of_root e] at hj; cases hj
  | child k p hp ih =>
    rw [h.ancestors_of_parent hp] at hj
    rcases List.mem_cons.mp hj with rfl | hj
    · obtain ⟨s,-,hs,-⟩ := h.parent hp
      exact ⟨s,hs⟩
    · exact ih hj

/-- Above every node that is not a file there is one. -/
theorem getLast?_ancestors (hp : ms.parent? k = some p) :
    ∃ r f, (ms.ancestors k).getLast? = some r ∧ ms.shape? r = some (.file f) := by
  rw [h.ancestors_of_parent hp]
  induction p using h.climb generalizing k with
  | root p e =>
    obtain ⟨s,-,hs,-⟩ := h.parent hp
    have kind := (h.root hs).mp e
    rw [ancestors_of_root e]
    cases s with
    | file f => exact ⟨p,f,rfl,hs⟩
    | _ => cases kind
  | child p q hq ih =>
    obtain ⟨r,f,last,hr⟩ := ih hq
    exact ⟨r,f,by rw [h.ancestors_of_parent hq,List.getLast?_cons_cons,last],hr⟩

theorem exists_parent (hs : ms.shape? k = some s) (hk : s.kind ≠ .file) : ∃ p, ms.parent? k = some p := by
  cases e : ms.parent? k with
  | none => exact absurd ((h.root hs).mp e) hk
  | some p => exact ⟨p,rfl⟩

end WellFormed

end Models
end SymbolGraph
