import SymbolGraph.Proofs.Forest

/-! Descents through an arena: a node first, and then its children in the order of a traversal. The descents
from the roots of a forest run through the ids of the forest one by one. -/
namespace SymbolGraph
namespace Arena

def children (a : Arena) (n : NodeId) : List NodeId := (a.shape? n).elim [] Shape.children

def descentUpTo (a : Arena) : Nat → NodeId → List NodeId
  | 0, _ => []
  | k+1, n => n :: (a.children n).flatMap (descentUpTo a k)

/-- A node and all nodes below it. Children have greater ids than their parents, so that no way down is
longer than the arena. -/
def descent (a : Arena) (n : NodeId) : List NodeId := a.descentUpTo a.size n

/-- The ids from `n` on, up to `k`. -/
def ids (n k : Nat) : List NodeId := (List.range' n (k - n)).map .mk

variable {a : Arena} {n m k : Nat}

theorem nodes_eq_ids (a : Arena) : a.nodes = ids 0 a.size := by
  rw [nodes,ids,List.range_eq_range',Nat.sub_zero]

theorem mem_nodes {c : NodeId} : c ∈ a.nodes ↔ c.index < a.size := by
  constructor
  · intro h
    obtain ⟨i,hi,rfl⟩ := List.mem_map.mp h
    exact List.mem_range.mp hi
  · exact fun h => List.mem_map.mpr ⟨c.index,List.mem_range.mpr h,rfl⟩

@[simp] theorem ids_self (n : Nat) : ids n n = [] := by simp [ids]

theorem ids_append (h : n ≤ m) (h' : m ≤ k) : ids n m ++ ids m k = ids n k := by
  have step := List.range'_append_1 (s := n) (m := m - n) (n := k - m)
  rw [show n + (m - n) = m by omega,show m - n + (k - m) = k - n by omega] at step
  rw [ids,ids,ids,← List.map_append,step]

theorem ids_cons (h : n < k) : ids n k = ⟨n⟩ :: ids (n+1) k := by
  rw [ids,ids,show k - n = k - (n+1) + 1 by omega,List.range'_succ,List.map_cons]

theorem WellFormed.mem_children (h : a.WellFormed) {q c : NodeId} {s : Shape}
    (shape : a.shape? q = some s) : c ∈ s.children ↔ a.parent? c = some q := by
  rw [Shape.mem_children]
  constructor
  · rintro ⟨place,listed⟩
    exact (h.child shape listed).1
  · intro parent
    obtain ⟨-,t,place,shape',listed⟩ := h.parent parent
    obtain rfl := Option.some.inj (shape.symm.trans shape')
    exact ⟨place,listed⟩

end Arena

namespace Forest

open Arena (ids)

variable {a : Arena} {p : Option NodeId} {n m k : Nat} {l : List (NodeId × Place)}

/-- The roots of a forest have the ids in between for themselves and what is below them. -/
theorem ids_eq {s : Shape} (below : Forest a (some ⟨n⟩) (n+1) s.places m) (after : Forest a p m l k) :
    ids n k = ⟨n⟩ :: (ids (n+1) m ++ ids m k) := by
  have hm := below.le
  have hk := after.le
  rw [Arena.ids_cons (by omega),Arena.ids_append hm hk]

theorem descents (h : Forest a p n l k) {d : Nat} (room : k - n ≤ d) :
    (l.map (·.1)).flatMap (a.descentUpTo d) = ids n k := by
  induction h generalizing d with
  | nil => simp
  | @cons p n m k s place rest parent shape admitted below after ihb iha =>
    have hm := below.le
    have hk := after.le
    obtain ⟨d,rfl⟩ : ∃ e, d = e + 1 := ⟨d - 1,by omega⟩
    have inner : (a.children ⟨n⟩).flatMap (a.descentUpTo d) = ids (n+1) m := by
      rw [Arena.children,shape,Option.elim_some,← s.places_map_fst]
      exact ihb (by omega)
    have outer := iha (d := d + 1) (by omega)
    rw [ids_eq below after,List.map_cons,List.flatMap_cons,outer,Arena.descentUpTo,inner,List.cons_append]

/-- The nodes of a forest without a parent are its roots, if they have none. -/
theorem filter_isRoot (h : Forest a p n l k) :
    (ids n k).filter (fun c => (a.parent? c).isNone) = if p.isNone then l.map (·.1) else [] := by
  induction h with
  | nil => simp
  | @cons p n m k s place rest parent shape admitted below after ihb iha =>
    rw [ids_eq below after,List.filter_cons,List.filter_append,ihb,iha,parent]
    cases p <;> simp

theorem nodup (h : Forest a p n l k) : (l.map (·.1)).Nodup := by
  induction h with
  | nil => exact .nil
  | @cons p n m k s place rest parent shape admitted below after _ ih =>
    refine List.nodup_cons.mpr ⟨fun mem => ?_,ih⟩
    obtain ⟨⟨c,q⟩,hc,rfl⟩ := List.mem_map.mp mem
    have hm := below.le
    have ge := (after.root hc).1
    simp only at ge
    omega

theorem le_size (h : Forest a p n l k) (start : n ≤ a.size) : k ≤ a.size := by
  induction h with
  | nil => exact start
  | cons _ shape _ _ _ ihb iha => exact iha (ihb (Arena.lt_size_of_shape? shape))

/-- What stands below a node of a forest that fills its arena. -/
theorem subforest (h : Forest a p 0 l a.size) {c : NodeId} {s : Shape} (shape : a.shape? c = some s) :
    ∃ m ≤ a.size, Forest a (some c) (c.index + 1) s.places m := by
  have lt := Arena.lt_size_of_shape? shape
  obtain ⟨t,m,shape',inner,-⟩ := h.node (Nat.zero_le c.index) lt
  obtain rfl := Option.some.inj (shape.symm.trans shape')
  exact ⟨m,inner.le_size lt,inner⟩

/-- The descent from a node goes on with the descents from its children. -/
theorem descent_eq (h : Forest a p 0 l a.size) {c : NodeId} {s : Shape} (shape : a.shape? c = some s) :
    a.descent c = c :: s.children.flatMap a.descent := by
  obtain ⟨m,hm,inner⟩ := h.subforest shape
  have lt := Arena.lt_size_of_shape? shape
  obtain ⟨d,hd⟩ : ∃ d, a.size = d + 1 := ⟨a.size - 1,by omega⟩
  have short := inner.descents (d := d) (by omega)
  have long := inner.descents (d := a.size) (by omega)
  rw [s.places_map_fst] at short long
  have children : a.children c = s.children := by rw [Arena.children,shape,Option.elim_some]
  show a.descentUpTo a.size c = c :: s.children.flatMap (a.descentUpTo a.size)
  rw [long,hd,Arena.descentUpTo,children,short]

/-- A node is listed once by its parent, and by no other node. -/
theorem count_children (h : Forest a p 0 l a.size) (wf : a.WellFormed) {q : NodeId} {s : Shape}
    (shape : a.shape? q = some s) (c : NodeId) :
    s.children.count c = if a.parent? c = some q then 1 else 0 := by
  obtain ⟨m,-,inner⟩ := h.subforest shape
  have nodup := inner.nodup
  rw [s.places_map_fst] at nodup
  simp only [nodup.count,wf.mem_children shape]

end Forest
end SymbolGraph
