import Mathlib.Data.List.Flatten
import Mathlib.Data.List.Nodup
import SymbolGraph.Proofs.Models
import SymbolGraph.Session.Symbol

/-! The order of a traversal, as it follows from the models alone: what is listed below a symbol, and the
walk that meets every symbol after those below it. -/
namespace SymbolGraph

/-- What a traversal finds below a node: its children in the order of the source, and among them the
reference that stands for a missing type. -/
def Shape.visited : Shape → List (Option NodeId)
  | .function s => (s.annotations ++ s.typeParameters ++ s.receiver.toList ++ s.parameters).map some
      ++ s.returnType :: s.localDeclarations.map some
  | .property s => (s.annotations ++ s.typeParameters ++ s.receiver.toList).map some ++ [s.typeReference]
  | .valueParameter s => s.annotations.map some ++ [s.typeReference]
  | s => s.children.map some

/-- A declaration is written without the type that it has. -/
def Shape.isUntyped : Shape → Bool
  | .function s => s.returnType.isNone
  | .property s => s.typeReference.isNone
  | .valueParameter s => s.typeReference.isNone
  | _ => false

/-- The symbol of what a node lists, or that of the reference that is deferred there. -/
def NodeKey.listed (k : NodeKey) : Option NodeId → SymbolKey
  | some n => .node (k.sibling n)
  | none => .deferred k

namespace Models

/-- The symbols below a symbol. -/
def below (ms : Models) : SymbolKey → List SymbolKey
  | .node k => (ms.shape? k).elim [] fun s => s.visited.map k.listed
  | .deferred _ => []

def walkUpTo (ms : Models) (skip : SymbolKey → Bool) : Nat → SymbolKey → List SymbolKey
  | 0, _ => []
  | depth+1, k => if skip k then [] else (ms.below k).flatMap (walkUpTo ms skip depth) ++ [k]

/-- The symbols that a traversal meets from a symbol on, unless it skips them or what they are below of,
each of them after those below it. -/
def walk (ms : Models) (skip : SymbolKey → Bool) (k : SymbolKey) : List SymbolKey :=
  ms.walkUpTo skip (ms.size + 2) k

/-- A symbol and all symbols below it. -/
def postorder (ms : Models) (k : SymbolKey) : List SymbolKey := ms.walk (fun _ => false) k

end Models

namespace Shape

theorem some_mem_visited {s : Shape} {c : NodeId} : some c ∈ s.visited ↔ c ∈ s.children := by
  cases s <;> simp [visited,children,eq_comm]

theorem none_mem_visited {s : Shape} : none ∈ s.visited ↔ s.isUntyped = true := by
  cases s with
  | function s => simpa [visited,isUntyped] using eq_comm
  | property s => simpa [visited,isUntyped] using eq_comm
  | valueParameter s => simpa [visited,isUntyped] using eq_comm
  | _ => simp [visited,isUntyped]

/-- One place in a list without repetitions may be vacant. -/
theorem nodup_around {l m : List NodeId} {o : Option NodeId} (h : (l ++ o.toList ++ m).Nodup) :
    (l.map some ++ o :: m.map some).Nodup := by
  have injective : Function.Injective (some : NodeId → Option NodeId) := fun _ _ => Option.some.inj
  cases o with
  | none =>
    rw [Option.toList,List.append_nil] at h
    rw [List.nodup_middle,← List.map_append]
    exact List.nodup_cons.mpr ⟨by simp,h.map injective⟩
  | some c =>
    have all : l.map some ++ some c :: m.map some = (l ++ [c] ++ m).map some := by simp
    rw [all]
    exact h.map injective

theorem nodup_visited {s : Shape} (h : s.children.Nodup) : s.visited.Nodup := by
  cases s with
  | function s => exact nodup_around h
  | property s => exact nodup_around (by rwa [List.append_nil])
  | valueParameter s => exact nodup_around (by rwa [List.append_nil])
  | _ => exact h.map fun _ _ => Option.some.inj

end Shape

namespace Models

variable {ms : Models} {skip : SymbolKey → Bool} {j k p : NodeKey} {x y : SymbolKey} {s : Shape}

theorem below_node (h : ms.shape? k = some s) : ms.below (.node k) = s.visited.map k.listed := by
  rw [below,h,Option.elim_some]

/-- A node is found below its parent, and a missing type at its declaration. -/
theorem mem_below (hw : ms.WellFormed) : y ∈ ms.below x ↔
    ∃ p, x = .node p ∧ ((∃ c, y = .node c ∧ ms.parent? c = some p) ∨
      y = .deferred p ∧ ∃ s, ms.shape? p = some s ∧ s.isUntyped = true) := by
  constructor
  · intro h
    cases x with
    | deferred p => cases h
    | node p =>
      cases hs : ms.shape? p with
      | none => rw [below,hs] at h; cases h
      | some s =>
        rw [below_node hs] at h
        obtain ⟨c,hc,rfl⟩ := List.mem_map.mp h
        refine ⟨p,rfl,?_⟩
        cases c with
        | none => exact .inr ⟨rfl,s,hs,Shape.none_mem_visited.mp hc⟩
        | some c =>
          rw [Shape.some_mem_visited,Shape.mem_children] at hc
          obtain ⟨place,listed⟩ := hc
          exact .inl ⟨_,rfl,(hw.child hs listed).1⟩
  · rintro ⟨p,rfl,⟨c,rfl,parent⟩ | ⟨rfl,s,hs,untyped⟩⟩
    · obtain ⟨s,place,hs,listed,e⟩ := hw.parent parent
      have mem : c.node ∈ s.children := Shape.mem_children.mpr ⟨place,listed⟩
      rw [below_node hs]
      refine List.mem_map.mpr ⟨some c.node,Shape.some_mem_visited.mpr mem,?_⟩
      rw [e]
      rfl
    · rw [below_node hs]
      exact List.mem_map.mpr ⟨none,Shape.none_mem_visited.mpr untyped,rfl⟩

/-! ### Fuel -/

/-- A bound on how deep symbols nest below a symbol. Children come after their parents, and a deferred
reference has none. -/
def room (ms : Models) : SymbolKey → Nat
  | .node k => ms.size + 1 - k.node.index
  | .deferred _ => 1

theorem room_le (ms : Models) (k : SymbolKey) : ms.room k ≤ ms.size + 1 := by
  cases k with
  | node k => exact Nat.sub_le _ _
  | deferred k => exact Nat.le_add_left _ _

theorem room_lt (hw : ms.WellFormed) (h : y ∈ ms.below x) : ms.room y < ms.room x := by
  obtain ⟨p,rfl,⟨c,rfl,parent⟩ | ⟨rfl,s,hs,-⟩⟩ := (mem_below hw).mp h
  · obtain ⟨s,_,hs,-⟩ := hw.parent parent
    have inside := index_lt_size hs
    have after := hw.index_lt parent
    simp only [room]
    omega
  · have inside := index_lt_size hs
    simp only [room]
    omega

/-- Goes up from the symbols below a symbol to the symbol. -/
theorem ascend (hw : ms.WellFormed) {motive : SymbolKey → Prop}
    (step : ∀ x, (∀ y ∈ ms.below x, motive y) → motive x) (x : SymbolKey) : motive x := by
  induction h : ms.room x using Nat.strongRecOn generalizing x with
  | ind r ih => exact step x fun y hy => ih _ (h ▸ room_lt hw hy) y rfl

theorem walkUpTo_eq (hw : ms.WellFormed) {d e : Nat} (hd : ms.room x < d) (he : ms.room x < e) :
    ms.walkUpTo skip d x = ms.walkUpTo skip e x := by
  induction d generalizing e x with
  | zero => exact absurd hd (Nat.not_lt_zero _)
  | succ d ih =>
    obtain ⟨e,rfl⟩ : ∃ i, e = i + 1 := ⟨e - 1,by omega⟩
    have inner : (ms.below x).flatMap (ms.walkUpTo skip d) = (ms.below x).flatMap (ms.walkUpTo skip e) :=
      List.flatMap_congr fun y hy => by
        have lt := room_lt hw hy
        exact ih (by omega) (by omega)
    rw [walkUpTo,walkUpTo,inner]

theorem walk_eq (hw : ms.WellFormed) (skip : SymbolKey → Bool) (x : SymbolKey) :
    ms.walk skip x = if skip x then [] else (ms.below x).flatMap (ms.walk skip) ++ [x] := by
  have inner : (ms.below x).flatMap (ms.walkUpTo skip (ms.size + 1)) = (ms.below x).flatMap (ms.walk skip) :=
    List.flatMap_congr fun y hy => by
      have lt := room_lt hw hy
      have le := ms.room_le x
      exact walkUpTo_eq hw (by omega) (by omega)
  rw [walk,walkUpTo,inner]

/-- The walk from a symbol is made up of those from the symbols below it. -/
theorem postorder_eq (hw : ms.WellFormed) (x : SymbolKey) :
    ms.postorder x = (ms.below x).flatMap ms.postorder ++ [x] := walk_eq hw _ x

/-! ### What is met -/

theorem self_mem_postorder (hw : ms.WellFormed) (x : SymbolKey) : x ∈ ms.postorder x := by
  rw [postorder_eq hw]
  exact List.mem_append_right _ (List.mem_singleton.mpr rfl)

theorem mem_postorder (hw : ms.WellFormed) :
    y ∈ ms.postorder x ↔ y = x ∨ ∃ z ∈ ms.below x, y ∈ ms.postorder z := by
  rw [postorder_eq hw,List.mem_append,List.mem_flatMap,List.mem_singleton,or_comm]

/-- What stands below a symbol is met right before it. -/
theorem postorder_contiguous (hw : ms.WellFormed) (h : y ∈ ms.postorder x) :
    ms.postorder y <:+: ms.postorder x := by
  induction x using ascend hw with
  | step x ih =>
    rcases (mem_postorder hw).mp h with rfl | ⟨z,hz,h⟩
    · exact List.infix_refl _
    · refine (ih z hz h).trans ?_
      rw [postorder_eq hw x,List.flatMap]
      exact (List.infix_of_mem_flatten (List.mem_map.mpr ⟨z,hz,rfl⟩)).trans (List.infix_append' [] _ _)

theorem scopes_of_root (h : ms.parent? k = none) : ms.scopes k = [k] := by
  rw [scopes,ancestors_of_root h]

theorem scopes_of_parent (hw : ms.WellFormed) (h : ms.parent? k = some p) : ms.scopes k = k :: ms.scopes p := by
  rw [scopes,hw.ancestors_of_parent h,scopes]

theorem parent_mem_scopes (hw : ms.WellFormed) (h : ms.parent? k = some p) (hk : k ∈ ms.scopes j) :
    p ∈ ms.scopes j := by
  induction j using hw.climb with
  | root j top =>
    rw [scopes_of_root top] at hk
    obtain rfl := List.mem_singleton.mp hk
    rw [h] at top
    cases top
  | child j q parent ih =>
    rw [scopes_of_parent hw parent] at hk ⊢
    rcases List.mem_cons.mp hk with rfl | hk
    · obtain rfl := Option.some.inj (h.symm.trans parent)
      exact List.mem_cons_of_mem _ List.mem_cons_self
    · exact List.mem_cons_of_mem _ (ih hk)

/-- The nodes that are met from a node on are those below it. -/
theorem node_mem_postorder (hw : ms.WellFormed) : .node j ∈ ms.postorder x ↔
    ∃ k, x = .node k ∧ k ∈ ms.scopes j := by
  constructor
  · intro h
    induction x using ascend hw with
    | step x ih =>
      rcases (mem_postorder hw).mp h with rfl | ⟨y,hy,h⟩
      · exact ⟨j,rfl,List.mem_cons_self⟩
      · obtain ⟨c,rfl,hc⟩ := ih y hy h
        obtain ⟨p,rfl,⟨_,e,parent⟩ | ⟨e,-⟩⟩ := (mem_below hw).mp hy
        · obtain rfl := SymbolKey.node.inj e
          exact ⟨p,rfl,parent_mem_scopes hw parent hc⟩
        · cases e
  · rintro ⟨k,rfl,hk⟩
    induction j using hw.climb with
    | root j top =>
      rw [scopes_of_root top] at hk
      obtain rfl := List.mem_singleton.mp hk
      exact self_mem_postorder hw _
    | child j q parent ih =>
      rw [scopes_of_parent hw parent] at hk
      rcases List.mem_cons.mp hk with rfl | hk
      · exact self_mem_postorder hw _
      · refine (postorder_contiguous hw (ih hk)).subset ((mem_postorder hw).mpr (.inr ⟨.node j,?_,?_⟩))
        · exact (mem_below hw).mpr ⟨q,rfl,.inl ⟨j,rfl,parent⟩⟩
        · exact self_mem_postorder hw _

/-- Deferred references are met where a declaration is written without its type. -/
theorem deferred_mem_postorder (hw : ms.WellFormed) : .deferred j ∈ ms.postorder x ↔
    x = .deferred j ∨ .node j ∈ ms.postorder x ∧ ∃ s, ms.shape? j = some s ∧ s.isUntyped = true := by
  constructor
  · intro h
    induction x using ascend hw with
    | step x ih =>
      rcases (mem_postorder hw).mp h with rfl | ⟨y,hy,h⟩
      · exact .inl rfl
      · rcases ih y hy h with rfl | ⟨met,untyped⟩
        · obtain ⟨p,rfl,⟨_,e,-⟩ | ⟨e,untyped⟩⟩ := (mem_below hw).mp hy
          · cases e
          · obtain rfl := SymbolKey.deferred.inj e
            exact .inr ⟨self_mem_postorder hw _,untyped⟩
        · exact .inr ⟨(mem_postorder hw).mpr (.inr ⟨y,hy,met⟩),untyped⟩
  · rintro (rfl | ⟨met,untyped⟩)
    · exact self_mem_postorder hw _
    · refine (postorder_contiguous hw met).subset ((mem_postorder hw).mpr (.inr ⟨.deferred j,?_,?_⟩))
      · exact (mem_below hw).mpr ⟨j,rfl,.inr ⟨rfl,untyped⟩⟩
      · exact self_mem_postorder hw _

/-! ### Nothing is met twice -/

theorem index_le_of_mem_scopes (hw : ms.WellFormed) (h : k ∈ ms.scopes j) : k.node.index ≤ j.node.index := by
  induction j using hw.climb with
  | root j top =>
    rw [scopes_of_root top] at h
    exact Nat.le_of_eq (congrArg (·.node.index) (List.mem_singleton.mp h))
  | child j q parent ih =>
    rw [scopes_of_parent hw parent] at h
    rcases List.mem_cons.mp h with rfl | h
    · exact Nat.le_refl _
    · have lt := hw.index_lt parent
      have le := ih h
      omega

theorem not_mem_scopes_parent (hw : ms.WellFormed) (h : ms.parent? k = some p) : k ∉ ms.scopes p := by
  intro mem
  have lt := hw.index_lt h
  have le := index_le_of_mem_scopes hw mem
  omega

/-- A node is not below two children of one node. -/
theorem eq_of_mem_scopes (hw : ms.WellFormed) {c d : NodeKey} (hc : ms.parent? c = some p)
    (hd : ms.parent? d = some p) (mem : c ∈ ms.scopes j) (mem' : d ∈ ms.scopes j) : c = d := by
  induction j using hw.climb with
  | root j top =>
    rw [scopes_of_root top] at mem mem'
    rw [List.mem_singleton.mp mem,List.mem_singleton.mp mem']
  | child j q parent ih =>
    rw [scopes_of_parent hw parent] at mem mem'
    rcases List.mem_cons.mp mem with rfl | above
    · rcases List.mem_cons.mp mem' with same | above'
      · exact same.symm
      · obtain rfl := Option.some.inj (hc.symm.trans parent)
        exact (not_mem_scopes_parent hw hd above').elim
    · rcases List.mem_cons.mp mem' with rfl | above'
      · obtain rfl := Option.some.inj (hd.symm.trans parent)
        exact (not_mem_scopes_parent hw hc above).elim
      · exact ih above above'

/-- What is met from a node on is found at the node or below it. -/
theorem mem_scopes_anchor (hw : ms.WellFormed) (h : y ∈ ms.postorder (.node k)) : k ∈ ms.scopes y.anchor := by
  have own {j : NodeKey} (met : .node j ∈ ms.postorder (.node k)) : k ∈ ms.scopes j := by
    obtain ⟨_,e,above⟩ := (node_mem_postorder hw).mp met
    rwa [SymbolKey.node.inj e]
  cases y with
  | node j => exact own h
  | deferred j =>
    rcases (deferred_mem_postorder hw).mp h with e | ⟨met,-⟩
    · cases e
    · exact own met

/-- What is met from a symbol below a node on is found at it or below it. -/
theorem mem_scopes_of_mem_postorder (hw : ms.WellFormed) {z : SymbolKey} (hz : z ∈ ms.below (.node p))
    (h : y ∈ ms.postorder z) : (z = .deferred p ∧ y = .deferred p) ∨
      ∃ c, z = .node c ∧ ms.parent? c = some p ∧ c ∈ ms.scopes y.anchor := by
  obtain ⟨_,e,⟨c,rfl,parent⟩ | ⟨rfl,-⟩⟩ := (mem_below hw).mp hz
  · obtain rfl := SymbolKey.node.inj e
    exact .inr ⟨c,rfl,parent,mem_scopes_anchor hw h⟩
  · obtain rfl := SymbolKey.node.inj e
    rcases (mem_postorder hw).mp h with rfl | ⟨_,none,-⟩
    · exact .inl ⟨rfl,rfl⟩
    · cases none

theorem eq_of_mem_postorder (hw : ms.WellFormed) {c d : SymbolKey} (hc : c ∈ ms.below (.node p))
    (hd : d ∈ ms.below (.node p)) (mem : y ∈ ms.postorder c) (mem' : y ∈ ms.postorder d) : c = d := by
  rcases mem_scopes_of_mem_postorder hw hc mem with ⟨rfl,rfl⟩ | ⟨c,rfl,parent,above⟩ <;>
    rcases mem_scopes_of_mem_postorder hw hd mem' with ⟨rfl,same⟩ | ⟨d,rfl,parent',above'⟩
  · rfl
  · exact (not_mem_scopes_parent hw parent' above').elim
  · rw [same] at above
    exact (not_mem_scopes_parent hw parent above).elim
  · rw [eq_of_mem_scopes hw parent parent' above above']

theorem listed_injective (k : NodeKey) : Function.Injective k.listed := by
  intro m n h
  cases m <;> cases n <;> simp_all [NodeKey.listed,NodeKey.sibling]

theorem nodup_below (once : ∀ k s, ms.shape? k = some s → s.children.Nodup) (x : SymbolKey) :
    (ms.below x).Nodup := by
  cases x with
  | deferred p => exact .nil
  | node p =>
    cases hs : ms.shape? p with
    | none => rw [below,hs]; exact .nil
    | some s =>
      rw [below_node hs]
      exact (Shape.nodup_visited (once p s hs)).map (listed_injective p)

theorem nodup_postorder (hw : ms.WellFormed) (once : ∀ k s, ms.shape? k = some s → s.children.Nodup)
    (x : SymbolKey) : (ms.postorder x).Nodup := by
  induction x using ascend hw with
  | step x ih =>
    have own : x ∉ (ms.below x).flatMap ms.postorder := by
      intro mem
      obtain ⟨z,hz,mem⟩ := List.mem_flatMap.mp mem
      obtain ⟨p,rfl,-⟩ := (mem_below hw).mp hz
      rcases mem_scopes_of_mem_postorder hw hz mem with ⟨-,no⟩ | ⟨c,-,parent,above⟩
      · cases no
      · exact not_mem_scopes_parent hw parent above
    have apart : (ms.below x).Pairwise (Function.onFun List.Disjoint ms.postorder) := by
      refine (nodup_below once x).pairwise_of_forall_ne fun c hc d hd ne y mem mem' => ne ?_
      obtain ⟨p,rfl,-⟩ := (mem_below hw).mp hc
      exact eq_of_mem_postorder hw hc hd mem mem'
    rw [postorder_eq hw,List.nodup_append_comm,List.singleton_append]
    exact List.nodup_cons.mpr ⟨own,List.nodup_flatMap.mpr ⟨ih,apart⟩⟩

/-! ### Files -/

theorem root_eq_iff (hw : ms.WellFormed) {file : NodeKey} (top : ms.parent? file = none) :
    ms.root k = file ↔ file ∈ ms.scopes k := by
  induction k using hw.climb with
  | root k own =>
    rw [root,ancestors_of_root own,scopes_of_root own,List.mem_singleton,eq_comm]
    rfl
  | child k p parent ih =>
    have above : ms.root k = ms.root p := by
      rw [root,hw.ancestors_of_parent parent,List.getLastD_cons,root]
    have ne : file ≠ k := by
      rintro rfl
      rw [parent] at top
      cases top
    rw [above,ih,scopes_of_parent hw parent,List.mem_cons,or_iff_right ne]

/-- Every node that has a file above it is one of the nodes. -/
theorem mem_keys_of_mem_scopes (hw : ms.WellFormed) (hs : ms.shape? p = some s) (h : p ∈ ms.scopes k) :
    k ∈ ms.keys := by
  cases parent : ms.parent? k with
  | none =>
    rw [scopes_of_root parent] at h
    rw [← List.mem_singleton.mp h]
    exact mem_keys hs
  | some q =>
    obtain ⟨a,ha,hp,-⟩ := exists_arena_of_parent? parent
    obtain ⟨t,ht⟩ := (hw.arena ha).shaped k.node (Arena.lt_size_of_parent? hp)
    exact mem_keys ((shape?_eq ha).trans ht)

/-- What is above everything is above all that is above a node. -/
theorem top_mem_scopes (hw : ms.WellFormed) {file : NodeKey} (top : ms.parent? file = none)
    (h : file ∈ ms.scopes j) (hk : k ∈ ms.scopes j) : file ∈ ms.scopes k := by
  induction j using hw.climb with
  | root j own =>
    rw [scopes_of_root own] at hk
    rwa [List.mem_singleton.mp hk]
  | child j p parent ih =>
    rw [scopes_of_parent hw parent] at hk
    rcases List.mem_cons.mp hk with rfl | above
    · exact h
    · rw [scopes_of_parent hw parent] at h
      rcases List.mem_cons.mp h with rfl | inside
      · rw [parent] at top
        cases top
      · exact ih inside above

theorem ne_of_mem_ancestors (hw : ms.WellFormed) (h : k ∈ ms.ancestors x.anchor) : x ≠ .node k := by
  rintro rfl
  cases parent : ms.parent? k with
  | none =>
    rw [SymbolKey.anchor,ancestors_of_root parent] at h
    cases h
  | some p =>
    rw [SymbolKey.anchor,hw.ancestors_of_parent parent] at h
    exact not_mem_scopes_parent hw parent h

/-- A symbol is met after all that is met from it on. -/
theorem pair_sublist (hw : ms.WellFormed) (h : y ∈ ms.postorder x) (ne : y ≠ x) :
    [y,x].Sublist (ms.postorder x) := by
  rw [postorder_eq hw] at h ⊢
  rcases List.mem_append.mp h with inside | own
  · exact (List.singleton_sublist.mpr inside).append (.refl [x])
  · exact (ne (List.mem_singleton.mp own)).elim

/-- The symbols of a file: each of its nodes, and each type that is missing in it, once and in an order in
which the symbols below a symbol come in the order of the source, and the symbol after all of them. -/
structure Postordered (ms : Models) (file : NodeKey) (order : List SymbolKey) : Prop where
  nodup : order.Nodup
  node : ∀ k, .node k ∈ order ↔ k ∈ ms.keys ∧ ms.root k = file
  deferred : ∀ k, .deferred k ∈ order ↔ .node k ∈ order ∧ ∃ s, ms.shape? k = some s ∧ s.isUntyped = true
  listed : ∀ x ∈ order, (ms.below x ++ [x]).Sublist order
  ancestors : ∀ x ∈ order, ∀ k ∈ ms.ancestors x.anchor, [x,.node k].Sublist order

theorem below_sublist (hw : ms.WellFormed) (x : SymbolKey) : (ms.below x ++ [x]).Sublist (ms.postorder x) := by
  have own : ∀ y ∈ ms.below x, [y].Sublist (ms.postorder y) := fun y _ =>
    List.singleton_sublist.mpr (self_mem_postorder hw y)
  have each := List.Sublist.flatMap_right (ms.below x) own
  rw [List.flatMap_singleton'] at each
  rw [postorder_eq hw x]
  exact each.append (.refl _)

theorem postordered (hw : ms.WellFormed) (once : ∀ k s, ms.shape? k = some s → s.children.Nodup)
    {file : NodeKey} (hs : ms.shape? file = some s) (top : ms.parent? file = none) :
    ms.Postordered file (ms.postorder (.node file)) where
  nodup := nodup_postorder hw once _
  node k := by
    rw [node_mem_postorder hw,root_eq_iff hw top]
    constructor
    · rintro ⟨_,e,mem⟩
      obtain rfl := SymbolKey.node.inj e
      exact ⟨mem_keys_of_mem_scopes hw hs mem,mem⟩
    · exact fun ⟨_,mem⟩ => ⟨file,rfl,mem⟩
  deferred k := by
    rw [deferred_mem_postorder hw]
    exact or_iff_right (by rintro ⟨⟩)
  listed x hx := (below_sublist hw x).trans (postorder_contiguous hw hx).sublist
  ancestors x hx k hk := by
    have anchored : .node x.anchor ∈ ms.postorder (.node file) ∧ x ∈ ms.postorder (.node x.anchor) := by
      cases x with
      | node j => exact ⟨hx,self_mem_postorder hw _⟩
      | deferred j =>
        obtain ⟨met,untyped⟩ := ((deferred_mem_postorder hw).mp hx).resolve_left (by rintro ⟨⟩)
        exact ⟨met,(deferred_mem_postorder hw).mpr (.inr ⟨self_mem_postorder hw _,untyped⟩)⟩
    have above : k ∈ ms.scopes x.anchor := List.mem_cons_of_mem _ hk
    obtain ⟨_,e,inside⟩ := (node_mem_postorder hw).mp anchored.1
    obtain rfl := SymbolKey.node.inj e
    have outer : .node k ∈ ms.postorder (.node file) :=
      (node_mem_postorder hw).mpr ⟨file,rfl,top_mem_scopes hw top inside above⟩
    have inner : x ∈ ms.postorder (.node k) :=
      (postorder_contiguous hw ((node_mem_postorder hw).mpr ⟨k,rfl,above⟩)).subset anchored.2
    exact (pair_sublist hw inner (ne_of_mem_ancestors hw hk)).trans (postorder_contiguous hw outer).sublist

end Models
end SymbolGraph
