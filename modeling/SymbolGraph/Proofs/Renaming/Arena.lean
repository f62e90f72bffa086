import Mathlib.Data.List.Nodup
import Mathlib.Data.List.Perm.Basic
import Mathlib.Logic.Equiv.Basic
import SymbolGraph.Proofs.Descent
import SymbolGraph.Proofs.Renaming.Layout

/-! Files in another order. Their arena has the same nodes, under other numbers. -/
namespace SymbolGraph
namespace Layout

/-- Slots from an id on, rearranged. Each is renamed and stands under its new number, and the numbers before
them are kept. -/
structure Relocates (f : NodeId ≃ NodeId) (start : Nat) (l l' : List Slot) : Prop where
  length_eq : l'.length = l.length
  fixed : ∀ i < start, f ⟨i⟩ = ⟨i⟩
  moved : ∀ i, ∃ j, f ⟨start+i⟩ = ⟨start+j⟩ ∧ l'[j]? = l[i]?.map (Slot.rename f)

namespace Relocates

variable {f g : NodeId ≃ NodeId} {start : Nat} {l m r : List Slot}

theorem refl (start : Nat) (l : List Slot) : Relocates (.refl _) start l l where
  length_eq := rfl
  fixed _ _ := rfl
  moved i := by
    have same : Slot.rename (Equiv.refl NodeId) = id := funext Slot.rename_id
    exact ⟨i,rfl,by rw [same,Option.map_id,id]⟩

theorem trans (h : Relocates f start l m) (h' : Relocates g start m r) : Relocates (f.trans g) start l r where
  length_eq := h'.length_eq.trans h.length_eq
  fixed i hi := by rw [Equiv.trans_apply,h.fixed i hi,h'.fixed i hi]
  moved i := by
    obtain ⟨j,to_j,at_j⟩ := h.moved i
    obtain ⟨k,to_k,at_k⟩ := h'.moved j
    refine ⟨k,by rw [Equiv.trans_apply,to_j,to_k],?_⟩
    have both : Slot.rename g ∘ Slot.rename f = Slot.rename (f.trans g) := funext (Slot.rename_rename f g)
    rw [at_k,at_j,Option.map_map,both]

end Relocates

/-- Two blocks of numbers from an id on change places. -/
def exchange (start p q : Nat) : NodeId ≃ NodeId where
  toFun n :=
    if n.index < start then n else if n.index < start + p then ⟨n.index + q⟩
    else if n.index < start + p + q then ⟨n.index - p⟩ else n
  invFun n :=
    if n.index < start then n else if n.index < start + q then ⟨n.index + p⟩
    else if n.index < start + q + p then ⟨n.index - q⟩ else n
  left_inv n := by
    obtain ⟨i⟩ := n
    dsimp only
    repeat' split
    all_goals simp only [NodeId.mk.injEq] at *
    all_goals omega
  right_inv n := by
    obtain ⟨i⟩ := n
    dsimp only
    repeat' split
    all_goals simp only [NodeId.mk.injEq] at *
    all_goals omega

section Exchange

variable (start p q : Nat) {i : Nat}

theorem exchange_before (h : i < start) : exchange start p q ⟨i⟩ = ⟨i⟩ := if_pos h

theorem exchange_first (h : i < p) : exchange start p q ⟨start+i⟩ = ⟨start+q+i⟩ := by
  show ite _ _ _ = _
  rw [if_neg (by simp),if_pos (by simpa using h),NodeId.mk.injEq]
  dsimp only
  omega

theorem exchange_second (h : i < q) : exchange start p q ⟨start+p+i⟩ = ⟨start+i⟩ := by
  show ite _ _ _ = _
  rw [if_neg (by dsimp only; omega),if_neg (by dsimp only; omega),if_pos (by simpa using h),NodeId.mk.injEq]
  dsimp only
  omega

theorem exchange_after : exchange start p q ⟨start+p+q+i⟩ = ⟨start+p+q+i⟩ := by
  show ite _ _ _ = _
  rw [if_neg (by dsimp only; omega),if_neg (by dsimp only; omega),if_neg (by dsimp only; omega)]

end Exchange

theorem Relocates.blocks (start : Nat) (as bs rest : List Slot) :
    Relocates (exchange start as.length bs.length) start (as ++ (bs ++ rest))
      ((bs ++ (as ++ rest)).map (Slot.rename (exchange start as.length bs.length))) where
  length_eq := by
    simp only [List.length_map,List.length_append]
    omega
  fixed _ hi := exchange_before _ _ _ hi
  moved i := by
    simp only [List.getElem?_map]
    -- The first block goes behind the second, the second to the front, and the rest stays where it is.
    by_cases first : i < as.length
    · refine ⟨bs.length + i,by rw [exchange_first _ _ _ first,Nat.add_assoc],?_⟩
      rw [List.getElem?_append_right (Nat.le_add_right _ _),Nat.add_sub_cancel_left,List.getElem?_append_left first,
        List.getElem?_append_left first]
    obtain ⟨i,rfl⟩ := Nat.exists_eq_add_of_le (Nat.le_of_not_lt first)
    rw [List.getElem?_append_right (Nat.le_add_right _ _),Nat.add_sub_cancel_left,← Nat.add_assoc]
    by_cases second : i < bs.length
    · refine ⟨i,exchange_second _ _ _ second,?_⟩
      rw [List.getElem?_append_left second,List.getElem?_append_left second]
    obtain ⟨i,rfl⟩ := Nat.exists_eq_add_of_le (Nat.le_of_not_lt second)
    refine ⟨bs.length + (as.length + i),?_,?_⟩
    · rw [← Nat.add_assoc,exchange_after]
      congr 1
      omega
    · rw [List.getElem?_append_right (Nat.le_add_right _ _),List.getElem?_append_right (by omega),
        List.getElem?_append_right (by omega),Nat.add_sub_cancel_left,Nat.add_sub_cancel_left,Nat.add_sub_cancel_left]

section Files

variable {F : Type} {x : F → Layout NodeId}

theorem slots_each_cons (a : F) (as : List F) (start : Nat) :
    (each x (a :: as) start).2 = (x a start).2 ++ (each x as (start + (x a start).2.length)).2 := by
  rw [each,bind_apply,bind_apply,pure_apply,List.append_nil]

theorem Moves.slots {A : Type} {f : NodeId → NodeId} {r : A → A} {y : Layout A} (h : Moves f r y y) {n m : Nat}
    (takes : ∀ i < (y n).2.length, f ⟨n+i⟩ = ⟨m+i⟩) : (y m).2 = (y n).2.map (Slot.rename f) := by
  rw [h n m takes]

variable (h : ∀ a (f : NodeId → NodeId), Moves f f (x a) (x a))
include h

theorem length_slots (a : F) (n m : Nat) : (x a m).2.length = (x a n).2.length := by
  have shifted := (h a fun k => ⟨m + (k.index - n)⟩).slots (n := n) (m := m) fun i _ => by
    rw [Nat.add_sub_cancel_left]
  rw [shifted,List.length_map]

theorem Relocates.cons {f : NodeId ≃ NodeId} {start : Nat} {a : F} {as bs : List F}
    (rest : Relocates f (start + (x a start).2.length) (each x as (start + (x a start).2.length)).2
      (each x bs (start + (x a start).2.length)).2) :
    Relocates f start (each x (a :: as) start).2 (each x (a :: bs) start).2 where
  length_eq := by rw [slots_each_cons,slots_each_cons,List.length_append,List.length_append,rest.length_eq]
  fixed i hi := rest.fixed i (Nat.lt_add_right _ hi)
  moved i := by
    -- All numbers up to the end of the first file are kept, so that it is laid out as it was.
    have own := (h a f).slots (n := start) (m := start) fun i hi => rest.fixed _ (by omega)
    rw [slots_each_cons,slots_each_cons]
    by_cases hi : i < (x a start).2.length
    · refine ⟨i,rest.fixed _ (by omega),?_⟩
      rw [List.getElem?_append_left hi,List.getElem?_append_left hi]
      nth_rewrite 1 [own]
      rw [List.getElem?_map]
    · obtain ⟨j,to_j,at_j⟩ := rest.moved (i - (x a start).2.length)
      refine ⟨(x a start).2.length + j,?_,?_⟩
      · rw [← Nat.add_assoc,← to_j,Nat.add_assoc,Nat.add_sub_cancel' (Nat.le_of_not_lt hi)]
      · rw [List.getElem?_append_right (Nat.le_add_right _ _),Nat.add_sub_cancel_left,at_j,
          List.getElem?_append_right (Nat.le_of_not_lt hi)]

theorem exists_relocates_swap (start : Nat) (a b : F) (as : List F) :
    ∃ f, Relocates f start (each x (a :: b :: as) start).2 (each x (b :: a :: as) start).2 := by
  have blocks := Relocates.blocks start (x a start).2 (x b (start + (x a start).2.length)).2
    (each x as (start + (x a start).2.length + (x b (start + (x a start).2.length)).2.length)).2
  refine ⟨exchange start (x a start).2.length (x b (start + (x a start).2.length)).2.length,?_⟩
  have first := (h a _).slots fun i hi => exchange_first start _ (x b (start + (x a start).2.length)).2.length hi
  have second := (h b _).slots fun i hi => exchange_second start (x a start).2.length _ hi
  have after := (Moves.each (fun c => h c _) as).slots fun i _ =>
    exchange_after start (x a start).2.length (x b (start + (x a start).2.length)).2.length (i := i)
  rw [List.map_append,List.map_append,← first,← second,← after] at blocks
  have a_length := length_slots h a start (start + (x b (start + (x a start).2.length)).2.length)
  have b_length := length_slots h b (start + (x a start).2.length) start
  rw [slots_each_cons,slots_each_cons,slots_each_cons,slots_each_cons,b_length,a_length,
    Nat.add_right_comm start (x b _).2.length]
  exact blocks

/-- Files that are laid out in another order take the same slots, rearranged. -/
theorem exists_relocates {as bs : List F} (perm : as.Perm bs) (start : Nat) :
    ∃ f, Relocates f start (each x as start).2 (each x bs start).2 := by
  induction perm generalizing start with
  | nil => exact ⟨_,.refl _ _⟩
  | cons a _ ih =>
    obtain ⟨f,rest⟩ := ih (start + (x a start).2.length)
    exact ⟨f,.cons h rest⟩
  | swap a b as => exact exists_relocates_swap h start b a as
  | trans _ _ ih ih' =>
    obtain ⟨f,first⟩ := ih start
    obtain ⟨g,second⟩ := ih' start
    exact ⟨_,first.trans second⟩

end Files

end Layout

namespace Arena

/-- The same nodes in the same files, under other numbers. -/
structure Renames (f : NodeId ≃ NodeId) (a b : Arena) : Prop where
  size : b.size = a.size
  slot : ∀ n, b.slots[(f n).index]? = a.slots[n.index]?.map (Slot.rename f)

namespace Renames

variable {f : NodeId ≃ NodeId} {a b : Arena} (h : a.Renames f b) (n : NodeId)
include h

theorem shape? : b.shape? (f n) = (a.shape? n).map (Shape.rename f) := by
  rw [Arena.shape?,Arena.shape?,h.slot]
  cases a.slots[n.index]? <;> rfl

theorem parent? : b.parent? (f n) = (a.parent? n).map f := by
  rw [Arena.parent?,Arena.parent?,h.slot]
  cases a.slots[n.index]? <;> rfl

theorem ancestors : b.ancestors (f n) = (a.ancestors n).map f := by
  rw [Arena.ancestors,Arena.ancestors,h.size]
  generalize a.size = k
  induction k generalizing n with
  | zero => rfl
  | succ k ih =>
    rw [ancestorsUpTo,ancestorsUpTo,h.parent?]
    cases a.parent? n with
    | none => rfl
    | some p =>
      show f p :: _ = _
      rw [ih p,List.map_cons]

theorem mem_nodes : f n ∈ b.nodes ↔ n ∈ a.nodes := by
  have slot := congrArg Option.isSome (h.slot n)
  rw [Option.isSome_map,Bool.eq_iff_iff,isSome_getElem?,isSome_getElem?] at slot
  rwa [Arena.mem_nodes,Arena.mem_nodes]

theorem nodes : b.nodes.Perm (a.nodes.map f) := by
  have nodup (c : Arena) : c.nodes.Nodup := List.nodup_range.map fun _ _ => NodeId.mk.inj
  refine (List.perm_ext_iff_of_nodup (nodup b) ((nodup a).map f.injective)).mpr fun m => ?_
  obtain ⟨n,rfl⟩ := f.surjective m
  rw [h.mem_nodes,List.mem_map_of_injective f.injective]

theorem files : b.files.Perm (a.files.map f) := by
  have same : ((fun n => (b.parent? n).isNone) ∘ f) = fun n => (a.parent? n).isNone := by
    funext n
    simp [h.parent?]
  rw [Arena.files,Arena.files,← same,← List.filter_map]
  exact h.nodes.filter _

end Renames

end Arena

theorem Layout.Relocates.renames {f : NodeId ≃ NodeId} {l l' : List Slot} (h : Relocates f 0 l l') (o : Origin) :
    (Arena.ofSlots o l).Renames f (Arena.ofSlots o l') where
  size := by rw [Arena.size_ofSlots,Arena.size_ofSlots,h.length_eq]
  slot n := by
    obtain ⟨j,to_j,at_j⟩ := h.moved n.index
    rw [Nat.zero_add,Nat.zero_add] at to_j
    rw [show f n = ⟨j⟩ from to_j]
    simpa [Arena.ofSlots] using at_j

end SymbolGraph
