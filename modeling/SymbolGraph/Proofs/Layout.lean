import SymbolGraph.Layout
import SymbolGraph.Proofs.Forest

/-! What layouts take up in an arena are forests. A layout is described by the places of the nodes that
it answers with, and parts that follow one another by all places so far. -/
namespace SymbolGraph

/-- An arena has given slots from an id on. -/
def Arena.Holds (a : Arena) (n : Nat) (l : List Slot) : Prop :=
  ∀ i slot, l[i]? = some slot → a.slots[n+i]? = some slot

namespace Arena

variable {a : Arena} {n : Nat} {slot : Slot} {l r : List Slot}

theorem holds_ofSlots (o : Origin) (l : List Slot) : (ofSlots o l).Holds 0 l := by
  intro i slot h
  simpa [ofSlots] using h

theorem Holds.head (h : a.Holds n (slot :: l)) : a.slots[n]? = some slot := h 0 slot rfl

theorem Holds.shape_head (h : a.Holds n (slot :: l)) : a.shape? ⟨n⟩ = slot.shape := by
  rw [shape?,h.head,Option.bind_some]

theorem Holds.tail (h : a.Holds n (slot :: l)) : a.Holds (n+1) l := by
  intro i s hs
  rw [Nat.add_assoc,Nat.add_comm 1]
  exact h (i+1) s hs

theorem Holds.left (h : a.Holds n (l ++ r)) : a.Holds n l := by
  intro i s hs
  obtain ⟨lt,-⟩ := List.getElem?_eq_some_iff.mp hs
  exact h i s ((List.getElem?_append_left lt).trans hs)

theorem Holds.right (h : a.Holds n (l ++ r)) : a.Holds (n + l.length) r := by
  intro i s hs
  rw [Nat.add_assoc]
  refine h (l.length + i) s ((List.getElem?_append_right (Nat.le_add_right _ _)).trans ?_)
  rwa [Nat.add_sub_cancel_left]

end Arena

namespace Layout

variable {A B : Type} {p : Option NodeId} {before : List (NodeId × Place)}

theorem pure_apply (b : A) (n : Nat) : (pure b : Layout A) n = (b,[]) := rfl

theorem bind_apply (x : Layout A) (f : A → Layout B) (n : Nat) :
    (x >>= f) n = ((f (x n).1 (n + (x n).2.length)).1,(x n).2 ++ (f (x n).1 (n + (x n).2.length)).2) := rfl

theorem each_map {C : Type} (f : B → Layout C) (g : A → B) (l : List A) :
    each f (l.map g) = each (fun a => f (g a)) l := by
  induction l with
  | nil => rfl
  | cons a l ih => rw [List.map_cons,each,each,ih]

/-- A layout lays trees below a parent, whose roots have the places of its answer. -/
def Lays (x : Layout A) (p : Option NodeId) (places : A → List (NodeId × Place)) : Prop :=
  ∀ (a : Arena) n, a.Holds n (x n).2 → Forest a p n (places (x n).1) (n + (x n).2.length)

/-- A layout that comes after trees below the same parent answers with all the trees. -/
def Continues (x : Layout A) (p : Option NodeId) (before : List (NodeId × Place))
    (places : A → List (NodeId × Place)) : Prop :=
  ∀ (a : Arena) n m, Forest a p n before m → a.Holds m (x m).2 →
    Forest a p n (places (x m).1) (m + (x m).2.length)

namespace Continues

variable {P : A → List (NodeId × Place)} {Q : B → List (NodeId × Place)}

theorem done {b : B} (h : Q b = before) : Continues (pure b) p before Q :=
  fun _ _ _ hb _ => by rw [pure_apply,h]; exact hb

theorem lays {x : Layout A} (h : Continues x p [] P) : Lays x p P := fun a n => h a n n .nil

end Continues

variable {P : A → List (NodeId × Place)} {Q : B → List (NodeId × Place)}

theorem Lays.seq {x : Layout A} {f : A → Layout B} (h : Lays x p P)
    (hf : ∀ b, Continues (f b) p (before ++ P b) Q) : Continues (x >>= f) p before Q := by
  intro a n m hb holds
  rw [bind_apply] at holds ⊢
  have mine := h a m holds.left
  have rest := hf _ a n _ (hb.append mine) holds.right
  simpa [Nat.add_assoc] using rest

theorem Lays.map {x : Layout A} {f : A → B} (h : Lays x p P) (hf : ∀ b, Q (f b) = P b) :
    Lays (f <$> x) p Q := by
  have after : Continues (x >>= fun b => pure (f b)) p [] Q := h.seq fun b => .done (hf b)
  rw [map_eq_pure_bind]
  exact after.lays

theorem Lays.nothing {b : B} (h : Q b = []) : Lays (pure b) p Q := Continues.lays (.done h)

theorem Lays.cons {x : Layout NodeId} {y : Layout (List NodeId)} {place : Place}
    (h : Lays x p fun n => place.on [n]) (h' : Lays y p place.on) :
    Lays (do let n ← x; let ns ← y; return n :: ns) p place.on :=
  Continues.lays (h.seq fun n => h'.seq fun ns => .done (by simp [Place.on]))

/-- A node stands in its place if its shape is of a kind for it and lists all that is laid below. -/
theorem Lays.node (spot : Spot) {shape : Spot → Layout Shape} {place : Place} {kind : NodeKind}
    (admitted : place.admits kind) (hk : ∀ spot n, (shape spot n).1.kind = kind)
    (h : ∀ spot, Continues (shape spot) spot.parent [] Shape.places) :
    Lays (Layout.node spot shape) spot.parent fun n => place.on [n] := by
  intro a n holds
  have below := (h (spot.below ⟨n⟩)).lays a (n+1) holds.tail
  have slot := holds.head
  refine .cons (m := n + 1 + (shape (spot.below ⟨n⟩) (n+1)).2.length) ?_ ?_ ?_ below ?_
  · simp [Arena.parent?,slot]
  · exact holds.shape_head
  · rwa [hk]
  · have last : n + (Layout.node spot shape n).2.length =
        n + 1 + (shape (spot.below ⟨n⟩) (n+1)).2.length := by
      show n + (_ + 1) = _
      omega
    rw [last]
    exact .nil

theorem Lays.each {f : A → Layout NodeId} {place : Place} {l : List A}
    (h : ∀ b ∈ l, Lays (f b) p fun n => place.on [n]) : Lays (Layout.each f l) p place.on := by
  induction l with
  | nil => exact .nothing rfl
  | cons b l ih =>
    obtain ⟨hb,hl⟩ := List.forall_mem_cons.mp h
    exact hb.cons (ih hl)

theorem Lays.option {f : A → Layout NodeId} {place : Place} {o : Option A}
    (h : ∀ b, o = some b → Lays (f b) p fun n => place.on [n]) :
    Lays (Layout.option f o) p fun n => place.on n.toList := by
  cases o with
  | none => exact .nothing rfl
  | some b => exact (h b rfl).map fun _ => rfl

theorem annotationEntry_lays (spot : Spot) (shortName callee : String) (arguments : List AnnotationArgument) :
    Lays (annotationEntry spot shortName callee arguments) spot.parent fun n => Place.annotationEntry.on [n] :=
  .node _ rfl (fun _ _ => rfl) fun spot =>
    have callee : Lays (node spot fun _ => pure (.typeReference ⟨callee,[],[]⟩)) spot.parent
        fun n => Place.reference.on [n] := .node _ rfl (fun _ _ => rfl) fun _ => .done rfl
    callee.seq fun _ => .done rfl

theorem Lays.forest {x : Layout A} {P : A → List (NodeId × Place)} (h : Lays x none P) (o : Origin) :
    Forest (Arena.ofSlots o x.slots) none 0 (P (x 0).1) (Arena.ofSlots o x.slots).size := by
  have forest := h (Arena.ofSlots o x.slots) 0 (Arena.holds_ofSlots o _)
  rwa [Nat.zero_add,← slots,← Arena.size_ofSlots o] at forest

/-- The arena of files is well-formed. -/
theorem Lays.wellFormed {x : Layout (List NodeId)} (h : Lays x none Place.root.on) (o : Origin) :
    (Arena.ofSlots o x.slots).WellFormed := by
  refine (h.forest o).wellFormed fun c hc => ?_
  obtain ⟨_,-,rfl⟩ := List.mem_map.mp hc
  rfl

end Layout
end SymbolGraph
