import SymbolGraph.Proofs.Layout

/-! Layouts can be read back. What a layout takes up is cut off unambiguously from the slots that follow
it, and tells the tree that was laid out as far as two trees can be told apart. -/
namespace SymbolGraph
namespace Layout

variable {A B : Type} {P Q : Prop}

/-- If two layouts answer the same, and their slots begin the same list, then they take the same slots,
and what they lay out is the same in the sense of `P`. -/
def Alike (x y : Layout A) (P : Prop) : Prop :=
  ∀ n r r', (x n).1 = (y n).1 → (x n).2 ++ r = (y n).2 ++ r' → (x n).2 = (y n).2 ∧ P

namespace Alike

theorem pure {b c : A} (h : b = c → P) : Alike (pure b) (pure c) P := fun _ _ _ answer _ => ⟨rfl,h answer⟩

theorem absurd {x y : Layout A} (h : ∀ n, (x n).1 ≠ (y n).1) : Alike x y P :=
  fun n _ _ answer _ => (h n answer).elim

theorem imp {x y : Layout A} (h : Alike x y P) (hpq : P → Q) : Alike x y Q := fun n r r' answer slots =>
  (h n r r' answer slots).imp_right hpq

theorem symm {x y : Layout A} (h : Alike x y P) : Alike y x P := fun n r r' answer slots =>
  (h n r' r answer.symm slots.symm).imp_left Eq.symm

/-- Parts in a row are read one by one if the last answer shows those before it. -/
theorem seq {x y : Layout A} {f g : A → Layout B} (hx : Alike x y P)
    (shows : ∀ a b m k, (f a m).1 = (g b k).1 → a = b) (hf : P → ∀ a, Alike (f a) (g a) Q) :
    Alike (x >>= f) (y >>= g) Q := by
  intro n r r' answer slots
  rw [bind_apply,bind_apply] at answer slots
  rw [bind_apply,bind_apply]
  have first := shows _ _ _ _ answer
  dsimp only at slots ⊢
  rw [List.append_assoc,List.append_assoc] at slots
  obtain ⟨taken,p⟩ := hx n _ _ first slots
  rw [← first,← taken] at answer slots ⊢
  obtain ⟨taken',q⟩ := hf p _ _ _ _ answer (List.append_cancel_left slots)
  exact ⟨congrArg _ taken',q⟩

theorem cons {x y : Layout B} {xs ys : Layout (List B)} (hx : Alike x y P) (hxs : Alike xs ys Q) :
    Alike (do let b ← x; let bs ← xs; return b :: bs) (do let b ← y; let bs ← ys; return b :: bs)
      (P ∧ Q) :=
  hx.seq (fun _ _ _ _ h => (List.cons.inj h).1) fun p _ =>
    hxs.seq (fun _ _ _ _ h => (List.cons.inj h).2) fun q _ => .pure fun _ => ⟨p,q⟩

/-- The first slot of a node tells where it stands, and what its parts answer. -/
theorem node {spot spot' : Spot} {shape shape' : Spot → Layout Shape}
    (h : spot = spot' → ∀ spot, Alike (shape spot) (shape' spot) P) :
    Alike (node spot shape) (node spot' shape') P := by
  intro n r r' _ slots
  obtain ⟨head,below⟩ := List.cons.inj slots
  obtain ⟨parent,path,line,answer⟩ := Slot.mk.inj head
  have same : spot = spot' := by cases spot; cases spot'; simp_all
  subst same
  obtain ⟨taken,p⟩ := h rfl _ _ _ _ (Option.some.inj answer) below
  refine ⟨?_,p⟩
  show _ :: _ = _ :: _
  rw [head,taken]

theorem each {E : Type} {f : A → Layout B} {e : A → E} (h : ∀ a b, Alike (f a) (f b) (e a = e b))
    (l m : List A) : Alike (each f l) (each f m) (l.map e = m.map e) := by
  induction l generalizing m with
  | nil =>
    cases m with
    | nil => exact .pure fun _ => rfl
    | cons b m => exact .absurd fun _ => nofun
  | cons a l ih =>
    cases m with
    | nil => exact .absurd fun _ => nofun
    | cons b m =>
      intro n r r' answer slots
      obtain ⟨taken,head,tail⟩ := (h a b).cons (ih m) n r r' answer slots
      exact ⟨taken,by rw [List.map_cons,List.map_cons,head,tail]⟩

theorem option {E : Type} {f : A → Layout B} {e : A → E} (h : ∀ a b, Alike (f a) (f b) (e a = e b))
    (o p : Option A) : Alike (option f o) (option f p) (o.map e = p.map e) := by
  cases o <;> cases p
  case none.none => exact .pure fun _ => rfl
  case none.some => exact .absurd fun _ => nofun
  case some.none => exact .absurd fun _ => nofun
  case some.some a b =>
    rw [Layout.option,Layout.option,map_eq_pure_bind,map_eq_pure_bind]
    exact (h a b).seq (fun _ _ _ _ h => Option.some.inj h) fun same _ => .pure fun _ => congrArg some same

end Alike

/-- The first slot of a layout is a node of a given kind. -/
def Opens (x : Layout A) (k : NodeKind) : Prop :=
  ∀ n, ((x n).2.head?.bind (·.shape)).map (·.kind) = some k

theorem Opens.node (spot : Spot) {shape : Spot → Layout Shape} {k : NodeKind}
    (hk : ∀ spot n, (shape spot n).1.kind = k) : Opens (node spot shape) k :=
  fun _ => congrArg some (hk _ _)

/-- Nodes of different kinds are told apart by their first slots. -/
theorem Alike.of_opens {x y : Layout A} {k k' : NodeKind} (hx : Opens x k) (hy : Opens y k')
    (ne : k ≠ k') : Alike x y P := by
  intro n r r' _ slots
  have hx := hx n
  have hy := hy n
  revert hx hy slots
  cases (x n).2 with
  | nil => exact fun _ => nofun
  | cons s l =>
    cases (y n).2 with
    | nil => exact fun _ _ => nofun
    | cons t m =>
      intro slots hx hy
      obtain rfl := (List.cons.inj slots).1
      exact (ne (Option.some.inj (hx.symm.trans hy))).elim

/-- Trees that are laid out one after the other are read back one by one. -/
theorem Alike.of_slots_each {E : Type} {f : A → Layout NodeId} {e : A → E}
    (h : ∀ a b, Alike (f a) (f b) (e a = e b)) (node : ∀ a n, (f a n).1 = ⟨n⟩)
    (some : ∀ a n, (f a n).2 ≠ []) (l m : List A) (n : Nat)
    (slots : (Layout.each f l n).2 = (Layout.each f m n).2) : l.map e = m.map e := by
  induction l generalizing m n with
  | nil =>
    cases m with
    | nil => rfl
    | cons b m => exact (some b n (List.append_eq_nil_iff.mp slots.symm).1).elim
  | cons a l ih =>
    cases m with
    | nil => exact (some a n (List.append_eq_nil_iff.mp slots).1).elim
    | cons b m =>
      obtain ⟨taken,head⟩ := h a b n _ _ ((node a n).trans (node b n).symm) slots
      have tail : (Layout.each f l (n + (f a n).2.length)).2 ++ [] =
          (Layout.each f m (n + (f b n).2.length)).2 ++ [] :=
        List.append_cancel_left (slots.trans (congrArg (· ++ _) taken.symm))
      rw [← taken,List.append_nil,List.append_nil] at tail
      rw [List.map_cons,List.map_cons,head,ih m _ tail]

end Layout
end SymbolGraph
