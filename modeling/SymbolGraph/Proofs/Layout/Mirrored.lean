import SymbolGraph.Proofs.Layout

/-! Arenas that differ only in how annotations name their types, and layouts that lead to them. -/
namespace SymbolGraph
namespace Arena

variable {a : Arena} {n c : NodeId} {s : AnnotationShape} {t : TypeReferenceShape}

/-- A node is the type that an annotation names. -/
def IsCallee (a : Arena) (n : NodeId) : Prop :=
  ∃ p s, a.shape? p = some (.annotationEntry s) ∧ s.type = some n

/-- The name that an annotation gives to its type. -/
def calleeName? (a : Arena) (n : NodeId) : Option String :=
  match a.shape? n with
  | some (.annotationEntry s) =>
    match s.type.bind a.shape? with
    | some (.typeReference t) => some t.text
    | _ => none
  | _ => none

/-- Two arenas differ in nothing but the types that annotations name: the names on the one side are the
given ones, and those on the other are the last segments of them, as the annotations have them. -/
structure Mirrors (j k : Arena) (names : List String) : Prop where
  size : j.size = k.size
  parent : ∀ n, j.parent? n = k.parent? n
  location : ∀ n, j.location n = k.location n
  shape : ∀ n, ¬ j.IsCallee n → j.shape? n = k.shape? n
  callee : ∀ p s n, j.shape? p = some (.annotationEntry s) → s.type = some n →
    ∃ name, IsLastSegment '.' name s.shortName ∧ j.shape? n = some (.typeReference ⟨name,[],[]⟩) ∧
      k.shape? n = some (.typeReference ⟨s.shortName,[],[]⟩)
  named : j.nodes.filterMap j.calleeName? = names

theorem calleeName?_of_plain {shape : Option Shape} (h : a.shape? n = shape)
    (plain : ∀ s, shape ≠ some (.annotationEntry s)) : a.calleeName? n = none := by
  rw [calleeName?,h]
  split
  · exact (plain _ rfl).elim
  · rfl

theorem calleeName?_of_annotation (h : a.shape? n = some (.annotationEntry s)) (type : s.type = some c)
    (h' : a.shape? c = some (.typeReference t)) : a.calleeName? n = some t.text := by
  simp only [calleeName?,h,type,Option.bind_some,h']

end Arena

namespace Layout

variable {A B C : Type}

/-- The slot of the type that an annotation names, which stands right behind the annotation. -/
def callee (n : Nat) (path : String) (line : Nat) (text : String) : Slot :=
  ⟨some ⟨n⟩,path,line,some (.typeReference ⟨text,[],[]⟩)⟩

/-- Slots from an id on that differ only where annotations name their types: by given full names on the
one side, and by their last segments on the other. -/
inductive Mirrored : Nat → List String → List Slot → List Slot → Prop
  | nil {n : Nat} : Mirrored n [] [] []
  | node {n : Nat} {names : List String} {slot : Slot} {l r : List Slot}
      (plain : ∀ s, slot.shape ≠ some (.annotationEntry s)) (rest : Mirrored (n+1) names l r) :
      Mirrored n names (slot :: l) (slot :: r)
  | annotationEntry {n : Nat} {name : String} {names : List String} {slot : Slot}
      {arguments : List AnnotationArgument} {l r : List Slot}
      (shape : slot.shape = some (.annotationEntry ⟨lastSegment '.' name,some ⟨n+1⟩,arguments⟩))
      (rest : Mirrored (n+2) names l r) :
      Mirrored n (name :: names) (slot :: callee n slot.path slot.line name :: l)
        (slot :: callee n slot.path slot.line (lastSegment '.' name) :: r)

namespace Mirrored

variable {n i : Nat} {names names' : List String} {l r l' r' : List Slot} {slot : Slot} {s : AnnotationShape}

theorem length_eq (h : Mirrored n names l r) : l.length = r.length := by
  induction h with
  | nil => rfl
  | node _ _ ih => simp [ih]
  | annotationEntry _ _ ih => simp [ih]

theorem append (h : Mirrored n names l r) (h' : Mirrored (n + l.length) names' l' r') :
    Mirrored n (names ++ names') (l ++ l') (r ++ r') := by
  induction h with
  | nil => exact h'
  | node plain _ ih =>
    refine .node plain (ih ?_)
    rwa [List.length_cons,Nat.add_comm _ 1,← Nat.add_assoc] at h'
  | annotationEntry shape _ ih =>
    refine .annotationEntry shape (ih ?_)
    rwa [List.length_cons,List.length_cons,Nat.add_assoc _ 1,Nat.add_comm _ 2,← Nat.add_assoc] at h'

/-- An annotation is the same on both sides, and its type stands behind it under either name. -/
theorem annotation_at (h : Mirrored n names l r) (at_l : l[i]? = some slot)
    (shape : slot.shape = some (.annotationEntry s)) :
    r[i]? = some slot ∧ s.type = some ⟨n+i+1⟩ ∧ ∃ name, IsLastSegment '.' name s.shortName ∧
      l[i+1]? = some (callee (n+i) slot.path slot.line name) ∧
      r[i+1]? = some (callee (n+i) slot.path slot.line s.shortName) := by
  induction h generalizing i with
  | nil => cases at_l
  | @node n names t l r plain rest ih =>
    cases i with
    | zero =>
      obtain rfl := Option.some.inj at_l
      exact (plain s shape).elim
    | succ i =>
      have inner := ih at_l
      rwa [Nat.add_assoc n 1,Nat.add_comm 1] at inner
  | @annotationEntry n name names t arguments l r shape' rest ih =>
    match i with
    | 0 =>
      obtain rfl := Option.some.inj at_l
      obtain rfl := Shape.annotationEntry.inj (Option.some.inj (shape.symm.trans shape'))
      exact ⟨rfl,rfl,name,isLastSegment_lastSegment '.' name,rfl,rfl⟩
    | 1 =>
      obtain rfl := Option.some.inj at_l
      cases shape
    | i+2 =>
      have inner := ih at_l
      rwa [Nat.add_assoc n 2,Nat.add_comm 2] at inner

/-- Any two slots are the same, unless they stand right behind an annotation. -/
theorem slot_at (h : Mirrored n names l r) (i : Nat) :
    l[i]? = r[i]? ∨ ∃ j slot s, i = j + 1 ∧ l[j]? = some slot ∧ slot.shape = some (.annotationEntry s) := by
  induction h generalizing i with
  | nil => exact .inl rfl
  | node _ _ ih =>
    cases i with
    | zero => exact .inl rfl
    | succ i =>
      refine (ih i).imp id ?_
      rintro ⟨j,slot,s,rfl,found⟩
      exact ⟨j+1,slot,s,rfl,found⟩
  | annotationEntry shape _ ih =>
    match i with
    | 0 => exact .inl rfl
    | 1 => exact .inr ⟨0,_,_,rfl,rfl,shape⟩
    | i+2 =>
      refine (ih i).imp id ?_
      rintro ⟨j,slot,s,rfl,found⟩
      exact ⟨j+2,slot,s,rfl,found⟩

/-- All slots stand in the same places. -/
theorem place_at (h : Mirrored n names l r) (i : Nat) :
    l[i]?.map (fun t => (t.parent,t.path,t.line)) = r[i]?.map fun t => (t.parent,t.path,t.line) := by
  rcases h.slot_at i with same | ⟨j,slot,s,rfl,found,shape⟩
  · rw [same]
  · obtain ⟨-,-,name,-,named,named'⟩ := h.annotation_at found shape
    rw [named,named']
    rfl

/-- The types that the annotations of a run of slots name, in order. -/
theorem calleeNames (h : Mirrored n names l r) {a : Arena} (holds : a.Holds n l) :
    (List.range' n l.length).filterMap (fun i => a.calleeName? ⟨i⟩) = names := by
  induction h with
  | nil => rfl
  | node plain _ ih =>
    have none := Arena.calleeName?_of_plain holds.shape_head plain
    rw [List.length_cons,List.range'_succ,List.filterMap_cons,none]
    exact ih holds.tail
  | annotationEntry shape _ ih =>
    have name := Arena.calleeName?_of_annotation (holds.shape_head.trans shape) rfl
      holds.tail.shape_head
    have none := Arena.calleeName?_of_plain holds.tail.shape_head nofun
    rw [List.length_cons,List.length_cons,List.range'_succ,List.range'_succ,List.filterMap_cons,name,
      List.filterMap_cons,none]
    exact congrArg _ (ih holds.tail.tail)

theorem mirrors (h : Mirrored 0 names l r) (o o' : Origin) :
    (Arena.ofSlots o l).Mirrors (Arena.ofSlots o' r) names where
  size := by rw [Arena.size_ofSlots,Arena.size_ofSlots,h.length_eq]
  parent n := by
    have place := h.place_at n.index
    rw [Arena.parent?_ofSlots,Arena.parent?_ofSlots]
    revert place
    cases l[n.index]? <;> cases r[n.index]? <;> simp +contextual
  location n := by
    have place := h.place_at n.index
    rw [Arena.location_ofSlots,Arena.location_ofSlots]
    revert place
    cases l[n.index]? <;> cases r[n.index]? <;> simp +contextual
  shape n plain := by
    rw [Arena.shape?_ofSlots,Arena.shape?_ofSlots]
    rcases h.slot_at n.index with same | ⟨j,slot,s,e,found,shape⟩
    · rw [same]
    · obtain ⟨-,type,-⟩ := h.annotation_at found shape
      refine (plain ⟨⟨j⟩,s,?_,?_⟩).elim
      · simp [Arena.shape?_ofSlots,found,shape]
      · rw [type]
        obtain ⟨n⟩ := n
        simp_all
  callee p s n shape type := by
    rw [Arena.shape?_ofSlots] at shape
    obtain ⟨slot,found,shape⟩ := Option.bind_eq_some_iff.mp shape
    obtain ⟨-,type',name,short,named,named'⟩ := h.annotation_at found shape
    obtain rfl := Option.some.inj (type.symm.trans type')
    rw [Nat.zero_add] at *
    exact ⟨name,short,by simp [Arena.shape?_ofSlots,named,callee],by simp [Arena.shape?_ofSlots,named',callee]⟩
  named := by
    have names := h.calleeNames (Arena.holds_ofSlots o l)
    rw [Arena.nodes,List.filterMap_map,Arena.size_ofSlots,List.range_eq_range']
    exact names

end Mirrored

/-- Layouts that answer the same, with slots that mirror each other for given names of annotations. -/
def Mirrors (x y : Layout A) (names : List String) : Prop :=
  ∀ n, (x n).1 = (y n).1 ∧ Mirrored n names (x n).2 (y n).2

namespace Mirrors

variable {names names' : List String}

theorem pure (b : A) : Mirrors (pure b) (pure b) [] := fun _ => ⟨rfl,.nil⟩

theorem bind {x y : Layout A} {f g : A → Layout B} (hx : Mirrors x y names)
    (hf : ∀ a, Mirrors (f a) (g a) names') : Mirrors (x >>= f) (y >>= g) (names ++ names') := by
  intro n
  obtain ⟨answer,slots⟩ := hx n
  rw [bind_apply,bind_apply,← answer,← slots.length_eq]
  obtain ⟨answer',slots'⟩ := hf (x n).1 (n + (x n).2.length)
  exact ⟨answer',slots.append slots'⟩

theorem done {x y : Layout A} (h : Mirrors x y names) (f : A → B) :
    Mirrors (x >>= fun a => Pure.pure (f a)) (y >>= fun a => Pure.pure (f a)) names := by
  have all := h.bind fun a => .pure (f a)
  rwa [List.append_nil] at all

theorem node (spot : Spot) {shape shape' : Spot → Layout Shape} {kind : NodeKind}
    (hk : ∀ spot n, (shape spot n).1.kind = kind) (plain : kind ≠ .annotationEntry)
    (h : ∀ spot, Mirrors (shape spot) (shape' spot) names) :
    Mirrors (node spot shape) (node spot shape') names := by
  intro n
  obtain ⟨answer,slots⟩ := h (spot.below ⟨n⟩) (n+1)
  have below : Mirrored n names (⟨spot.parent,spot.path,spot.line,some (shape (spot.below ⟨n⟩) (n+1)).1⟩ :: _)
      (⟨spot.parent,spot.path,spot.line,some (shape (spot.below ⟨n⟩) (n+1)).1⟩ :: _) :=
    .node (fun s e => plain ((hk _ _).symm.trans (congrArg Shape.kind (Option.some.inj e)))) slots
  refine ⟨rfl,?_⟩
  rw [Layout.node,Layout.node]
  dsimp only
  rwa [← answer]

theorem annotationEntry (spot : Spot) (name : String) (arguments : List AnnotationArgument) :
    Mirrors (annotationEntry spot (lastSegment '.' name) name arguments)
      (annotationEntry spot (lastSegment '.' name) (lastSegment '.' name) arguments) [name] :=
  fun _ => ⟨rfl,.annotationEntry rfl .nil⟩

theorem cons {x y : Layout B} {xs ys : Layout (List B)} (h : Mirrors x y names)
    (h' : Mirrors xs ys names') :
    Mirrors (do let b ← x; let bs ← xs; return b :: bs) (do let b ← y; let bs ← ys; return b :: bs)
      (names ++ names') := h.bind fun b => h'.done (b :: ·)

theorem each {f : A → Layout B} {g : C → Layout B} {t : A → C} {names : A → List String}
    (h : ∀ a, Mirrors (f a) (g (t a)) (names a)) (l : List A) :
    Mirrors (each f l) (each g (l.map t)) (l.flatMap names) := by
  induction l with
  | nil => exact .pure _
  | cons a l ih => exact (h a).cons ih

theorem option {f : A → Layout B} {g : C → Layout B} {t : A → C} {names : A → List String}
    (h : ∀ a, Mirrors (f a) (g (t a)) (names a)) (o : Option A) :
    Mirrors (option f o) (option g (o.map t)) (o.toList.flatMap names) := by
  cases o with
  | none => exact .pure _
  | some a =>
    rw [Option.map_some,Layout.option,Layout.option,map_eq_pure_bind,map_eq_pure_bind,Option.toList,
      List.flatMap_singleton]
    exact (h a).done some

end Mirrors

end Layout
end SymbolGraph
