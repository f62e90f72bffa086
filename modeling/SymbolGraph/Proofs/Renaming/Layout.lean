import Mathlib.Data.List.Basic
import Mathlib.Logic.Equiv.Defs
import SymbolGraph.Java.Flatten
import SymbolGraph.Kotlin.Flatten
import SymbolGraph.Proofs.Layout

/-! Nodes under other numbers. A layout that starts elsewhere fills the same slots under other numbers, so that
files that are laid out in another order give the same slots, renamed and rearranged. -/
namespace SymbolGraph

/-- The shape of a function where nodes have other numbers. -/
def FunctionShape.rename (f : NodeId → NodeId) (s : FunctionShape) : FunctionShape := { s with
  annotations := s.annotations.map f, typeParameters := s.typeParameters.map f, receiver := s.receiver.map f,
  parameters := s.parameters.map f, returnType := s.returnType.map f,
  localDeclarations := s.localDeclarations.map f }

/-- The shape of a node where nodes have other numbers. -/
def Shape.rename (f : NodeId → NodeId) : Shape → Shape
  | .file s => .file { s with annotations := s.annotations.map f, declarations := s.declarations.map f }
  | .classLike s => .classLike { s with
      annotations := s.annotations.map f, typeParameters := s.typeParameters.map f,
      superTypes := s.superTypes.map f, declarations := s.declarations.map f }
  | .function s => .function (s.rename f)
  | .property s => .property { s with
      annotations := s.annotations.map f, typeParameters := s.typeParameters.map f, receiver := s.receiver.map f,
      typeReference := s.typeReference.map f }
  | .typeAlias s => .typeAlias { s with
      annotations := s.annotations.map f, typeParameters := s.typeParameters.map f, target := f s.target }
  | .typeParameter s => .typeParameter { s with bounds := s.bounds.map f }
  | .valueParameter s => .valueParameter { s with
      annotations := s.annotations.map f, typeReference := s.typeReference.map f }
  | .typeReference s => .typeReference { s with
      annotations := s.annotations.map f, arguments := s.arguments.map f }
  | .annotationEntry s => .annotationEntry { s with type := s.type.map f }

namespace Shape

variable (f g : NodeId → NodeId) (s : Shape)

theorem rename_id : s.rename id = s := by
  cases s <;> simp [rename,FunctionShape.rename]

theorem rename_rename : (s.rename f).rename g = s.rename (g ∘ f) := by
  cases s <;> simp [rename,FunctionShape.rename]

@[simp] theorem kind_rename : (s.rename f).kind = s.kind := by cases s <;> rfl

@[simp] theorem declaredName?_rename : (s.rename f).declaredName? = s.declaredName? := by cases s <;> rfl

@[simp] theorem typeParameters_rename : (s.rename f).typeParameters = s.typeParameters.map f := by cases s <;> rfl

end Shape

/-- A slot where nodes have other numbers. -/
def Slot.rename (f : NodeId → NodeId) (s : Slot) : Slot :=
  { s with parent := s.parent.map f, shape := s.shape.map (Shape.rename f) }

theorem Slot.rename_id (s : Slot) : s.rename id = s := by
  have shapes : Shape.rename id = id := funext Shape.rename_id
  rw [rename,shapes,Option.map_id,Option.map_id,id,id]

theorem Slot.rename_rename (f g : NodeId → NodeId) (s : Slot) : (s.rename f).rename g = s.rename (g ∘ f) := by
  have shapes : Shape.rename g ∘ Shape.rename f = Shape.rename (g ∘ f) := funext (Shape.rename_rename f g)
  simp only [rename,Option.map_map,shapes]

namespace Layout

variable {A B : Type} {f : NodeId → NodeId}

def Spot.rename (f : NodeId → NodeId) (s : Spot) : Spot := { s with parent := s.parent.map f }

/-- From where `f` takes the numbers of one layout, another one answers and fills its slots like the first one,
but under the other numbers. -/
def Moves (f : NodeId → NodeId) (rename : A → A) (x y : Layout A) : Prop :=
  ∀ n m, (∀ i < (x n).2.length, f ⟨n+i⟩ = ⟨m+i⟩) → y m = (rename (x n).1,(x n).2.map (Slot.rename f))

namespace Moves

variable {r : A → A} {q : B → B}

theorem pure {a b : A} (h : b = r a) : Moves f r (pure a) (pure b) := fun _ _ _ => by rw [h]; rfl

theorem bind {x y : Layout A} {k l : A → Layout B} (hx : Moves f r x y) (hk : ∀ a, Moves f q (k a) (l (r a))) :
    Moves f q (x >>= k) (y >>= l) := by
  intro n m takes
  rw [bind_apply] at takes ⊢
  rw [List.length_append] at takes
  have first := hx n m fun i hi => takes i (by omega)
  have rest := hk (x n).1 (n + (x n).2.length) (m + (x n).2.length) fun i hi => by
    rw [Nat.add_assoc,Nat.add_assoc]
    exact takes _ (by omega)
  rw [bind_apply,first,List.length_map,rest,List.map_append]

theorem done {x y : Layout A} {k l : A → B} (hx : Moves f r x y) (h : ∀ a, l (r a) = q (k a)) :
    Moves f q (x >>= fun a => Pure.pure (k a)) (y >>= fun a => Pure.pure (l a)) := hx.bind fun a => .pure (h a)

theorem cons {x y : Layout A} {xs ys : Layout (List A)} (h : Moves f r x y) (h' : Moves f (List.map r) xs ys) :
    Moves f (List.map r) (do let a ← x; let as ← xs; return a :: as) (do let a ← y; let as ← ys; return a :: as) :=
  h.bind fun _ => h'.done fun _ => rfl

theorem each {C : Type} {k l : C → Layout A} (h : ∀ c, Moves f r (k c) (l c)) (cs : List C) :
    Moves f (List.map r) (each k cs) (each l cs) := by
  induction cs with
  | nil => exact .pure rfl
  | cons c cs ih => exact (h c).cons ih

theorem option {C : Type} {k l : C → Layout A} (h : ∀ c, Moves f r (k c) (l c)) (o : Option C) :
    Moves f (Option.map r) (option k o) (option l o) := by
  cases o with
  | none => exact .pure rfl
  | some c =>
    rw [Layout.option,Layout.option,map_eq_pure_bind,map_eq_pure_bind]
    exact (h c).done fun _ => rfl

theorem node (spot : Spot) {k : Spot → Layout Shape}
    (h : ∀ spot, Moves f (Shape.rename f) (k spot) (k (spot.rename f))) :
    Moves f f (node spot k) (node (spot.rename f) k) := by
  intro n m takes
  have own : f ⟨n⟩ = ⟨m⟩ := takes 0 (Nat.succ_pos _)
  have below : (spot.rename f).below ⟨m⟩ = (spot.below ⟨n⟩).rename f := by rw [← own]; rfl
  have rest := h (spot.below ⟨n⟩) (n+1) (m+1) fun i hi => by
    have inner := takes (i+1) (Nat.succ_lt_succ hi)
    rwa [Nat.add_comm i,← Nat.add_assoc,← Nat.add_assoc] at inner
  rw [Layout.node,Layout.node]
  dsimp only
  rw [below,rest,own,List.map_cons]
  rfl

end Moves

theorem annotationEntry_moves (spot : Spot) (shortName callee : String) (arguments : List AnnotationArgument) :
    Moves f f (annotationEntry spot shortName callee arguments)
      (annotationEntry (spot.rename f) shortName callee arguments) :=
  .node _ fun _ => Moves.done (.node _ fun _ => .pure rfl) fun _ => rfl

end Layout

/-! ### Kotlin files -/

namespace Kotlin

open Layout (Spot Moves)

variable {f : NodeId → NodeId} (spot : Spot)

theorem annotations_move (as : List AnnotationEntry) :
    Moves f (List.map f) (annotationsLayout spot as) (annotationsLayout (spot.rename f) as) :=
  .each (fun _ => Layout.annotationEntry_moves _ _ _ _) as

mutual
theorem TypeReference.moves (spot : Spot) : (t : TypeReference) →
    Moves f f (t.layout spot) (t.layout (spot.rename f))
  | ⟨_,annotations,arguments⟩ => by
    rw [TypeReference.layout,TypeReference.layout]
    exact .node _ fun spot => (annotations_move spot annotations).bind fun _ =>
      (typeReferences_move spot arguments).done fun _ => rfl
theorem typeReferences_move (spot : Spot) : (ts : List TypeReference) →
    Moves f (List.map f) (typeReferencesLayout spot ts) (typeReferencesLayout (spot.rename f) ts)
  | [] => by
    rw [typeReferencesLayout,typeReferencesLayout]
    exact .pure rfl
  | t :: ts => by
    rw [typeReferencesLayout,typeReferencesLayout]
    exact (t.moves spot).cons (typeReferences_move spot ts)
end

theorem typeReference_moves (t : Option TypeReference) :
    Moves f (Option.map f) (Layout.option (TypeReference.layout spot) t)
      (Layout.option (TypeReference.layout (spot.rename f)) t) := .option (TypeReference.moves spot) t

theorem TypeParameter.moves (t : TypeParameter) : Moves f f (t.layout spot) (t.layout (spot.rename f)) :=
  .node _ fun spot => (typeReferences_move spot t.bounds).done fun _ => rfl

theorem typeParameters_move (ts : List TypeParameter) :
    Moves f (List.map f) (typeParametersLayout spot ts) (typeParametersLayout (spot.rename f) ts) :=
  .each (TypeParameter.moves spot) ts

theorem Parameter.moves (p : Parameter) : Moves f f (p.layout spot) (p.layout (spot.rename f)) :=
  .node _ fun spot => (annotations_move spot p.annotations).bind fun _ =>
    (typeReference_moves spot p.typeReference).done fun _ => rfl

theorem PropertyDecl.moves (p : PropertyDecl) : Moves f f (p.layout spot) (p.layout (spot.rename f)) :=
  Moves.node (spot.onLine p.line) fun spot => (annotations_move spot p.annotations).bind fun _ =>
    (typeParameters_move spot p.typeParameters).bind fun _ =>
    (typeReference_moves spot p.receiver).bind fun _ => (typeReference_moves spot p.typeReference).done fun _ => rfl

theorem TypeAliasDecl.moves (a : TypeAliasDecl) : Moves f f (a.layout spot) (a.layout (spot.rename f)) :=
  Moves.node (spot.onLine a.line) fun spot => (annotations_move spot a.annotations).bind fun _ =>
    (typeParameters_move spot a.typeParameters).bind fun _ => (a.target.moves spot).done fun _ => rfl

mutual
theorem Declaration.moves (spot : Spot) : (d : Declaration) →
    Moves f f (d.layout spot) (d.layout (spot.rename f))
  | .classLike c => by rw [Declaration.layout,Declaration.layout]; exact c.moves spot
  | .function g => by rw [Declaration.layout,Declaration.layout]; exact g.moves spot
  | .property p => by rw [Declaration.layout,Declaration.layout]; exact p.moves spot
  | .typeAlias a => by rw [Declaration.layout,Declaration.layout]; exact a.moves spot
theorem ClassDecl.moves (spot : Spot) : (c : ClassDecl) → Moves f f (c.layout spot) (c.layout (spot.rename f))
  | ⟨_,_,_,annotations,typeParameters,superTypes,body,line⟩ => by
    rw [ClassDecl.layout,ClassDecl.layout]
    exact Moves.node (spot.onLine line) fun spot => (annotations_move spot annotations).bind fun _ =>
      (typeParameters_move spot typeParameters).bind fun _ =>
      (typeReferences_move spot superTypes).bind fun _ => (declarations_move spot body).done fun _ => rfl
theorem FunctionDecl.moves (spot : Spot) : (g : FunctionDecl) →
    Moves f f (g.layout spot) (g.layout (spot.rename f))
  | ⟨_,_,_,annotations,typeParameters,receiver,parameters,returnType,body,line⟩ => by
    rw [FunctionDecl.layout,FunctionDecl.layout]
    exact Moves.node (spot.onLine line) fun spot => (annotations_move spot annotations).bind fun _ =>
      (typeParameters_move spot typeParameters).bind fun _ =>
      (typeReference_moves spot receiver).bind fun _ =>
      (Moves.each (Parameter.moves spot) parameters).bind fun _ =>
      (typeReference_moves spot returnType).bind fun _ => (body_moves spot body).done fun _ => rfl
theorem body_moves (spot : Spot) : (b : Option Body) →
    Moves f (List.map f) (bodyLayout spot b) (bodyLayout (spot.rename f) b)
  | none => by rw [bodyLayout,bodyLayout]; exact .pure rfl
  | some b => by rw [bodyLayout,bodyLayout]; exact b.moves spot
theorem Body.moves (spot : Spot) : (b : Body) →
    Moves f (List.map f) (b.layout spot) (b.layout (spot.rename f))
  | ⟨block,statements⟩ => by
    rw [Body.layout,Body.layout]
    cases block with
    | false => exact .pure rfl
    | true => exact declarations_move spot statements
theorem declarations_move (spot : Spot) : (ds : List Declaration) →
    Moves f (List.map f) (declarationsLayout spot ds) (declarationsLayout (spot.rename f) ds)
  | [] => by rw [declarationsLayout,declarationsLayout]; exact .pure rfl
  | d :: ds => by
    rw [declarationsLayout,declarationsLayout]
    exact (d.moves spot).cons (declarations_move spot ds)
end

/-- A file has no parent that could have another number. -/
theorem File.moves (file : File) : Moves f f file.layout file.layout :=
  Moves.node ⟨file.name,1,none⟩ fun spot => (annotations_move spot file.annotations).bind fun _ =>
    (declarations_move spot file.declarations).done fun _ => rfl

end Kotlin

/-! ### Java files -/

namespace Java

open Layout (Spot Moves)

variable {f : NodeId → NodeId} (spot : Spot)

theorem annotations_move (as : List AnnotationUse) :
    Moves f (List.map f) (annotationsLayout spot as) (annotationsLayout (spot.rename f) as) :=
  .each (fun _ => Layout.annotationEntry_moves _ _ _ _) as

mutual
theorem TypeUse.moves (spot : Spot) : (t : TypeUse) → Moves f f (t.layout spot) (t.layout (spot.rename f))
  | ⟨_,annotations,arguments⟩ => by
    rw [TypeUse.layout,TypeUse.layout]
    exact .node _ fun spot => (annotations_move spot annotations).bind fun _ =>
      (types_move spot arguments).done fun _ => rfl
theorem types_move (spot : Spot) : (ts : List TypeUse) →
    Moves f (List.map f) (typesLayout spot ts) (typesLayout (spot.rename f) ts)
  | [] => by
    rw [typesLayout,typesLayout]
    exact .pure rfl
  | t :: ts => by
    rw [typesLayout,typesLayout]
    exact (t.moves spot).cons (types_move spot ts)
end

theorem TypeParameter.moves (t : TypeParameter) : Moves f f (t.layout spot) (t.layout (spot.rename f)) :=
  .node _ fun spot => (types_move spot t.bounds).done fun _ => rfl

theorem typeParameters_move (ts : List TypeParameter) :
    Moves f (List.map f) (typeParametersLayout spot ts) (typeParametersLayout (spot.rename f) ts) :=
  .each (TypeParameter.moves spot) ts

theorem Parameter.moves (p : Parameter) : Moves f f (p.layout spot) (p.layout (spot.rename f)) :=
  .node _ fun spot => (annotations_move spot p.annotations).bind fun _ => (p.type.moves spot).done fun _ => rfl

theorem Method.moves (m : Method) : Moves f f (m.layout spot) (m.layout (spot.rename f)) :=
  Moves.node (spot.onLine m.line) fun spot => (annotations_move spot m.annotations).bind fun _ =>
    (typeParameters_move spot m.typeParameters).bind fun _ =>
    (Moves.each (Parameter.moves spot) m.parameters).bind fun _ =>
    (Moves.option (TypeUse.moves spot) m.returnType).done fun _ => rfl

theorem Field.moves (g : Field) : Moves f f (g.layout spot) (g.layout (spot.rename f)) :=
  Moves.node (spot.onLine g.line) fun spot => (annotations_move spot g.annotations).bind fun _ =>
    (g.type.moves spot).done fun _ => rfl

mutual
theorem ClassDecl.moves (spot : Spot) : (c : ClassDecl) → Moves f f (c.layout spot) (c.layout (spot.rename f))
  | ⟨_,_,_,annotations,typeParameters,superclasses,interfaces,members,line⟩ => by
    rw [ClassDecl.layout,ClassDecl.layout]
    exact Moves.node (spot.onLine line) fun spot => (annotations_move spot annotations).bind fun _ =>
      (typeParameters_move spot typeParameters).bind fun _ =>
      (types_move spot (superclasses ++ interfaces)).bind fun _ => (members_move spot members).done fun _ => rfl
theorem Member.moves (spot : Spot) : (m : Member) → Moves f f (m.layout spot) (m.layout (spot.rename f))
  | .method m => by rw [Member.layout,Member.layout]; exact m.moves spot
  | .field g => by rw [Member.layout,Member.layout]; exact g.moves spot
  | .classLike c => by rw [Member.layout,Member.layout]; exact c.moves spot
theorem members_move (spot : Spot) : (ms : List Member) →
    Moves f (List.map f) (membersLayout spot ms) (membersLayout (spot.rename f) ms)
  | [] => by rw [membersLayout,membersLayout]; exact .pure rfl
  | m :: ms => by
    rw [membersLayout,membersLayout]
    exact (m.moves spot).cons (members_move spot ms)
end

theorem File.moves (file : File) : Moves f f file.layout file.layout :=
  Moves.node ⟨file.name,1,none⟩ fun spot =>
    (Moves.each (ClassDecl.moves spot) file.classes).done fun _ => rfl

end Java
end SymbolGraph
