import SymbolGraph.Session.Overriding
import SymbolGraph.Session.Types

/-! Sessions without a memory. A direct computation asks of the sources and of the oracle what a session
asks, but it gives out no ids and computes every attribute anew. -/
namespace SymbolGraph

/-- What a view shows of its symbol, but for the id. -/
structure Sight (S : Type) where
  key : SymbolKey
  origin : Origin
  location : Location
  shape : S
  deriving DecidableEq

def View.sight {S : Type} (v : View S) : Sight S :=
  ⟨v.header.key,v.header.origin,v.header.location,v.shape⟩

abbrev Direct (A : Type) := ReaderT Environment (Except Error) A

namespace Sight

variable {S : Type}

def anchor (v : Sight S) : NodeKey := v.key.anchor

def near (v : Sight S) (n : NodeId) : NodeKey := v.anchor.sibling n

variable [Viewed S]

def toNode (v : Sight S) : Sight Form := { v with shape := Viewed.form v.shape }

def as? (T : Type) [Viewed T] (v : Sight S) : Option (Sight T) :=
  (Viewed.ofForm? (Viewed.form v.shape)).map fun t => { v with shape := t }

def toDeclaration {S : Type} [Declares S] (v : Sight S) : Sight DeclaredForm :=
  { v with shape := Declares.declared v.shape }

end Sight

namespace Direct

variable {A : Type}

def fail (e : Error) : Direct A := throw e

def orFail (e : Error) : Option A → Direct A
  | some a => pure a
  | none => fail e

/-! ### Sources and oracle -/

def model (s : SourceId) : Direct Arena := do orFail (.unknownSource s) ((← read).models.arena? s)

def rawShape (k : NodeKey) : Direct Shape := do orFail (.unknownNode k) ((← model k.source).shape? k.node)

def rawParent? (k : NodeKey) : Direct (Option NodeKey) := do
  return ((← model k.source).parent? k.node).map k.sibling

def rawAncestors (k : NodeKey) : Direct (List NodeKey) := do
  return ((← model k.source).ancestors k.node).map k.sibling

def ask (answer : Oracle → A) : Direct A := return answer (← read).oracle

def descriptor (k : NodeKey) : Direct Descriptor := do
  orFail (.missingDescriptor k) (← ask (·.descriptor k))

/-! ### Symbols -/

def node (k : NodeKey) : Direct (Sight Form) := do
  let arena ← model k.source
  return ⟨.node k,arena.origin,arena.location k.node,.written (← rawShape k)⟩

def view (S : Type) [OneKind S] (n : Sight Form) : Direct (Sight S) :=
  orFail (.unexpectedKind n.anchor (OneKind.kind S) n.shape.kind) (n.as? S)

def typed (S : Type) [OneKind S] (k : NodeKey) : Direct (Sight S) := do view S (← node k)

def deferredReference (owner : NodeKey) : Direct (Sight ReferenceForm) := do
  return ⟨.deferred owner,(← model owner.source).origin,.nonExisting,.deferred⟩

/-- The symbol that a key stands for. -/
def symbol : SymbolKey → Direct (Sight Form)
  | .node k => node k
  | .deferred owner => return ⟨.deferred owner,(← model owner.source).origin,.nonExisting,.deferred⟩

def allFiles : Direct (List (Sight FileShape)) := do (← ask (·.files)).mapM (typed FileShape)

def declaration (n : Sight Form) : Direct (Sight DeclaredForm) :=
  orFail (.notADeclaration n.anchor) (n.as? DeclaredForm)

def children {T : Type} (v : Sight T) (nodes : List NodeId) (S : Type) [OneKind S] :
    Direct (List (Sight S)) :=
  nodes.mapM fun n => typed S (v.near n)

/-- All of the nodes are found before the first of them is taken for a declaration. -/
def childDeclarations {T : Type} (v : Sight T) (nodes : List NodeId) :
    Direct (List (Sight DeclaredForm)) := do
  (← nodes.mapM fun n => node (v.near n)).mapM declaration

def child? {T : Type} (v : Sight T) (n : Option NodeId) (S : Type) [OneKind S] :
    Direct (Option (Sight S)) :=
  match n with
  | none => return none
  | some n => return some (← typed S (v.near n))

def typeReference {T : Type} (v : Sight T) : Option NodeId → Direct (Sight ReferenceForm)
  | some n => typed ReferenceForm (v.near n)
  | none => deferredReference v.anchor

def anyFunction : List NodeKey → Direct Bool
  | [] => return false
  | k :: ks => do
    if (← rawShape k).kind = .function then return true else anyFunction ks

end Direct

namespace Sight

open Direct

def annotations {T : Type} [Annotated T] (v : Sight T) : Direct (List (Sight AnnotationShape)) :=
  children v (Annotated.annotations v.shape) AnnotationShape

section Declaration

variable (d : Sight DeclaredForm)

def typeParameters : Direct (List (Sight TypeParameterShape)) :=
  children d d.shape.typeParameters TypeParameterShape

def parentDeclaration : Direct (Option (Sight DeclaredForm)) := do
  match ← rawParent? d.anchor with
  | some p => return (← node p).as? DeclaredForm
  | none => return none

def containingFile : Direct (Sight FileShape) := do
  let root ← orFail (.unknownNode d.anchor) (← rawAncestors d.anchor).getLast?
  typed FileShape root

def packageName : Direct String := return (← d.containingFile).shape.package

def isLocal : Direct Bool := do anyFunction (← rawAncestors d.anchor)

def qualifiedName : Direct (Option String) := do
  if (Viewed.form d.shape).kind = .typeParameter then return none
  if ← d.isLocal then return none
  let outer ← (← rawAncestors d.anchor).filterMapM fun k => return (← rawShape k).declaredName?
  let package ← d.packageName
  let scope := if package.isEmpty then outer.reverse else package :: outer.reverse
  return some (".".intercalate (scope ++ [d.shape.name]))

def displayName : Direct String := return (← d.qualifiedName).getD d.shape.name

def declarations : Direct (List (Sight DeclaredForm)) :=
  match d.shape.declarations? with
  | some nodes => childDeclarations d nodes
  | none => return []

def parentClassKind? : Direct (Option ClassKind) := do
  match ← d.parentDeclaration with
  | some ⟨_,_,_,.classLike s⟩ => return some s.classKind
  | _ => return none

def isOpen : Direct Bool := do
  if ← d.isLocal then return false
  if let .classLike c := d.shape then
    if c.classKind = .interface then return true
  if [.overriding,.abstracted,.opened].any d.shape.modifiers.contains then return true
  if (← d.parentClassKind?) = some .interface then return true
  return d.origin = .java && !d.shape.modifiers.contains .final

end Declaration

section References

variable (c : Sight ClassShape) (f : Sight FunctionShape) (p : Sight PropertyShape)
  (a : Sight TypeAliasShape) (t : Sight TypeParameterShape) (v : Sight ValueParameterShape)
  (r : Sight ReferenceForm) (n : Sight AnnotationShape)

def topLevel (f : Sight FileShape) : Direct (List (Sight DeclaredForm)) :=
  childDeclarations f f.shape.declarations

def superTypes : Direct (List (Sight ReferenceForm)) := children c c.shape.superTypes ReferenceForm

def functions : Direct (List (Sight FunctionShape)) :=
  return (← c.toDeclaration.declarations).filterMap (·.as? FunctionShape)

def properties : Direct (List (Sight PropertyShape)) :=
  return (← c.toDeclaration.declarations).filterMap (·.as? PropertyShape)

def functionReceiver? : Direct (Option (Sight ReferenceForm)) := child? f f.shape.receiver ReferenceForm

def parameters : Direct (List (Sight ValueParameterShape)) :=
  children f f.shape.parameters ValueParameterShape

def returnType : Direct (Sight ReferenceForm) := typeReference f f.shape.returnType

def propertyReceiver? : Direct (Option (Sight ReferenceForm)) := child? p p.shape.receiver ReferenceForm

def propertyType : Direct (Sight ReferenceForm) := typeReference p p.shape.typeReference

def target : Direct (Sight ReferenceForm) := typed ReferenceForm (a.near a.shape.target)

def bounds : Direct (List (Sight ReferenceForm)) := children t t.shape.bounds ReferenceForm

def parameterType : Direct (Sight ReferenceForm) := typeReference v v.shape.typeReference

def parameterName : Direct String := return v.shape.name.getD (← read).config.unnamedParameterPlaceholder

def typeArguments : Direct (List (Sight ReferenceForm)) :=
  match r.shape with
  | .written s => children r s.arguments ReferenceForm
  | .deferred => return []

def annotationType? : Direct (Option (Sight ReferenceForm)) := child? n n.shape.type ReferenceForm

def functionKind : Direct FunctionKind := do
  if (← f.toDeclaration.parentDeclaration).isNone then return .topLevel
  match f.shape.form with
  | .named | .constructor => return .member
  | .literal true => return .anonymous
  | .literal false => return .lambda

def isAbstract : Direct Bool := do
  if f.shape.modifiers.contains .abstracted then return true
  return (← f.toDeclaration.parentClassKind?) = some .interface && !f.shape.hasBody

/-! ### Overriding -/

def overrides (base : Sight FunctionShape) : Direct Bool := do
  if !f.shape.modifiers.contains .overriding then return false
  if !(← base.toDeclaration.isOpen) then return false
  if !(← ask (·.visible base.anchor f.anchor)) then return false
  match ← ask (·.descriptor base.anchor) with
  | none => return false
  | some b =>
    let own ← descriptor f.anchor
    return (← ask (·.compatibility b own)) = .overridable

def overriddenRoots : Direct (List NodeKey) := do
  let own ← descriptor f.anchor
  let above := (← read).oracle.overriddenGraph.explore true [] own.overridden
  above.filterM fun k => return (← descriptor k).overridden.isEmpty

def findOverridee : Direct (Option (Sight FunctionShape)) := do
  match ← f.overriddenRoots with
  | [] => return none
  | [root] => return some (← typed FunctionShape root)
  | roots => fail (.ambiguousOverridee (← f.toDeclaration.displayName) roots.length)

/-! ### Types -/

/-- The type that a reference means. -/
def resolve : Direct ResolvedType :=
  match r.shape with
  | .written s => do orFail (.unresolvedType (.written s.text)) (← ask (·.reference r.anchor))
  | .deferred => do
    orFail (.unresolvedType (.inferred r.anchor)) (← descriptor r.anchor).returnType

end References

end Sight

namespace ResolvedType

open Direct

/-- The class, type alias or type parameter that a type is built from. -/
def declared (t : ResolvedType) : Direct (Sight DeclaredForm) := do
  orFail (.notATypeDeclaration t.declaration) ((← node t.declaration).as? DeclaredForm)

def headName (t : ResolvedType) : Direct String :=
  tryCatch (do return (← t.declared).shape.name) fun _ => return s!"<unresolved {t.declaration}>"

mutual
def shown : ResolvedType → Direct String
  | ⟨declaration,arguments,nullable⟩ => do
    let name ← headName ⟨declaration,arguments,nullable⟩
    let texts ← shownArguments arguments
    let arguments := if texts.isEmpty then "" else "<" ++ ", ".intercalate texts ++ ">"
    return name ++ arguments ++ if nullable then "?" else ""
def shownOption (variance : Variance) : Option ResolvedType → Direct String
  | none => return "*"
  | some t => return variance.label ++ (← shown t)
def shownArgument : TypeArgument → Direct String
  | ⟨variance,type⟩ => shownOption variance type
def shownArguments : List TypeArgument → Direct (List String)
  | [] => return []
  | a :: as => return (← shownArgument a) :: (← shownArguments as)
end

def alias? (t : ResolvedType) : Direct (Option (Sight TypeAliasShape)) :=
  return (← t.declared).as? TypeAliasShape

def isAlias (t : ResolvedType) : Direct Bool := return (← t.alias?).isSome

def names (ts : List ResolvedType) : Direct (List String) :=
  ts.mapM fun t => return (← t.declared).shape.name

def chainFrom : Nat → List ResolvedType → ResolvedType → Direct (List ResolvedType)
  | steps, chain, t => do
    match ← t.alias? with
    | none => return chain
    | some a =>
      match steps with
      | 0 => fail (.aliasDepthExceeded (← read).config.maxAliasDepth)
      | steps+1 =>
        let next ← (← a.target).resolve
        if chain.any (·.declaration == next.declaration) then
          fail (.aliasCycle (← names (chain ++ [next])))
        chainFrom steps (chain ++ [next]) next

/-- A type, followed by the types that it stands for through aliases. -/
def aliasChain (t : ResolvedType) : Direct (List ResolvedType) := do
  chainFrom (← read).config.maxAliasDepth [t] t

def isAssignableFrom (target source : ResolvedType) : Direct Bool :=
  ask (·.assignable target source)

end ResolvedType

/-! ### Attributes -/

/-- What an attribute holds, with symbols and types in place of their ids. -/
@[reducible] def Attribute.Seen : Attribute → Type
  | .packageName => String
  | .qualifiedName => Option String
  | .isLocal => Bool
  | .parentDeclaration => Option (Sight Form)
  | .containingFile => Sight Form
  | .children _ => List (Sight Form)
  | .type => ResolvedType
  | .overridee => Option (Sight Form)

def Shape.annotations : Shape → List NodeId
  | .file s => s.annotations
  | .classLike s => s.annotations
  | .function s => s.annotations
  | .property s => s.annotations
  | .typeAlias s => s.annotations
  | .valueParameter s => s.annotations
  | .typeReference s => s.annotations
  | .typeParameter _ | .annotationEntry _ => []

/-- The nodes of a child list. -/
def Shape.childList : ChildList → Shape → List NodeId
  | .annotations, s => s.annotations
  | .typeParameters, s => s.typeParameters
  | .superTypes, .classLike s => s.superTypes
  | .declarations, .file s => s.declarations
  | .declarations, .classLike s => s.declarations
  | .declarations, .function s => s.localDeclarations
  | .parameters, .function s => s.parameters
  | .bounds, .typeParameter s => s.bounds
  | .typeArguments, .typeReference s => s.arguments
  | _, _ => []

def Form.childList (l : ChildList) : Form → List NodeId
  | .written s => s.childList l
  | .deferred => []

/-- Annotations are the first of the child lists. -/
class LawfulAnnotated (T : Type) [Annotated T] : Prop where
  annotations_eq : ∀ t : T, Annotated.annotations t = (Viewed.form t).childList .annotations

instance : LawfulAnnotated FileShape := ⟨fun _ => rfl⟩
instance : LawfulAnnotated DeclaredForm := ⟨fun t => by cases t <;> rfl⟩
instance : LawfulAnnotated ValueParameterShape := ⟨fun _ => rfl⟩
instance : LawfulAnnotated ReferenceForm := ⟨fun t => by cases t <;> rfl⟩

/-- The symbol of an element of a child list. All but declarations must be of one kind. -/
def ChildList.child : ChildList → NodeKey → Direct (Sight Form)
  | .annotations, k => return (← Direct.typed AnnotationShape k).toNode
  | .typeParameters, k => return (← Direct.typed TypeParameterShape k).toNode
  | .superTypes, k | .bounds, k | .typeArguments, k => return (← Direct.typed ReferenceForm k).toNode
  | .parameters, k => return (← Direct.typed ValueParameterShape k).toNode
  | .declarations, k => Direct.node k

namespace Sight

/-- Reads a symbol through a narrower view, which it must have. -/
def through {A : Type} (S : Type) [Viewed S] (f : Sight S → Direct A) (n : Sight Form) : Direct A :=
  match n.as? S with
  | some v => f v
  | none => Direct.fail (.notADeclaration n.anchor)

/-- The value of an attribute. -/
def value (n : Sight Form) : (a : Attribute) → Direct a.Seen
  | .packageName => n.through DeclaredForm packageName
  | .qualifiedName => n.through DeclaredForm qualifiedName
  | .isLocal => n.through DeclaredForm isLocal
  | .parentDeclaration => n.through DeclaredForm fun d => return (← d.parentDeclaration).map toNode
  | .containingFile => n.through DeclaredForm fun d => return (← d.containingFile).toNode
  | .children l => (n.shape.childList l).mapM fun c => l.child (n.near c)
  | .type => n.through ReferenceForm resolve
  | .overridee => n.through FunctionShape fun f => return (← f.findOverridee).map toNode

section Widths

variable {S T : Type} [Viewed S]

@[simp] theorem toNode_anchor (v : Sight S) : v.toNode.anchor = v.anchor := rfl

@[simp] theorem toNode_near (v : Sight S) (n : NodeId) : v.toNode.near n = v.near n := rfl

@[simp] theorem toNode_form (n : Sight Form) : n.toNode = n := rfl

theorem as?_eq_some [Viewed T] {v : Sight S} {w : Sight T} :
    v.as? T = some w ↔ v.toNode = w.toNode := by
  obtain ⟨k,o,l,s⟩ := v
  obtain ⟨k',o',l',t⟩ := w
  simp only [as?,toNode,Option.map_eq_some_iff,Viewed.ofForm?_eq_some,mk.injEq]
  constructor
  · rintro ⟨t,e,rfl,rfl,rfl,rfl⟩; exact ⟨rfl,rfl,rfl,e⟩
  · rintro ⟨rfl,rfl,rfl,e⟩; exact ⟨t,e,rfl,rfl,rfl,rfl⟩

@[simp] theorem as?_toNode (v : Sight S) : v.toNode.as? S = some v := as?_eq_some.mpr rfl

@[simp] theorem through_toNode {A : Type} (f : Sight S → Direct A) (v : Sight S) :
    v.toNode.through S f = f v := by
  simp [through]

@[simp] theorem toNode_toDeclaration {S : Type} [Declares S] (v : Sight S) :
    v.toDeclaration.toNode = v.toNode := by
  simp [toDeclaration,toNode,Declares.form_declared]

end Widths

end Sight

namespace Direct

theorem view_toNode {S : Type} [OneKind S] (v : Sight S) : view S v.toNode = pure v := by
  simp [view,orFail]

theorem declaration_toNode (d : Sight DeclaredForm) : declaration d.toNode = pure d := by
  simp [declaration,orFail]

/-- A symbol of one kind is seen as such once all of the symbols are found. -/
theorem mapM_view {S K : Type} [OneKind S] (f : K → Direct (Sight S)) (ks : List K) :
    (do (← ks.mapM fun k => return (← f k).toNode).mapM (view S)) = ks.mapM f := by
  induction ks with
  | nil => simp
  | cons k ks ih => simp [bind_assoc,view_toNode,← ih]

section Runs

variable {A B : Type} {x : Direct A} {f : A → Direct B} {h : Error → Direct A} {env : Environment}

theorem bind_ok {a : A} (e : x env = .ok a) : (x >>= f) env = f a env := by
  change (x env).bind (fun a => f a env) = _
  rw [e]; rfl

theorem bind_error {er : Error} (e : x env = .error er) : (x >>= f) env = .error er := by
  change (x env).bind (fun a => f a env) = _
  rw [e]; rfl

theorem rescue_ok {a : A} (e : x env = .ok a) : tryCatch x h env = .ok a := by
  change (x env).tryCatch (fun er => h er env) = _
  rw [e]; rfl

theorem rescue_error {er : Error} (e : x env = .error er) : tryCatch x h env = h er env := by
  change (x env).tryCatch (fun er => h er env) = _
  rw [e]; rfl

end Runs

end Direct
end SymbolGraph
