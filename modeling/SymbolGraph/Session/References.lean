import SymbolGraph.Session.Declarations

/-! The parts of declarations that mention types, and the children of any symbol in the order of a
traversal. -/
namespace SymbolGraph
namespace View

open Session

section References

variable (c : ClassView) (f : FunctionView) (p : PropertyView) (a : TypeAliasView)
  (t : TypeParameterView) (v : ValueParameterView) (r : ReferenceView) (n : AnnotationView)

def superTypes : Session (List ReferenceView) :=
  children c .superTypes c.shape.superTypes ReferenceForm

/-- The functions among the members of a class. -/
def functions : Session (List FunctionView) :=
  return (← c.toDeclaration.declarations).filterMap (·.as? FunctionShape)

/-- The properties among the members of a class. -/
def properties : Session (List PropertyView) :=
  return (← c.toDeclaration.declarations).filterMap (·.as? PropertyShape)

def functionReceiver? : Session (Option ReferenceView) := child? f f.shape.receiver ReferenceForm

def parameters : Session (List ValueParameterView) :=
  children f .parameters f.shape.parameters ValueParameterShape

def returnType : Session ReferenceView := typeReference f f.shape.returnType

def propertyReceiver? : Session (Option ReferenceView) := child? p p.shape.receiver ReferenceForm

def propertyType : Session ReferenceView := typeReference p p.shape.typeReference

def target : Session ReferenceView := typed ReferenceForm (a.near a.shape.target)

def bounds : Session (List ReferenceView) := children t .bounds t.shape.bounds ReferenceForm

def parameterType : Session ReferenceView := typeReference v v.shape.typeReference

/-- The name of a parameter, or what stands in place of it. -/
def parameterName : Session String := return v.shape.name.getD (← read).config.unnamedParameterPlaceholder

/-- The written type arguments of a reference. -/
def typeArguments : Session (List ReferenceView) :=
  match r.shape with
  | .written s => children r .typeArguments s.arguments ReferenceForm
  | .deferred => return []

def annotationType? : Session (Option ReferenceView) := child? n n.shape.type ReferenceForm

/-! What a function is by its place. -/

/-- The kind of the class around a declaration. -/
def parentClassKind? (d : Declaration) : Session (Option ClassKind) := do
  match ← d.parentDeclaration with
  | some ⟨_,.classLike s⟩ => return some s.classKind
  | _ => return none

def functionKind : Session FunctionKind := do
  if (← f.toDeclaration.parentDeclaration).isNone then return .topLevel
  match f.shape.form with
  | .named | .constructor => return .member
  | .literal true => return .anonymous
  | .literal false => return .lambda

/-- A function is abstract if it says so, or if it is a member of an interface without a body. -/
def isAbstract : Session Bool := do
  if f.shape.modifiers.contains .abstracted then return true
  return (← parentClassKind? f.toDeclaration) = some .interface && !f.shape.hasBody

end References

/-- Symbols as nodes. -/
def nodes {S : Type} [Viewed S] (x : Session (List (View S))) : Session (List Node) :=
  return (← x).map (·.toNode)

def singleNode {S : Type} [Viewed S] (x : Session (View S)) : Session (List Node) :=
  return [(← x).toNode]

def optionalNode {S : Type} [Viewed S] (x : Session (Option (View S))) : Session (List Node) :=
  return (← x).toList.map (·.toNode)

/-- The children of a symbol in the order of a traversal, in the groups in which they are found. -/
def childGroups (n : Node) : List (Session (List Node)) :=
  match n.shape with
  | .written (.file s) =>
    let f : FileView := ⟨n.header,s⟩
    [nodes f.annotations,nodes f.topLevel]
  | .written (.classLike s) =>
    let c : ClassView := ⟨n.header,s⟩
    let d := c.toDeclaration
    [nodes d.annotations,nodes d.typeParameters,nodes c.superTypes,nodes d.declarations]
  | .written (.function s) =>
    let f : FunctionView := ⟨n.header,s⟩
    let d := f.toDeclaration
    [nodes d.annotations,nodes d.typeParameters,optionalNode f.functionReceiver?,nodes f.parameters,
      singleNode f.returnType,nodes d.declarations]
  | .written (.property s) =>
    let p : PropertyView := ⟨n.header,s⟩
    let d := p.toDeclaration
    [nodes d.annotations,nodes d.typeParameters,optionalNode p.propertyReceiver?,
      singleNode p.propertyType]
  | .written (.typeAlias s) =>
    let a : TypeAliasView := ⟨n.header,s⟩
    let d := a.toDeclaration
    [nodes d.annotations,nodes d.typeParameters,singleNode a.target]
  | .written (.typeParameter s) =>
    let t : TypeParameterView := ⟨n.header,s⟩
    [nodes t.bounds]
  | .written (.valueParameter s) =>
    let v : ValueParameterView := ⟨n.header,s⟩
    [nodes v.annotations,singleNode v.parameterType]
  | .written (.typeReference s) =>
    let r : ReferenceView := ⟨n.header,.written s⟩
    [nodes r.annotations,nodes r.typeArguments]
  | .deferred =>
    let r : ReferenceView := ⟨n.header,.deferred⟩
    [nodes r.annotations,nodes r.typeArguments]
  | .written (.annotationEntry s) =>
    let a : AnnotationView := ⟨n.header,s⟩
    [optionalNode a.annotationType?]

end View
end SymbolGraph
