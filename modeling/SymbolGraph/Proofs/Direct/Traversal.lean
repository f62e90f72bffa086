import SymbolGraph.Processor
import SymbolGraph.Proofs.Direct.Basic

/-! Traversals and processors without a session. What is gathered is the only state; symbols are told
apart by their keys. -/
namespace SymbolGraph

/-- A direct computation in the course of which something is gathered. -/
abbrev Direct.Gathering (G A : Type) := ReaderT Environment (Attempt G) A

namespace Direct.Gathering

variable {G A : Type}

def ofDirect (x : Direct A) : Gathering G A := fun env => Attempt.ofExcept (x env)

def update (f : G → G) : Gathering G Unit := fun _ => Attempt.modify f

def record (a : A) : Gathering (Array A) Unit := update (·.push a)

def gathered (x : Gathering G Unit) (initial : G) : Direct G := fun env =>
  match x env initial with
  | (.ok _,g) => .ok g
  | (.error e,_) => .error e

end Direct.Gathering

namespace Sight

def nodes {S : Type} [Viewed S] (x : Direct (List (Sight S))) : Direct (List (Sight Form)) :=
  return (← x).map (·.toNode)

def singleNode {S : Type} [Viewed S] (x : Direct (Sight S)) : Direct (List (Sight Form)) :=
  return [(← x).toNode]

def optionalNode {S : Type} [Viewed S] (x : Direct (Option (Sight S))) : Direct (List (Sight Form)) :=
  return (← x).toList.map (·.toNode)

def childGroups (n : Sight Form) : List (Direct (List (Sight Form))) :=
  match n.shape with
  | .written (.file s) =>
    let f : Sight FileShape := { n with shape := s }
    [nodes f.annotations,nodes f.topLevel]
  | .written (.classLike s) =>
    let c : Sight ClassShape := { n with shape := s }
    let d := c.toDeclaration
    [nodes d.annotations,nodes d.typeParameters,nodes c.superTypes,nodes d.declarations]
  | .written (.function s) =>
    let f : Sight FunctionShape := { n with shape := s }
    let d := f.toDeclaration
    [nodes d.annotations,nodes d.typeParameters,optionalNode f.functionReceiver?,nodes f.parameters,
      singleNode f.returnType,nodes d.declarations]
  | .written (.property s) =>
    let p : Sight PropertyShape := { n with shape := s }
    let d := p.toDeclaration
    [nodes d.annotations,nodes d.typeParameters,optionalNode p.propertyReceiver?,
      singleNode p.propertyType]
  | .written (.typeAlias s) =>
    let a : Sight TypeAliasShape := { n with shape := s }
    let d := a.toDeclaration
    [nodes d.annotations,nodes d.typeParameters,singleNode a.target]
  | .written (.typeParameter s) =>
    let t : Sight TypeParameterShape := { n with shape := s }
    [nodes t.bounds]
  | .written (.valueParameter s) =>
    let v : Sight ValueParameterShape := { n with shape := s }
    [nodes v.annotations,singleNode v.parameterType]
  | .written (.typeReference s) =>
    let r : Sight ReferenceForm := { n with shape := .written s }
    [nodes r.annotations,nodes r.typeArguments]
  | .deferred =>
    let r : Sight ReferenceForm := { n with shape := .deferred }
    [nodes r.annotations,nodes r.typeArguments]
  | .written (.annotationEntry s) =>
    let a : Sight AnnotationShape := { n with shape := s }
    [optionalNode a.annotationType?]

end Sight

structure Direct.Visitor (G : Type) where
  enter : Sight Form → Direct.Gathering G Bool
  leave : Sight Form → Direct.Gathering G Unit

namespace Direct.Visitor

open Direct.Gathering

variable {G : Type}

def visitIn (v : Visitor G) : Nat → Sight Form → Gathering G Unit
  | 0, _ => return
  | depth+1, n => do
    if ← v.enter n then
      n.childGroups.forM fun group => do (← ofDirect group).forM (visitIn v depth)
      v.leave n

def visit (v : Visitor G) (n : Sight Form) : Gathering G Unit := do
  v.visitIn ((← read).models.size + 2) n

def visitFiles (v : Visitor G) : Gathering G Unit := do
  (← ofDirect Direct.allFiles).forM fun f => v.visit f.toNode

def postorder (leave : Sight Form → Gathering G Unit) : Visitor G := ⟨fun _ => return true,leave⟩

def preorder (enter : Sight Form → Gathering G Unit) : Visitor G where
  enter n := do enter n; return true
  leave _ := return

def references : Visitor (Array (Sight ReferenceForm)) := postorder fun n => do
  if let some r := n.as? ReferenceForm then
    update fun rs => if rs.any (·.key == r.key) then rs else rs.push r

def names (noPackage : String) : Visitor (Array String) := preorder fun n => do
  match n.as? DeclaredForm with
  | some d =>
    match d.shape with
    | .classLike _ | .function _ | .property _ =>
      let package ← ofDirect d.packageName
      record ((if package.isEmpty then noPackage else package) ++ ":" ++ d.shape.name)
    | .typeAlias _ | .typeParameter _ => return
  | none => return

def overridees : Visitor (Array String) := .preorder fun n => do
  if let some f := n.as? FunctionShape then
    if f.shape.modifiers.contains .overriding then
      if let some o ← ofDirect f.findOverridee then
        let name ← ofDirect f.toDeclaration.displayName
        record (name ++ " -> " ++ (← ofDirect o.toDeclaration.displayName))

end Direct.Visitor

namespace Direct

open Direct.Gathering

def isInteresting (r : Sight ReferenceForm) : Direct Bool := do
  let config := (← read).config
  return (← r.annotations).any fun a => config.isInteresting a.shape.shortName

def comparedTypes (r : Sight ReferenceForm) : Direct (List ResolvedType) := do
  if ← isInteresting r then (← r.resolve).aliasChain else return []

def comparison (i j : ResolvedType) : Direct String := do
  let left ← i.shown
  let right ← j.shown
  return left ++ " = " ++ right ++ " : " ++ toString (← i.isAssignableFrom j)

def compareAliases : Gathering (Array String) Unit := do
  let references ← ofDirect <| gathered Visitor.references.visitFiles #[]
  let types := (← references.toList.mapM fun r => ofDirect (comparedTypes r)).flatten
  types.forM fun i => types.forM fun j => do record (← ofDirect (comparison i j))

def process : Processor → Gathering (Array String) Unit
  | .packageNames => do (Visitor.names (← read).config.noPackagePlaceholder).visitFiles
  | .aliasComparison => compareAliases
  | .overridee => Visitor.overridees.visitFiles

end Direct
end SymbolGraph
