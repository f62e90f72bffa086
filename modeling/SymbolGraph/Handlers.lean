import SymbolGraph.Traversal

/-! Visitors with a handler for each kind of symbol. A handler goes on to what is below a symbol by the walk of
its kind, and a walk hands the children over to the handlers of their kinds. -/
namespace SymbolGraph

/-- What is done with symbols, by their kinds. -/
structure Handlers (G : Type) where
  file : FileView → Gathering G Unit
  classLike : ClassView → Gathering G Unit
  function : FunctionView → Gathering G Unit
  property : PropertyView → Gathering G Unit
  typeAlias : TypeAliasView → Gathering G Unit
  typeParameter : TypeParameterView → Gathering G Unit
  valueParameter : ValueParameterView → Gathering G Unit
  reference : ReferenceView → Gathering G Unit
  annotation : AnnotationView → Gathering G Unit

namespace Handlers

open Gathering

variable {G : Type}

/-- Hands any symbol over to the handler of its kind. -/
def node (v : Handlers G) (n : Node) : Gathering G Unit :=
  match n.shape with
  | .written (.file s) => v.file ⟨n.header,s⟩
  | .written (.classLike s) => v.classLike ⟨n.header,s⟩
  | .written (.function s) => v.function ⟨n.header,s⟩
  | .written (.property s) => v.property ⟨n.header,s⟩
  | .written (.typeAlias s) => v.typeAlias ⟨n.header,s⟩
  | .written (.typeParameter s) => v.typeParameter ⟨n.header,s⟩
  | .written (.valueParameter s) => v.valueParameter ⟨n.header,s⟩
  | .written (.typeReference s) => v.reference ⟨n.header,.written s⟩
  | .deferred => v.reference ⟨n.header,.deferred⟩
  | .written (.annotationEntry s) => v.annotation ⟨n.header,s⟩

/-- Hands a declaration over to the handler of its kind. -/
def declaration (v : Handlers G) (d : Declaration) : Gathering G Unit :=
  match d.shape with
  | .classLike s => v.classLike ⟨d.header,s⟩
  | .function s => v.function ⟨d.header,s⟩
  | .property s => v.property ⟨d.header,s⟩
  | .typeAlias s => v.typeAlias ⟨d.header,s⟩
  | .typeParameter s => v.typeParameter ⟨d.header,s⟩

/-- Does nothing. -/
def idle : Handlers G where
  file _ := return
  classLike _ := return
  function _ := return
  property _ := return
  typeAlias _ := return
  typeParameter _ := return
  valueParameter _ := return
  reference _ := return
  annotation _ := return

/-- Hands the children of a symbol over, in the order of the source, and then the symbol itself. -/
def walks (v : Handlers G) (leave : Node → Gathering G Unit) : Handlers G where
  file f := do
    (← ofSession f.annotations).forM v.annotation
    (← ofSession f.topLevel).forM v.declaration
    leave f.toNode
  classLike c := do
    (← ofSession c.toDeclaration.annotations).forM v.annotation
    (← ofSession c.toDeclaration.typeParameters).forM v.typeParameter
    (← ofSession c.superTypes).forM v.reference
    (← ofSession c.toDeclaration.declarations).forM v.declaration
    leave c.toNode
  function f := do
    (← ofSession f.toDeclaration.annotations).forM v.annotation
    (← ofSession f.toDeclaration.typeParameters).forM v.typeParameter
    (← ofSession f.functionReceiver?).forM v.reference
    (← ofSession f.parameters).forM v.valueParameter
    v.reference (← ofSession f.returnType)
    (← ofSession f.toDeclaration.declarations).forM v.declaration
    leave f.toNode
  property p := do
    (← ofSession p.toDeclaration.annotations).forM v.annotation
    (← ofSession p.toDeclaration.typeParameters).forM v.typeParameter
    (← ofSession p.propertyReceiver?).forM v.reference
    v.reference (← ofSession p.propertyType)
    leave p.toNode
  typeAlias a := do
    (← ofSession a.toDeclaration.annotations).forM v.annotation
    (← ofSession a.toDeclaration.typeParameters).forM v.typeParameter
    v.reference (← ofSession a.target)
    leave a.toNode
  typeParameter t := do
    (← ofSession t.bounds).forM v.reference
    leave t.toNode
  valueParameter p := do
    (← ofSession p.annotations).forM v.annotation
    v.reference (← ofSession p.parameterType)
    leave p.toNode
  reference r := do
    (← ofSession r.annotations).forM v.annotation
    (← ofSession r.typeArguments).forM v.reference
    leave r.toNode
  annotation a := do
    (← ofSession a.annotationType?).forM v.reference
    leave a.toNode

/-- Does with the symbols of some keys nothing, and with all others what is done anyway. -/
def without (skip : SymbolKey → Bool) (v : Handlers G) : Handlers G where
  file f := if skip f.header.key then return else v.file f
  classLike c := if skip c.header.key then return else v.classLike c
  function f := if skip f.header.key then return else v.function f
  property p := if skip p.header.key then return else v.property p
  typeAlias a := if skip a.header.key then return else v.typeAlias a
  typeParameter t := if skip t.header.key then return else v.typeParameter t
  valueParameter p := if skip p.header.key then return else v.valueParameter p
  reference r := if skip r.header.key then return else v.reference r
  annotation a := if skip a.header.key then return else v.annotation a

/-- The handlers that walk on to a depth of `depth`, but return at once for the symbols of some keys. -/
def prunedTo (skip : SymbolKey → Bool) (leave : Node → Gathering G Unit) : Nat → Handlers G
  | 0 => .idle
  | depth+1 => without skip (walks (prunedTo skip leave depth) leave)

/-- The handlers that walk on over some models, but return at once for the symbols of some keys. -/
def pruned (skip : SymbolKey → Bool) (leave : Node → Gathering G Unit) (ms : Models) : Handlers G :=
  prunedTo skip leave (ms.size + 2)

end Handlers
end SymbolGraph
