import SymbolGraph.Key
import SymbolGraph.Kind

/-! Descriptions of source nodes that do not depend on the language they were written in.
Children are nodes of the same model, listed in the order of the source. -/
namespace SymbolGraph

structure FileShape where
  name : String
  /-- Empty for the root package. -/
  package : String
  annotations : List NodeId
  declarations : List NodeId
  deriving DecidableEq

structure ClassShape where
  name : String
  classKind : ClassKind
  modifiers : Modifiers
  annotations : List NodeId
  typeParameters : List NodeId
  superTypes : List NodeId
  declarations : List NodeId
  deriving DecidableEq

/-- How a function is written. A function literal is an anonymous function if it has the keyword, and
a lambda otherwise. -/
inductive FunctionForm
  | named | constructor
  | literal (hasFunKeyword : Bool)
  deriving DecidableEq, Repr

structure FunctionShape where
  name : String
  form : FunctionForm
  modifiers : Modifiers
  annotations : List NodeId
  typeParameters : List NodeId
  receiver : Option NodeId
  parameters : List NodeId
  returnType : Option NodeId
  hasBody : Bool
  /-- The declarations of a block body. -/
  localDeclarations : List NodeId
  deriving DecidableEq

structure PropertyShape where
  name : String
  modifiers : Modifiers
  annotations : List NodeId
  typeParameters : List NodeId
  receiver : Option NodeId
  typeReference : Option NodeId
  mutable : Bool
  deriving DecidableEq

structure TypeAliasShape where
  name : String
  modifiers : Modifiers
  annotations : List NodeId
  typeParameters : List NodeId
  target : NodeId
  deriving DecidableEq

structure TypeParameterShape where
  name : String
  variance : Variance
  reified : Bool
  bounds : List NodeId
  deriving DecidableEq

structure ParameterFlags where
  vararg : Bool
  hasDefault : Bool
  isVal : Bool
  isVar : Bool
  crossinline : Bool
  noinline : Bool
  deriving DecidableEq, Repr

structure ValueParameterShape where
  name : Option String
  annotations : List NodeId
  typeReference : Option NodeId
  flags : ParameterFlags
  deriving DecidableEq

structure TypeReferenceShape where
  /-- The type as it is written, with its arguments. -/
  text : String
  annotations : List NodeId
  arguments : List NodeId
  deriving DecidableEq

structure AnnotationArgument where
  name : Option String
  value : String
  deriving DecidableEq, Repr

structure AnnotationShape where
  shortName : String
  type : Option NodeId
  arguments : List AnnotationArgument
  deriving DecidableEq

inductive Shape
  | file (s : FileShape)
  | classLike (s : ClassShape)
  | function (s : FunctionShape)
  | property (s : PropertyShape)
  | typeAlias (s : TypeAliasShape)
  | typeParameter (s : TypeParameterShape)
  | valueParameter (s : ValueParameterShape)
  | typeReference (s : TypeReferenceShape)
  | annotationEntry (s : AnnotationShape)
  deriving DecidableEq

namespace Shape

def kind : Shape → NodeKind
  | .file _ => .file
  | .classLike _ => .classLike
  | .function _ => .function
  | .property _ => .property
  | .typeAlias _ => .typeAlias
  | .typeParameter _ => .typeParameter
  | .valueParameter _ => .valueParameter
  | .typeReference _ => .typeReference
  | .annotationEntry _ => .annotationEntry

/-- The simple name of a declaration. -/
def declaredName? : Shape → Option String
  | .classLike s => some s.name
  | .function s => some s.name
  | .property s => some s.name
  | .typeAlias s => some s.name
  | .typeParameter s => some s.name
  | _ => none

/-- The modifiers written on a declaration. -/
def modifiers? : Shape → Option Modifiers
  | .classLike s => some s.modifiers
  | .function s => some s.modifiers
  | .property s => some s.modifiers
  | .typeAlias s => some s.modifiers
  | _ => none

/-- The type parameters that a declaration brings into scope. -/
def typeParameters : Shape → List NodeId
  | .classLike s => s.typeParameters
  | .function s => s.typeParameters
  | .property s => s.typeParameters
  | .typeAlias s => s.typeParameters
  | _ => []

/-- The children of a node in the order of a traversal. -/
def children : Shape → List NodeId
  | .file s => s.annotations ++ s.declarations
  | .classLike s => s.annotations ++ s.typeParameters ++ s.superTypes ++ s.declarations
  | .function s =>
    s.annotations ++ s.typeParameters ++ s.receiver.toList ++ s.parameters ++ s.returnType.toList
      ++ s.localDeclarations
  | .property s => s.annotations ++ s.typeParameters ++ s.receiver.toList ++ s.typeReference.toList
  | .typeAlias s => s.annotations ++ s.typeParameters ++ [s.target]
  | .typeParameter s => s.bounds
  | .valueParameter s => s.annotations ++ s.typeReference.toList
  | .typeReference s => s.annotations ++ s.arguments
  | .annotationEntry s => s.type.toList

theorem declaredName?_isSome (s : Shape) : s.declaredName?.isSome = s.kind.isDeclaration := by
  cases s <;> rfl

end Shape
end SymbolGraph
