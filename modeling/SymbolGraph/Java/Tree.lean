import SymbolGraph.Kind
import SymbolGraph.Layout

/-! The syntax trees of Java files. -/
namespace SymbolGraph
namespace Java

structure NameValue where
  name : Option String
  value : String
  deriving DecidableEq, Repr

structure AnnotationUse where
  qualifiedName : String
  arguments : List NameValue
  deriving DecidableEq, Repr

def AnnotationUse.shortName (a : AnnotationUse) : String := lastSegment '.' a.qualifiedName

structure TypeUse where
  text : String
  annotations : List AnnotationUse
  arguments : List TypeUse

structure TypeParameter where
  name : String
  bounds : List TypeUse

structure Parameter where
  name : Option String
  type : TypeUse
  varargs : Bool
  annotations : List AnnotationUse

structure Method where
  name : String
  isConstructor : Bool
  modifiers : Modifiers
  annotations : List AnnotationUse
  typeParameters : List TypeParameter
  parameters : List Parameter
  returnType : Option TypeUse
  hasBody : Bool
  line : Nat

structure Field where
  name : String
  modifiers : Modifiers
  annotations : List AnnotationUse
  type : TypeUse
  line : Nat

mutual
structure ClassDecl where
  name : String
  kind : ClassKind
  modifiers : Modifiers
  annotations : List AnnotationUse
  typeParameters : List TypeParameter
  superclasses : List TypeUse
  interfaces : List TypeUse
  members : List Member
  line : Nat
inductive Member
  | method (m : Method)
  | field (f : Field)
  | classLike (c : ClassDecl)
end

structure File where
  /-- The path of the file below the root of its sources. -/
  name : String
  package : String
  classes : List ClassDecl

end Java
end SymbolGraph
