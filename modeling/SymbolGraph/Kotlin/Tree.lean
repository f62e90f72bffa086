import SymbolGraph.Kind

/-! The syntax trees of Kotlin files. Expressions are left out; a body keeps the declarations that are
among its statements. -/
namespace SymbolGraph
namespace Kotlin

structure ValueArgument where
  name : Option String
  value : String
  deriving DecidableEq, Repr

structure AnnotationEntry where
  shortName : String
  arguments : List ValueArgument
  deriving DecidableEq, Repr

structure TypeReference where
  text : String
  annotations : List AnnotationEntry
  arguments : List TypeReference

structure TypeParameter where
  name : String
  variance : Variance
  modifiers : Modifiers
  bounds : List TypeReference

inductive ValVar
  | isVal | isVar
  deriving DecidableEq, Repr

structure Parameter where
  name : Option String
  typeReference : Option TypeReference
  hasDefault : Bool
  valVar : Option ValVar
  modifiers : Modifiers
  annotations : List AnnotationEntry

structure PropertyDecl where
  name : String
  mutable : Bool
  modifiers : Modifiers
  annotations : List AnnotationEntry
  typeParameters : List TypeParameter
  receiver : Option TypeReference
  typeReference : Option TypeReference
  line : Nat

structure TypeAliasDecl where
  name : String
  modifiers : Modifiers
  annotations : List AnnotationEntry
  typeParameters : List TypeParameter
  target : TypeReference
  line : Nat

inductive FunctionStyle
  | named | primaryConstructor | secondaryConstructor | lambda | anonymousFunction
  deriving DecidableEq, Repr

mutual
inductive Declaration
  | classLike (c : ClassDecl)
  | function (f : FunctionDecl)
  | property (p : PropertyDecl)
  | typeAlias (a : TypeAliasDecl)
structure ClassDecl where
  name : String
  keyword : ClassKind
  modifiers : Modifiers
  annotations : List AnnotationEntry
  typeParameters : List TypeParameter
  superTypes : List TypeReference
  body : List Declaration
  line : Nat
structure FunctionDecl where
  style : FunctionStyle
  name : Option String
  modifiers : Modifiers
  annotations : List AnnotationEntry
  typeParameters : List TypeParameter
  receiver : Option TypeReference
  parameters : List Parameter
  returnType : Option TypeReference
  body : Option Body
  line : Nat
/-- A block in braces, or the expression after an equals sign. -/
structure Body where
  block : Bool
  statements : List Declaration
end

structure File where
  /-- The path of the file below the root of its sources. -/
  name : String
  package : String
  annotations : List AnnotationEntry
  declarations : List Declaration

namespace FunctionStyle

def all : List FunctionStyle :=
  [.named,.primaryConstructor,.secondaryConstructor,.lambda,.anonymousFunction]

def word : FunctionStyle → String
  | .named => "named"
  | .primaryConstructor => "primary_constructor"
  | .secondaryConstructor => "secondary_constructor"
  | .lambda => "lambda"
  | .anonymousFunction => "anonymous_function"

theorem mem_all (s : FunctionStyle) : s ∈ all := by cases s <;> decide

end FunctionStyle

namespace ValVar

def all : List ValVar := [.isVal,.isVar]

def word : ValVar → String
  | .isVal => "val"
  | .isVar => "var"

theorem mem_all (v : ValVar) : v ∈ all := by cases v <;> decide

end ValVar
end Kotlin
end SymbolGraph
