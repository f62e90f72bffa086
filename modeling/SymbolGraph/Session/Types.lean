import SymbolGraph.Session.References

/-! Types in a session: what references mean, how types are shown, and the chains of types that aliases
stand for. -/
namespace SymbolGraph

/-- A type of a session, with its id. -/
structure InternedType where
  id : TypeId
  resolved : ResolvedType
  deriving DecidableEq

/-- An argument of a type of a session. -/
structure Projection where
  variance : Variance
  type : Option InternedType
  deriving DecidableEq

namespace Session

def intern (t : ResolvedType) : Session InternedType := return ⟨← internType t,t⟩

def typeById (id : TypeId) : Session InternedType := return ⟨id,← resolvedType id⟩

/-- What a reference means, as the oracle tells. -/
def referenced (r : ReferenceView) : Session ResolvedType :=
  match r.shape with
  | .written s => do orFail (.unresolvedType (.written s.text)) (← askReference r.anchor)
  | .deferred => do
    orFail (.unresolvedType (.inferred r.anchor)) (← descriptor r.anchor).returnType

end Session

namespace View

open Session

/-- The type that a reference means. -/
def resolve (r : ReferenceView) : Session InternedType := do
  let id : TypeId ← memo r.id .type do internType (← referenced r)
  typeById id

end View

namespace InternedType

open Session

def declarationOf (t : ResolvedType) : Session Declaration := do
  orFail (.notATypeDeclaration t.declaration) (← node t.declaration).asDeclaration?

/-- The class, type alias or type parameter that a type is built from. -/
def declaration (t : InternedType) : Session Declaration := declarationOf t.resolved

def isNullable (t : InternedType) : Bool := t.resolved.nullable

def withNullable (t : InternedType) (nullable : Bool) : Session InternedType :=
  if t.isNullable = nullable then return t else intern (t.resolved.withNullable nullable)

def projection (a : TypeArgument) : Session Projection :=
  match a.type with
  | none => return ⟨a.variance,none⟩
  | some t => return ⟨a.variance,some (← intern t)⟩

def arguments (t : InternedType) : Session (List Projection) := t.resolved.arguments.mapM projection

/-- The name of the declaration of a type. A declaration that cannot be found shows its key. -/
def headName (t : ResolvedType) : Session String :=
  tryCatch (do return (← declarationOf t).name) fun _ => return s!"<unresolved {t.declaration}>"

def internArguments : List TypeArgument → Session Unit
  | [] => return
  | a :: as => do
    let _ ← projection a
    internArguments as

mutual
/-- The text of a type. Its arguments are interned before the first of them is shown. -/
def shownType : ResolvedType → Session String
  | ⟨declaration,arguments,nullable⟩ => do
    let name ← headName ⟨declaration,arguments,nullable⟩
    internArguments arguments
    let texts ← shownArguments arguments
    let arguments := if texts.isEmpty then "" else "<" ++ ", ".intercalate texts ++ ">"
    return name ++ arguments ++ if nullable then "?" else ""
def shownOption (variance : Variance) : Option ResolvedType → Session String
  | none => return "*"
  | some t => return variance.label ++ (← shownType t)
def shownArgument : TypeArgument → Session String
  | ⟨variance,type⟩ => shownOption variance type
def shownArguments : List TypeArgument → Session (List String)
  | [] => return []
  | a :: as => return (← shownArgument a) :: (← shownArguments as)
end

def shown (t : InternedType) : Session String := shownType t.resolved

end InternedType

def Projection.shown (p : Projection) : Session String :=
  match p.type with
  | none => return "*"
  | some t => return p.variance.label ++ (← t.shown)

namespace InternedType

open Session

/-- The alias that a type is built from, if it is one. -/
def alias? (t : InternedType) : Session (Option TypeAliasView) :=
  return (← t.declaration).as? TypeAliasShape

def isAlias (t : InternedType) : Session Bool := return (← t.alias?).isSome

/-- The names of the declarations of a chain of types. -/
def names (ts : List InternedType) : Session (List String) :=
  ts.mapM fun t => return (← t.declaration).name

/-- Extends a chain, which ends in `t`, by the types that `t` stands for, in at most `steps` steps. -/
def chainFrom : Nat → List InternedType → InternedType → Session (List InternedType)
  | steps, chain, t => do
    match ← t.alias? with
    | none => return chain
    | some a =>
      match steps with
      | 0 => fail (.aliasDepthExceeded (← read).config.maxAliasDepth)
      | steps+1 =>
        let next ← (← a.target).resolve
        if chain.any (·.resolved.declaration == next.resolved.declaration) then
          fail (.aliasCycle (← names (chain ++ [next])))
        chainFrom steps (chain ++ [next]) next

/-- A type, followed by the types that it stands for through aliases, down to the first that is built
from no alias. A chain that meets a declaration twice is refused, and so is one that is too long. -/
def aliasChain (t : InternedType) : Session (List InternedType) := do
  chainFrom (← read).config.maxAliasDepth [t] t

/-- Whether a type takes the values of another one. -/
def isAssignableFrom (target source : InternedType) : Session Bool :=
  askAssignable target.resolved source.resolved

end InternedType
end SymbolGraph
