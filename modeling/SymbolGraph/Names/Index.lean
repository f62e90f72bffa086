import SymbolGraph.Arena

/-! The declarations that sources can mention by name: those at the top of a file, and those nested in
classes. Declarations inside functions are not found by name. -/
namespace SymbolGraph

/-- A declaration with its simple and its qualified name. -/
structure Named where
  key : NodeKey
  simple : String
  qualified : String
  kind : NodeKind
  deriving DecidableEq

namespace Named

/-- Classes and type aliases are found where a type is mentioned. -/
def isType (n : Named) : Bool := n.kind == .classLike || n.kind == .typeAlias

def answersTo (n : Named) (name : String) : Bool := n.simple == name || n.qualified == name

end Named

/-- A name inside a scope, which may be empty. -/
def qualify (scope name : String) : String := if scope.isEmpty then name else scope ++ "." ++ name

namespace Models

/-- A declaration and the declarations nested in it as a class, to a depth of `depth`. -/
def namedIn (ms : Models) : Nat → String → NodeKey → List Named
  | 0, _, _ => []
  | depth+1, scope, k =>
    match ms.shape? k with
    | none => []
    | some s =>
      match s.declaredName? with
      | none => []
      | some name =>
        let qualified := qualify scope name
        let nested := match s with
          | .classLike c => c.declarations.flatMap fun d => namedIn ms depth qualified (k.sibling d)
          | _ => []
        ⟨k,name,qualified,s.kind⟩ :: nested

/-- The named declarations of a file. No nesting is deeper than there are nodes. -/
def namedInFile (ms : Models) (file : NodeKey) : List Named :=
  match ms.shape? file with
  | some (.file f) => f.declarations.flatMap fun d => ms.namedIn ms.size f.package (file.sibling d)
  | _ => []

def named (ms : Models) : List Named := ms.files.flatMap ms.namedInFile

end Models

end SymbolGraph
