import SymbolGraph.Names.Index
import SymbolGraph.Text.TextMap
import SymbolGraph.Text.TypeText
import SymbolGraph.Type

/-! What names mean where they are mentioned, and the types that references spell. -/
namespace SymbolGraph

/-- What the name oracle knows: the sources, their named declarations in order, and the types of
declarations that are written without one, by qualified name. -/
structure Names where
  models : Models
  declared : List Named
  inferred : TextMap

namespace Names

def ofModels (ms : Models) (inferred : TextMap) : Names := ⟨ms,ms.named,inferred⟩

/-- The classes and type aliases of a simple or qualified name, in the order of the sources. -/
def types (n : Names) (name : String) : List NodeKey :=
  (n.declared.filter fun d => d.isType && d.answersTo name).map (·.key)

/-- The text of the type that was inferred for a declaration. -/
def inferredText? (n : Names) (k : NodeKey) : Option String :=
  n.declared.reverse.findSome? fun d => if d.key = k then n.inferred.get? d.qualified else none

/-- The type parameter of a name that a node declares. -/
def typeParameter? (n : Names) (name : String) (k : NodeKey) : Option NodeKey := do
  let s ← n.models.shape? k
  (s.typeParameters.map k.sibling).find? fun p =>
    match n.models.shape? p with
    | some (.typeParameter t) => t.name == name
    | _ => false

/-- The declaration that a name means where it is mentioned: the type parameter of the nearest scope
that has one, else a type of the same package, else the first type of that name. -/
def resolveName? (n : Names) (name : String) (mention : NodeKey) : Option NodeKey :=
  (if name.toList.contains '.' then none else (n.models.scopes mention).findSome? (n.typeParameter? name))
    <|> (n.types name).find? (fun k => n.models.packageOf k == n.models.packageOf mention)
    <|> (n.types name).head?

mutual
/-- The type that a reference means, with references nested in it to a depth of `depth`. -/
def referenceIn (n : Names) : Nat → NodeKey → Option ResolvedType
  | 0, _ => none
  | depth+1, k =>
    match n.models.shape? k with
    | some (.typeReference s) => do
      let text ← TypeText.parse? s.text
      if text.variance = .star then none
      else
        let declaration ← n.resolveName? text.name k
        let arguments ← s.arguments.mapM fun a => argumentIn n depth (k.sibling a)
        return ⟨declaration,arguments,text.nullable⟩
    | _ => none
  termination_by depth => 2 * depth
/-- A type argument. A star has no type of its own. -/
def argumentIn (n : Names) (depth : Nat) (k : NodeKey) : Option TypeArgument :=
  match n.models.shape? k with
  | some (.typeReference s) => do
    let text ← TypeText.parse? s.text
    if text.variance = .star then return ⟨.star,none⟩
    else return ⟨text.variance,some (← referenceIn n depth k)⟩
  | _ => none
  termination_by 2 * depth + 1
end

/-- The type that a reference means, if all names in it are known. -/
def reference? (n : Names) (k : NodeKey) : Option ResolvedType := n.referenceIn (n.models.size + 1) k

/-- The inferred type of a declaration. -/
def inferred? (n : Names) (k : NodeKey) : Option ResolvedType := do
  let text ← TypeText.parse? (← n.inferredText? k)
  let target ← n.resolveName? text.name k
  return (ResolvedType.simple target).withNullable text.nullable

/-- The type of a declaration: the written one, or else the inferred one. -/
def typeOf? (n : Names) (k : NodeKey) : Option NodeId → Option ResolvedType
  | some written => n.reference? (k.sibling written)
  | none => n.inferred? k

end Names
end SymbolGraph
