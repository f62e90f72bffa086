import SymbolGraph.Names.Resolve
import SymbolGraph.Oracle

/-! Type aliases, super classes and overriding, as far as names tell, and the oracle made of them. -/
namespace SymbolGraph
namespace Names

/-- The type that an alias stands for. -/
def aliasTarget? (n : Names) (k : NodeKey) : Option ResolvedType :=
  match n.models.shape? k with
  | some (.typeAlias a) => n.reference? (k.sibling a.target)
  | _ => none

/-- Follows aliases for at most `steps` steps, and no alias twice. A type is nullable if it or an alias
on the way is. -/
def expandIn (n : Names) : Nat → List NodeKey → ResolvedType → ResolvedType
  | 0, _, t => t
  | steps+1, seen, t =>
    if t.declaration ∈ seen then t
    else
      match n.aliasTarget? t.declaration with
      | none => t
      | some target =>
        expandIn n steps (t.declaration :: seen) (target.withNullable (t.nullable || target.nullable))

/-- At most this many aliases are followed when types are compared. -/
def maxExpansions : Nat := 64

def expand (n : Names) (t : ResolvedType) : ResolvedType := n.expandIn maxExpansions [] t

/-- The declarations of the super types of a class, aliases expanded. Unknown ones are left out. -/
def superClasses (n : Names) (k : NodeKey) : List NodeKey :=
  match n.models.shape? k with
  | some (.classLike c) =>
    c.superTypes.filterMap fun r => (n.reference? (k.sibling r)).map fun t => (n.expand t).declaration
  | _ => []

theorem mem_keys_of_superClasses {n : Names} {k : NodeKey} (h : n.superClasses k ≠ []) :
    k ∈ n.models.keys := by
  unfold superClasses at h
  split at h
  · exact Models.mem_keys (by assumption)
  · exact absurd rfl h

def superGraph (n : Names) : Graph NodeKey :=
  ⟨n.superClasses,n.models.keys,fun _ h => mem_keys_of_superClasses h⟩

/-- The first member function of a class with a given name and number of parameters. -/
def matching? (n : Names) (name : String) (arity : Nat) (k : NodeKey) : Option NodeKey :=
  match n.models.shape? k with
  | some (.classLike c) =>
    (c.declarations.map k.sibling).find? fun d =>
      match n.models.shape? d with
      | some (.function f) => f.name == name && f.parameters.length == arity
      | _ => false
  | _ => none

/-- The super classes of a class that has no function of the given name and number of parameters. -/
def superGraphAbove (n : Names) (name : String) (arity : Nat) : Graph NodeKey where
  next k := if (n.matching? name arity k).isSome then [] else n.superClasses k
  sources := n.models.keys
  mem_sources k h := by
    split at h
    · exact absurd rfl h
    · exact mem_keys_of_superClasses h

/-- The nearest functions above a function that it overrides, in the order in which a search by levels
meets their classes. -/
def overriddenBy (n : Names) (k : NodeKey) (name : String) (arity : Nat) : List NodeKey :=
  match n.models.parent? k with
  | none => []
  | some owner =>
    let visited := (n.superGraphAbove name arity).explore false [owner] (n.superClasses owner)
    (visited.drop 1).filterMap (n.matching? name arity)

def parameterType? (n : Names) (k : NodeKey) : Option ResolvedType :=
  match n.models.shape? k with
  | some (.valueParameter p) => n.typeOf? k p.typeReference
  | _ => none

/-- A constructor without a written type makes its parent. -/
def returnType? (n : Names) (k : NodeKey) (f : FunctionShape) : Option ResolvedType :=
  if f.returnType = none ∧ f.form = .constructor then (n.models.parent? k).map ResolvedType.simple
  else n.typeOf? k f.returnType

def functionDescriptor? (n : Names) (k : NodeKey) (f : FunctionShape) : Option Descriptor := do
  let parameters ← f.parameters.mapM fun p => n.parameterType? (k.sibling p)
  let overridden :=
    if f.modifiers.contains .overriding then n.overriddenBy k f.name f.parameters.length else []
  return ⟨k,f.name,parameters,n.returnType? k f,overridden⟩

/-- Files, references and annotations have no descriptor, and neither has a function with a parameter
of unknown type. -/
def descriptor? (n : Names) (k : NodeKey) : Option Descriptor :=
  match n.models.shape? k with
  | none => none
  | some (.function f) => n.functionDescriptor? k f
  | some (.property p) => some ⟨k,p.name,[],n.typeOf? k p.typeReference,[]⟩
  | some (.valueParameter p) => some ⟨k,p.name.getD "",[],n.typeOf? k p.typeReference,[]⟩
  | some (.classLike s) => some ⟨k,s.name,[],none,[]⟩
  | some (.typeAlias s) => some ⟨k,s.name,[],none,[]⟩
  | some (.typeParameter s) => some ⟨k,s.name,[],none,[]⟩
  | some (.file _) | some (.typeReference _) | some (.annotationEntry _) => none

/-- Functions of one name are compatible if their parameters have the same types, aliases expanded. -/
def compatibility (n : Names) (base candidate : Descriptor) : Compatibility :=
  if base.name ≠ candidate.name then .conflict
  else if base.parameters.map n.expand = candidate.parameters.map n.expand then .overridable
  else .incompatible

/-- Private declarations are visible in their own file. -/
def visible (n : Names) (k scope : NodeKey) : Bool :=
  let isPrivate := ((n.models.shape? k).bind Shape.modifiers?).any (·.contains .privateAccess)
  !isPrivate || n.models.root k == n.models.root scope

/-- A type takes the values of another one, aliases expanded, if it admits null where the other does
and is built from the same declaration with the same arguments or from a super class. -/
def assignable (n : Names) (target source : ResolvedType) : Bool :=
  let target := n.expand target
  let source := n.expand source
  if source.nullable && !target.nullable then false
  else if target.declaration = source.declaration then target.arguments = source.arguments
  else (n.superGraph.reach source.declaration).contains target.declaration

theorem mem_keys_of_descriptor? {n : Names} {k : NodeKey} (h : (n.descriptor? k).isSome) :
    k ∈ n.models.keys := by
  cases e : n.models.shape? k with
  | none => simp [descriptor?,e] at h
  | some s => exact Models.mem_keys e

/-- The oracle that answers from names. -/
def oracle (n : Names) : Oracle where
  files := n.models.files
  descriptor := n.descriptor?
  reference := n.reference?
  compatibility := n.compatibility
  visible := n.visible
  assignable := n.assignable
  described := n.models.keys
  mem_described _ h := mem_keys_of_descriptor? h

end Names
end SymbolGraph
