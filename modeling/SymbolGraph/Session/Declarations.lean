import SymbolGraph.Session.Basic

/-! Where declarations stand: their parents, their files, and the names that follow from these. -/
namespace SymbolGraph
namespace Session

/-- The symbols of the nodes of a child list, all of one kind. -/
def children {T : Type} [Viewed T] (v : View T) (l : ChildList) (nodes : List NodeId)
    (S : Type) [OneKind S] : Session (List (View S)) := do
  let ids : List SymbolId ← memo v.id (.children l) <| nodes.mapM fun n => do
    return (← typed S (v.near n)).id
  ids.mapM (typedById S)

/-- A symbol that must be a declaration. -/
def declaration (n : Node) : Session Declaration := orFail (.notADeclaration n.anchor) n.asDeclaration?

/-- The declarations of a child list. -/
def childDeclarations {T : Type} [Viewed T] (v : View T) (nodes : List NodeId) :
    Session (List Declaration) := do
  let ids : List SymbolId ← memo v.id (.children .declarations) <| nodes.mapM fun n => do
    return (← node (v.near n)).id
  ids.mapM fun id => do declaration (← nodeById id)

/-- An optional child of one kind. -/
def child? {T : Type} [Viewed T] (v : View T) (n : Option NodeId) (S : Type) [OneKind S] :
    Session (Option (View S)) :=
  match n with
  | none => return none
  | some n => return some (← typed S (v.near n))

/-- A written type reference, or the deferred one in its place. -/
def typeReference {T : Type} [Viewed T] (v : View T) : Option NodeId → Session ReferenceView
  | some n => typed ReferenceForm (v.near n)
  | none => deferredReference v.anchor

end Session

namespace View

open Session

def annotations {T : Type} [Annotated T] (v : View T) : Session (List AnnotationView) :=
  children v .annotations (Annotated.annotations v.shape) AnnotationShape

section Declaration

variable (d : Declaration)

def name : String := d.shape.name

def modifiers : Modifiers := d.shape.modifiers

def typeParameters : Session (List TypeParameterView) :=
  children d .typeParameters d.shape.typeParameters TypeParameterShape

/-- The declaration around a declaration. -/
def parentDeclaration : Session (Option Declaration) := do
  let parent : Option SymbolId ← memo d.id .parentDeclaration do
    match ← rawParent? d.anchor with
    | some p => return (← node p).asDeclaration?.map (·.id)
    | none => return none
  match parent with
  | some id => return some (← declaration (← nodeById id))
  | none => return none

def containingFile : Session FileView := do
  let file : SymbolId ← memo d.id .containingFile do
    let root ← orFail (.unknownNode d.anchor) (← rawAncestors d.anchor).getLast?
    return (← typed FileShape root).id
  typedById FileShape file

/-- The package of the file around a declaration. It is empty for the root package. -/
def packageName : Session String :=
  memo d.id .packageName do return (← d.containingFile).shape.package

def anyFunction : List NodeKey → Session Bool
  | [] => return false
  | k :: ks => do
    if (← rawShape k).kind = .function then return true else anyFunction ks

/-- Whether a declaration stands inside a function. -/
def isLocal : Session Bool := memo d.id .isLocal do anyFunction (← rawAncestors d.anchor)

/-- The names from the package down to a declaration, joined by points. Type parameters and what is
local to a function have none. -/
def qualifiedName : Session (Option String) := memo d.id .qualifiedName do
  if d.kind = .typeParameter then return none
  if ← d.isLocal then return none
  let outer ← (← rawAncestors d.anchor).filterMapM fun k => return (← rawShape k).declaredName?
  let package ← d.packageName
  let scope := if package.isEmpty then outer.reverse else package :: outer.reverse
  return some (".".intercalate (scope ++ [d.name]))

/-- The qualified name, or the simple one if there is none. -/
def displayName : Session String := return (← d.qualifiedName).getD d.name

/-- The declarations inside a declaration, in the order of the source. -/
def declarations : Session (List Declaration) :=
  match d.shape.declarations? with
  | some nodes => childDeclarations d nodes
  | none => return []

end Declaration

/-- The declarations at the top of a file, in the order of the source. -/
def topLevel (f : FileView) : Session (List Declaration) := childDeclarations f f.shape.declarations

end View
end SymbolGraph
