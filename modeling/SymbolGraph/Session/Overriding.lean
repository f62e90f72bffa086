import SymbolGraph.Session.References

/-! Which functions override which, and the function at the root of a chain of overriding ones. -/
namespace SymbolGraph
namespace View

open Session

/-- Whether a declaration can be overridden, as far as the sources tell. What a class of Java declares
is open unless it says otherwise. -/
def isOpen (d : Declaration) : Session Bool := do
  if ← d.isLocal then return false
  if let .classLike c := d.shape then
    if c.classKind = .interface then return true
  if [.overriding,.abstracted,.opened].any d.modifiers.contains then return true
  if (← parentClassKind? d) = some .interface then return true
  return d.header.origin = .java && !d.modifiers.contains .final

/-- Whether a function overrides another one. The oracle is asked only if the sources admit it. -/
def overrides (f base : FunctionView) : Session Bool := do
  if !f.shape.modifiers.contains .overriding then return false
  if !(← base.toDeclaration.isOpen) then return false
  if !(← askVisible base.anchor f.anchor) then return false
  match ← askDescriptor base.anchor with
  | none => return false
  | some b => return (← askCompatibility b (← descriptor f.anchor)) = .overridable

/-- The functions that a function overrides, directly or not, and that override nothing. -/
def overriddenRoots (f : FunctionView) : Session (List NodeKey) := do
  let own ← descriptor f.anchor
  let above := (← read).oracle.overriddenGraph.explore true [] own.overridden
  above.filterM fun k => return (← descriptor k).overridden.isEmpty

/-- The function at the root of all that a function overrides. There must not be two. -/
def findOverridee (f : FunctionView) : Session (Option FunctionView) := do
  let overridee : Option SymbolId ← memo f.id .overridee do
    match ← f.overriddenRoots with
    | [] => return none
    | [root] => return some (← typed FunctionShape root).id
    | roots => fail (.ambiguousOverridee (← f.toDeclaration.displayName) roots.length)
  match overridee with
  | none => return none
  | some id => return some (← typedById FunctionShape id)

end View
end SymbolGraph
