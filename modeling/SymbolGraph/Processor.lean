import SymbolGraph.Session.Overriding
import SymbolGraph.Session.Types
import SymbolGraph.Traversal

/-! Processors: what is recorded of the sources of a run, a line for each record. -/
namespace SymbolGraph

inductive Processor
  | packageNames | aliasComparison | overridee
  deriving DecidableEq, Repr

namespace Processor

open Gathering

def all : List Processor := [.packageNames,.aliasComparison,.overridee]

def name : Processor → String
  | .packageNames => "package-names"
  | .aliasComparison => "alias-comparison"
  | .overridee => "overridee"

theorem mem_all (p : Processor) : p ∈ all := by cases p <;> decide

def ofName (name : String) : Except Error Processor :=
  match all.find? (·.name = name) with
  | some p => .ok p
  | none => .error (.unknownProcessor name)

theorem ofName_name (p : Processor) : ofName p.name = .ok p := by cases p <;> rfl

/-- Whether a reference carries an annotation that marks it for comparison. -/
def isInteresting (r : ReferenceView) : Session Bool := do
  let config := (← read).config
  return (← r.annotations).any fun a => config.isInteresting a.shape.shortName

/-- The types that a marked reference stands for, down its aliases. Others stand for none. -/
def comparedTypes (r : ReferenceView) : Session (List InternedType) := do
  if ← isInteresting r then (← r.resolve).aliasChain else return []

def comparison (i j : InternedType) : Session String := do
  let left ← i.shown
  let right ← j.shown
  return left ++ " = " ++ right ++ " : " ++ toString (← i.isAssignableFrom j)

/-- Compares all types that marked references stand for with one another. -/
def compareAliases : Gathering (Array String) Unit := do
  let references ← ofSession <| gathered Visitor.references.visitFiles #[]
  let types := (← references.toList.mapM fun r => ofSession (comparedTypes r)).flatten
  types.forM fun i => types.forM fun j => do record (← ofSession (comparison i j))

/-- Records the function at the root of those that an overriding function overrides. -/
def overridees : Visitor (Array String) := .preorder fun n => do
  if let some f := n.as? FunctionShape then
    if f.shape.modifiers.contains .overriding then
      if let some o ← ofSession f.findOverridee then
        let name ← ofSession f.toDeclaration.displayName
        record (name ++ " -> " ++ (← ofSession o.toDeclaration.displayName))

/-- Appends the records of a run. -/
def process : Processor → Gathering (Array String) Unit
  | .packageNames => do (Visitor.names (← read).config.noPackagePlaceholder).visitFiles
  | .aliasComparison => compareAliases
  | .overridee => overridees.visitFiles

/-- The records of a processor over the sources, in a session of its own. -/
def run (p : Processor) (env : Environment) : Except Error (Array String) :=
  (gathered p.process #[]).runFresh env

end Processor
end SymbolGraph
