import SymbolGraph.Session.References

/-! Traversals: a visitor meets a symbol before its children and after them, and may leave out what is
below a symbol. -/
namespace SymbolGraph

/-- A session in the course of which something is gathered. -/
abbrev Gathering (G A : Type) := ReaderT Environment (Attempt (State × G)) A

namespace Gathering

variable {G A : Type}

def ofSession (x : Session A) : Gathering G A := fun env => (x env).first

def update (f : G → G) : Gathering G Unit := fun _ => Attempt.modify fun (s,g) => (s,f g)

/-- Appends a record to those gathered. -/
def record (a : A) : Gathering (Array A) Unit := update (·.push a)

/-- What is gathered by a computation that does not fail. -/
def gathered (x : Gathering G Unit) (initial : G) : Session G := fun env s =>
  match x env (s,initial) with
  | (.ok _,(s,g)) => (.ok g,s)
  | (.error e,(s,_)) => (.error e,s)

end Gathering

structure Visitor (G : Type) where
  /-- Meets a symbol, and says whether to go on to its children. -/
  enter : Node → Gathering G Bool
  /-- Meets a symbol again after its children. -/
  leave : Node → Gathering G Unit

namespace Visitor

open Gathering

variable {G : Type}

/-- Visits a symbol and what is below it, to a depth of `depth`. Each group of children is found just
before it is visited. -/
def visitIn (v : Visitor G) : Nat → Node → Gathering G Unit
  | 0, _ => return
  | depth+1, n => do
    if ← v.enter n then
      n.childGroups.forM fun group => do (← ofSession group).forM (visitIn v depth)
      v.leave n

/-- Visits a symbol and what is below it. Symbols nest no deeper than there are nodes, and a deferred
reference below the deepest of them. -/
def visit (v : Visitor G) (n : Node) : Gathering G Unit := do
  v.visitIn ((← read).models.size + 2) n

/-- Visits all files. -/
def visitFiles (v : Visitor G) : Gathering G Unit := do
  (← ofSession Session.allFiles).forM fun f => v.visit f.toNode

/-- Meets every symbol once, after its children. -/
def postorder (leave : Node → Gathering G Unit) : Visitor G := ⟨fun _ => return true,leave⟩

/-- Meets every symbol once, before its children. -/
def preorder (enter : Node → Gathering G Unit) : Visitor G where
  enter n := do enter n; return true
  leave _ := return

/-- Gathers the type references, each once, after those inside it. -/
def references : Visitor (Array ReferenceView) := postorder fun n => do
  if let some r := n.as? ReferenceForm then
    update fun rs => if rs.any (·.id == r.id) then rs else rs.push r

/-- Gathers the packages and the names of classes, functions and properties. -/
def names (noPackage : String) : Visitor (Array String) := preorder fun n => do
  match n.asDeclaration? with
  | some d =>
    match d.shape with
    | .classLike _ | .function _ | .property _ =>
      let package ← ofSession d.packageName
      record ((if package.isEmpty then noPackage else package) ++ ":" ++ d.name)
    | .typeAlias _ | .typeParameter _ => return
  | none => return

end Visitor
end SymbolGraph
