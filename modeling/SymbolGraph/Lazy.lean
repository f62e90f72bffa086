import SymbolGraph.Attempt

/-! Attributes that are computed when they are first read. A computation that fails leaves its
attribute as it was, and one that reads its own attribute is refused. -/
namespace SymbolGraph

inductive Lazy (A : Type)
  | unresolved | resolving
  | resolved (a : A)
  deriving DecidableEq, Repr, Inhabited

namespace Lazy

variable {A : Type}

def isResolved : Lazy A → Bool
  | .resolved _ => true
  | _ => false

def value? : Lazy A → Option A
  | .resolved a => some a
  | _ => none

end Lazy

/-- The place of an attribute in a state. -/
structure Cell (S A : Type) where
  get : S → Lazy A
  set : Lazy A → S → S

namespace Cell

variable {S A : Type}

/-- Reads an attribute, computing it by `init` at first. -/
def getOrInit (c : Cell S A) (name : String) (init : Attempt S A) : Attempt S A := fun s =>
  match c.get s with
  | .resolved a => (.ok a,s)
  | .resolving => (.error (.reentrantResolution name),s)
  | .unresolved =>
    match init (c.set .resolving s) with
    | (.ok a,s) => (.ok a,c.set (.resolved a) s)
    | (.error e,s) => (.error e,c.set .unresolved s)

theorem getOrInit_resolved {c : Cell S A} {s : S} {a : A} (h : c.get s = .resolved a)
    (name : String) (init : Attempt S A) : c.getOrInit name init s = (.ok a,s) := by
  simp [getOrInit,h]

/-- An element of an array of attributes. There is nothing to read beyond its end. -/
def ofIndex (i : Nat) : Cell (Array (Lazy A)) A where
  get cells := cells[i]?.getD .unresolved
  set v cells := cells.setIfInBounds i v

end Cell
end SymbolGraph
