import SymbolGraph.Search
import SymbolGraph.Type

/-! Semantic oracles: what is known of a program beyond its syntax. An oracle answers every question
the same way each time, and describes finitely many declarations. -/
namespace SymbolGraph

structure Oracle where
  /-- The files of a run, in order. -/
  files : List NodeKey
  descriptor : NodeKey → Option Descriptor
  reference : NodeKey → Option ResolvedType
  /-- Whether the second function may override the first. -/
  compatibility : Descriptor → Descriptor → Compatibility
  /-- Whether the first declaration is visible from the second. -/
  visible : NodeKey → NodeKey → Bool
  /-- Whether the first type takes values of the second. -/
  assignable : ResolvedType → ResolvedType → Bool
  described : List NodeKey
  mem_described : ∀ k, (descriptor k).isSome → k ∈ described

/-- A question put to an oracle. -/
inductive Query
  | files
  | descriptor (declaration : NodeKey)
  | reference (reference : NodeKey)
  | compatibility (base candidate : NodeKey)
  | visible (declaration scope : NodeKey)
  | assignable (target source : NodeKey)
  deriving DecidableEq, Repr

namespace Query

instance : ToString Query where
  toString
    | .files => "files"
    | .descriptor k => s!"declaration {k}"
    | .reference k => s!"reference {k}"
    | .compatibility b c => s!"compatibility {b} {c}"
    | .visible d s => s!"visible {d} {s}"
    | .assignable t s => s!"assignable {t} {s}"

end Query

namespace Oracle

/-- The declarations that a declaration overrides directly. -/
def overridden (o : Oracle) (k : NodeKey) : List NodeKey :=
  match o.descriptor k with
  | some d => d.overridden
  | none => []

/-- The graph from functions to the functions that they override. -/
def overriddenGraph (o : Oracle) : Graph NodeKey where
  next := o.overridden
  sources := o.described
  mem_sources k h := o.mem_described k <| by
    cases e : o.descriptor k with
    | none => simp [overridden,e] at h
    | some => rfl

/-- The oracle that knows the files and nothing else. -/
def syntactic (files : List NodeKey) : Oracle where
  files := files
  descriptor _ := none
  reference _ := none
  compatibility _ _ := .incompatible
  visible _ _ := true
  assignable t s := t = s
  described := []
  mem_described _ h := by cases h

/-- An oracle that reads its answers from tables. -/
structure Tables where
  files : List NodeKey
  descriptors : List (NodeKey × Descriptor)
  references : List (NodeKey × ResolvedType)
  compatibility : Compatibility
  hidden : List NodeKey
  assignable : List (NodeKey × NodeKey)

theorem mem_keys_of_lookup {A : Type} {l : List (NodeKey × A)} {k : NodeKey}
    (h : (l.lookup k).isSome) : k ∈ l.map (·.1) := by
  induction l with
  | nil => cases h
  | cons e l ih =>
    rw [List.lookup_cons] at h
    by_cases hk : k = e.1
    · simp [hk]
    · have hb : (k == e.1) = false := by simpa using hk
      rw [hb] at h
      exact List.mem_cons_of_mem _ (ih h)

/-- Types are assignable if they are equal or if their declarations are listed. -/
def ofTables (t : Tables) : Oracle where
  files := t.files
  descriptor k := t.descriptors.lookup k
  reference k := t.references.lookup k
  compatibility _ _ := t.compatibility
  visible k _ := !t.hidden.contains k
  assignable target source :=
    target = source || t.assignable.contains (target.declaration,source.declaration)
  described := t.descriptors.map (·.1)
  mem_described _ h := mem_keys_of_lookup h

end Oracle
end SymbolGraph
