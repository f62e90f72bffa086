import SymbolGraph.Handlers
import SymbolGraph.Proofs.Visit

/-! Dispatch by kinds. However a symbol is reached, as a node, as a declaration or as a child of one kind, it is
handled in one way, so handlers for each kind do what one visitor does. -/
namespace SymbolGraph

open Gathering

variable {G A B S : Type} [Viewed S]

/-! ### Groups of children -/

namespace Gathering

theorem forM_nil (m : A → Gathering G Unit) : [].forM m = pure () := rfl

theorem forM_cons (m : A → Gathering G Unit) (a : A) (as : List A) :
    (a :: as).forM m = (do m a; as.forM m) := rfl

theorem forM_singleton (m : A → Gathering G Unit) (a : A) : [a].forM m = m a := bind_pure_unit

variable {x : Session (View S)} {xs : Session (List (View S))} {o : Session (Option (View S))}
  {f : View S → Gathering G Unit} {g : Node → Gathering G Unit}

theorem forM_nodes (same : ∀ v : View S, g v.toNode = f v) :
    (do (← ofSession (View.nodes xs)).forM g) = (do (← ofSession xs).forM f) := by
  have each : ∀ vs : List (View S), (vs.map (·.toNode)).forM g = vs.forM f := by
    intro vs
    induction vs with
    | nil => rfl
    | cons v vs ih =>
      rw [List.map_cons,forM_cons,forM_cons,same,ih]
  rw [View.nodes,ofSession_map,bind_assoc]
  simp only [pure_bind,each]

theorem forM_singleNode (same : ∀ v : View S, g v.toNode = f v) :
    (do (← ofSession (View.singleNode x)).forM g) = (do f (← ofSession x)) := by
  rw [View.singleNode,ofSession_map,bind_assoc]
  simp only [pure_bind,forM_singleton,same]

theorem forM_optionalNode (same : ∀ v : View S, g v.toNode = f v) :
    (do (← ofSession (View.optionalNode o)).forM g) = (do (← ofSession o).forM f) := by
  have each : ∀ v : Option (View S), (v.toList.map (·.toNode)).forM g = v.forM f := by
    intro v
    cases v with
    | none => rfl
    | some v => exact (forM_singleton g _).trans (same v)
  rw [View.optionalNode,ofSession_map,bind_assoc]
  simp only [pure_bind,each]

end Gathering

/-! ### Handlers and visitors -/

namespace Handlers

variable {v : Handlers G} {skip : SymbolKey → Bool} {leave : Node → Gathering G Unit}

@[simp] theorem node_toNode_reference (r : ReferenceView) : v.node r.toNode = v.reference r := by
  obtain ⟨h,_ | _⟩ := r <;> rfl

/-- A declaration is handled as it is as a node. -/
@[simp] theorem node_toNode_declaration (d : Declaration) : v.node d.toNode = v.declaration d := by
  obtain ⟨h,_ | _ | _ | _ | _⟩ := d <;> rfl

theorem node_without (n : Node) :
    (without skip v).node n = if skip n.header.key then pure () else v.node n := by
  obtain ⟨h,⟨_ | _ | _ | _ | _ | _ | _ | _ | _⟩ | _⟩ := n <;> rfl

/-- The walk of a kind goes through the groups of children that a symbol of the kind has. -/
theorem node_walks (n : Node) : (walks v leave).node n = (do
    n.childGroups.forM fun group => do (← ofSession group).forM v.node
    leave n) := by
  obtain ⟨h,⟨s | s | s | s | s | s | s | s | s⟩ | _⟩ := n <;>
    simp only [View.childGroups,forM_cons,forM_nil,bind_assoc,pure_bind,
      forM_nodes (f := v.annotation) (g := v.node) fun _ => rfl,
      forM_nodes (f := v.typeParameter) (g := v.node) fun _ => rfl,
      forM_nodes (f := v.valueParameter) (g := v.node) fun _ => rfl,
      forM_nodes node_toNode_declaration,forM_nodes node_toNode_reference,
      forM_singleNode node_toNode_reference,forM_optionalNode node_toNode_reference] <;> rfl

theorem node_idle (n : Node) : (idle : Handlers G).node n = pure () := by
  obtain ⟨h,⟨_ | _ | _ | _ | _ | _ | _ | _ | _⟩ | _⟩ := n <;> rfl

theorem node_prunedTo (depth : Nat) (n : Node) :
    (prunedTo skip leave depth).node n = (Visitor.pruned skip leave).visitIn depth n := by
  induction depth generalizing n with
  | zero => exact node_idle n
  | succ depth ih =>
    have below : (prunedTo skip leave depth).node = (Visitor.pruned skip leave).visitIn depth := funext ih
    rw [prunedTo,node_without,node_walks,below,Visitor.visitIn_pruned]

/-- The handlers of all kinds together do what the visitor does. -/
theorem node_pruned (env : Environment) (n : Node) :
    (pruned skip leave env.models).node n env = (Visitor.pruned skip leave).visit n env :=
  congrFun (node_prunedTo _ n) env

end Handlers
end SymbolGraph
