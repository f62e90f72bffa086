/-! Searching a graph from several starts at once, each place once. -/
namespace SymbolGraph

/-- A graph whose edges begin at finitely many places. -/
structure Graph (K : Type) where
  next : K → List K
  sources : List K
  mem_sources : ∀ k, next k ≠ [] → k ∈ sources

namespace Graph

variable {K : Type} [DecidableEq K]

/-- The number of edges that begin at given places. -/
def edges (g : Graph K) (places : List K) : Nat := (places.flatMap g.next).length

/-- The number of edges that begin at places not visited so far. -/
def room (g : Graph K) (visited : List K) : Nat := g.edges (g.sources.filter (· ∉ visited))

theorem edges_filter_ne (g : Graph K) (k : K) (places : List K) :
    g.edges (places.filter (· ≠ k)) + (if k ∈ places then (g.next k).length else 0) ≤ g.edges places := by
  induction places with
  | nil => simp [edges]
  | cons j places ih =>
    by_cases h : j = k
    · subst h
      rw [List.filter_cons_of_neg (by simp)]
      simp only [edges,List.flatMap_cons,List.length_append,List.mem_cons,true_or,if_true] at ih ⊢
      split at ih <;> omega
    · rw [List.filter_cons_of_pos (by simpa using h)]
      simp only [edges,List.flatMap_cons,List.length_append,List.mem_cons,Ne.symm h,false_or] at ih ⊢
      omega

/-- A visit takes the room of the edges that it follows. -/
theorem room_append (g : Graph K) {visited : List K} {k : K} (new : k ∉ visited) :
    g.room (visited ++ [k]) + (g.next k).length ≤ g.room visited := by
  have fewer := g.edges_filter_ne k (g.sources.filter (· ∉ visited))
  have same : g.sources.filter (· ∉ visited ++ [k]) = (g.sources.filter (· ∉ visited)).filter (· ≠ k) := by
    rw [List.filter_filter]
    congr 1; funext x
    simp [and_comm]
  rw [room,room,same]
  by_cases h : g.next k = []
  · rw [h,List.length_nil] at *
    omega
  · rwa [if_pos (by simp [g.mem_sources k h,new])] at fewer

/-- The places reached from `pending`, after those visited before, in the order of the visits. Places
that a visit finds wait behind all others, or before them in a search that goes deep first. -/
def explore (g : Graph K) (deep : Bool) (visited : List K) : List K → List K
  | [] => visited
  | k :: rest =>
    if k ∈ visited then explore g deep visited rest
    else explore g deep (visited ++ [k]) (if deep then g.next k ++ rest else rest ++ g.next k)
  -- One number and not a pair of them, so that evaluation opens the recursion.
  termination_by pending => g.room visited + pending.length
  decreasing_by
    · simp
    · rename_i new
      have taken := g.room_append new
      cases deep <;> simp <;> omega

/-- The places reached from a place, itself included. -/
def reach (g : Graph K) (k : K) : List K := g.explore false [] [k]

end Graph
end SymbolGraph
