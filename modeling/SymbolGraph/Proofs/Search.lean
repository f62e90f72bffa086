import Mathlib.Data.List.Nodup
import Mathlib.Logic.Relation
import SymbolGraph.Search

/-! What a search visits: all that can be reached from its starts, each place once. -/
namespace SymbolGraph
namespace Graph

variable {K : Type} [DecidableEq K] (g : Graph K) (deep : Bool)

/-- A property that the edges preserve holds of all visited places if it holds of the starts. -/
theorem forall_mem_explore {P : K → Prop} (step : ∀ k, P k → ∀ j ∈ g.next k, P j)
    (visited pending : List K) (hv : ∀ k ∈ visited, P k) (hp : ∀ k ∈ pending, P k) :
    ∀ k ∈ g.explore deep visited pending, P k := by
  induction visited, pending using Graph.explore.induct g deep with
  | case1 visited => rw [explore]; exact hv
  | case2 visited k rest known ih =>
    rw [explore,if_pos known]
    exact ih hv (List.forall_mem_cons.mp hp).2
  | case3 visited k rest new ih =>
    obtain ⟨hk,hr⟩ := List.forall_mem_cons.mp hp
    rw [explore,if_neg new]
    refine ih ?_ ?_
    · exact List.forall_mem_append.mpr ⟨hv,List.forall_mem_singleton.mpr hk⟩
    · cases deep with
      | true => exact List.forall_mem_append.mpr ⟨step k hk,hr⟩
      | false => exact List.forall_mem_append.mpr ⟨hr,step k hk⟩

theorem prefix_explore (visited pending : List K) : visited <+: g.explore deep visited pending := by
  induction visited, pending using Graph.explore.induct g deep with
  | case1 visited =>
    have ended : g.explore deep visited [] = visited := by rw [explore]
    exact ended.symm ▸ List.prefix_rfl
  | case2 visited k rest known ih =>
    rw [explore,if_pos known]
    exact ih
  | case3 visited k rest new ih =>
    rw [explore,if_neg new]
    exact (List.prefix_append visited [k]).trans ih

theorem mem_explore_of_mem_visited {visited pending : List K} {k : K} (h : k ∈ visited) :
    k ∈ g.explore deep visited pending := (g.prefix_explore deep visited pending).subset h

/-- No place is visited twice. -/
theorem nodup_explore {visited pending : List K} (h : visited.Nodup) :
    (g.explore deep visited pending).Nodup := by
  induction visited, pending using Graph.explore.induct g deep with
  | case1 visited => rwa [explore]
  | case2 visited k rest known ih =>
    rw [explore,if_pos known]
    exact ih h
  | case3 visited k rest new ih =>
    rw [explore,if_neg new]
    apply ih
    rw [List.nodup_append_comm,List.singleton_append]
    exact List.nodup_cons.mpr ⟨new,h⟩

/-- Every start is visited, and from every place that a search visits it goes on to what follows. -/
theorem explore_closed (visited pending : List K) :
    (∀ k ∈ pending, k ∈ g.explore deep visited pending) ∧
      ∀ k ∈ g.explore deep visited pending, k ∉ visited →
        ∀ j ∈ g.next k, j ∈ g.explore deep visited pending := by
  induction visited, pending using Graph.explore.induct g deep with
  | case1 visited =>
    rw [explore]
    exact ⟨nofun,fun k hk new => absurd hk new⟩
  | case2 visited k rest known ih =>
    rw [explore,if_pos known]
    exact ⟨List.forall_mem_cons.mpr ⟨g.mem_explore_of_mem_visited deep known,ih.1⟩,ih.2⟩
  | case3 visited k rest new ih =>
    rw [explore,if_neg new]
    have follows : ∀ j, j ∈ rest ∨ j ∈ g.next k →
        j ∈ g.explore deep (visited ++ [k]) (if deep then g.next k ++ rest else rest ++ g.next k) := by
      intro j hj
      apply ih.1
      cases deep with
      | true => exact List.mem_append.mpr hj.symm
      | false => exact List.mem_append.mpr hj
    have own : k ∈ visited ++ [k] := List.mem_append_right _ (List.mem_singleton.mpr rfl)
    refine ⟨List.forall_mem_cons.mpr ⟨g.mem_explore_of_mem_visited deep own,fun j hj => follows j (.inl hj)⟩,?_⟩
    intro i hi fresh j hj
    by_cases same : i = k
    · subst same
      exact follows j (.inr hj)
    · apply ih.2 i hi _ j hj
      intro mem
      rcases List.mem_append.mp mem with before | last
      · exact fresh before
      · exact same (List.mem_singleton.mp last)

/-- What a search visits is reached from its starts by edges that avoid what was visited before. -/
theorem reached_of_mem_explore (visited pending : List K) : ∀ k ∈ g.explore deep visited pending, k ∈ visited ∨
    ∃ j ∈ pending, j ∉ visited ∧ Relation.ReflTransGen (fun a b => b ∈ g.next a ∧ b ∉ visited) j k := by
  induction visited, pending using Graph.explore.induct g deep with
  | case1 visited =>
    rw [explore]
    exact fun k hk => .inl hk
  | case2 visited j rest known ih =>
    rw [explore,if_pos known]
    intro k hk
    refine (ih k hk).imp_right fun ⟨i,hi,reached⟩ => ⟨i,List.mem_cons_of_mem _ hi,reached⟩
  | case3 visited j rest new ih =>
    rw [explore,if_neg new]
    intro k hk
    rcases ih k hk with before | ⟨i,hi,fresh,reached⟩
    · rcases List.mem_append.mp before with before | own
      · exact .inl before
      · obtain rfl := List.mem_singleton.mp own
        exact .inr ⟨k,List.mem_cons_self,new,.refl⟩
    · -- From here on the search avoids one place more, so its way is also one for the search so far.
      have weaker : Relation.ReflTransGen (fun a b => b ∈ g.next a ∧ b ∉ visited) i k :=
        .mono (fun _ _ step => ⟨step.1,fun old => step.2 (List.mem_append_left _ old)⟩) _ _ reached
      have fresh : i ∉ visited := fun old => fresh (List.mem_append_left _ old)
      have waiting : i ∈ g.next j ∨ i ∈ rest := by cases deep <;> simp_all [or_comm]
      rcases waiting with next | rest
      · exact .inr ⟨j,List.mem_cons_self,new,weaker.head ⟨next,fresh⟩⟩
      · exact .inr ⟨i,List.mem_cons_of_mem _ rest,fresh,weaker⟩

/-- A search visits exactly what is reached from its starts by edges that avoid what was visited before,
whatever else the edges come back to. -/
theorem mem_explore {visited pending : List K} {k : K} : k ∈ g.explore deep visited pending ↔ k ∈ visited ∨
    ∃ j ∈ pending, j ∉ visited ∧ Relation.ReflTransGen (fun a b => b ∈ g.next a ∧ b ∉ visited) j k := by
  constructor
  · exact g.reached_of_mem_explore deep visited pending k
  · obtain ⟨starts,closed⟩ := g.explore_closed deep visited pending
    rintro (before | ⟨j,hj,fresh,reached⟩)
    · exact g.mem_explore_of_mem_visited deep before
    · have along : k ∈ g.explore deep visited pending ∧ k ∉ visited := by
        induction reached with
        | refl => exact ⟨starts j hj,fresh⟩
        | tail _ step ih => exact ⟨closed _ ih.1 ih.2 _ step.1,step.2⟩
      exact along.1

theorem mem_explore_nil {pending : List K} {k : K} : k ∈ g.explore deep [] pending ↔
    ∃ j ∈ pending, Relation.ReflTransGen (fun a b => b ∈ g.next a) j k := by
  simp [mem_explore]

theorem mem_reach {j k : K} : k ∈ g.reach j ↔ Relation.ReflTransGen (fun a b => b ∈ g.next a) j k := by
  simp [reach,mem_explore_nil]

end Graph
end SymbolGraph
