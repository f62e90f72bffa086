import SymbolGraph.Proofs.Identity

/-! No computation of an attribute waits for itself. An attribute is computed from attributes of lower ranks only,
which holds for the attributes of symbols of all kinds, over any models and any oracle, so an action meets no
attribute that is being computed. It leaves none behind either, whether it fails or not. -/
namespace SymbolGraph

variable {env : Environment} {s : State}

namespace State

/-- No attribute of a symbol is being computed. -/
def Idle (s : State) : Prop := ∀ id a, (cell id a).get s ≠ .resolving

/-- What one state has for an attribute against what a later one has: an attribute is either as it was, or has
been computed in between. -/
def Settles (s s' : State) : Prop :=
  ∀ id a, (cell id a).get s' = (cell id a).get s ∨
    (cell id a).get s = .unresolved ∧ ∃ v, (cell id a).get s' = .resolved v

theorem Settles.resolved {s' : State} (h : s.Settles s') {id : SymbolId} {a : Attribute} {v : a.Value}
    (hv : (cell id a).get s = .resolved v) : (cell id a).get s' = .resolved v := by
  rcases h id a with same | ⟨unresolved,-⟩
  · rw [same,hv]
  · exact nomatch unresolved.symm.trans hv

/-- All ranks are below the bound, so nothing is being computed. -/
theorem Sound.idle_of_rank (h : s.Sound env 4) : s.Idle := by
  intro id a resolving
  have bound : 4 ≤ a.rank := h.idle resolving
  have ranks : a.rank < 4 := by cases a <;> simp [Attribute.rank]
  omega

theorem Grows.settles {s' : State} (h : s.Grows s') (idle : s.Idle) (idle' : s'.Idle) : s.Settles s' := by
  intro id a
  cases before : (cell id a).get s with
  | resolved v => exact .inl (h.resolved before)
  | resolving => exact (idle id a before).elim
  | unresolved =>
    cases after : (cell id a).get s' with
    | resolved v => exact .inr ⟨rfl,v,rfl⟩
    | resolving => exact (idle' id a after).elim
    | unresolved => exact .inl rfl

end State

/-- One action: it is not refused, it leaves nothing unfinished, and it keeps what has been computed. -/
theorem Action.finishes (hs : s.Sound env 4) (a : Action) :
    (∀ name, (a.run env s).1 ≠ .error (.reentrantResolution name)) ∧ (a.run env s).2.Idle ∧
      s.Settles (a.run env s).2 := by
  have after := a.follows hs
  have idle := after.sound.idle_of_rank
  refine ⟨fun name refused => ?_,idle,after.grows.settles hs.idle_of_rank idle⟩
  have founded : Error.Founded env (a.Excused env s) (.reentrantResolution name) := founded_of_run hs refused
  exact founded

/-- Over any models and any oracle, no action is ever refused because an attribute waits for itself. Between
actions, failed ones too, no attribute is being computed, and an attribute that has been computed keeps its value
whatever is done later. -/
theorem State.idle_during (env : Environment) (history : List Action) :
    (during env history).Idle ∧
    (∀ (a : Action) name, (a.run env (during env history)).1 ≠ .error (.reentrantResolution name)) ∧
    ∀ later, (during env history).Settles (during env (history ++ later)) ∧
      ∀ id a v, (cell id a).get (during env history) = .resolved v →
        (cell id a).get (during env (history ++ later)) = .resolved v := by
  have sound := sound_during env history
  refine ⟨sound.idle_of_rank,fun a => (a.finishes sound).1,fun later => ?_⟩
  have continued : (during env history).Continues env (during env (history ++ later)) := by
    rw [during_append]
    exact continues_foldl sound later
  have settles := continued.grows.settles sound.idle_of_rank continued.sound.idle_of_rank
  exact ⟨settles,fun _ _ _ => settles.resolved⟩

end SymbolGraph
