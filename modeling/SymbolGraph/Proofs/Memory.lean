import SymbolGraph.Proofs.Agreement.Views

/-! What a session remembers. An attribute that has been computed is read off the symbol and leaves the session as it
is, so a reference is resolved, and the function at the root of another one is found, without any question. -/
namespace SymbolGraph

variable {env : Environment} {s s' : State}

namespace Session

section Memo

variable {id : SymbolId} {a : Attribute} {init : Session a.Value} {v : a.Value}

theorem memo_run (h : (State.cell id a).get s = .resolved v) : memo id a init env s = (.ok v,s) :=
  Cell.getOrInit_resolved h _ _

/-- An attribute is remembered, or it is computed while it is marked. -/
theorem memo_eq_ok (run : memo id a init env s = (.ok v,s')) :
    ((State.cell id a).get s = .resolved v ∧ s' = s) ∨
    ∃ t, init env ((State.cell id a).set .resolving s) = (.ok v,t) ∧ s' = (State.cell id a).set (.resolved v) t := by
  rw [memo,Cell.getOrInit] at run
  cases cell : (State.cell id a).get s with
  | resolved w =>
    rw [cell] at run
    cases run
    exact .inl ⟨rfl,rfl⟩
  | resolving =>
    rw [cell] at run
    cases run
  | unresolved =>
    rw [cell] at run
    dsimp only at run
    rcases ran : init env ((State.cell id a).set .resolving s) with ⟨e | w,t⟩ <;> rw [ran] at run
    · cases run
    · cases run
      exact .inr ⟨t,rfl,rfl⟩

/-- What a session computes of a symbol it remembers. -/
theorem resolved_of_memo {n : Node} (run : memo id a init env s = (.ok v,s')) (hn : s'.node? id = some n) :
    (State.cell id a).get s' = .resolved v := by
  rcases memo_eq_ok run with ⟨cell,rfl⟩ | ⟨t,-,rfl⟩
  · exact cell
  · rw [State.node?_set] at hn
    exact State.get_set hn a (.resolved v)

end Memo

/-- What is asked while an attribute is computed. -/
theorem asked_memo {id : SymbolId} {a : Attribute} {init : Session a.Value}
    (cell : (State.cell id a).get s = .unresolved) :
    (memo id a init env s).2.asked = (init env ((State.cell id a).set .resolving s)).2.asked := by
  rw [memo,Cell.getOrInit,cell]
  dsimp only
  rcases init env ((State.cell id a).set .resolving s) with ⟨_ | _,_⟩ <;> rfl

theorem typedById_run {S : Type} [OneKind S] {id : SymbolId} {n : Node} {v : View S} (hn : s.node? id = some n)
    (hv : n.as? S = some v) : typedById S id env s = (.ok v,s) := by
  rw [typedById,Attempt.bind_ok (nodeById_run hn),view,hv]
  rfl

/-- A symbol that is found by its id is in the state, which is left alone. -/
theorem typedById_eq_ok {S : Type} [OneKind S] {id : SymbolId} {v : View S}
    (run : typedById S id env s = (.ok v,s')) : s' = s ∧ ∃ n, s.node? id = some n ∧ n.as? S = some v := by
  cases hn : s.node? id with
  | none =>
    rw [typedById,Attempt.bind_error (nodeById_missing hn)] at run
    cases run
  | some n =>
    rw [typedById,Attempt.bind_ok (nodeById_run hn),view] at run
    cases hv : n.as? S with
    | none =>
      rw [hv] at run
      cases run
    | some w =>
      rw [hv] at run
      cases run
      exact ⟨rfl,n,rfl,hv⟩

/-- A type that is found by its id is in the state, which is left alone. -/
theorem typeById_eq_ok {id : TypeId} {t : InternedType} (run : typeById id env s = (.ok t,s')) :
    s' = s ∧ t.id = id ∧ s.types.get? id = some t.resolved := by
  cases ht : s.types.get? id with
  | none =>
    rw [typeById_missing ht] at run
    cases run
  | some u =>
    rw [typeById_run ht] at run
    cases run
    exact ⟨rfl,rfl,rfl⟩

end Session

namespace View

open Session

/-- A reference that was resolved remembers its type. -/
theorem resolved_of_resolve {r : ReferenceView} {t : InternedType} {n : Node}
    (run : r.resolve env s = (.ok t,s')) (hn : s'.node? r.id = some n) :
    (State.cell r.id .type).get s' = .resolved t.id := by
  obtain ⟨id,t,first,found⟩ := Attempt.bind_eq_ok.mp run
  obtain ⟨rfl,same,-⟩ := typeById_eq_ok found
  rw [same]
  exact resolved_of_memo first hn

theorem resolve_run {r : ReferenceView} {id : TypeId} {t : ResolvedType}
    (cell : (State.cell r.id .type).get s = .resolved id) (ht : s.types.get? id = some t) :
    r.resolve env s = (.ok ⟨id,t⟩,s) := by
  rw [resolve,Attempt.bind_ok (memo_run cell)]
  exact typeById_run ht

/-- What a function remembers of the function at its root. -/
def Roots (s : State) : Option SymbolId → Option FunctionView → Prop :=
  Option.Rel fun id g => ∃ n, s.node? id = some n ∧ n.as? FunctionShape = some g

/-- A function whose root was looked for and found, or found not to exist, remembers it. -/
theorem resolved_of_findOverridee {f : FunctionView} {o : Option FunctionView} {n : Node}
    (run : f.findOverridee env s = (.ok o,s')) (hn : s'.node? f.id = some n) :
    ∃ id, (State.cell f.id .overridee).get s' = .resolved id ∧ Roots s' id o := by
  rw [findOverridee] at run
  rcases first : memo f.id .overridee _ env s with ⟨e | id,u⟩
  · rw [Attempt.bind_error first] at run
    cases run
  rw [Attempt.bind_ok first] at run
  cases id with
  | none =>
    cases run
    exact ⟨none,resolved_of_memo first hn,.none⟩
  | some id =>
    dsimp only at run
    rcases second : typedById FunctionShape id env u with ⟨e | g,t⟩
    · rw [Attempt.bind_error second] at run
      cases run
    · rw [Attempt.bind_ok second] at run
      cases run
      obtain ⟨rfl,m,hm,hg⟩ := typedById_eq_ok second
      exact ⟨some id,resolved_of_memo first hn,.some ⟨m,hm,hg⟩⟩

theorem Roots.mono {id : Option SymbolId} {o : Option FunctionView} (h : Roots s id o) (grows : s.Grows s') :
    Roots s' id o := by
  cases h with
  | none => exact .none
  | some found =>
    obtain ⟨n,hn,hg⟩ := found
    exact .some ⟨n,grows.node hn,hg⟩

theorem findOverridee_run {f : FunctionView} {id : Option SymbolId} {o : Option FunctionView}
    (cell : (State.cell f.id .overridee).get s = .resolved id) (root : Roots s id o) :
    f.findOverridee env s = (.ok o,s) := by
  rw [findOverridee,Attempt.bind_ok (memo_run cell)]
  cases root with
  | none => rfl
  | some found =>
    obtain ⟨n,hn,hg⟩ := found
    exact Attempt.bind_ok (typedById_run hn hg)

end View

end SymbolGraph
