import SymbolGraph.Proofs.Agreement.Views

/-! Overriding, resolution and aliases agree with the direct ones. -/
namespace SymbolGraph

variable {A B : Type} {R : Reading A B} {env : Environment} {rank : Nat} {s : State}

/-- Arguments of types stand for what they are built from. -/
def Projects : Reading Projection TypeArgument := fun s p a =>
  p.variance = a.variance ∧ Maybe Interns s p.type a.type

instance : Lasting Projects :=
  ⟨fun h h' => fun ⟨e,e'⟩ => ⟨e,Lasting.mono (R := Maybe Interns) h h' e'⟩⟩

namespace Agrees

section Overriding

variable {f : FunctionView} {w : Sight FunctionShape} (hf : Shows s f w)
include hf

theorem overrides {base : FunctionView} {b : Sight FunctionShape} (hb : Shows s base b)
    (h0 : 0 < rank) : Agrees Same env rank s (f.overrides base) (w.overrides b) := by
  rw [View.overrides,Sight.overrides]
  rw [hf.shape,hf.anchor,hb.anchor]
  refine branch (.pure rfl) ?_
  refine (isOpen hb.toDeclaration h0).bind fun _ _ _ _ e => ?_
  cases e
  refine branch (.pure rfl) ?_
  refine (ask _ _).bind fun _ _ _ _ e => ?_
  cases e
  refine branch (.pure rfl) ?_
  refine (ask _ _).bind fun _ d _ _ e => ?_
  cases e
  cases d with
  | none => exact .pure rfl
  | some d =>
    refine (descriptor _).bind fun _ _ _ _ e => ?_
    cases e
    exact (ask _ _).map fun _ _ _ _ e => by cases e; rfl

theorem overriddenRoots : Agrees Same env rank s f.overriddenRoots w.overriddenRoots := by
  rw [View.overriddenRoots,Sight.overriddenRoots]
  rw [hf.anchor]
  refine (descriptor _).bind fun _ own _ _ e => ?_
  cases e
  refine readThen (filterM fun _ k _ => ?_)
  exact (descriptor k).map fun _ _ _ _ e => by cases e; rfl

theorem findOverridee (h3 : 3 < rank) :
    Agrees (Maybe Shows) env rank s f.findOverridee w.findOverridee := by
  have value : w.toNode.value .overridee = do return (← w.findOverridee).map Sight.toNode :=
    Sight.through_toNode (fun f : Sight FunctionShape => do return (← f.findOverridee).map Sight.toNode) w
  have viewed : w.findOverridee = (do
      match ← w.toNode.value .overridee with
      | none => return none
      | some n => return some (← Direct.view FunctionShape n)) := by
    rw [value]
    simp only [bind_assoc,pure_bind]
    refine Eq.trans (bind_pure _).symm (bind_congr fun o => ?_)
    cases o <;> simp [Direct.view_toNode]
  rw [viewed]
  rw [View.findOverridee]
  refine (memo (a := .overridee) hf h3 fun s hf => ?_).bind fun _ _ _ _ h => ?_
  · rw [value]
    rw [Sight.findOverridee]
    simp only [bind_assoc]
    refine (overriddenRoots hf).bind fun _ roots _ g e => ?_
    cases e
    rcases roots with _ | ⟨root,_ | ⟨_,_⟩⟩
    case nil => exact .pure .none
    case cons.nil =>
      simp only [bind_assoc,pure_bind]
      exact (typed _ root).bind fun _ _ _ _ h => .pure (.some h.identifies)
    case cons.cons =>
      simp only [bind_assoc]
      refine (displayName (g.reading hf).toDeclaration (by decide)).bind fun _ _ _ _ e => ?_
      cases e
      exact .fail _
  · cases h with
    | none => exact .pure .none
    | some h => exact (typedById _ h).map fun _ _ _ _ h => .some h

end Overriding

/-! ### Types -/

theorem referenced {r : ReferenceView} {w : Sight ReferenceForm} (hr : Shows s r w) :
    Agrees Same env rank s (Session.referenced r) w.resolve := by
  rw [Session.referenced,Sight.resolve]
  rw [hr.shape,hr.anchor]
  cases w.shape with
  | written t => exact (ask _ _).bind fun _ _ _ _ e => by cases e; exact (Quiet.orFail _ _).agrees
  | deferred => exact (descriptor _).bind fun _ _ _ _ e => by cases e; exact (Quiet.orFail _ _).agrees

theorem resolve {r : ReferenceView} {w : Sight ReferenceForm} (hr : Shows s r w) (h0 : 0 < rank) :
    Agrees Interns env rank s r.resolve w.resolve := by
  have value : w.toNode.value .type = w.resolve := Sight.through_toNode _ w
  rw [View.resolve]
  rw [← bind_pure w.resolve,← value]
  refine (memo (a := .type) hr h0 fun s hr => ?_).bind fun _ _ _ _ h => typeById h
  rw [value,← bind_pure w.resolve]
  exact (referenced hr).bind fun _ _ _ _ e => by cases e; exact internType _

section Types

theorem declarationOf (t : ResolvedType) :
    Agrees Shows env rank s (InternedType.declarationOf t) t.declared :=
  (node _).bind fun _ _ _ _ h => orFail _ (h.as? DeclaredForm)

theorem headName (t : ResolvedType) :
    Agrees Same env rank s (InternedType.headName t) t.headName :=
  rescue ((declarationOf t).map fun _ _ _ _ h => congrArg DeclaredForm.name h.shape) fun _ _ _ => .pure rfl

theorem projection (a : TypeArgument) :
    Agrees Projects env rank s (InternedType.projection a) (Pure.pure a) := by
  obtain ⟨v,_ | t⟩ := a
  · exact .pure ⟨rfl,.none⟩
  · have interned : Agrees Projects env rank s (do return ⟨v,some (← Session.intern t)⟩)
        (do return ⟨v,some (← Pure.pure t)⟩) :=
      (intern t).map fun _ _ _ _ h => ⟨rfl,.some h⟩
    rwa [pure_bind] at interned

theorem arguments {t : InternedType} {w : ResolvedType} (ht : Interns s t w) :
    Agrees (Each Projects) env rank s t.arguments (Pure.pure w.arguments) := by
  rw [show (Pure.pure w.arguments : Direct _) = w.arguments.mapM Pure.pure by
    simpa using (List.mapM_pure (m := Direct) (l := w.arguments) (f := id)).symm]
  rw [InternedType.arguments]
  rw [ht.2]
  exact mapM (Q := Same) (List.forall₂_same.mpr fun _ _ => rfl) fun _ _ _ _ e => by
    cases e; exact projection _

theorem withNullable {t : InternedType} {w : ResolvedType} (ht : Interns s t w) (nullable : Bool) :
    Agrees Interns env rank s (t.withNullable nullable) (Pure.pure (w.withNullable nullable)) := by
  obtain ⟨hid,rfl⟩ := ht
  rw [InternedType.withNullable]
  split
  · next same =>
    subst same
    obtain ⟨id,⟨declaration,arguments,nullable⟩⟩ := t
    exact .pure ⟨hid,rfl⟩
  · exact intern _

/-- Arguments are interned behind the back of the answer. -/
theorem internArguments (as : List TypeArgument) {x : Session A} {p : Direct B}
    (h : ∀ s', Agrees R env rank s' x p) :
    Agrees R env rank s (do InternedType.internArguments as; x) p := by
  induction as generalizing s with
  | nil => exact h s
  | cons a as ih =>
    have next : Agrees R env rank s (do
        let _ ← InternedType.projection a
        InternedType.internArguments as
        x) (do
        let _ ← (Pure.pure a : Direct TypeArgument)
        p) := (projection a).bind fun _ _ _ _ _ => ih
    simpa [InternedType.internArguments,bind_assoc] using next

mutual
theorem shownType : ∀ (t : ResolvedType) {s : State},
    Agrees Same env rank s (InternedType.shownType t) t.shown
  | ⟨declaration,arguments,nullable⟩, s => by
    rw [InternedType.shownType,ResolvedType.shown]
    refine (headName _).bind fun _ _ _ _ e => ?_
    cases e
    refine internArguments arguments fun s' => ?_
    exact (shownArguments arguments).bind fun _ _ _ _ e => by cases e; exact .pure rfl
theorem shownOption (v : Variance) : ∀ (t : Option ResolvedType) {s : State},
    Agrees Same env rank s (InternedType.shownOption v t) (ResolvedType.shownOption v t)
  | none, s => .pure rfl
  | some t, s => by
    rw [InternedType.shownOption,ResolvedType.shownOption]
    exact (shownType t).map fun _ _ _ _ e => by cases e; rfl
theorem shownArgument : ∀ (a : TypeArgument) {s : State},
    Agrees Same env rank s (InternedType.shownArgument a) (ResolvedType.shownArgument a)
  | ⟨v,t⟩, s => by
    rw [InternedType.shownArgument,ResolvedType.shownArgument]
    exact shownOption v t
theorem shownArguments : ∀ (as : List TypeArgument) {s : State},
    Agrees Same env rank s (InternedType.shownArguments as) (ResolvedType.shownArguments as)
  | [], s => .pure rfl
  | a :: as, s => by
    rw [InternedType.shownArguments,ResolvedType.shownArguments]
    refine (shownArgument a).bind fun _ _ _ _ e => ?_
    cases e
    exact (shownArguments as).map fun _ _ _ _ e => by cases e; rfl
end

variable {t : InternedType} {w : ResolvedType} (ht : Interns s t w)
include ht

theorem shown : Agrees Same env rank s t.shown w.shown := by
  obtain ⟨-,rfl⟩ := ht
  exact shownType _

theorem declared : Agrees Shows env rank s t.declaration w.declared := by
  obtain ⟨-,rfl⟩ := ht
  exact declarationOf _

theorem alias? : Agrees (Maybe Shows) env rank s t.alias? w.alias? :=
  (declared ht).map fun _ _ _ _ h => h.as? TypeAliasShape

theorem isAlias : Agrees Same env rank s t.isAlias w.isAlias :=
  (alias? ht).map fun _ _ _ _ h => by cases h <;> rfl

theorem isAssignableFrom {u : InternedType} {x : ResolvedType} (hu : Interns s u x) :
    Agrees Same env rank s (t.isAssignableFrom u) (w.isAssignableFrom x) := by
  obtain ⟨-,rfl⟩ := ht
  obtain ⟨-,rfl⟩ := hu
  exact ask _ (·.assignable t.resolved u.resolved)

end Types

theorem names {ts : List InternedType} {ws : List ResolvedType} (h : Each Interns s ts ws) :
    Agrees Same env rank s (InternedType.names ts) (ResolvedType.names ws) := by
  have each : Agrees (Each Same) env rank s (InternedType.names ts) (ResolvedType.names ws) :=
    mapM (Q := Interns) h fun _ _ _ _ h =>
      (declared h).map fun _ _ _ _ h => congrArg DeclaredForm.name h.shape
  exact each.as fun h => (congrFun (congrFun List.forall₂_eq_eq_eq _) _).mp h

theorem resolved_of_each {ts : List InternedType} {ws : List ResolvedType} (h : Each Interns s ts ws) :
    ws = ts.map (·.resolved) := by
  induction h with
  | nil => rfl
  | cons h _ ih => rw [List.map_cons,← ih,h.2]

theorem held_of_each {ts : List InternedType} {us : List ResolvedType}
    (h : Each Interns s ts us) : ∀ t ∈ ts, s.types.get? t.id = some t.resolved := by
  induction h with
  | nil => exact List.forall_mem_nil _
  | cons h _ ih => exact List.forall_mem_cons.mpr ⟨h.1,ih⟩

theorem chainFrom (h0 : 0 < rank) {chain : List InternedType} {chain' : List ResolvedType}
    {t : InternedType} {w : ResolvedType} (hc : Each Interns s chain chain') (ht : Interns s t w)
    (steps : Nat) :
    Agrees (Each Interns) env rank s (InternedType.chainFrom steps chain t)
      (ResolvedType.chainFrom steps chain' w) := by
  induction steps generalizing s chain chain' t w with
  | zero =>
    rw [InternedType.chainFrom,ResolvedType.chainFrom]
    refine (alias? ht).bind fun _ _ _ g h => ?_
    cases h with
    | none => exact .pure (g.reading hc)
    | some => exact readThen (.fail _)
  | succ steps ih =>
    rw [InternedType.chainFrom,ResolvedType.chainFrom]
    refine (alias? ht).bind fun _ _ _ g₁ h => ?_
    cases h with
    | none => exact .pure (g₁.reading hc)
    | some h =>
      refine (target h).bind fun _ _ _ g₂ h => ?_
      refine (resolve h h0).bind fun _ next x g₃ h => ?_
      have longer := List.rel_append (((g₁.trans g₂).trans g₃).reading hc) (.cons h .nil)
      have again : chain.any (·.resolved.declaration == next.resolved.declaration) =
          chain'.any (·.declaration == x.declaration) := by
        rw [resolved_of_each hc,h.2,List.any_map]; rfl
      rw [again]
      refine branch ?_ (ih longer h)
      refine (names longer).bind fun _ _ _ g₄ e => ?_
      cases e
      exact (fail (R := Same) _).bind fun _ _ _ g₅ _ =>
        ih ((g₄.trans g₅).reading (R := Each Interns) longer) ((g₄.trans g₅).reading h)

theorem aliasChain {t : InternedType} {w : ResolvedType} (ht : Interns s t w) (h0 : 0 < rank) :
    Agrees (Each Interns) env rank s t.aliasChain w.aliasChain :=
  readThen (chainFrom h0 (.cons ht .nil) ht _)

end Agrees
end SymbolGraph
