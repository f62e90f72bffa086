import SymbolGraph.Proofs.Direct.Children
import SymbolGraph.Proofs.Names

/-! Types over well-formed models and an oracle that fits them. The declaration of a type is found, every
type has a text, and chains of aliases end or are refused. -/
namespace SymbolGraph

open Direct

variable {env : Environment} {allowed : Error → Prop}

/-- What is wrong with the types of the sources, not with the sources themselves. -/
def Error.isOfTypes : Error → Bool
  | .unresolvedType _ | .aliasCycle _ | .aliasDepthExceeded _ => true
  | _ => false

theorem Sight.resolve_within (fits : env.oracle.Fits env.models) {r : Sight ReferenceForm} {k : NodeKey}
    (hr : r.Genuine env) (hk : r.key = .node k) :
    Within (·.isOfTypes) env r.resolve fun t => env.models.DeclaresType t.declaration := by
  obtain ⟨s,form⟩ := hr.exists_written hk
  rw [resolve]
  cases e : r.shape with
  | deferred => rw [e] at form; cases form
  | written t =>
    refine .after (ask_eq _) ?_
    exact .orFail (fun _ h => fits.reference h) fun _ => rfl

theorem Sight.resolve_eq_ok {r : Sight ReferenceForm} {k : NodeKey} {t : ResolvedType} (hr : r.Genuine env)
    (hk : r.key = .node k) (h : r.resolve env = .ok t) : env.oracle.reference k = some t := by
  obtain ⟨s,form⟩ := hr.exists_written hk
  have anchor : r.anchor = k := congrArg SymbolKey.anchor hk
  rw [resolve] at h
  cases e : r.shape with
  | deferred => rw [e] at form; cases form
  | written s =>
    rw [e,anchor] at h
    exact orFail_eq_ok.mp h

namespace ResolvedType

theorem declared_within {t : ResolvedType} (h : env.models.Declares t.declaration) :
    Within allowed env t.declared fun d => d.Genuine env := by
  obtain ⟨s,hs,declares⟩ := h
  refine (node_within hs).bind fun w ⟨genuine,_,shape⟩ => ?_
  obtain ⟨d,seen⟩ := Sight.exists_declared shape declares
  exact .found seen (genuine.narrow seen)

theorem alias?_within {t : ResolvedType} (h : env.models.Declares t.declaration) :
    Within allowed env t.alias? fun a => ∀ v ∈ a, v.Genuine env :=
  (declared_within h).map fun _ hd _ e => hd.narrow e

theorem names_within {ts : List ResolvedType} (h : ∀ t ∈ ts, env.models.Declares t.declaration) :
    Within allowed env (names ts) fun _ => True :=
  (Within.mapM (P := fun _ => True) fun t ht => (declared_within (h t ht)).map fun _ _ => trivial).weaken
    fun _ _ => trivial

/-! ### Texts -/

theorem headName_within (t : ResolvedType) : Within allowed env t.headName fun _ => True :=
  .rescue .any fun _ => .pure trivial

mutual
theorem shown_within : (t : ResolvedType) → Within allowed env t.shown fun _ => True
  | ⟨declaration,arguments,nullable⟩ => by
    rw [shown]
    exact (headName_within _).bind fun _ _ => (shownArguments_within arguments).bind fun _ _ => .pure trivial
theorem shownOption_within (v : Variance) : (t : Option ResolvedType) →
    Within allowed env (shownOption v t) fun _ => True
  | none => .pure trivial
  | some t => by
    rw [shownOption]
    exact (shown_within t).map fun _ _ => trivial
theorem shownArgument_within : (a : TypeArgument) → Within allowed env (shownArgument a) fun _ => True
  | ⟨v,t⟩ => by
    rw [shownArgument]
    exact shownOption_within v t
theorem shownArguments_within : (as : List TypeArgument) →
    Within allowed env (shownArguments as) fun _ => True
  | [] => .pure trivial
  | a :: as => by
    rw [shownArguments]
    exact (shownArgument_within a).bind fun _ _ => (shownArguments_within as).map fun _ _ => trivial
end

/-! ### Aliases -/

theorem alias?_eq_ok {t : ResolvedType} {a : Sight TypeAliasShape}
    (h : t.alias? env = .ok (some a)) : a.Genuine env ∧ a.key = .node t.declaration := by
  obtain ⟨d,declared,made⟩ := bind_eq_ok.mp h
  obtain ⟨w,hw,seen⟩ := bind_eq_ok.mp declared
  obtain ⟨genuine,key⟩ := symbol_genuine (k := .node t.declaration) hw
  have hd := orFail_eq_ok.mp seen
  have ha : d.as? TypeAliasShape = some a := Except.ok.inj made
  exact ⟨(genuine.narrow hd).narrow ha,(Sight.key_of_as? ha).trans ((Sight.key_of_as? hd).trans key)⟩

theorem alias?_eq_none {t : ResolvedType} (h : t.alias? env = .ok none) (a : TypeAliasShape) :
    env.models.shape? t.declaration ≠ some (.typeAlias a) := by
  obtain ⟨d,declared,made⟩ := bind_eq_ok.mp h
  obtain ⟨w,hw,seen⟩ := bind_eq_ok.mp declared
  obtain ⟨_,s,ha,hs,rfl⟩ := node_eq_ok.mp hw
  intro shape
  obtain rfl := Option.some.inj (hs.symm.trans shape)
  obtain rfl := Option.some.inj (orFail_eq_ok.mp seen)
  cases made

/-- A chain ends in a type that is built from no alias, or goes on with the target of an alias, as the oracle
tells it, that is built from a new declaration. -/
theorem chainFrom_cases {steps : Nat} {chain us : List ResolvedType} {t : ResolvedType}
    (h : chainFrom steps chain t env = .ok us) :
    (us = chain ∧ ∀ a, env.models.shape? t.declaration ≠ some (.typeAlias a)) ∨
    ∃ left a next, steps = left + 1 ∧ env.models.shape? t.declaration = some (.typeAlias a) ∧
      env.oracle.reference (t.declaration.sibling a.target) = some next ∧
      next.declaration ∉ chain.map (·.declaration) ∧ chainFrom left (chain ++ [next]) next env = .ok us := by
  rw [chainFrom] at h
  obtain ⟨a,ha,h⟩ := bind_eq_ok.mp h
  cases a with
  | none => exact .inl ⟨(Except.ok.inj h).symm,alias?_eq_none ha⟩
  | some a =>
    cases steps with
    | zero => cases h
    | succ left =>
      obtain ⟨genuine,key⟩ := alias?_eq_ok ha
      obtain ⟨r,target,h⟩ := bind_eq_ok.mp h
      obtain ⟨next,resolved,h⟩ := bind_eq_ok.mp h
      obtain ⟨hr,place⟩ := typed_eq_ok target
      have anchor : a.anchor = t.declaration := congrArg SymbolKey.anchor key
      have meant : env.oracle.reference (t.declaration.sibling a.shape.target) = some next := by
        have := Sight.resolve_eq_ok hr place resolved
        rwa [Sight.near,anchor] at this
      have shape : env.models.shape? t.declaration = some (.typeAlias a.shape) := by
        have := (genuine.written (s := .typeAlias a.shape) rfl).2
        rwa [anchor] at this
      split at h
      · obtain ⟨_,-,refused⟩ := bind_eq_ok.mp h
        cases refused
      · next new => exact .inr ⟨left,a.shape,next,rfl,shape,meant,by simpa using new,h⟩

/-- What is true of the end of a chain, and of a type if it is true of what the type stands for, is true from the
start of the chain on. -/
@[elab_as_elim] theorem chainFrom_induction {us : List ResolvedType} {motive : Nat → List ResolvedType → ResolvedType → Prop}
    (stop : ∀ steps t, (∀ a, env.models.shape? t.declaration ≠ some (.typeAlias a)) → motive steps us t)
    (next : ∀ left chain t a u, env.models.shape? t.declaration = some (.typeAlias a) →
      env.oracle.reference (t.declaration.sibling a.target) = some u → u.declaration ∉ chain.map (·.declaration) →
      motive left (chain ++ [u]) u → motive (left+1) chain t)
    {steps : Nat} {chain : List ResolvedType} {t : ResolvedType} (h : chainFrom steps chain t env = .ok us) :
    motive steps chain t := by
  induction steps generalizing chain t with
  | zero =>
    obtain ⟨rfl,last⟩ | ⟨_,_,_,more,-⟩ := chainFrom_cases h
    · exact stop _ _ last
    · cases more
  | succ steps ih =>
    obtain ⟨rfl,last⟩ | ⟨left,a,u,more,shape,meant,new,h⟩ := chainFrom_cases h
    · exact stop _ _ last
    · obtain rfl := Nat.succ.inj more
      exact next _ _ _ a u shape meant new (ih h)

/-- A chain is extended by the targets of aliases, each as the oracle tells it. -/
theorem chainFrom_eq_ok {steps : Nat} {chain us : List ResolvedType} {t : ResolvedType}
    (h : chainFrom steps chain t env = .ok us) :
    ∃ rest, us = chain ++ rest ∧ (t :: rest).IsChain fun u v =>
      ∃ a, env.models.shape? u.declaration = some (.typeAlias a) ∧
        env.oracle.reference (u.declaration.sibling a.target) = some v := by
  refine chainFrom_induction (fun _ t _ => ⟨[],(List.append_nil _).symm,.singleton t⟩) ?_ h
  rintro - chain t a u shape meant - ⟨rest,rfl,later⟩
  exact ⟨u :: rest,by simp,.cons_cons ⟨a,shape,meant⟩ later⟩

/-- No declaration is met twice on a chain, and the last one is no alias. -/
theorem chainFrom_ends {steps : Nat} {chain us : List ResolvedType} {t : ResolvedType}
    (ends : chain.getLast? = some t) (distinct : (chain.map (·.declaration)).Nodup)
    (h : chainFrom steps chain t env = .ok us) :
    (us.map (·.declaration)).Nodup ∧
      ∃ u, us.getLast? = some u ∧ ∀ a, env.models.shape? u.declaration ≠ some (.typeAlias a) := by
  revert ends distinct
  refine chainFrom_induction (fun _ t last ends distinct => ⟨distinct,t,ends,last⟩) ?_ h
  intro _ chain t a u shape meant new later ends distinct
  refine later List.getLast?_concat ?_
  rw [List.map_append,List.nodup_append_comm]
  exact List.nodup_cons.mpr ⟨new,distinct⟩

theorem chainFrom_within (hw : env.models.WellFormed) (fits : env.oracle.Fits env.models) (steps : Nat)
    {chain : List ResolvedType} {t : ResolvedType}
    (hc : ∀ u ∈ chain, env.models.DeclaresType u.declaration) (ht : env.models.DeclaresType t.declaration) :
    Within (·.isOfTypes) env (chainFrom steps chain t) fun us =>
      ∀ u ∈ us, env.models.DeclaresType u.declaration := by
  induction steps generalizing chain t with
  | zero =>
    rw [chainFrom]
    refine (alias?_within ht.declares).bind fun a ha => ?_
    cases a with
    | none => exact .pure hc
    | some a =>
      exact .readThen (f := fun env => Direct.fail (.aliasDepthExceeded env.config.maxAliasDepth)) (.fail rfl)
  | succ steps ih =>
    rw [chainFrom]
    refine (alias?_within ht.declares).bind fun a ha => ?_
    cases a with
    | none => exact .pure hc
    | some a =>
      refine (Sight.target_within hw (ha a rfl)).bind fun r ⟨hr,key⟩ => ?_
      refine (Sight.resolve_within fits hr key).bind fun next hn => ?_
      have longer : ∀ u ∈ chain ++ [next], env.models.DeclaresType u.declaration :=
        List.forall_mem_append.mpr ⟨hc,List.forall_mem_singleton.mpr hn⟩
      split
      · exact (names_within fun u hu => (longer u hu).declares).bind fun _ _ => (Within.fail rfl)
      · exact ih longer hn

theorem aliasChain_within (hw : env.models.WellFormed) (fits : env.oracle.Fits env.models)
    {t : ResolvedType} (ht : env.models.DeclaresType t.declaration) :
    Within (·.isOfTypes) env t.aliasChain fun us => ∀ u ∈ us, env.models.DeclaresType u.declaration :=
  chainFrom_within hw fits _ (List.forall_mem_singleton.mpr ht) ht

end ResolvedType
end SymbolGraph
