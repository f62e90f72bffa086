import SymbolGraph.Proofs.Direct.Types
import SymbolGraph.Proofs.Overriding
import SymbolGraph.Proofs.References

/-! Type parameters in the types that aliases stand for. A name finds the parameters in scope where it is
mentioned, so that the target of an alias speaks of the parameters of the alias. No argument is put in their
place, neither in chains of aliases nor where types are compared. -/
namespace SymbolGraph

namespace Models

variable {ms : Models} {j k p r : NodeKey} {s : Shape}

/-- Whether a node or one of its ancestors declares a type parameter. -/
def InScope (ms : Models) (r p : NodeKey) : Prop :=
  ∃ d ∈ ms.scopes r, ∃ s, ms.shape? d = some s ∧ p ∈ s.typeParameters.map d.sibling

/-- All type parameters in a type are in scope. -/
def Scoped (ms : Models) (r : NodeKey) (t : ResolvedType) : Prop :=
  ∀ u ∈ t.parts, ∀ s, ms.shape? u.declaration = some (.typeParameter s) → ms.InScope r u.declaration

/-- What is in scope at a reference is in scope at its parent. -/
theorem InScope.parent (hw : ms.WellFormed) {t : TypeReferenceShape}
    (hj : ms.shape? j = some (.typeReference t)) (hp : ms.parent? j = some k) (h : ms.InScope j p) :
    ms.InScope k p := by
  obtain ⟨d,hd,s,hs,declared⟩ := h
  rw [scopes,hw.ancestors_of_parent hp] at hd
  rcases List.mem_cons.mp hd with rfl | hd
  · obtain rfl := Option.some.inj (hj.symm.trans hs)
    cases declared
  · exact ⟨d,hd,s,hs,declared⟩

theorem InScope.nested (hw : ms.WellFormed) (nested : Relation.ReflTransGen ms.Nests r j) {t : TypeReferenceShape}
    (hj : ms.shape? j = some (.typeReference t)) (h : ms.InScope j p) : ms.InScope r p := by
  induction nested generalizing t with
  | refl => exact h
  | @tail i j _ step ih =>
    obtain ⟨s,hs,a,ha,rfl⟩ := step
    have listed : (a,Place.reference) ∈ (Shape.typeReference s).places := by simp [Shape.places,ha]
    have parent : ms.parent? (i.sibling a) = some i := (hw.child hs listed).1
    exact ih hs (h.parent hw hj parent)

end Models

namespace Names

variable {ms : Models} {inferred : TextMap} {d k p r : NodeKey} {t : ResolvedType}

theorem inScope_of_resolveName? {name : String} {s : TypeParameterShape}
    (h : (ofModels ms inferred).resolveName? name r = some p) (hp : ms.shape? p = some (.typeParameter s)) :
    ms.InScope r p := by
  have notType : p ∉ (ofModels ms inferred).types name := by
    intro mem
    obtain ⟨d,hd,rfl⟩ := List.mem_map.mp mem
    obtain ⟨hd,found⟩ := List.mem_filter.mp hd
    obtain ⟨t,ht,kind⟩ := Models.shape?_of_mem_named hd
    obtain rfl := Option.some.inj (hp.symm.trans ht)
    have isType := (Bool.and_eq_true_iff.mp found).1
    rw [Named.isType,← kind] at isType
    cases isType
  simp only [resolveName?,Option.orElse_eq_orElse,Option.orElse_eq_or,Option.or_eq_some_iff] at h
  rcases h with parameter | ⟨-,near | ⟨-,first⟩⟩
  · split at parameter
    · cases parameter
    · obtain ⟨d,hd,found⟩ := List.exists_of_findSome?_eq_some parameter
      obtain ⟨t,ht,found⟩ := Option.bind_eq_some_iff.mp found
      exact ⟨d,hd,t,ht,List.mem_of_find?_eq_some found⟩
  · exact absurd (List.mem_of_find?_eq_some near) notType
  · exact absurd (List.mem_of_head? first) notType

/-- The type that a reference means speaks of the type parameters in scope at the reference. -/
theorem scoped_of_reference? (hw : ms.WellFormed) (h : (ofModels ms inferred).reference? r = some t) :
    ms.Scoped r t := by
  intro u hu s hs
  obtain ⟨j,e,nested,meant⟩ := mem_parts_referenceIn h hu
  obtain ⟨_,text,hj,-,-,named,-,-⟩ := exists_of_referenceIn meant
  exact (inScope_of_resolveName? named hs).nested hw nested hj

/-- The type that an alias stands for speaks of the type parameters of the alias and of its surroundings. -/
theorem scoped_of_aliasTarget? (hw : ms.WellFormed) (h : (ofModels ms inferred).aliasTarget? d = some t) :
    ms.Scoped d t := by
  rw [aliasTarget?] at h
  split at h
  · next a ha =>
    have target : (a.target,Place.reference) ∈ (Shape.typeAlias a).places := by simp [Shape.places]
    obtain ⟨parent,s,hs,admitted⟩ := hw.child ha target
    have kind : s.kind = .typeReference := Place.kind_of_admits rfl admitted
    intro u hu p hp
    have inside := scoped_of_reference? hw h u hu p hp
    cases s with
    | typeReference s => exact inside.parent hw hs parent
    | _ => cases kind
  · cases h

/-- One type is what the alias stands for that the other one is built from. It speaks of the parameters of
the alias, whatever the arguments of the other one are. -/
def Unfolds (n : Names) (t u : ResolvedType) : Prop :=
  n.aliasTarget? t.declaration = some u ∧ n.models.Scoped t.declaration u

/-- What types are compared by is reached by a chain of aliases, in which null is handed on. -/
theorem exists_chain_expandIn {n : Names} (steps : Nat) (seen : List NodeKey) (t : ResolvedType) :
    ∃ us, (t :: us).IsChain (fun u v => ∃ w, n.aliasTarget? u.declaration = some w ∧
      v = w.withNullable (u.nullable || w.nullable)) ∧ (t :: us).getLast? = some (n.expandIn steps seen t) := by
  induction steps generalizing seen t with
  | zero => exact ⟨[],.singleton t,rfl⟩
  | succ steps ih =>
    rw [expandIn]
    split
    · exact ⟨[],.singleton t,rfl⟩
    · cases target : n.aliasTarget? t.declaration with
      | none => exact ⟨[],.singleton t,rfl⟩
      | some w =>
        obtain ⟨us,chain,last⟩ := ih (t.declaration :: seen) (w.withNullable (t.nullable || w.nullable))
        refine ⟨_ :: us,.cons_cons ⟨w,target,rfl⟩ chain,?_⟩
        rw [List.getLast?_cons_cons,last]

end Names

/-! ### Chains of a session -/

open Direct in
theorem Operation.aliasChain_eq_ok {env : Environment} {r : NodeKey} {us : List ResolvedType}
    (h : (Operation.type (.meant (.node r)) .aliasChain).direct env = .ok (.types us)) :
    ∃ t, env.oracle.reference r = some t ∧ t.aliasChain env = .ok us := by
  obtain ⟨o,meant,h⟩ := bind_eq_ok.mp h
  obtain ⟨w,hw,meant⟩ := bind_eq_ok.mp meant
  obtain ⟨genuine,key⟩ := symbol_genuine hw
  cases seen : w.as? ReferenceForm with
  | none =>
    rw [seen] at meant
    obtain rfl := Except.ok.inj meant
    cases h
  | some v =>
    rw [seen] at meant
    obtain ⟨t,resolved,meant⟩ := bind_eq_ok.mp meant
    obtain rfl := Except.ok.inj meant
    obtain ⟨vs,chain,made⟩ := bind_eq_ok.mp h
    obtain rfl := Answer.types.inj (Except.ok.inj made)
    exact ⟨t,Sight.resolve_eq_ok (genuine.narrow seen) ((Sight.key_of_as? seen).trans key) resolved,chain⟩

namespace Names

theorem unfolds_of_reference {ms : Models} {inferred : TextMap} (hw : ms.WellFormed) {t u : ResolvedType}
    {a : TypeAliasShape} (shape : ms.shape? t.declaration = some (.typeAlias a))
    (meant : (ofModels ms inferred).reference? (t.declaration.sibling a.target) = some u) :
    (ofModels ms inferred).Unfolds t u := by
  have target : (ofModels ms inferred).aliasTarget? t.declaration = some u := by
    have known : (ofModels ms inferred).models.shape? t.declaration = some (.typeAlias a) := shape
    rw [aliasTarget?,known]
    exact meant
  exact ⟨target,scoped_of_aliasTarget? hw target⟩

end Names

namespace Fixture

variable (x : Fixture) (config : Config)

/-- What a session of a fixture answers to the question for the aliases in the type of a reference. -/
def aliasChainAfter (history : List Operation) (r : NodeKey) : Except Error Answer :=
  ((Operation.type (.meant (.node r)) .aliasChain).run (x.environment config)
    (.after (x.environment config) history)).1

/-- The type that a reference means speaks of the type parameters in scope at the reference. Every other type
of its chain of aliases, and of the types that it is compared by, speaks of those in scope at the alias
before it. -/
theorem aliasChain_scoped (history : List Operation) {r : NodeKey} {t : ResolvedType}
    (h : x.names.reference? r = some t) :
    x.models.Scoped r t ∧
    (∀ us, x.aliasChainAfter config history r = .ok (.types us) →
      us.head? = some t ∧ us.IsChain x.names.Unfolds) ∧
    ∃ us : List ResolvedType, us.head? = some t ∧ us.getLast? = some (x.names.expand t) ∧
      us.IsChain fun u v => ∃ w, x.names.Unfolds u w ∧ v = w.withNullable (u.nullable || w.nullable) := by
  have hw : x.models.WellFormed := x.models_wellFormed
  refine ⟨Names.scoped_of_reference? hw h,fun us found => ?_,?_⟩
  · rw [aliasChainAfter,Operation.run_of_sound (State.sound_after _ history)] at found
    obtain ⟨t',meant,chain⟩ := Operation.aliasChain_eq_ok found
    obtain rfl : t = t' := Option.some.inj (h.symm.trans meant)
    obtain ⟨rest,rfl,unfolded⟩ := ResolvedType.chainFrom_eq_ok chain
    refine ⟨rfl,unfolded.imp fun u v step => ?_⟩
    obtain ⟨a,shape,meant⟩ := step
    exact Names.unfolds_of_reference hw shape meant
  · obtain ⟨rest,unfolded,last⟩ := Names.exists_chain_expandIn (n := x.names) Names.maxExpansions [] t
    refine ⟨t :: rest,rfl,last,unfolded.imp fun u v step => ?_⟩
    obtain ⟨w,target,handed⟩ := step
    exact ⟨w,⟨target,Names.scoped_of_aliasTarget? hw target⟩,handed⟩

/-- A class and an alias for it, each with a type parameter, and a property for each of them with the same
argument. -/
def boxed : Fixture where
  kotlin := [⟨"K.kt","d",[],[.classLike ⟨"List",.plain,.empty,[],[⟨"E",.invariant,.empty,[]⟩],[],[],1⟩,
    .classLike ⟨"Int",.plain,.empty,[],[],[],[],2⟩,
    .typeAlias ⟨"Box",.empty,[],[⟨"T",.invariant,.empty,[]⟩],⟨"List<T>",[],[⟨"T",[],[]⟩]⟩,3⟩,
    .property ⟨"x",false,.empty,[],[],none,some ⟨"Box<Int>",[],[⟨"Int",[],[]⟩]⟩,4⟩,
    .property ⟨"y",false,.empty,[],[],none,some ⟨"List<Int>",[],[⟨"Int",[],[]⟩]⟩,5⟩]⟩]
  java := []
  inferred := .empty

/-- The type built from a declaration of the first model with another one as its argument. -/
def applied (d e : Nat) : ResolvedType := ⟨⟨⟨0⟩,⟨d⟩⟩,[⟨.invariant,some (.simple ⟨⟨0⟩,⟨e⟩⟩)⟩],false⟩

theorem reference?_boxed : boxed.names.reference? ⟨⟨0⟩,⟨9⟩⟩ = some (applied 4 3) := by decide +kernel

theorem aliasChainAfter_boxed :
    boxed.aliasChainAfter .standard [] ⟨⟨0⟩,⟨9⟩⟩ = .ok (.types [applied 4 3,applied 1 5]) := by
  rw [aliasChainAfter,Operation.run_of_sound (State.sound_after _ [])]
  decide +kernel

theorem aliasChain_scoped_boxed :
    boxed.names.reference? ⟨⟨0⟩,⟨9⟩⟩ = some (applied 4 3) ∧
    boxed.aliasChainAfter .standard [] ⟨⟨0⟩,⟨9⟩⟩ = .ok (.types [applied 4 3,applied 1 5]) ∧
    boxed.models.Scoped ⟨⟨0⟩,⟨9⟩⟩ (applied 4 3) ∧ boxed.names.Unfolds (applied 4 3) (applied 1 5) := by
  obtain ⟨own,chains,-⟩ := aliasChain_scoped boxed .standard [] reference?_boxed
  obtain ⟨-,unfolded⟩ := chains _ aliasChainAfter_boxed
  exact ⟨reference?_boxed,aliasChainAfter_boxed,own,(List.isChain_cons_cons.mp unfolded).1⟩

/-- The parameter of the alias is in the chain of a type that gives an argument for it, and in the type that
this one is compared by. It is not in scope there. -/
theorem boxed_escapes :
    boxed.names.reference? ⟨⟨0⟩,⟨9⟩⟩ = some (applied 4 3) ∧
    boxed.aliasChainAfter .standard [] ⟨⟨0⟩,⟨9⟩⟩ = .ok (.types [applied 4 3,applied 1 5]) ∧
    boxed.names.expand (applied 4 3) = applied 1 5 ∧
    boxed.names.assignable (applied 1 3) (applied 4 3) = false ∧
    ¬boxed.models.Scoped ⟨⟨0⟩,⟨9⟩⟩ (applied 1 5) := by
  refine ⟨reference?_boxed,aliasChainAfter_boxed,by decide +kernel,by decide +kernel,fun all => ?_⟩
  have parameter : boxed.models.shape? ⟨⟨0⟩,⟨5⟩⟩ = some (.typeParameter ⟨"T",.invariant,false,[]⟩) := by decide +kernel
  have inside : ResolvedType.simple ⟨⟨0⟩,⟨5⟩⟩ ∈ (applied 1 5).parts :=
    ResolvedType.mem_parts.mpr (.inr ⟨_,List.mem_singleton_self _,_,rfl,ResolvedType.mem_parts.mpr (.inl rfl)⟩)
  obtain ⟨d,hd,s,hs,declared⟩ := all _ inside _ parameter
  have undeclared : ∀ d ∈ boxed.models.scopes ⟨⟨0⟩,⟨9⟩⟩, ∀ s ∈ boxed.models.shape? d,
      ⟨⟨0⟩,⟨5⟩⟩ ∉ s.typeParameters.map d.sibling := by decide +kernel
  exact undeclared d hd s hs declared

end Fixture

end SymbolGraph
