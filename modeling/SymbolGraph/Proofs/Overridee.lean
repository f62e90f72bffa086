import SymbolGraph.Proofs.Hierarchy
import SymbolGraph.Proofs.Outcome
import SymbolGraph.Proofs.Outline

/-! The functions at the root of those that the functions of a fixture override: which of them are recorded,
in which order, and what they share with the functions that override them. -/
namespace SymbolGraph

open Direct

section Records

variable {env : Environment} {f r : NodeKey}

/-- The function that is found at the root of those that a function overrides. -/
def Direct.overridee? (env : Environment) (f : NodeKey) : Option NodeKey :=
  match (Operation.facet (.node f) .overridee).direct env with
  | .ok (.symbols [r]) => some r.anchor
  | _ => none

theorem Direct.overridee?_eq {v : Sight FunctionShape} (hv : v.Genuine env) (key : v.key = .node f)
    {o : Option (Sight FunctionShape)} (found : v.findOverridee env = .ok o) :
    overridee? env f = o.map (·.anchor) := by
  have run : symbol (.node f) env = .ok v.toNode := by rwa [← key]
  have answer : (Operation.facet (.node f) .overridee).direct env = .ok (symbols o.toList) := by
    rw [Operation.direct,bind_ok run]
    simp only [Direct.facet,Direct.through,Sight.as?_toNode]
    rw [bind_ok found]
    rfl
  rw [overridee?,answer]
  cases o <;> rfl

theorem Direct.exists_of_overridee? (h : overridee? env f = some r) : ∃ v g : Sight FunctionShape,
    v.Genuine env ∧ v.key = .node f ∧ v.findOverridee env = .ok (some g) ∧ g.anchor = r := by
  rw [overridee?] at h
  split at h
  case h_2 => cases h
  case h_1 w run =>
    obtain ⟨n,hn,answer⟩ := bind_eq_ok.mp run
    obtain ⟨genuine,key⟩ := symbol_genuine hn
    cases seen : n.as? FunctionShape with
    | none =>
      simp only [Direct.facet,Direct.through,seen] at answer
      cases answer
    | some v =>
      simp only [Direct.facet,Direct.through,seen] at answer
      obtain ⟨o,found,made⟩ := bind_eq_ok.mp answer
      cases o with
      | none => cases made
      | some g =>
        cases made
        exact ⟨v,g,genuine.narrow seen,(Sight.key_of_as? seen).trans key,found,Option.some.inj h⟩

/-- What is recorded of a function. -/
def Direct.overrideeRecord? (env : Environment) (f : NodeKey) : Option String :=
  (overridee? env f).map fun r => env.models.displayName f ++ " -> " ++ env.models.displayName r

variable (hw : env.models.WellFormed) (fits : env.oracle.Fits env.models)
include hw fits

/-- Only for functions is anything found, and it is named by the oracle. -/
theorem Direct.rootOf_of_overridee? (h : overridee? env f = some r) :
    (∃ F, env.models.shape? f = some (.function F)) ∧ env.oracle.RootOf f r := by
  obtain ⟨v,g,genuine,key,found,rfl⟩ := exists_of_overridee? h
  have within := Sight.findOverridee_within hw fits genuine
  rw [Direct.Within,found] at within
  have anchor : v.anchor = f := congrArg SymbolKey.anchor key
  rw [← anchor]
  exact ⟨⟨_,(genuine.written (s := .function v.shape) rfl).2⟩,(within g rfl).2⟩

/-- What is recorded of a symbol is the function for which a session finds one at its root, if functions that do
not say so override nothing. -/
theorem Direct.eq_of_recordsOverridee
    (silent : ∀ k F, env.models.shape? k = some (.function F) → F.modifiers.contains .overriding = false →
      env.oracle.overridden k = []) {x : SymbolKey} {rs : List String} (h : RecordsOverridee env x rs) :
    rs = (x.node?.bind (overrideeRecord? env)).toList := by
  rw [RecordsOverridee] at h
  split at h
  · next none =>
    have unrecorded : x.node?.bind (overrideeRecord? env) = Option.none := by
      rw [Option.eq_none_iff_forall_ne_some]
      intro record found
      obtain ⟨k,node,found⟩ := Option.bind_eq_some_iff.mp found
      obtain ⟨r,found,-⟩ := Option.map_eq_some_iff.mp found
      obtain ⟨⟨F,hF⟩,above,-⟩ := rootOf_of_overridee? hw fits found
      cases own : F.modifiers.contains .overriding with
      | true =>
        have x_node : x = .node k := by
          cases x <;> cases node
          rfl
        cases none.symm.trans (Models.overriding?_eq_some.mpr ⟨x_node,F,hF,own⟩)
      | false =>
        rw [silent k F hF own,Graph.explore] at above
        cases above
    rw [h,unrecorded]
    rfl
  · next k own =>
    obtain ⟨rfl,F,hF,-⟩ := Models.overriding?_eq_some.mp own
    obtain ⟨r,finds,rfl⟩ := h
    obtain ⟨v,hv,key,-⟩ : ∃ v : Sight FunctionShape, v.Genuine env ∧ v.key = .node k ∧ v.shape = F :=
      exists_genuine hF rfl
    obtain rfl : v.anchor = k := congrArg SymbolKey.anchor key
    obtain ⟨o,found,rfl,-⟩ := Sight.exists_findOverridee fits finds
    rw [SymbolKey.node?,Option.bind_some,overrideeRecord?,overridee?_eq hv key found]

/-- If a run succeeds, it records the functions for which a root is found, in the order in which they are
met. -/
theorem Processor.overridee_run
    (silent : ∀ k F, env.models.shape? k = some (.function F) → F.modifiers.contains .overriding = false →
      env.oracle.overridden k = []) {records : Array String} (h : Processor.overridee.run env = .ok records) :
    records.toList = env.oracle.files.flatMap fun k =>
      (env.models.preorder (.node k)).filterMap fun x => x.node?.bind (overrideeRecord? env) := by
  obtain ⟨rss,recorded,all⟩ := (Processor.overridee_run_iff hw fits).mp h
  have each := recorded.imp fun _ _ records => (eq_of_recordsOverridee hw fits silent records).symm
  rw [← List.forall₂_map_left_iff (R := Eq),List.forall₂_eq_eq_eq] at each
  rw [all,← each,← List.flatMap_def,← List.filterMap_eq_flatMap_toList,List.filterMap_flatMap]

end Records

namespace Fixture

variable (x : Fixture) (config : Config)

/-- A traversal in pre-order meets the nodes of a fixture in the order of their numbers. -/
theorem filterMap_preorder {B : Type} {f : SymbolKey → Option B} (deferred : ∀ k, f (.deferred k) = none) :
    (x.models.files.flatMap fun k => (x.models.preorder (.node k)).filterMap f) =
      x.models.keys.filterMap fun k => f (.node k) := by
  have hw := x.models_wellFormed
  have kotlin := Models.filterMap_files (i := ⟨0⟩) hw rfl (flatten_sourceOrdered.1 x.kotlin) deferred
  have java := Models.filterMap_files (i := ⟨1⟩) hw rfl (flatten_sourceOrdered.2 x.java) deferred
  rw [files_eq,keys_eq,List.flatMap_append,List.filterMap_append,← kotlin,← java]

/-- The function that a session of a fixture finds at the root of those that a function overrides. -/
def overrideeAfter? (history : List Operation) (f : NodeKey) : Option NodeKey :=
  match ((Operation.facet (.node f) .overridee).run (x.environment config)
    (.after (x.environment config) history)).1 with
  | .ok (.symbols [r]) => some r.anchor
  | _ => none

theorem overrideeAfter?_eq (history : List Operation) (f : NodeKey) :
    x.overrideeAfter? config history f = Direct.overridee? (x.environment config) f := by
  rw [overrideeAfter?,Operation.run_of_sound (State.sound_after _ history)]
  rfl

/-- A function is redefined by those for which it is found, and is at the root of the functions above it. -/
theorem redefines_of_overridee? {f r : NodeKey} (h : Direct.overridee? (x.environment config) f = some r) :
    x.names.Redefines f r ∧ x.names.IsRoot r := by
  have hw : (x.environment config).models.WellFormed := x.models_wellFormed
  have fits : (x.environment config).oracle.Fits _ := Names.oracle_fits hw x.inferred
  obtain ⟨-,above,e,he,none⟩ := Direct.rootOf_of_overridee? hw fits h
  have redefines : x.names.Redefines f r := Names.redefines_of_mem_explore hw above
  obtain ⟨_,d,_,_,_,_,-,G,-,hd,hG,-⟩ := redefines
  exact ⟨Names.redefines_of_mem_explore hw above,Names.isRoot_of_overridden hw hd hG he none⟩

/-- The records of overridden functions, if there are any: in the order of a traversal, one for each function
for which a session finds a function at the root of those that it overrides, whatever was asked before. The
two have the same name and number of parameters, the class of the first extends that of the second, and the
second overrides nothing. -/
theorem run_overridee (history : List Operation) {records : Array String}
    (h : Processor.overridee.run (x.environment config) = .ok records) :
    (x.models.files.flatMap fun k => (x.models.preorder (.node k)).filterMap SymbolKey.node?) = x.models.keys ∧
    x.models.keys.Nodup ∧
    records.toList = x.models.keys.filterMap (fun f => (x.overrideeAfter? config history f).map fun r =>
      x.models.displayName f ++ " -> " ++ x.models.displayName r) ∧
    ∀ f r, x.overrideeAfter? config history f = some r →
      x.names.Redefines f r ∧ x.names.IsRoot r ∧
        ((∀ c, ¬x.names.Extends c c) → x.models.parent? r ≠ x.models.parent? f ∧ r ≠ f) := by
  have hw : (x.environment config).models.WellFormed := x.models_wellFormed
  have fits : (x.environment config).oracle.Fits _ := Names.oracle_fits hw x.inferred
  have silent : ∀ k F, x.names.models.shape? k = some (.function F) →
      F.modifiers.contains .overriding = false → x.names.oracle.overridden k = [] :=
    fun _ _ hF own => Names.overridden_eq_nil hF own
  refine ⟨?_,x.models.nodup_keys,?_,fun f r found => ?_⟩
  · rw [x.filterMap_preorder (fun _ => rfl)]
    exact List.filterMap_some
  · have all := Processor.overridee_run hw fits silent h
    rw [all]
    refine (x.filterMap_preorder (fun _ => rfl)).trans (List.filterMap_congr fun f _ => ?_)
    rw [overrideeAfter?_eq]
    rfl
  · rw [overrideeAfter?_eq] at found
    obtain ⟨redefines,root⟩ := x.redefines_of_overridee? config found
    refine ⟨redefines,root,fun acyclic => ?_⟩
    have apart := redefines.parent_ne acyclic
    exact ⟨apart,fun same => apart (congrArg x.models.parent? same)⟩

/-- A function that overrides an overriding function, which overrides one of Java through an alias. -/
def throughAlias : Fixture where
  kotlin := [⟨"K.kt","d",[],[.typeAlias ⟨"Alias",.empty,[],[],⟨"Base",[],[]⟩,1⟩,
    .classLike ⟨"Middle",.plain,.empty,[],[],[⟨"Alias",[],[]⟩],[memberNamed "m" .overriding],2⟩,
    .classLike ⟨"Leaf",.plain,.empty,[],[],[⟨"Middle",[],[]⟩],[memberNamed "m" .overriding],3⟩]⟩]
  java := [⟨"Base.java","d",[⟨"Base",.plain,.empty,[],[],[],[],
    [.method ⟨"m",false,.empty,[],[],[],none,true,1⟩],1⟩]⟩]
  inferred := .empty

theorem run_overridee_throughAlias :
    Processor.overridee.run (throughAlias.environment .standard) =
      .ok #["d.Middle.m -> d.Base.m","d.Leaf.m -> d.Base.m"] ∧
    throughAlias.overrideeAfter? .standard [] ⟨⟨0⟩,⟨8⟩⟩ = some ⟨⟨1⟩,⟨2⟩⟩ ∧
    throughAlias.names.Redefines ⟨⟨0⟩,⟨8⟩⟩ ⟨⟨1⟩,⟨2⟩⟩ ∧ throughAlias.names.IsRoot ⟨⟨1⟩,⟨2⟩⟩ := by
  have run : Processor.overridee.run (throughAlias.environment .standard) =
      .ok #["d.Middle.m -> d.Base.m","d.Leaf.m -> d.Base.m"] := by
    rw [Processor.run_eq]
    decide +kernel
  have found : throughAlias.overrideeAfter? .standard [] ⟨⟨0⟩,⟨8⟩⟩ = some ⟨⟨1⟩,⟨2⟩⟩ := by
    rw [overrideeAfter?_eq]
    decide +kernel
  obtain ⟨-,-,-,shared⟩ := run_overridee throughAlias .standard [] run
  obtain ⟨redefines,root,-⟩ := shared _ _ found
  exact ⟨run,found,redefines,root⟩

end Fixture

end SymbolGraph
