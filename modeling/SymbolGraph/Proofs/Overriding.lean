import Mathlib.Logic.Relation
import SymbolGraph.Fixture
import SymbolGraph.Proofs.Direct.Declarations
import SymbolGraph.Proofs.Java.Flatten
import SymbolGraph.Proofs.Kotlin.Flatten
import SymbolGraph.Proofs.Operation

/-! Which functions override which ones in the sessions of fixtures. Modifiers, visibility and signatures
decide; the classes of the two functions need not be related. -/
namespace SymbolGraph

section Guards

variable {env : Environment}

open Direct

/-- A function overrides another one if it says so, if the other is open and visible from it, and if the
oracle finds their descriptors to get along. -/
theorem Sight.overrides_eq_true (hw : env.models.WellFormed) (f : Sight FunctionShape)
    {b : Sight FunctionShape} (hb : b.Genuine env) : f.overrides b env = .ok true ↔
      f.shape.modifiers.contains .overriding = true ∧ env.models.isOpen b.anchor (.function b.shape) = true ∧
        env.oracle.visible b.anchor f.anchor = true ∧
        ∃ d e, env.oracle.descriptor b.anchor = some d ∧ env.oracle.descriptor f.anchor = some e ∧
          env.oracle.compatibility d e = .overridable := by
  have opened : b.toDeclaration.isOpen env = .ok (env.models.isOpen b.anchor (.function b.shape)) :=
    isOpen_eq hw hb.toDeclaration
  rw [overrides,guard_eq_ok_true,bind_ok opened,guard_eq_ok_true,bind_ok (ask_eq _),guard_eq_ok_true,
    bind_ok (ask_eq _)]
  refine and_congr_right fun _ => and_congr_right fun _ => and_congr_right fun _ => ?_
  cases env.oracle.descriptor b.anchor with
  | none =>
    constructor
    · intro h
      cases h
    · rintro ⟨_,_,none,-⟩
      cases none
  | some d =>
    rw [bind_eq_ok]
    constructor
    · rintro ⟨e,he,h⟩
      exact ⟨d,e,rfl,descriptor_eq_ok.mp he,of_decide_eq_true (Except.ok.inj h)⟩
    · rintro ⟨_,e,same,he,h⟩
      cases same
      exact ⟨e,descriptor_eq_ok.mpr he,congrArg Except.ok (decide_eq_true h)⟩

/-- A session tells that a function overrides another one if both are functions and pass the guards. -/
theorem Operation.overrides_eq_true (f b : NodeKey) :
    (Operation.facet (.node f) (.overrides (.node b))).direct env = .ok (.flag true) ↔
      ∃ v w : Sight FunctionShape, v.Genuine env ∧ v.key = .node f ∧ w.Genuine env ∧ w.key = .node b ∧
        v.overrides w env = .ok true := by
  constructor
  · intro h
    obtain ⟨m,hm,h⟩ := bind_eq_ok.mp h
    obtain ⟨genuine,key⟩ := symbol_genuine hm
    cases hv : m.as? FunctionShape with
    | none => simp only [Direct.facet,Direct.through,hv] at h; cases h
    | some v =>
      simp only [Direct.facet,Direct.through,hv] at h
      obtain ⟨n,hn,h⟩ := bind_eq_ok.mp h
      obtain ⟨genuine',key'⟩ := symbol_genuine hn
      cases hw : n.as? FunctionShape with
      | none => simp only [hw] at h; cases h
      | some w =>
        simp only [hw] at h
        obtain ⟨r,hr,e⟩ := bind_eq_ok.mp h
        cases e
        refine ⟨v,w,genuine.narrow hv,?_,genuine'.narrow hw,?_,hr⟩
        · exact (Sight.key_of_as? hv).trans key
        · exact (Sight.key_of_as? hw).trans key'
  · rintro ⟨v,w,hv,kv,hw,kw,h⟩
    rw [Sight.Genuine,kv] at hv
    rw [Sight.Genuine,kw] at hw
    rw [direct,bind_ok hv]
    simp only [Direct.facet,Direct.through,Sight.as?_toNode]
    rw [bind_ok hw]
    simp only [Sight.as?_toNode]
    rw [bind_ok h]; rfl

end Guards

namespace Names

/-- The types of the parameters of a function, if all are known. -/
def parameterTypes? (n : Names) (k : NodeKey) (f : FunctionShape) : Option (List ResolvedType) :=
  f.parameters.mapM fun p => n.parameterType? (k.sibling p)

/-- What makes a function override another one: modifiers, visibility, and equal names and parameter
types, aliases expanded. -/
def Overrides (n : Names) (f b : NodeKey) : Prop :=
  ∃ F B ps qs, n.models.shape? f = some (.function F) ∧ n.models.shape? b = some (.function B) ∧
    F.modifiers.contains .overriding = true ∧ n.models.isOpen b (.function B) = true ∧
    n.visible b f = true ∧ B.name = F.name ∧ n.parameterTypes? f F = some ps ∧
    n.parameterTypes? b B = some qs ∧ qs.map n.expand = ps.map n.expand

theorem descriptor?_function {n : Names} {k : NodeKey} {f : FunctionShape}
    (h : n.models.shape? k = some (.function f)) : n.descriptor? k = n.functionDescriptor? k f := by
  rw [descriptor?,h]

theorem functionDescriptor?_eq_some {n : Names} {k : NodeKey} {f : FunctionShape} {d : Descriptor}
    (h : n.functionDescriptor? k f = some d) :
    d.name = f.name ∧ n.parameterTypes? k f = some d.parameters := by
  obtain ⟨ps,hps,made⟩ := Option.bind_eq_some_iff.mp h
  obtain rfl := Option.some.inj made
  exact ⟨rfl,hps⟩

theorem exists_functionDescriptor {n : Names} {k : NodeKey} {f : FunctionShape} {ps : List ResolvedType}
    (h : n.parameterTypes? k f = some ps) :
    ∃ d, n.functionDescriptor? k f = some d ∧ d.name = f.name ∧ d.parameters = ps := by
  obtain ⟨d,hd⟩ : ∃ d, n.functionDescriptor? k f = some d :=
    ⟨_,Option.bind_eq_some_iff.mpr ⟨ps,h,rfl⟩⟩
  obtain ⟨name,types⟩ := functionDescriptor?_eq_some hd
  exact ⟨d,hd,name,Option.some.inj (types.symm.trans h)⟩

theorem compatibility_eq_overridable {n : Names} {d e : Descriptor} :
    n.compatibility d e = .overridable ↔
      d.name = e.name ∧ d.parameters.map n.expand = e.parameters.map n.expand := by
  rw [compatibility]
  by_cases name : d.name = e.name
  · by_cases types : d.parameters.map n.expand = e.parameters.map n.expand <;> simp [name,types]
  · simp [name]

/-- A function overrides itself whenever it says so, stands outside of functions and has parameters of
known types. -/
theorem overrides_self {n : Names} {k : NodeKey} :
    n.Overrides k k ↔ ∃ f ps, n.models.shape? k = some (.function f) ∧
      f.modifiers.contains .overriding = true ∧ n.models.isLocal k = false ∧
      n.parameterTypes? k f = some ps := by
  constructor
  · rintro ⟨f,_,ps,_,hf,-,overriding,opened,-,-,types,-,-⟩
    refine ⟨f,ps,hf,overriding,?_,types⟩
    rw [Models.isOpen,Bool.and_eq_true,Bool.not_eq_true'] at opened
    exact opened.1
  · rintro ⟨f,ps,hf,overriding,outside,types⟩
    refine ⟨f,f,ps,ps,hf,hf,overriding,?_,?_,rfl,types,types,rfl⟩
    · simp [Models.isOpen,outside,DeclaredForm.modifiers,overriding]
    · simp [visible]

end Names

namespace Fixture

open Direct

def names (x : Fixture) : Names := .ofModels x.models x.inferred

theorem models_wellFormed (x : Fixture) : x.models.WellFormed := by
  intro a ha
  rcases List.mem_cons.mp ha with rfl | ha
  · exact Kotlin.flatten_wellFormed _
  · obtain rfl := List.mem_singleton.mp ha
    exact Java.flatten_wellFormed _

theorem files_eq (x : Fixture) : x.models.files = (Kotlin.flatten x.kotlin).files.map (⟨⟨0⟩,·⟩) ++
    (Java.flatten x.java).files.map (⟨⟨1⟩,·⟩) := by
  simp [Models.files,Models.indexed,models]

theorem keys_eq (x : Fixture) : x.models.keys = (Kotlin.flatten x.kotlin).nodes.map (⟨⟨0⟩,·⟩) ++
    (Java.flatten x.java).nodes.map (⟨⟨1⟩,·⟩) := by
  simp [Models.keys,Models.indexed,models]

variable (x : Fixture) (config : Config)

/-- What a session of a fixture answers to the question whether a function overrides another one. -/
def overridesAfter (history : List Operation) (f b : NodeKey) : Except Error Answer :=
  ((Operation.facet (.node f) (.overrides (.node b))).run (x.environment config)
    (.after (x.environment config) history)).1

theorem overridesAfter_eq_true (history : List Operation) (f b : NodeKey) :
    x.overridesAfter config history f b = .ok (.flag true) ↔ x.names.Overrides f b := by
  have hw : (x.environment config).models.WellFormed := x.models_wellFormed
  rw [overridesAfter,Operation.run_of_sound (State.sound_after _ history),Operation.overrides_eq_true]
  constructor
  · rintro ⟨v,w,hv,kv,hb,kw,h⟩
    obtain ⟨overriding,opened,visible,d,e,hd,he,compatible⟩ := (v.overrides_eq_true hw hb).mp h
    have hF := (hv.written (s := .function v.shape) rfl).2
    have hB := (hb.written (s := .function w.shape) rfl).2
    have anchor : v.anchor = f := congrArg SymbolKey.anchor kv
    have anchor' : w.anchor = b := congrArg SymbolKey.anchor kw
    rw [anchor] at hF visible he
    rw [anchor'] at hB opened visible hd
    obtain ⟨name,types⟩ := Names.compatibility_eq_overridable.mp compatible
    obtain ⟨hn,hq⟩ := Names.functionDescriptor?_eq_some ((Names.descriptor?_function hB).symm.trans hd)
    obtain ⟨hn',hp⟩ := Names.functionDescriptor?_eq_some ((Names.descriptor?_function hF).symm.trans he)
    exact ⟨v.shape,w.shape,_,_,hF,hB,overriding,opened,visible,hn.symm.trans (name.trans hn'),hp,hq,types⟩
  · rintro ⟨F,B,ps,qs,hF,hB,overriding,opened,visible,name,hps,hqs,types⟩
    obtain ⟨v,hv,kv,rfl⟩ : ∃ v : Sight FunctionShape, v.Genuine (x.environment config) ∧
      v.key = .node f ∧ v.shape = F := exists_genuine hF rfl
    obtain ⟨w,hb,kw,rfl⟩ : ∃ w : Sight FunctionShape, w.Genuine (x.environment config) ∧
      w.key = .node b ∧ w.shape = B := exists_genuine hB rfl
    have anchor : v.anchor = f := congrArg SymbolKey.anchor kv
    have anchor' : w.anchor = b := congrArg SymbolKey.anchor kw
    obtain ⟨d,hd,dn,dp⟩ := Names.exists_functionDescriptor hqs
    obtain ⟨e,he,en,ep⟩ := Names.exists_functionDescriptor hps
    refine ⟨v,w,hv,kv,hb,kw,(v.overrides_eq_true hw hb).mpr ?_⟩
    rw [anchor,anchor']
    refine ⟨overriding,opened,visible,d,e,(Names.descriptor?_function hB).trans hd,
      (Names.descriptor?_function hF).trans he,Names.compatibility_eq_overridable.mpr ⟨?_,?_⟩⟩
    · rw [dn,en,name]
    · rw [dp,ep]; exact types

/-- Whether a function overrides another one is decided by the guards alone. So a function overrides
itself if it says so, stands outside of functions and has parameters of known types. -/
theorem overrides_by_guards (history : List Operation) :
    (∀ f b, x.overridesAfter config history f b = .ok (.flag true) ↔ x.names.Overrides f b) ∧
    ∀ f, x.overridesAfter config history f f = .ok (.flag true) ↔
      ∃ F ps, x.models.shape? f = some (.function F) ∧ F.modifiers.contains .overriding = true ∧
        x.models.isLocal f = false ∧ x.names.parameterTypes? f F = some ps := by
  have guards := x.overridesAfter_eq_true config history
  exact ⟨guards,fun f => (guards f f).trans Names.overrides_self⟩

/-- A function without parameters. -/
def memberNamed (name : String) (modifier : Modifier) : Kotlin.Declaration :=
  .function ⟨.named,some name,.ofList [modifier],[],[],none,[],none,none,1⟩

/-- Two classes without super classes, each with a function of the same name. -/
def unrelated : Fixture where
  kotlin := [⟨"K.kt","d",[],[.classLike ⟨"A",.plain,.empty,[],[],[],[memberNamed "m" .opened],1⟩,
    .classLike ⟨"B",.plain,.empty,[],[],[],[memberNamed "m" .overriding],2⟩]⟩]
  java := []
  inferred := .empty

theorem superClasses_unrelated (c : NodeKey) : unrelated.names.superClasses c = [] := by
  have none : ∀ c ∈ unrelated.names.models.keys, unrelated.names.superClasses c = [] := by decide
  by_cases h : unrelated.names.superClasses c = []
  · exact h
  · exact none c (Names.mem_keys_of_superClasses h)

/-- The second function overrides the first, and itself, but no class is above another one. -/
theorem unrelated_overrides :
    unrelated.overridesAfter .standard [] ⟨⟨0⟩,⟨4⟩⟩ ⟨⟨0⟩,⟨2⟩⟩ = .ok (.flag true) ∧
    unrelated.overridesAfter .standard [] ⟨⟨0⟩,⟨4⟩⟩ ⟨⟨0⟩,⟨4⟩⟩ = .ok (.flag true) ∧
    unrelated.models.parent? ⟨⟨0⟩,⟨4⟩⟩ = some ⟨⟨0⟩,⟨3⟩⟩ ∧ unrelated.models.parent? ⟨⟨0⟩,⟨2⟩⟩ = some ⟨⟨0⟩,⟨1⟩⟩ ∧
    ∀ c d, ¬Relation.TransGen (fun c d => d ∈ unrelated.names.superClasses c) c d := by
  refine ⟨rfl,rfl,by decide,by decide,fun c d h => ?_⟩
  obtain ⟨e,he,-⟩ := Relation.TransGen.head'_iff.mp h
  rw [superClasses_unrelated] at he
  cases he

end Fixture

end SymbolGraph
