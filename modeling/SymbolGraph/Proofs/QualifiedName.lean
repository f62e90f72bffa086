import SymbolGraph.Proofs.Action
import SymbolGraph.Proofs.Index
import SymbolGraph.Proofs.Overriding

/-! Qualified names in a session and in the index of names. A session goes up from a declaration, the index comes
down from the files, and they find the same names. So an inferred type goes to the declarations that a session
calls by the name it is given for. -/
namespace SymbolGraph

open Direct

variable {env : Environment} {k : NodeKey} {t : Shape}

/-- The kinds of declarations that have names in the index. -/
theorem NodeKind.mem_indexed {kind : NodeKind} : kind ∈ [.classLike,.function,.property,.typeAlias] ↔
    kind.isDeclaration = true ∧ kind ≠ .typeParameter := by
  cases kind <;> decide

theorem exists_declared_genuine (ht : env.models.shape? k = some t) (declares : t.kind.isDeclaration = true) :
    ∃ d : Sight DeclaredForm, d.Genuine env ∧ d.anchor = k ∧ node k env = .ok d.toNode := by
  obtain ⟨shape,form⟩ : ∃ shape : DeclaredForm, Viewed.form shape = .written t := by
    cases t with
    | classLike c => exact ⟨.classLike c,rfl⟩
    | function f => exact ⟨.function f,rfl⟩
    | property p => exact ⟨.property p,rfl⟩
    | typeAlias a => exact ⟨.typeAlias a,rfl⟩
    | typeParameter p => exact ⟨.typeParameter p,rfl⟩
    | _ => cases declares
  obtain ⟨d,genuine,key,-⟩ := exists_genuine ht form
  have made : symbol d.key env = .ok d.toNode := genuine
  rw [key] at made
  exact ⟨d,genuine,congrArg SymbolKey.anchor key,made⟩

theorem Operation.qualifiedName_eq (hw : env.models.WellFormed) (ht : env.models.shape? k = some t)
    (declares : t.kind.isDeclaration = true) :
    (Operation.facet (.node k) .qualifiedName).direct env = .ok (.text (env.models.qualifiedName? k)) := by
  obtain ⟨d,genuine,rfl,made⟩ := exists_declared_genuine ht declares
  refine (bind_ok made).trans ?_
  rw [Direct.facet,Direct.through,Sight.as?_toNode]
  exact bind_ok (Sight.qualifiedName_eq hw genuine)

theorem Operation.isLocal_eq (hw : env.models.WellFormed) (ht : env.models.shape? k = some t)
    (declares : t.kind.isDeclaration = true) :
    (Operation.facet (.node k) .isLocal).direct env = .ok (.flag (env.models.isLocal k)) := by
  obtain ⟨d,genuine,rfl,made⟩ := exists_declared_genuine ht declares
  refine (bind_ok made).trans ?_
  rw [Direct.facet,Direct.through,Sight.as?_toNode]
  exact bind_ok (Sight.isLocal_eq hw genuine)

/-- Only declarations are asked for their names. -/
theorem Operation.isDeclaration_of_text {name : Option String}
    (h : (Operation.facet (.node k) .qualifiedName).direct env = .ok (.text name)) :
    ∃ t, env.models.shape? k = some t ∧ t.kind.isDeclaration = true := by
  obtain ⟨w,hw,h⟩ := bind_eq_ok.mp h
  obtain ⟨_,t,-,ht,rfl⟩ := node_eq_ok.mp hw
  refine ⟨t,ht,?_⟩
  cases t <;> first | rfl | cases h

namespace Fixture

variable (x : Fixture) (config : Config)

/-- What a session of a fixture answers to a question for a node. -/
def facetDuring (history : List Action) (k : NodeKey) (f : Facet) : Except Error Answer :=
  ((Operation.facet (.node k) f).run (x.environment config) (.during (x.environment config) history)).1

theorem facetDuring_eq (history : List Action) (k : NodeKey) (f : Facet) :
    x.facetDuring config history k f = (Operation.facet (.node k) f).direct (x.environment config) :=
  Operation.run_of_sound (State.sound_during _ history) _

theorem facetDuring_qualifiedName_iff (history : List Action) {q : String} :
    x.facetDuring config history k .qualifiedName = .ok (.text (some q)) ↔ x.models.qualifiedName? k = some q := by
  have hw : (x.environment config).models.WellFormed := x.models_wellFormed
  rw [facetDuring_eq]
  constructor
  · intro h
    obtain ⟨t,ht,declares⟩ := Operation.isDeclaration_of_text h
    rw [Operation.qualifiedName_eq hw ht declares] at h
    exact Answer.text.inj (Except.ok.inj h)
  · intro h
    obtain ⟨t,ht,declares,-⟩ := Models.exists_of_qualifiedName? h
    rw [Operation.qualifiedName_eq hw ht declares]
    exact congrArg (fun name => Except.ok (Answer.text name)) h

/-- If no class is nameless, the index of names has the declarations outside of functions, each under its qualified
name, and an inferred type goes to those of the name that it is given for. -/
theorem index_qualifiedName (named : ∀ k c, x.models.shape? k = some (.classLike c) → c.name ≠ "")
    (history : List Action) :
    (∀ k t, x.models.shape? k = some t → t.kind ∈ [.classLike,.function,.property,.typeAlias] →
      ∃ name : Option String, x.facetDuring config history k .qualifiedName = .ok (.text name) ∧
        x.facetDuring config history k .isLocal = .ok (.flag name.isNone) ∧
        ∀ q, (∃ d ∈ x.models.named, d.key = k ∧ d.qualified = q) ↔ name = some q) ∧
    (∀ k text, x.names.inferredText? k = some text ↔
      ∃ q, x.facetDuring config history k .qualifiedName = .ok (.text (some q)) ∧ x.inferred.get? q = some text) ∧
    ∀ k text, x.names.inferredText? k = some text →
      x.facetDuring config history k .isLocal = .ok (.flag false) ∧
      ∃ t, x.models.shape? k = some t ∧ t.kind ∈ [.classLike,.function,.property,.typeAlias] := by
  have hw : x.models.WellFormed := x.models_wellFormed
  have hw' : (x.environment config).models.WellFormed := hw
  have told {k : NodeKey} {text : String} : x.names.inferredText? k = some text ↔
      ∃ q, x.models.qualifiedName? k = some q ∧ x.inferred.get? q = some text := by
    rw [names,Names.inferredText?_eq hw,Models.indexedName?_eq hw named,Option.bind_eq_some_iff]
  refine ⟨fun k t ht kind => ?_,fun k text => ?_,fun k text h => ?_⟩
  · obtain ⟨declares,kind⟩ := NodeKind.mem_indexed.mp kind
    refine ⟨x.models.qualifiedName? k,?_,?_,fun q => ?_⟩
    · rw [facetDuring_eq]
      exact Operation.qualifiedName_eq hw' ht declares
    · have outside : x.models.isLocal k = (x.models.qualifiedName? k).isNone := by
        obtain ⟨name,declared⟩ := Option.isSome_iff_exists.mp (t.declaredName?_isSome.trans declares)
        rw [Models.qualifiedName?_eq ht declared]
        cases x.models.isLocal k <;> simp [kind]
      rw [facetDuring_eq,← outside]
      exact Operation.isLocal_eq hw' ht declares
    · rw [Models.exists_mem_named_iff hw,Models.indexedName?_eq hw named]
  · rw [told]
    simp only [facetDuring_qualifiedName_iff]
  · obtain ⟨q,hq,-⟩ := told.mp h
    obtain ⟨t,ht,declares,kind,outside⟩ := Models.exists_of_qualifiedName? hq
    refine ⟨?_,t,ht,NodeKind.mem_indexed.mpr ⟨declares,kind⟩⟩
    rw [facetDuring_eq,← outside]
    exact Operation.isLocal_eq hw' ht declares

/-- A property of a class and one inside a function of the class, both without a type, and a type for each name
that they might have. -/
def inside : Fixture where
  kotlin := [⟨"I.kt","d",[],[.classLike ⟨"C",.plain,.empty,[],[],[],[.property ⟨"p",false,.empty,[],[],none,none,2⟩,
    .function ⟨.named,some "f",.empty,[],[],none,[],none,
      some ⟨true,[.property ⟨"q",false,.empty,[],[],none,none,4⟩]⟩,3⟩],1⟩]⟩]
  java := []
  inferred := .ofList [("d.C.p","C"),("d.C.f.q","C"),("d.C.q","C"),("q","C")]

theorem className_inside (k : NodeKey) (c : ClassShape) (h : inside.models.shape? k = some (.classLike c)) :
    c.name ≠ "" := by
  have all : ∀ k ∈ inside.models.keys, ∀ s ∈ inside.models.shape? k,
      s.kind = .classLike → s.declaredName? ≠ some "" := by decide +kernel
  exact fun e => all k (Models.mem_keys h) _ h rfl (congrArg some e)

/-- The property of the class is called by its class and gets its type. The one inside the function gets none. -/
theorem index_qualifiedName_inside :
    inside.facetDuring .standard [] ⟨⟨0⟩,⟨2⟩⟩ .qualifiedName = .ok (.text (some "d.C.p")) ∧
    inside.names.inferredText? ⟨⟨0⟩,⟨2⟩⟩ = some "C" ∧
    inside.facetDuring .standard [] ⟨⟨0⟩,⟨4⟩⟩ .qualifiedName = .ok (.text none) ∧
    ∀ text, inside.names.inferredText? ⟨⟨0⟩,⟨4⟩⟩ ≠ some text := by
  obtain ⟨indexed,inferred,-⟩ := index_qualifiedName inside .standard className_inside []
  obtain ⟨outer,named,-,reached⟩ :=
    indexed ⟨⟨0⟩,⟨2⟩⟩ (.property ⟨"p",.empty,[],[],none,none,false⟩) (by decide) (by decide)
  obtain ⟨inner,unnamed,-,unreached⟩ :=
    indexed ⟨⟨0⟩,⟨4⟩⟩ (.property ⟨"q",.empty,[],[],none,none,false⟩) (by decide) (by decide)
  obtain rfl := (reached "d.C.p").mp (by decide +kernel)
  have nowhere : ∀ d ∈ inside.models.named, d.key ≠ ⟨⟨0⟩,⟨4⟩⟩ := by decide +kernel
  obtain rfl : inner = none := Option.eq_none_iff_forall_ne_some.mpr fun q h => by
    obtain ⟨d,hd,key,-⟩ := (unreached q).mpr h
    exact nowhere d hd key
  refine ⟨named,(inferred _ _).mpr ⟨_,named,by decide +kernel⟩,unnamed,fun text h => ?_⟩
  obtain ⟨q,hq,-⟩ := (inferred _ _).mp h
  cases unnamed.symm.trans hq

end Fixture
end SymbolGraph
