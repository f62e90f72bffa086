import SymbolGraph.Proofs.Action
import SymbolGraph.Proofs.Aliases
import SymbolGraph.Proofs.Outcome
import SymbolGraph.Proofs.Settled

/-! The types that the oracle of names tells, and what references spell. A type that is told can be taken apart to
any depth, and one that is written has an argument for each argument of its reference. -/
namespace SymbolGraph

/-- In all parts of a type, just the stars have no type. -/
def ResolvedType.Starred (t : ResolvedType) : Prop :=
  ∀ u ∈ t.parts, ∀ a ∈ u.arguments, a.type = none ↔ a.variance = .star

/-- Types that can be taken apart. -/
structure Models.Proper (ms : Models) (t : ResolvedType) : Prop where
  builds : ms.Builds t
  starred : t.Starred

namespace Models.Proper

variable {ms : Models} {k : NodeKey} {t : ResolvedType}

theorem simple (h : ms.DeclaresType k) : ms.Proper (.simple k) := by
  have only {u : ResolvedType} (hu : u ∈ (ResolvedType.simple k).parts) : u = .simple k := by
    rcases ResolvedType.mem_parts.mp hu with e | ⟨a,ha,-⟩
    · exact e
    · cases ha
  refine ⟨fun u hu => ?_,fun u hu => ?_⟩
  · rw [only hu]
    exact h
  · rw [only hu]
    exact List.forall_mem_nil _

theorem withNullable (h : ms.Proper t) (b : Bool) : ms.Proper (t.withNullable b) := by
  refine ⟨fun u hu => ?_,fun u hu => ?_⟩
  · obtain ⟨v,hv,declaration,-⟩ := ResolvedType.exists_mem_parts_withNullable hu
    exact declaration ▸ h.builds v hv
  · obtain ⟨v,hv,-,arguments⟩ := ResolvedType.exists_mem_parts_withNullable hu
    exact arguments ▸ h.starred v hv

end Models.Proper

namespace Names

/-! ### What references spell -/

mutual
/-- A reference spells the type that its name means, with an argument for each of its own arguments. -/
inductive Spells (n : Names) : NodeKey → ResolvedType → Prop
  | reference {k declaration : NodeKey} {s : TypeReferenceShape} {text : TypeText} {arguments : List TypeArgument}
    (shape : n.models.shape? k = some (.typeReference s)) (parsed : TypeText.parse? s.text = some text)
    (type : text.variance ≠ .star) (named : n.resolveName? text.name k = some declaration)
    (inner : SpellsAll n (s.arguments.map k.sibling) arguments) : Spells n k ⟨declaration,arguments,text.nullable⟩
/-- The arguments that references spell, one for each of them in their order. -/
inductive SpellsAll (n : Names) : List NodeKey → List TypeArgument → Prop
  | nil : SpellsAll n [] []
  | star {k : NodeKey} {s : TypeReferenceShape} {text : TypeText} {ks : List NodeKey} {as : List TypeArgument}
    (shape : n.models.shape? k = some (.typeReference s)) (parsed : TypeText.parse? s.text = some text)
    (star : text.variance = .star) (rest : SpellsAll n ks as) : SpellsAll n (k :: ks) (⟨.star,none⟩ :: as)
  | type {k : NodeKey} {s : TypeReferenceShape} {text : TypeText} {t : ResolvedType} {ks : List NodeKey}
    {as : List TypeArgument} (shape : n.models.shape? k = some (.typeReference s))
    (parsed : TypeText.parse? s.text = some text) (type : text.variance ≠ .star) (own : Spells n k t)
    (rest : SpellsAll n ks as) : SpellsAll n (k :: ks) (⟨text.variance,some t⟩ :: as)
end

variable {n : Names} {depth : Nat} {k : NodeKey} {t : ResolvedType} {ks : List NodeKey} {as : List TypeArgument}

theorem SpellsAll.length_eq (h : n.SpellsAll ks as) : as.length = ks.length := by
  induction as generalizing ks with
  | nil => cases h; rfl
  | cons a as ih =>
    cases h with
    | star _ _ _ rest => exact congrArg (· + 1) (ih rest)
    | type _ _ _ _ rest => exact congrArg (· + 1) (ih rest)

theorem Spells.length_eq (h : n.Spells k t) {s : TypeReferenceShape}
    (hs : n.models.shape? k = some (.typeReference s)) : t.arguments.length = s.arguments.length := by
  cases h with
  | reference shape _ _ _ inner =>
    obtain rfl := Shape.typeReference.inj (Option.some.inj (hs.symm.trans shape))
    exact inner.length_eq.trans (List.length_map _)

theorem spellsAll_of_forall₂ (own : ∀ {k t}, n.referenceIn depth k = some t → n.Spells k t)
    (h : List.Forall₂ (fun k a => n.argumentIn depth k = some a) ks as) : n.SpellsAll ks as := by
  induction h with
  | nil => exact .nil
  | cons first _ rest =>
    obtain ⟨s,text,shape,parsed,⟨star,rfl⟩ | ⟨type,t,meant,rfl⟩⟩ := argumentIn_eq_some_iff.mp first
    · exact .star shape parsed star rest
    · exact .type shape parsed type (own meant) rest

theorem spells_of_referenceIn (h : n.referenceIn depth k = some t) : n.Spells k t := by
  induction depth generalizing k t with
  | zero => rw [referenceIn] at h; cases h
  | succ depth ih =>
    obtain ⟨s,text,shape,parsed,type,named,arguments,nullable⟩ := exists_of_referenceIn h
    obtain ⟨declaration,as,b⟩ := t
    obtain rfl : b = text.nullable := nullable
    exact .reference shape parsed type named (spellsAll_of_forall₂ ih (List.forall₂_map_left_iff.mpr arguments))

mutual
/-- What a reference spells is found with depth left for all nodes behind it. -/
theorem Spells.referenceIn_eq (hw : n.models.WellFormed) {k : NodeKey} {t : ResolvedType} :
    n.Spells k t → ∀ depth, n.models.size < depth + k.node.index → n.referenceIn depth k = some t
  | @Spells.reference _ k declaration s text arguments shape parsed type named inner, depth, room => by
    have inside := Models.index_lt_size shape
    obtain ⟨depth,rfl⟩ : ∃ left, depth = left + 1 := Nat.exists_eq_succ_of_ne_zero (by omega)
    -- Arguments have greater numbers than their reference, so that what is left is enough for each of them.
    have behind : ∀ j ∈ s.arguments.map k.sibling, n.models.size < depth + j.node.index := by
      intro j hj
      obtain ⟨c,hc,rfl⟩ := List.mem_map.mp hj
      have listed : (c,Place.reference) ∈ (Shape.typeReference s).places := by simp [Shape.places,hc]
      have lt := hw.index_lt (hw.child shape listed).1
      omega
    have all := inner.argumentIn_eq hw depth behind
    rw [List.mapM_map] at all
    rw [referenceIn,shape]
    refine Option.bind_eq_some_iff.mpr ⟨text,parsed,(if_neg type).trans ?_⟩
    refine Option.bind_eq_some_iff.mpr ⟨declaration,named,?_⟩
    exact Option.bind_eq_some_iff.mpr ⟨arguments,all,rfl⟩
theorem SpellsAll.argumentIn_eq (hw : n.models.WellFormed) {ks : List NodeKey} {as : List TypeArgument} :
    n.SpellsAll ks as → ∀ depth, (∀ k ∈ ks, n.models.size < depth + k.node.index) →
      ks.mapM (n.argumentIn depth) = some as
  | .nil, _, _ => rfl
  | .star shape parsed star rest, depth, room => by
    have first : n.argumentIn depth _ = some ⟨.star,none⟩ :=
      argumentIn_eq_some_iff.mpr ⟨_,_,shape,parsed,.inl ⟨star,rfl⟩⟩
    rw [List.mapM_cons,first,rest.argumentIn_eq hw depth fun k hk => room k (List.mem_cons_of_mem _ hk)]
    rfl
  | .type shape parsed type own rest, depth, room => by
    have meant := own.referenceIn_eq hw depth (room _ List.mem_cons_self)
    have first : n.argumentIn depth _ = some ⟨_,some _⟩ :=
      argumentIn_eq_some_iff.mpr ⟨_,_,shape,parsed,.inr ⟨type,_,meant,rfl⟩⟩
    rw [List.mapM_cons,first,rest.argumentIn_eq hw depth fun k hk => room k (List.mem_cons_of_mem _ hk)]
    rfl
end

/-- The oracle tells just the types that references spell. -/
theorem reference?_eq_some_iff (hw : n.models.WellFormed) : n.reference? k = some t ↔ n.Spells k t :=
  ⟨spells_of_referenceIn,fun h => h.referenceIn_eq hw _ (by omega)⟩

/-! ### What is told -/

/-- The types that the oracle of names tells: what references mean, what functions take, what declarations result in,
and what all these are compared by. What a constructor makes without a written type is left out. -/
inductive Told (n : Names) : ResolvedType → Prop
  | reference {k : NodeKey} {t : ResolvedType} (h : n.oracle.reference k = some t) : Told n t
  | parameter {k : NodeKey} {d : Descriptor} {t : ResolvedType} (h : n.oracle.descriptor k = some d)
    (ht : t ∈ d.parameters) : Told n t
  | result {k : NodeKey} {d : Descriptor} {t : ResolvedType} (h : n.oracle.descriptor k = some d)
    (ht : d.returnType = some t) (written : ∀ f, n.models.shape? k = some (.function f) → f.form = .constructor →
      f.returnType ≠ none) : Told n t
  | expanded {t : ResolvedType} (h : Told n t) : Told n (n.expand t)

theorem starred_of_referenceIn (h : n.referenceIn depth k = some t) : t.Starred := by
  intro u hu a ha
  obtain ⟨j,e,-,meant⟩ := mem_parts_referenceIn h hu
  obtain ⟨_,_,-,-,-,-,arguments,-⟩ := exists_of_referenceIn meant
  obtain ⟨c,-,found⟩ := exists_of_forall₂ arguments ha
  obtain ⟨_,_,-,-,⟨-,rfl⟩ | ⟨type,v,-,rfl⟩⟩ := argumentIn_eq_some_iff.mp found
  · exact iff_of_true rfl rfl
  · exact iff_of_false (Option.some_ne_none v) type

section Proper

variable {ms : Models} {inferred : TextMap}

theorem proper_of_reference? (h : (ofModels ms inferred).reference? k = some t) : ms.Proper t :=
  ⟨oracle_builds ms inferred k t h,starred_of_referenceIn h⟩

theorem proper_of_aliasTarget? (h : (ofModels ms inferred).aliasTarget? k = some t) : ms.Proper t := by
  rw [aliasTarget?] at h
  split at h
  · exact proper_of_reference? h
  · cases h

theorem proper_expandIn (steps : Nat) (seen : List NodeKey) (h : ms.Proper t) :
    ms.Proper ((ofModels ms inferred).expandIn steps seen t) := by
  induction steps generalizing seen t with
  | zero => exact h
  | succ steps ih =>
    rw [expandIn]
    split
    · exact h
    · cases target : (ofModels ms inferred).aliasTarget? t.declaration with
      | none => exact h
      | some u => exact ih _ ((proper_of_aliasTarget? target).withNullable _)

theorem proper_of_inferred? (h : (ofModels ms inferred).inferred? k = some t) : ms.Proper t := by
  obtain ⟨text,-,h⟩ := Option.bind_eq_some_iff.mp h
  obtain ⟨parsed,-,h⟩ := Option.bind_eq_some_iff.mp h
  obtain ⟨target,named,h⟩ := Option.bind_eq_some_iff.mp h
  obtain rfl := Option.some.inj h
  exact (Models.Proper.simple (declaresType_of_resolveName? named)).withNullable _

theorem proper_of_typeOf? {written : Option NodeId} (h : (ofModels ms inferred).typeOf? k written = some t) :
    ms.Proper t := by
  cases written with
  | none => exact proper_of_inferred? h
  | some r => exact proper_of_reference? h

theorem proper_of_parameterType? (h : (ofModels ms inferred).parameterType? k = some t) : ms.Proper t := by
  rw [parameterType?] at h
  split at h
  · exact proper_of_typeOf? h
  · cases h

theorem proper_of_mem_parameters {d : Descriptor} (h : (ofModels ms inferred).descriptor? k = some d)
    (ht : t ∈ d.parameters) : ms.Proper t := by
  rw [descriptor?] at h
  split at h
  case h_2 f hf =>
    obtain ⟨-,types⟩ := functionDescriptor?_eq_some h
    obtain ⟨p,-,found⟩ := exists_of_forall₂ (forall₂_of_mapM types) ht
    exact proper_of_parameterType? found
  all_goals cases h; try cases ht

theorem proper_of_returnType {d : Descriptor} (h : (ofModels ms inferred).descriptor? k = some d)
    (ht : d.returnType = some t) (written : ∀ f, ms.shape? k = some (.function f) → f.form = .constructor →
      f.returnType ≠ none) : ms.Proper t := by
  rw [descriptor?] at h
  split at h
  case h_2 f hf =>
    obtain ⟨parameters,-,made⟩ := Option.bind_eq_some_iff.mp h
    obtain rfl := Option.some.inj made
    have plain : ¬(f.returnType = none ∧ f.form = .constructor) := fun made => written f hf made.2 made.1
    rw [returnType?,if_neg plain] at ht
    exact proper_of_typeOf? ht
  case h_3 => cases h; exact proper_of_typeOf? ht
  case h_4 => cases h; exact proper_of_typeOf? ht
  all_goals cases h; try cases ht

/-- All that is told can be taken apart. -/
theorem Told.proper (h : (ofModels ms inferred).Told t) : ms.Proper t := by
  induction h with
  | reference h => exact proper_of_reference? h
  | parameter h ht => exact proper_of_mem_parameters h ht
  | result h ht written => exact proper_of_returnType h ht written
  | expanded _ ih => exact proper_expandIn _ _ ih

end Proper

end Names

namespace Fixture

open Session

/-- Every part of a type that is told is built from a class, a type alias or a type parameter, which a session finds
at any time, and just its stars have no type. What is written is told as it is spelled, with an argument for each
argument of its reference. -/
theorem told_proper (x : Fixture) (config : Config) (history : List Action) :
    (∀ t, x.names.Told t → ∀ u ∈ t.parts, x.models.DeclaresType u.declaration ∧
      (∀ a ∈ u.arguments, a.type = none ↔ a.variance = .star) ∧
      ∀ id, ∃ d : Sight DeclaredForm, d.anchor = u.declaration ∧ Tells Shows (x.environment config)
        (.during (x.environment config) history) (InternedType.declaration ⟨id,u⟩) d) ∧
    (∀ k t, x.names.oracle.reference k = some t ↔ x.names.Spells k t) ∧
    ∀ k s t, x.models.shape? k = some (.typeReference s) → x.names.oracle.reference k = some t →
      t.arguments.length = s.arguments.length := by
  have hw : x.names.models.WellFormed := x.models_wellFormed
  refine ⟨fun t told u hu => ?_,fun k t => Names.reference?_eq_some_iff hw,fun k s t hs meant => ?_⟩
  · have proper : x.models.Proper t := Names.Told.proper told
    refine ⟨proper.builds u hu,proper.starred u hu,fun id => ?_⟩
    have declares : (x.environment config).models.Declares u.declaration := (proper.builds u hu).declares
    obtain ⟨d,run,anchor,-⟩ := ResolvedType.exists_declared declares
    exact ⟨d,anchor,Tells.of_agrees (fun _ _ => Agrees.declarationOf u) run⟩
  · exact ((Names.reference?_eq_some_iff hw).mp meant).length_eq hs

/-- An alias of a type with stars at two depths, and a property of it. -/
def projected : Fixture where
  kotlin := [⟨"K.kt","d",[],[.classLike ⟨"List",.plain,.empty,[],[],[],[],1⟩,
    .classLike ⟨"Map",.plain,.empty,[],[],[],[],2⟩,
    .typeAlias ⟨"Table",.empty,[],[],⟨"Map<in List<*>, *>",[],[⟨"in List<*>",[],[⟨"*",[],[]⟩]⟩,⟨"*",[],[]⟩]⟩,3⟩,
    .property ⟨"p",false,.empty,[],[],none,some ⟨"Table?",[],[]⟩,4⟩]⟩]
  java := []
  inferred := .empty

def anyList : ResolvedType := ⟨⟨⟨0⟩,⟨1⟩⟩,[⟨.star,none⟩],false⟩

def anyMap (nullable : Bool) : ResolvedType := ⟨⟨⟨0⟩,⟨2⟩⟩,[⟨.input,some anyList⟩,⟨.star,none⟩],nullable⟩

/-- What the property is compared by is built from the class behind the alias, whose argument can be taken apart as
well. -/
theorem told_proper_projected :
    projected.names.Told (anyMap true) ∧ anyList ∈ (anyMap true).parts ∧
    projected.models.DeclaresType anyList.declaration ∧
    (∀ id, ∃ d : Sight DeclaredForm, d.anchor = ⟨⟨0⟩,⟨1⟩⟩ ∧ Tells Shows (projected.environment .standard)
      (.during (projected.environment .standard) []) (InternedType.declaration ⟨id,anyList⟩) d) ∧
    projected.names.Spells ⟨⟨0⟩,⟨4⟩⟩ (anyMap false) := by
  obtain ⟨all,spelled,-⟩ := told_proper projected .standard []
  have meant : projected.names.oracle.reference ⟨⟨0⟩,⟨9⟩⟩ = some ⟨⟨⟨0⟩,⟨3⟩⟩,[],true⟩ := by decide +kernel
  have compared : projected.names.expand ⟨⟨⟨0⟩,⟨3⟩⟩,[],true⟩ = anyMap true := by decide +kernel
  have told : projected.names.Told (anyMap true) := compared ▸ .expanded (.reference meant)
  have inside : anyList ∈ (anyMap true).parts :=
    ResolvedType.mem_parts.mpr (.inr ⟨_,List.mem_cons_self,_,rfl,ResolvedType.mem_parts.mpr (.inl rfl)⟩)
  obtain ⟨declares,-,found⟩ := all _ told _ inside
  exact ⟨told,inside,declares,found,(spelled _ _).mp (by decide +kernel)⟩

end Fixture
end SymbolGraph
