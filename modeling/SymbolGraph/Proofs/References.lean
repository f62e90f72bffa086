import Mathlib.Data.List.Forall2
import Mathlib.Logic.Relation
import SymbolGraph.Proofs.Names

/-! The types that references mean, part by part. Every part of such a type is what a reference means that is
nested in the arguments of the whole. -/
namespace SymbolGraph

/-! ### Parts of types -/

mutual
/-- A type and the types nested in its arguments. -/
def ResolvedType.parts : ResolvedType → List ResolvedType
  | ⟨declaration,arguments,nullable⟩ => ⟨declaration,arguments,nullable⟩ :: argumentParts arguments
def optionalParts : Option ResolvedType → List ResolvedType
  | none => []
  | some t => t.parts
def TypeArgument.parts : TypeArgument → List ResolvedType
  | ⟨_,type⟩ => optionalParts type
def argumentParts : List TypeArgument → List ResolvedType
  | [] => []
  | a :: as => a.parts ++ argumentParts as
end

theorem TypeArgument.mem_parts {a : TypeArgument} {u : ResolvedType} :
    u ∈ a.parts ↔ ∃ t, a.type = some t ∧ u ∈ t.parts := by
  obtain ⟨_,type⟩ := a
  rw [parts]
  cases type <;> simp [optionalParts]

theorem mem_argumentParts {as : List TypeArgument} {u : ResolvedType} :
    u ∈ argumentParts as ↔ ∃ a ∈ as, u ∈ a.parts := by
  induction as with
  | nil => simp [argumentParts]
  | cons a as ih => simp [argumentParts,ih]

theorem ResolvedType.mem_parts {t u : ResolvedType} :
    u ∈ t.parts ↔ u = t ∨ ∃ a ∈ t.arguments, ∃ v, a.type = some v ∧ u ∈ v.parts := by
  obtain ⟨declaration,arguments,nullable⟩ := t
  simp only [parts,List.mem_cons,mem_argumentParts,TypeArgument.mem_parts]

/-- Whether a type takes null does not matter for its declarations and their arguments. -/
theorem ResolvedType.exists_mem_parts_withNullable {t u : ResolvedType} {b : Bool}
    (h : u ∈ (t.withNullable b).parts) :
    ∃ v ∈ t.parts, v.declaration = u.declaration ∧ v.arguments = u.arguments := by
  rcases mem_parts.mp h with rfl | below
  · exact ⟨t,mem_parts.mpr (.inl rfl),rfl,rfl⟩
  · exact ⟨u,mem_parts.mpr (.inr below),rfl,rfl⟩

/-! ### References -/

/-- Whether one reference is an argument of another one. -/
def Models.Nests (ms : Models) (r j : NodeKey) : Prop :=
  ∃ s, ms.shape? r = some (.typeReference s) ∧ ∃ a ∈ s.arguments, j = r.sibling a

theorem forall₂_of_mapM {A B : Type} {f : A → Option B} {as : List A} {bs : List B}
    (h : as.mapM f = some bs) : List.Forall₂ (fun a b => f a = some b) as bs := by
  induction as generalizing bs with
  | nil =>
    obtain rfl := Option.some.inj h
    exact .nil
  | cons a as ih =>
    rw [List.mapM_cons] at h
    obtain ⟨b,hb,h⟩ := Option.bind_eq_some_iff.mp h
    obtain ⟨cs,hcs,h⟩ := Option.bind_eq_some_iff.mp h
    obtain rfl := Option.some.inj h
    exact .cons hb (ih hcs)

theorem exists_of_forall₂ {A B : Type} {R : A → B → Prop} {as : List A} {bs : List B} {b : B}
    (h : List.Forall₂ R as bs) (hb : b ∈ bs) : ∃ a ∈ as, R a b := by
  induction h with
  | nil => cases hb
  | @cons a c as bs first _ ih =>
    rcases List.mem_cons.mp hb with rfl | hb
    · exact ⟨a,List.mem_cons_self,first⟩
    · obtain ⟨a,ha,related⟩ := ih hb
      exact ⟨a,List.mem_cons_of_mem _ ha,related⟩

namespace Names

variable {n : Names} {depth : Nat} {k : NodeKey} {t u : ResolvedType}

/-- What makes up the type that a reference means: the declaration of its name, and an argument for each of
its own arguments. -/
theorem exists_of_referenceIn (h : n.referenceIn (depth+1) k = some t) :
    ∃ s text, n.models.shape? k = some (.typeReference s) ∧ TypeText.parse? s.text = some text ∧
      text.variance ≠ .star ∧ n.resolveName? text.name k = some t.declaration ∧
      List.Forall₂ (fun a b => n.argumentIn depth (k.sibling a) = some b) s.arguments t.arguments ∧
      t.nullable = text.nullable := by
  rw [referenceIn] at h
  split at h
  · next s hs =>
    obtain ⟨text,parsed,h⟩ := Option.bind_eq_some_iff.mp h
    split at h
    · cases h
    · next type =>
      obtain ⟨d,named,h⟩ := Option.bind_eq_some_iff.mp h
      obtain ⟨arguments,found,h⟩ := Option.bind_eq_some_iff.mp h
      obtain rfl := Option.some.inj h
      exact ⟨s,text,hs,parsed,type,named,forall₂_of_mapM found,rfl⟩
  · cases h

/-- An argument is a star without a type, or has the type that its reference means. -/
theorem argumentIn_eq_some_iff {a : TypeArgument} : n.argumentIn depth k = some a ↔
    ∃ s text, n.models.shape? k = some (.typeReference s) ∧ TypeText.parse? s.text = some text ∧
      (text.variance = .star ∧ a = ⟨.star,none⟩ ∨
        text.variance ≠ .star ∧ ∃ t, n.referenceIn depth k = some t ∧ a = ⟨text.variance,some t⟩) := by
  rw [argumentIn]
  constructor
  · intro h
    split at h
    · next s hs =>
      obtain ⟨text,parsed,h⟩ := Option.bind_eq_some_iff.mp h
      split at h
      · next star => exact ⟨s,text,hs,parsed,.inl ⟨star,(Option.some.inj h).symm⟩⟩
      · next type =>
        obtain ⟨t,meant,h⟩ := Option.bind_eq_some_iff.mp h
        exact ⟨s,text,hs,parsed,.inr ⟨type,t,meant,(Option.some.inj h).symm⟩⟩
    · cases h
  · rintro ⟨s,text,hs,parsed,⟨star,rfl⟩ | ⟨type,t,meant,rfl⟩⟩
    · rw [hs]
      exact Option.bind_eq_some_iff.mpr ⟨text,parsed,if_pos star⟩
    · rw [hs]
      refine Option.bind_eq_some_iff.mpr ⟨text,parsed,(if_neg type).trans ?_⟩
      exact Option.bind_eq_some_iff.mpr ⟨t,meant,rfl⟩

theorem mem_parts_referenceIn (h : n.referenceIn depth k = some t) (hu : u ∈ t.parts) :
    ∃ j e, Relation.ReflTransGen n.models.Nests k j ∧ n.referenceIn (e+1) j = some u := by
  induction depth generalizing k t with
  | zero => rw [referenceIn] at h; cases h
  | succ depth ih =>
    rcases ResolvedType.mem_parts.mp hu with rfl | ⟨b,hb,v,type,inside⟩
    · exact ⟨k,depth,.refl,h⟩
    · obtain ⟨s,-,hs,-,-,-,arguments,-⟩ := exists_of_referenceIn h
      obtain ⟨a,ha,found⟩ := exists_of_forall₂ arguments hb
      obtain ⟨_,_,-,-,⟨-,rfl⟩ | ⟨-,w,meant,rfl⟩⟩ := argumentIn_eq_some_iff.mp found
      · cases type
      · obtain rfl := Option.some.inj type
        obtain ⟨j,e,nested,meant⟩ := ih meant inside
        exact ⟨j,e,.head ⟨s,hs,a,ha,rfl⟩ nested,meant⟩

end Names

/-! ### What types are built from -/

/-- All parts of a type are built from declarations of types. -/
def Models.Builds (ms : Models) (t : ResolvedType) : Prop := ∀ u ∈ t.parts, ms.DeclaresType u.declaration

theorem Models.Builds.declaresType {ms : Models} {t : ResolvedType} (h : ms.Builds t) :
    ms.DeclaresType t.declaration :=
  h t (ResolvedType.mem_parts.mpr (.inl rfl))

/-- All that references mean is built from declarations of types. -/
def Oracle.Builds (o : Oracle) (ms : Models) : Prop := ∀ k t, o.reference k = some t → ms.Builds t

theorem Names.oracle_builds (ms : Models) (inferred : TextMap) : (ofModels ms inferred).oracle.Builds ms := by
  intro k t h u hu
  obtain ⟨j,e,-,meant⟩ := mem_parts_referenceIn h hu
  exact declaresType_of_referenceIn meant

end SymbolGraph
