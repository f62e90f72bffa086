import SymbolGraph.Kotlin.Codec
import SymbolGraph.Proofs.Kind

/-! Kotlin trees are read back from what is written of them. -/
namespace SymbolGraph

open Json

namespace Kotlin

theorem FunctionStyle.lookup_word (s : FunctionStyle) : (wordTable all word).lookup s.word = some s := by
  cases s <;> decide

theorem ValVar.lookup_word (v : ValVar) : (wordTable all word).lookup v.word = some v := by
  cases v <;> decide

/-! ### Trees -/

theorem ValueArgument.reads (a : ValueArgument) (m : Mode) : Reads decoder m a.draft a :=
  .object (by decide) fun _ =>
    ((Fields.Reads.missable Draft.text_ne_null fun _ _ => .text _).map mk).seq (.required (.text _))

theorem AnnotationEntry.reads (a : AnnotationEntry) (m : Mode) : Reads decoder m a.draft a :=
  .object (by decide) fun _ =>
    ((Fields.Reads.required (.text _)).map mk).seq (.listed fun _ v _ => v.reads _)

theorem annotationsField_reads (as : List AnnotationEntry) (m : Mode) :
    annotationsField.Reads m [annotationsDraft as] as := .listed fun _ a _ => a.reads _

theorem typeReferenceDrafts_eq (ts : List TypeReference) :
    typeReferenceDrafts ts = ts.map TypeReference.draft := by
  induction ts <;> simp_all [typeReferenceDrafts]

namespace TypeReference

theorem draft_eq (t : TypeReference) : t.draft = .object [Draft.Member.required "text" (.text t.text),
    annotationsDraft t.annotations,Draft.Member.listed "arguments" draft t.arguments] := by
  obtain ⟨text,annotations,arguments⟩ := t
  rw [draft,typeReferenceDrafts_eq]; rfl

/-- References nest less deeply than the text that holds them. -/
theorem decoderIn_reads {k : Nat} {m : Mode} (h : m.room < k) (t : TypeReference) :
    Reads (decoderIn k) m t.draft t := by
  induction k generalizing m t with
  | zero => exact absurd h (Nat.not_lt_zero _)
  | succ k ih =>
    rw [draft_eq]
    obtain ⟨text,annotations,arguments⟩ := t
    have names : ["text","annotations","arguments"].Nodup := by decide
    refine .object names fun _ => (((Fields.Reads.required (.text _)).map mk).seq
      (annotationsField_reads _ _)).seq (.listed fun _ t _ => ih ?_ t)
    simp only [Mode.inner]
    omega

theorem reads (t : TypeReference) (m : Mode) : Reads decoder m t.draft t :=
  fun v => decoderIn_reads (Nat.lt_succ_self m.room) t v

theorem draft_ne_null (t : TypeReference) : t.draft ≠ .plain .null := by simp [draft_eq]

end TypeReference

theorem TypeParameter.reads (t : TypeParameter) (m : Mode) : Reads decoder m t.draft t :=
  .object (by decide) fun _ => ((((Fields.Reads.required (.text _)).map mk).seq
    (.defaulted (.word t.variance.lookup_word))).seq (t.modifiers.field_reads _)).seq
    (.listed fun _ t _ => t.reads _)

theorem typeParametersField_reads (ts : List TypeParameter) (m : Mode) :
    typeParametersField.Reads m [typeParametersDraft ts] ts := .listed fun _ t _ => t.reads _

/-- A field that is null or a type. -/
theorem type_reads (name : String) (t : Option TypeReference) (m : Mode) :
    (Fields.missable name TypeReference.decoder).Reads m [.missable name TypeReference.draft t] t :=
  .missable TypeReference.draft_ne_null fun t _ => t.reads _

theorem Parameter.reads (p : Parameter) (m : Mode) : Reads decoder m p.draft p :=
  .object (by decide) fun _ => ((((((Fields.Reads.missable Draft.text_ne_null fun _ _ => .text _).map mk).seq
    (type_reads _ _ _)).seq (.defaulted (.bool _))).seq
    (.missable (fun _ => Draft.text_ne_null _) fun v _ => .word v.lookup_word)).seq
    (p.modifiers.field_reads _)).seq (annotationsField_reads _ _)

theorem PropertyDecl.reads (p : PropertyDecl) (m : Mode) : Reads decoder m (.object p.fieldDrafts) p :=
  .object (by decide) fun _ => ((((((((Fields.Reads.required (.text _)).map mk).seq
    (.defaulted (.bool _))).seq (p.modifiers.field_reads _)).seq (annotationsField_reads _ _)).seq
    (typeParametersField_reads _ _)).seq (type_reads _ _ _)).seq (type_reads _ _ _)).seq
    (lineField_reads _ _)

theorem TypeAliasDecl.reads (a : TypeAliasDecl) (m : Mode) : Reads decoder m (.object a.fieldDrafts) a :=
  .object (by decide) fun _ => ((((((Fields.Reads.required (.text _)).map mk).seq
    (a.modifiers.field_reads _)).seq (annotationsField_reads _ _)).seq (typeParametersField_reads _ _)).seq
    (.required (a.target.reads _))).seq (lineField_reads _ _)

/-! ### Declarations -/

theorem declarationDrafts_eq (ds : List Declaration) :
    declarationDrafts ds = ds.map Declaration.draft := by
  induction ds <;> simp_all [declarationDrafts]

theorem ClassDecl.fieldDrafts_eq (c : ClassDecl) : c.fieldDrafts =
    [Draft.Member.required "name" (.text c.name),.defaulted "keyword" (.text ·.word) .plain c.keyword,
      c.modifiers.draft,annotationsDraft c.annotations,typeParametersDraft c.typeParameters,
      Draft.Member.listed "super_types" TypeReference.draft c.superTypes,
      Draft.Member.listed "body" Declaration.draft c.body,lineDraft c.line] := by
  obtain ⟨⟩ := c
  simp only [fieldDrafts,declarationDrafts_eq]; rfl

theorem Body.draft_eq (b : Body) : b.draft = .object [Draft.Member.defaulted "block" .bool false b.block,
    Draft.Member.listed "statements" Declaration.draft b.statements] := by
  obtain ⟨⟩ := b
  simp only [draft,declarationDrafts_eq]; rfl

theorem FunctionDecl.fieldDrafts_eq (f : FunctionDecl) : f.fieldDrafts =
    [Draft.Member.defaulted "form" (.text ·.word) .named f.style,.missable "name" .text f.name,
      f.modifiers.draft,annotationsDraft f.annotations,typeParametersDraft f.typeParameters,
      .missable "receiver" TypeReference.draft f.receiver,
      Draft.Member.listed "parameters" Parameter.draft f.parameters,
      .missable "return_type" TypeReference.draft f.returnType,
      Draft.Member.missable "body" Body.draft f.body,lineDraft f.line] := by
  obtain ⟨_,_,_,_,_,_,_,_,_ | _,_⟩ := f <;> rfl

section Declarations

variable {declaration : Decoder Declaration} {m : Mode}
  (h : ∀ n : Mode, n.room < m.room → ∀ d : Declaration, Reads declaration n d.draft d)
include h

theorem classDecoderWith_reads (c : ClassDecl) :
    Reads (classDecoderWith declaration) m (.object c.fieldDrafts) c := by
  rw [c.fieldDrafts_eq]
  obtain ⟨name,keyword,modifiers,annotations,typeParameters,superTypes,body,line⟩ := c
  have names : ["name","keyword","modifiers","annotations","type_parameters","super_types","body",
    "line"].Nodup := by decide
  refine .object names fun room => ((((((((Fields.Reads.required (.text _)).map ClassDecl.mk).seq
    (.defaulted (.word keyword.lookup_word))).seq (modifiers.field_reads _)).seq
    (annotationsField_reads _ _)).seq (typeParametersField_reads _ _)).seq
    (.listed fun _ t _ => t.reads _)).seq (.listed fun _ d _ => h _ ?_ d)).seq (lineField_reads _ _)
  simp only [Mode.inner]
  omega

theorem bodyDecoderWith_reads (b : Body) : Reads (bodyDecoderWith declaration) m b.draft b := by
  rw [b.draft_eq]
  obtain ⟨block,statements⟩ := b
  have names : ["block","statements"].Nodup := by decide
  refine .object names fun room => ((Fields.Reads.defaulted (.bool _)).map Body.mk).seq
    (.listed fun _ d _ => h _ ?_ d)
  simp only [Mode.inner]
  omega

theorem functionDecoderWith_reads (f : FunctionDecl) :
    Reads (functionDecoderWith declaration) m (.object f.fieldDrafts) f := by
  rw [f.fieldDrafts_eq]
  obtain ⟨style,name,modifiers,annotations,typeParameters,receiver,parameters,returnType,body,line⟩ := f
  have names : ["form","name","modifiers","annotations","type_parameters","receiver","parameters",
    "return_type","body","line"].Nodup := by decide
  have form : (Fields.defaulted "form" FunctionStyle.decoder .named).Reads m.inner
      [Draft.Member.defaulted "form" (.text ·.word) .named style] style := .defaulted (.word style.lookup_word)
  refine .object names fun room => (((((((((form.map FunctionDecl.mk).seq (.missable Draft.text_ne_null fun _ _ => .text _)).seq
    (modifiers.field_reads _)).seq (annotationsField_reads _ _)).seq (typeParametersField_reads _ _)).seq
    (type_reads _ _ _)).seq (.listed fun _ p _ => p.reads _)).seq (type_reads _ _ _)).seq
    (.missable (fun b => by simp [b.draft_eq]) fun b _ => bodyDecoderWith_reads (fun n hn => h n ?_) b)).seq
    (lineField_reads _ _)
  simp only [Mode.inner] at hn
  omega

end Declarations

namespace Declaration

/-- Declarations nest less deeply than the text that holds them. -/
theorem decoderIn_reads {k : Nat} {m : Mode} (h : m.room < k) (d : Declaration) :
    Reads (decoderIn k) m d.draft d := by
  induction k generalizing m d with
  | zero => exact absurd h (Nat.not_lt_zero _)
  | succ k ih =>
    have inside : ∀ n : Mode, n.room < m.room → ∀ d : Declaration, Reads (decoderIn k) n d.draft d :=
      fun n hn d => ih (by omega) d
    cases d with
    | classLike c => exact .tagged rfl fun _ => .map _ (classDecoderWith_reads (m := { m with buffered := true }) inside c)
    | function f => exact .tagged rfl fun _ => .map _ (functionDecoderWith_reads (m := { m with buffered := true }) inside f)
    | property p => exact .tagged rfl fun _ => .map _ (p.reads _)
    | typeAlias a => exact .tagged rfl fun _ => .map _ (a.reads _)

theorem reads (d : Declaration) (m : Mode) : Reads decoder m d.draft d :=
  fun v => decoderIn_reads (Nat.lt_succ_self m.room) d v

end Declaration

theorem File.reads (f : File) (m : Mode) : Reads decoder m f.draft f :=
  .object (by decide) fun _ => ((((Fields.Reads.required (.text _)).map mk).seq
    (.defaulted (.text _))).seq (annotationsField_reads _ _)).seq (.listed fun _ d _ => d.reads _)

/-! ### Keys are different -/

@[simp] theorem ValueArgument.distinct (a : ValueArgument) : a.draft.toJson.Distinct := by
  simp [draft]

@[simp] theorem AnnotationEntry.distinct (a : AnnotationEntry) : a.draft.toJson.Distinct := by
  simp [draft]

@[simp] theorem annotationsDraft_fst (as : List AnnotationEntry) : (annotationsDraft as).1 = "annotations" :=
  rfl

@[simp] theorem annotationsDraft_distinct (as : List AnnotationEntry) :
    (annotationsDraft as).2.2.toJson.Distinct := by
  simp [annotationsDraft]

mutual
@[simp] theorem TypeReference.distinct : ∀ t : TypeReference, t.draft.toJson.Distinct
  | ⟨_,_,arguments⟩ => by
    simp only [TypeReference.draft_eq]
    simpa using typeReferences_distinct arguments
theorem typeReferences_distinct : ∀ (ts : List TypeReference), ∀ t ∈ ts, t.draft.toJson.Distinct
  | [], _, h => by cases h
  | t :: ts, u, h => by
    rcases List.mem_cons.mp h with here | h
    · rw [here]; exact TypeReference.distinct t
    · exact typeReferences_distinct ts u h
end

@[simp] theorem TypeParameter.distinct (t : TypeParameter) : t.draft.toJson.Distinct := by
  simp [draft]

@[simp] theorem typeParametersDraft_fst (ts : List TypeParameter) :
    (typeParametersDraft ts).1 = "type_parameters" := rfl

@[simp] theorem typeParametersDraft_distinct (ts : List TypeParameter) :
    (typeParametersDraft ts).2.2.toJson.Distinct := by
  simp [typeParametersDraft]

@[simp] theorem Parameter.distinct (p : Parameter) : p.draft.toJson.Distinct := by
  simp [draft]

mutual
@[simp] theorem Declaration.distinct : ∀ d : Declaration, d.draft.toJson.Distinct
  | .classLike c => by
    simpa [Declaration.draft,ClassDecl.fieldDrafts_eq] using ClassDecl.distinct c
  | .function f => by
    simpa [Declaration.draft,FunctionDecl.fieldDrafts_eq] using FunctionDecl.distinct f
  | .property p => by simp [Declaration.draft,PropertyDecl.fieldDrafts]
  | .typeAlias a => by simp [Declaration.draft,TypeAliasDecl.fieldDrafts]
theorem ClassDecl.distinct : ∀ c : ClassDecl, (Draft.object c.fieldDrafts).toJson.Distinct
  | ⟨_,_,_,_,_,_,body,_⟩ => by
    simp only [ClassDecl.fieldDrafts_eq]
    simpa using declarations_distinct body
theorem FunctionDecl.distinct : ∀ f : FunctionDecl, (Draft.object f.fieldDrafts).toJson.Distinct
  | ⟨_,_,_,_,_,_,_,_,none,_⟩ => by simp [FunctionDecl.fieldDrafts_eq]
  | ⟨_,_,_,_,_,_,_,_,some b,_⟩ => by
    simp only [FunctionDecl.fieldDrafts_eq]
    simpa using Body.distinct b
theorem Body.distinct : ∀ b : Body, b.draft.toJson.Distinct
  | ⟨_,statements⟩ => by
    simp only [Body.draft_eq]
    simpa using declarations_distinct statements
theorem declarations_distinct : ∀ (ds : List Declaration), ∀ d ∈ ds, d.draft.toJson.Distinct
  | [], _, h => by cases h
  | d :: ds, e, h => by
    rcases List.mem_cons.mp h with here | h
    · rw [here]; exact Declaration.distinct d
    · exact declarations_distinct ds e h
end

@[simp] theorem File.distinct (f : File) : f.draft.toJson.Distinct := by
  simp [draft]

end Kotlin
end SymbolGraph
