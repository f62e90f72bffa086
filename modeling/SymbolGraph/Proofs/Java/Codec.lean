import SymbolGraph.Java.Codec
import SymbolGraph.Proofs.Kind

/-! Java trees are read back from what is written of them, unless a class among the members of a class is
written with its own kind beside the tag of members. -/
namespace SymbolGraph
namespace Java

open Json

theorem NameValue.reads (v : NameValue) (m : Mode) : Reads decoder m v.draft v :=
  .object (by decide) fun _ =>
    ((Fields.Reads.missable Draft.text_ne_null fun _ _ => .text _).map mk).seq (.required (.text _))

theorem AnnotationUse.reads (a : AnnotationUse) (m : Mode) : Reads decoder m a.draft a :=
  .object (by decide) fun _ =>
    ((Fields.Reads.required (.text _)).map mk).seq (.listed fun _ v _ => v.reads _)

theorem annotationsField_reads (as : List AnnotationUse) (m : Mode) :
    annotationsField.Reads m [annotationsDraft as] as := .listed fun _ a _ => a.reads _

theorem typeDrafts_eq (ts : List TypeUse) : typeDrafts ts = ts.map TypeUse.draft := by
  induction ts <;> simp_all [typeDrafts]

namespace TypeUse

theorem draft_eq (t : TypeUse) : t.draft = .object [Draft.Member.required "text" (.text t.text),
    annotationsDraft t.annotations,Draft.Member.listed "arguments" draft t.arguments] := by
  obtain ⟨text,annotations,arguments⟩ := t
  rw [draft,typeDrafts_eq]; rfl

/-- Types nest less deeply than the text that holds them. -/
theorem decoderIn_reads {k : Nat} {m : Mode} (h : m.room < k) (t : TypeUse) :
    Reads (decoderIn k) m t.draft t := by
  induction k generalizing m t with
  | zero => exact absurd h (Nat.not_lt_zero _)
  | succ k ih =>
    rw [draft_eq]
    obtain ⟨text,annotations,arguments⟩ := t
    have names : ["text","annotations","arguments"].Nodup := by decide
    refine .object names fun _ => (((Fields.Reads.required (.text _)).map mk).seq
      (annotationsField_reads _ _)).seq (.listed fun _ t _ => ih ?_ t)
    simp only [Mode.inner]
    omega

theorem reads (t : TypeUse) (m : Mode) : Reads decoder m t.draft t :=
  fun v => decoderIn_reads (Nat.lt_succ_self m.room) t v

theorem draft_ne_null (t : TypeUse) : t.draft ≠ .plain .null := by simp [draft_eq]

end TypeUse

theorem TypeParameter.reads (t : TypeParameter) (m : Mode) : Reads decoder m t.draft t :=
  .object (by decide) fun _ =>
    ((Fields.Reads.required (.text _)).map mk).seq (.listed fun _ t _ => t.reads _)

theorem typeParametersField_reads (ts : List TypeParameter) (m : Mode) :
    typeParametersField.Reads m [typeParametersDraft ts] ts := .listed fun _ t _ => t.reads _

theorem Parameter.reads (p : Parameter) (m : Mode) : Reads decoder m p.draft p :=
  .object (by decide) fun _ => ((((Fields.Reads.missable Draft.text_ne_null fun _ _ => .text _).map mk).seq
    (.required (p.type.reads _))).seq (.defaulted (.bool _))).seq (annotationsField_reads _ _)

theorem Method.reads (f : Method) (m : Mode) : Reads decoder m (.object f.fieldDrafts) f :=
  .object (by decide) fun _ => (((((((((Fields.Reads.required (.text _)).map mk).seq
    (.defaulted (.bool _))).seq (f.modifiers.field_reads _)).seq (annotationsField_reads _ _)).seq
    (typeParametersField_reads _ _)).seq (.listed fun _ p _ => p.reads _)).seq
    (.missable TypeUse.draft_ne_null fun t _ => t.reads _)).seq (.defaulted (.bool _))).seq
    (lineField_reads _ _)

theorem Field.reads (f : Field) (m : Mode) : Reads decoder m (.object f.fieldDrafts) f :=
  .object (by decide) fun _ => (((((Fields.Reads.required (.text _)).map mk).seq
    (f.modifiers.field_reads _)).seq (annotationsField_reads _ _)).seq (.required (f.type.reads _))).seq
    (lineField_reads _ _)

/-! ### Members -/

theorem memberDrafts_eq (ms : List Member) : memberDrafts ms = ms.map Member.draft := by
  induction ms <;> simp_all [memberDrafts]

theorem ClassDecl.fieldDrafts_eq (c : ClassDecl) : c.fieldDrafts =
    [Draft.Member.required "name" (.text c.name),.defaulted "kind" (.text ·.word) .plain c.kind,
      c.modifiers.draft,annotationsDraft c.annotations,typeParametersDraft c.typeParameters,
      Draft.Member.listed "extends" TypeUse.draft c.superclasses,
      Draft.Member.listed "implements" TypeUse.draft c.interfaces,
      Draft.Member.listed "members" Member.draft c.members,lineDraft c.line] := by
  obtain ⟨⟩ := c
  simp only [fieldDrafts,memberDrafts_eq]; rfl

theorem classDecoderWith_reads {member : Decoder Member} {m : Mode}
    (h : ∀ n : Mode, n.room < m.room → ∀ e : Member, Reads member n e.draft e) (c : ClassDecl) :
    Reads (classDecoderWith member) m (.object c.fieldDrafts) c := by
  rw [c.fieldDrafts_eq]
  obtain ⟨name,kind,modifiers,annotations,typeParameters,superclasses,interfaces,members,line⟩ := c
  have names : ["name","kind","modifiers","annotations","type_parameters","extends","implements",
    "members","line"].Nodup := by decide
  refine .object names fun room => (((((((((Fields.Reads.required (.text _)).map ClassDecl.mk).seq
    (.defaulted (.word kind.lookup_word))).seq (modifiers.field_reads _)).seq
    (annotationsField_reads _ _)).seq (typeParametersField_reads _ _)).seq
    (.listed fun _ t _ => t.reads _)).seq (.listed fun _ t _ => t.reads _)).seq
    (.listed fun _ e _ => h _ ?_ e)).seq (lineField_reads _ _)
  simp only [Mode.inner]
  omega

namespace Member

/-- Members nest less deeply than the text that holds them. -/
theorem decoderIn_reads {k : Nat} {m : Mode} (h : m.room < k) (e : Member) :
    Reads (decoderIn k) m e.draft e := by
  induction k generalizing m e with
  | zero => exact absurd h (Nat.not_lt_zero _)
  | succ k ih =>
    have inside : ∀ n : Mode, n.room < m.room → ∀ e : Member, Reads (decoderIn k) n e.draft e :=
      fun n hn e => ih (by omega) e
    cases e with
    | method f => exact .tagged rfl fun _ => .map _ (f.reads _)
    | field f => exact .tagged rfl fun _ => .map _ (f.reads _)
    | classLike c =>
      exact .tagged rfl fun _ => .map _ (classDecoderWith_reads (m := { m with buffered := true }) inside c)

theorem reads (e : Member) (m : Mode) : Reads decoder m e.draft e :=
  fun v => decoderIn_reads (Nat.lt_succ_self m.room) e v

end Member

theorem ClassDecl.reads (c : ClassDecl) (m : Mode) : Reads decoder m c.draft c :=
  classDecoderWith_reads (fun n _ e => e.reads n) c

theorem File.reads (f : File) (m : Mode) : Reads decoder m f.draft f :=
  .object (by decide) fun _ => (((Fields.Reads.required (.text _)).map mk).seq
    (.defaulted (.text _))).seq (.listed fun _ c _ => c.reads _)

/-! ### Keys are different but for those of member classes -/

@[simp] theorem NameValue.distinct (v : NameValue) : v.draft.toJson.Distinct := by
  simp [draft]

@[simp] theorem AnnotationUse.distinct (a : AnnotationUse) : a.draft.toJson.Distinct := by
  simp [draft]

@[simp] theorem annotationsDraft_fst (as : List AnnotationUse) : (annotationsDraft as).1 = "annotations" :=
  rfl

@[simp] theorem annotationsDraft_distinct (as : List AnnotationUse) :
    (annotationsDraft as).2.2.toJson.Distinct := by
  simp [annotationsDraft]

mutual
@[simp] theorem TypeUse.distinct : ∀ t : TypeUse, t.draft.toJson.Distinct
  | ⟨_,_,arguments⟩ => by
    simp only [TypeUse.draft_eq]
    simpa using types_distinct arguments
theorem types_distinct : ∀ (ts : List TypeUse), ∀ t ∈ ts, t.draft.toJson.Distinct
  | [], _, h => by cases h
  | t :: ts, u, h => by
    rcases List.mem_cons.mp h with here | h
    · rw [here]; exact TypeUse.distinct t
    · exact types_distinct ts u h
end

@[simp] theorem TypeParameter.distinct (t : TypeParameter) : t.draft.toJson.Distinct := by
  simp [draft]

@[simp] theorem typeParametersDraft_fst (ts : List TypeParameter) :
    (typeParametersDraft ts).1 = "type_parameters" := rfl

@[simp] theorem typeParametersDraft_distinct (ts : List TypeParameter) :
    (typeParametersDraft ts).2.2.toJson.Distinct := by
  simp [typeParametersDraft]

@[simp] theorem Parameter.distinct (p : Parameter) : p.draft.toJson.Distinct := by
  simp [draft]

/-- A class is written with two kinds, that of members and its own. -/
@[simp] theorem Member.distinct_iff (e : Member) :
    e.draft.toJson.Distinct ↔ ∀ c, e ≠ .classLike c := by
  cases e with
  | method f => simp [draft,Method.fieldDrafts]
  | field f => simp [draft,Field.fieldDrafts]
  | classLike c => simp [draft,ClassDecl.fieldDrafts_eq]

/-- Whether a class has a class among its members. -/
def ClassDecl.HasMemberClass (c : ClassDecl) : Prop := ∃ d, Member.classLike d ∈ c.members

@[simp] theorem ClassDecl.distinct_iff (c : ClassDecl) :
    c.draft.toJson.Distinct ↔ ¬c.HasMemberClass := by
  simp only [draft,fieldDrafts_eq,HasMemberClass,not_exists]
  simp
  exact ⟨fun h d mem => h _ mem d rfl,fun h e mem d same => h d (same ▸ mem)⟩

@[simp] theorem File.distinct_iff (f : File) :
    f.draft.toJson.Distinct ↔ ∀ c ∈ f.classes, ¬c.HasMemberClass := by
  simp [draft]

end Java
end SymbolGraph
