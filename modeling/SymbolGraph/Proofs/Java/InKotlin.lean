import SymbolGraph.Java.Flatten
import SymbolGraph.Kotlin.Flatten
import SymbolGraph.Proofs.Layout.Mirrored

/-! Java files as Kotlin files. A Java file and the Kotlin file that says the same take up the same nodes
of the same shapes, except that Java names the types of annotations in full. -/
namespace SymbolGraph
namespace Java

open Layout (Spot Mirrors)

/-! ### Java files as Kotlin files -/

/-- Kotlin knows an annotation by the last segment of its name. -/
def AnnotationUse.inKotlin (a : AnnotationUse) : Kotlin.AnnotationEntry :=
  ⟨lastSegment '.' a.qualifiedName,a.arguments.map fun v => ⟨v.name,v.value⟩⟩

/-- The modifiers of a class or a method, with `override` if an annotation says so. -/
def modifiersInKotlin (modifiers : Modifiers) (annotations : List AnnotationUse) : Modifiers :=
  if ∃ a ∈ annotations, IsLastSegment '.' a.qualifiedName "Override" then modifiers.insert .overriding
  else modifiers

mutual
def TypeUse.inKotlin : TypeUse → Kotlin.TypeReference
  | ⟨text,annotations,arguments⟩ => ⟨text,annotations.map (·.inKotlin),typesInKotlin arguments⟩
def typesInKotlin : List TypeUse → List Kotlin.TypeReference
  | [] => []
  | t :: ts => t.inKotlin :: typesInKotlin ts
end

def TypeParameter.inKotlin (t : TypeParameter) : Kotlin.TypeParameter :=
  ⟨t.name,.invariant,.empty,typesInKotlin t.bounds⟩

def Parameter.inKotlin (p : Parameter) : Kotlin.Parameter :=
  ⟨p.name,some p.type.inKotlin,false,none,if p.varargs then .ofList [.vararg] else .empty,
    p.annotations.map (·.inKotlin)⟩

/-- A method is a named function or a constructor. It has a body without statements, or none. -/
def Method.inKotlin (m : Method) : Kotlin.FunctionDecl :=
  ⟨if m.isConstructor then .secondaryConstructor else .named,some m.name,
    modifiersInKotlin m.modifiers m.annotations,m.annotations.map (·.inKotlin),
    m.typeParameters.map (·.inKotlin),none,m.parameters.map (·.inKotlin),m.returnType.map (·.inKotlin),
    if m.hasBody then some ⟨true,[]⟩ else none,m.line⟩

/-- A field is a property with a type, which can be changed unless the field is final. -/
def Field.inKotlin (f : Field) : Kotlin.PropertyDecl :=
  ⟨f.name,!f.modifiers.contains .final,f.modifiers,f.annotations.map (·.inKotlin),[],none,
    some f.type.inKotlin,f.line⟩

mutual
/-- The super types of a class are its super classes, followed by its interfaces. -/
def ClassDecl.inKotlin : ClassDecl → Kotlin.ClassDecl
  | ⟨name,kind,modifiers,annotations,typeParameters,superclasses,interfaces,members,line⟩ =>
    ⟨name,kind,modifiersInKotlin modifiers annotations,annotations.map (·.inKotlin),
      typeParameters.map (·.inKotlin),typesInKotlin superclasses ++ typesInKotlin interfaces,
      membersInKotlin members,line⟩
def Member.inKotlin : Member → Kotlin.Declaration
  | .method m => .function m.inKotlin
  | .field f => .property f.inKotlin
  | .classLike c => .classLike (ClassDecl.inKotlin c)
def membersInKotlin : List Member → List Kotlin.Declaration
  | [] => []
  | m :: ms => m.inKotlin :: membersInKotlin ms
end

def File.inKotlin (f : File) : Kotlin.File :=
  ⟨f.name,f.package,[],f.classes.map fun c => .classLike c.inKotlin⟩

/-! ### The names of annotations, in the order of the source -/

def annotationNames (as : List AnnotationUse) : List String := as.flatMap fun a => [a.qualifiedName]

mutual
def TypeUse.annotationNames : TypeUse → List String
  | ⟨_,annotations,arguments⟩ => Java.annotationNames annotations ++ annotationNamesOfTypes arguments
def annotationNamesOfTypes : List TypeUse → List String
  | [] => []
  | t :: ts => t.annotationNames ++ annotationNamesOfTypes ts
end

def TypeParameter.annotationNames (t : TypeParameter) : List String := annotationNamesOfTypes t.bounds

def Parameter.annotationNames (p : Parameter) : List String :=
  Java.annotationNames p.annotations ++ p.type.annotationNames

def Method.annotationNames (m : Method) : List String :=
  Java.annotationNames m.annotations ++ (m.typeParameters.flatMap (·.annotationNames) ++
    (m.parameters.flatMap (·.annotationNames) ++ m.returnType.toList.flatMap (·.annotationNames)))

def Field.annotationNames (f : Field) : List String :=
  Java.annotationNames f.annotations ++ f.type.annotationNames

mutual
def ClassDecl.annotationNames : ClassDecl → List String
  | ⟨_,_,_,annotations,typeParameters,superclasses,interfaces,members,_⟩ =>
    Java.annotationNames annotations ++ (typeParameters.flatMap (·.annotationNames) ++
      (annotationNamesOfTypes (superclasses ++ interfaces) ++ annotationNamesOfMembers members))
def Member.annotationNames : Member → List String
  | .method m => m.annotationNames
  | .field f => f.annotationNames
  | .classLike c => ClassDecl.annotationNames c
def annotationNamesOfMembers : List Member → List String
  | [] => []
  | m :: ms => m.annotationNames ++ annotationNamesOfMembers ms
end

def File.annotationNames (f : File) : List String := f.classes.flatMap (·.annotationNames)

/-! ### They are laid out alike -/

theorem modifiersInKotlin_eq (modifiers : Modifiers) (annotations : List AnnotationUse) :
    modifiersInKotlin modifiers annotations = effectiveModifiers modifiers annotations := by
  simp [modifiersInKotlin,effectiveModifiers,AnnotationUse.shortName, overrideAnnotation,lastSegment_eq_iff]

theorem typesInKotlin_append (ts us : List TypeUse) :
    typesInKotlin (ts ++ us) = typesInKotlin ts ++ typesInKotlin us := by
  induction ts with
  | nil => rw [typesInKotlin]; rfl
  | cons t ts ih => rw [List.cons_append,typesInKotlin,typesInKotlin,ih,List.cons_append]

theorem AnnotationUse.mirrors (spot : Spot) (a : AnnotationUse) :
    Mirrors (a.layout spot) (a.inKotlin.layout spot) [a.qualifiedName] := by
  have same := Mirrors.annotationEntry spot a.qualifiedName (a.arguments.map fun v => ⟨v.name,v.value⟩)
  rw [Kotlin.AnnotationEntry.layout,inKotlin,List.map_map]
  exact same

theorem annotations_mirror (spot : Spot) (as : List AnnotationUse) :
    Mirrors (annotationsLayout spot as) (Kotlin.annotationsLayout spot (as.map (·.inKotlin)))
      (annotationNames as) := .each (AnnotationUse.mirrors spot) as

mutual
theorem TypeUse.mirrors (spot : Spot) : (t : TypeUse) →
    Mirrors (t.layout spot) (t.inKotlin.layout spot) t.annotationNames
  | ⟨text,annotations,arguments⟩ => by
    rw [TypeUse.layout,TypeUse.inKotlin,Kotlin.TypeReference.layout,TypeUse.annotationNames]
    exact .node _ (fun _ _ => rfl) (by decide) fun spot => (annotations_mirror spot annotations).bind fun _ =>
      (types_mirror spot arguments).done _
theorem types_mirror (spot : Spot) : (ts : List TypeUse) →
    Mirrors (typesLayout spot ts) (Kotlin.typeReferencesLayout spot (typesInKotlin ts))
      (annotationNamesOfTypes ts)
  | [] => by
    rw [typesLayout,typesInKotlin,Kotlin.typeReferencesLayout,annotationNamesOfTypes]
    exact .pure _
  | t :: ts => by
    rw [typesLayout,typesInKotlin,Kotlin.typeReferencesLayout,annotationNamesOfTypes]
    exact (t.mirrors spot).cons (types_mirror spot ts)
end

theorem TypeParameter.mirrors (spot : Spot) (t : TypeParameter) :
    Mirrors (t.layout spot) (t.inKotlin.layout spot) t.annotationNames :=
  .node _ (fun _ _ => rfl) (by decide) fun spot => (types_mirror spot t.bounds).done _

theorem typeParameters_mirror (spot : Spot) (ts : List TypeParameter) :
    Mirrors (typeParametersLayout spot ts) (Kotlin.typeParametersLayout spot (ts.map (·.inKotlin)))
      (ts.flatMap (·.annotationNames)) := .each (TypeParameter.mirrors spot) ts

theorem Parameter.flags_inKotlin (p : Parameter) :
    p.inKotlin.flags = ⟨p.varargs,false,false,false,false,false⟩ := by
  rw [Kotlin.Parameter.flags,inKotlin]
  cases p.varargs <;> rfl

theorem Parameter.mirrors (spot : Spot) (p : Parameter) :
    Mirrors (p.layout spot) (p.inKotlin.layout spot) p.annotationNames := by
  rw [Parameter.layout,Kotlin.Parameter.layout,flags_inKotlin]
  refine .node _ (fun _ _ => rfl) (by decide) fun spot => (annotations_mirror spot p.annotations).bind fun _ => ?_
  rw [inKotlin,Layout.option,map_eq_pure_bind,bind_assoc]
  exact (p.type.mirrors spot).done _

theorem Method.nameAndForm_inKotlin (m : Method) :
    m.inKotlin.style.nameAndForm m.inKotlin.name =
      (if m.isConstructor then constructorName else m.name,
        if m.isConstructor then .constructor else .named) := by
  rw [inKotlin]
  cases m.isConstructor <;> rfl

theorem bodyLayout_empty (spot : Spot) (present : Bool) :
    Kotlin.bodyLayout spot (if present then some ⟨true,[]⟩ else none) = pure [] := by
  cases present with
  | false => rw [if_neg nofun,Kotlin.bodyLayout]
  | true => rw [if_pos rfl,Kotlin.bodyLayout,Kotlin.Body.layout,if_pos rfl,Kotlin.declarationsLayout]

theorem Method.mirrors (spot : Spot) (m : Method) :
    Mirrors (m.layout spot) (m.inKotlin.layout spot) m.annotationNames := by
  have named := m.nameAndForm_inKotlin
  rw [inKotlin] at named ⊢
  rw [Method.layout,Kotlin.FunctionDecl.layout,named,modifiersInKotlin_eq]
  refine .node _ (fun _ _ => rfl) (by decide) fun spot => (annotations_mirror spot m.annotations).bind fun _ =>
    (typeParameters_mirror spot m.typeParameters).bind fun _ => ?_
  have present : (if m.hasBody then some (Kotlin.Body.mk true []) else none).isSome = m.hasBody := by
    cases m.hasBody <;> rfl
  rw [bodyLayout_empty,present]
  exact (Mirrors.each (Parameter.mirrors spot) m.parameters).bind fun _ =>
    (Mirrors.option (TypeUse.mirrors spot) m.returnType).done _

theorem Field.mirrors (spot : Spot) (f : Field) :
    Mirrors (f.layout spot) (f.inKotlin.layout spot) f.annotationNames := by
  rw [Field.layout,Kotlin.PropertyDecl.layout]
  refine .node _ (fun _ _ => rfl) (by decide) fun spot => (annotations_mirror spot f.annotations).bind fun _ => ?_
  simp only [inKotlin,Kotlin.typeParametersLayout,Layout.each,Layout.option,map_eq_pure_bind,pure_bind,
    bind_assoc]
  exact (f.type.mirrors spot).done _

mutual
theorem ClassDecl.mirrors (spot : Spot) : (c : ClassDecl) →
    Mirrors (c.layout spot) (c.inKotlin.layout spot) c.annotationNames
  | ⟨_,_,_,annotations,typeParameters,superclasses,interfaces,members,_⟩ => by
    rw [ClassDecl.layout,ClassDecl.inKotlin,Kotlin.ClassDecl.layout,ClassDecl.annotationNames,
      modifiersInKotlin_eq,← typesInKotlin_append]
    exact .node _ (fun _ _ => rfl) (by decide) fun spot => (annotations_mirror spot annotations).bind fun _ =>
      (typeParameters_mirror spot typeParameters).bind fun _ =>
      (types_mirror spot (superclasses ++ interfaces)).bind fun _ => (members_mirror spot members).done _
theorem Member.mirrors (spot : Spot) : (m : Member) →
    Mirrors (m.layout spot) (m.inKotlin.layout spot) m.annotationNames
  | .method m => by
    rw [Member.layout,Member.inKotlin,Kotlin.Declaration.layout,Member.annotationNames]
    exact m.mirrors spot
  | .field f => by
    rw [Member.layout,Member.inKotlin,Kotlin.Declaration.layout,Member.annotationNames]
    exact f.mirrors spot
  | .classLike c => by
    rw [Member.layout,Member.inKotlin,Kotlin.Declaration.layout,Member.annotationNames]
    exact c.mirrors spot
theorem members_mirror (spot : Spot) : (ms : List Member) →
    Mirrors (membersLayout spot ms) (Kotlin.declarationsLayout spot (membersInKotlin ms))
      (annotationNamesOfMembers ms)
  | [] => by
    rw [membersLayout,membersInKotlin,Kotlin.declarationsLayout,annotationNamesOfMembers]
    exact .pure _
  | m :: ms => by
    rw [membersLayout,membersInKotlin,Kotlin.declarationsLayout,annotationNamesOfMembers]
    exact (m.mirrors spot).cons (members_mirror spot ms)
end

theorem classes_mirror (spot : Spot) (cs : List ClassDecl) :
    Mirrors (Layout.each (ClassDecl.layout spot) cs)
      (Kotlin.declarationsLayout spot (cs.map fun c => .classLike c.inKotlin))
      (cs.flatMap (·.annotationNames)) := by
  induction cs with
  | nil =>
    rw [List.map_nil,Kotlin.declarationsLayout]
    exact .pure _
  | cons c cs ih =>
    rw [List.map_cons,Kotlin.declarationsLayout,Kotlin.Declaration.layout]
    exact (c.mirrors spot).cons ih

theorem File.mirrors (f : File) : Mirrors f.layout f.inKotlin.layout f.annotationNames :=
  .node _ (fun _ _ => rfl) (by decide) fun spot => (classes_mirror spot f.classes).done _

theorem files_mirror (fs : List File) :
    Layout.Mirrored 0 (fs.flatMap (·.annotationNames)) (Layout.each File.layout fs).slots
      (Layout.each Kotlin.File.layout (fs.map (·.inKotlin))).slots :=
  (Mirrors.each File.mirrors fs 0).2

/-- A Java file is translated as the Kotlin file that says the same and keeps the last segments of the names of its
annotations, except that the annotations name their types in full. -/
theorem flatten_inKotlin (fs : List File) :
    (∀ a : AnnotationUse, IsLastSegment '.' a.qualifiedName a.inKotlin.shortName) ∧
      (flatten fs).Mirrors (Kotlin.flatten (fs.map (·.inKotlin))) (fs.flatMap (·.annotationNames)) ∧
      (flatten fs).files = (Kotlin.flatten (fs.map (·.inKotlin))).files :=
  have same : (flatten fs).Mirrors (Kotlin.flatten (fs.map (·.inKotlin))) (fs.flatMap (·.annotationNames)) :=
    (files_mirror fs).mirrors .java .kotlin
  ⟨fun a => isLastSegment_lastSegment '.' a.qualifiedName,same,
    by simp only [Arena.files,Arena.nodes,same.size,same.parent]⟩

end Java
end SymbolGraph
