import SymbolGraph.Proofs.Java.Flatten
import SymbolGraph.Proofs.Kotlin.Flatten
import SymbolGraph.Proofs.Layout.Outline

/-! The outlines of Kotlin and Java files, read off their syntax trees. Flattened files are numbered in the
order of the source, and their outlines can be read off the arenas as well. -/
namespace SymbolGraph

open Layout (Spot Outlines IsFile)

theorem Layout.annotationEntry_outlines (spot : Spot) (shortName callee : String)
    (arguments : List AnnotationArgument) : Outlines (annotationEntry spot shortName callee arguments) spot [] :=
  .node (fun _ _ _ => rfl) fun _ => Outlines.done (.node (fun _ _ _ => rfl) fun _ => .pure _) _

/-! ### Kotlin files -/

namespace Kotlin

/-- The name that a function is listed with. Only named functions have names of their own. -/
def FunctionStyle.declaredName (name : Option String) : FunctionStyle → String
  | .named => name.getD "<no name provided>"
  | .primaryConstructor | .secondaryConstructor => "<init>"
  | .lambda | .anonymousFunction => "<no name provided>"

mutual
def Declaration.outline : Declaration → List Declared
  | .classLike c => ClassDecl.outline c
  | .function f => FunctionDecl.outline f
  | .property p => [⟨.property,p.name,p.line⟩]
  | .typeAlias a => [⟨.typeAlias,a.name,a.line⟩]
def ClassDecl.outline : ClassDecl → List Declared
  | ⟨name,_,_,_,_,_,body,line⟩ => ⟨.classLike,name,line⟩ :: outlineOf body
def FunctionDecl.outline : FunctionDecl → List Declared
  | ⟨style,name,_,_,_,_,_,_,body,line⟩ => ⟨.function,style.declaredName name,line⟩ :: bodyOutline body
def bodyOutline : Option Body → List Declared
  | none => []
  | some b => Body.outline b
/-- Nothing is listed of what stands in an expression. -/
def Body.outline : Body → List Declared
  | ⟨block,statements⟩ => if block then outlineOf statements else []
def outlineOf : List Declaration → List Declared
  | [] => []
  | d :: ds => d.outline ++ outlineOf ds
end

def File.outline (f : File) : Outline := ⟨f.name,f.package,outlineOf f.declarations⟩

variable (spot : Spot)

theorem annotations_outlines (as : List AnnotationEntry) : Outlines (annotationsLayout spot as) spot [] :=
  .plain (fun _ => Layout.annotationEntry_outlines _ _ _ _) as

mutual
theorem TypeReference.outlines (spot : Spot) : (t : TypeReference) → Outlines (t.layout spot) spot []
  | ⟨_,annotations,arguments⟩ => by
    rw [TypeReference.layout]
    exact .node (fun _ _ _ => rfl) fun spot => (annotations_outlines spot annotations).bind fun _ =>
      (typeReferences_outlines spot arguments).done _
theorem typeReferences_outlines (spot : Spot) : (ts : List TypeReference) →
    Outlines (typeReferencesLayout spot ts) spot []
  | [] => by rw [typeReferencesLayout]; exact .pure _
  | t :: ts => by
    rw [typeReferencesLayout]
    exact (t.outlines spot).cons (typeReferences_outlines spot ts)
end

theorem typeReference_outlines (t : Option TypeReference) :
    Outlines (Layout.option (TypeReference.layout spot) t) spot [] := .option (TypeReference.outlines spot) t

theorem TypeParameter.outlines (t : TypeParameter) : Outlines (t.layout spot) spot [] :=
  .node (fun _ _ _ => rfl) fun spot => (typeReferences_outlines spot t.bounds).done _

theorem typeParameters_outlines (ts : List TypeParameter) :
    Outlines (typeParametersLayout spot ts) spot [] := .plain (TypeParameter.outlines spot) ts

theorem Parameter.outlines (p : Parameter) : Outlines (p.layout spot) spot [] :=
  .node (fun _ _ _ => rfl) fun spot => (annotations_outlines spot p.annotations).bind fun _ =>
    (typeReference_outlines spot p.typeReference).done _

theorem PropertyDecl.outlines (p : PropertyDecl) :
    Outlines (p.layout spot) spot [⟨.property,p.name,p.line⟩] :=
  .declaration ⟨.property,p.name,p.line⟩ (fun _ _ => rfl) fun spot =>
    (annotations_outlines spot p.annotations).bind fun _ =>
    (typeParameters_outlines spot p.typeParameters).bind fun _ =>
    (typeReference_outlines spot p.receiver).bind fun _ => (typeReference_outlines spot p.typeReference).done _

theorem TypeAliasDecl.outlines (a : TypeAliasDecl) :
    Outlines (a.layout spot) spot [⟨.typeAlias,a.name,a.line⟩] :=
  .declaration ⟨.typeAlias,a.name,a.line⟩ (fun _ _ => rfl) fun spot =>
    (annotations_outlines spot a.annotations).bind fun _ =>
    (typeParameters_outlines spot a.typeParameters).bind fun _ => (a.target.outlines spot).done _

theorem FunctionStyle.declaredName_eq (s : FunctionStyle) (name : Option String) :
    (s.nameAndForm name).1 = s.declaredName name := by
  cases s <;> rfl

mutual
theorem Declaration.outlines (spot : Spot) : (d : Declaration) → Outlines (d.layout spot) spot d.outline
  | .classLike c => by rw [Declaration.layout,Declaration.outline]; exact c.outlines spot
  | .function f => by rw [Declaration.layout,Declaration.outline]; exact f.outlines spot
  | .property p => by rw [Declaration.layout,Declaration.outline]; exact p.outlines spot
  | .typeAlias a => by rw [Declaration.layout,Declaration.outline]; exact a.outlines spot
theorem ClassDecl.outlines (spot : Spot) : (c : ClassDecl) → Outlines (c.layout spot) spot c.outline
  | ⟨name,_,_,annotations,typeParameters,superTypes,body,line⟩ => by
    rw [ClassDecl.layout,ClassDecl.outline]
    exact .declaration ⟨.classLike,name,line⟩ (fun _ _ => rfl) fun spot =>
      (annotations_outlines spot annotations).bind fun _ =>
      (typeParameters_outlines spot typeParameters).bind fun _ =>
      (typeReferences_outlines spot superTypes).bind fun _ => (declarations_outlines spot body).done _
theorem FunctionDecl.outlines (spot : Spot) : (f : FunctionDecl) → Outlines (f.layout spot) spot f.outline
  | ⟨style,name,_,annotations,typeParameters,receiver,parameters,returnType,body,line⟩ => by
    rw [FunctionDecl.layout,FunctionDecl.outline,← FunctionStyle.declaredName_eq]
    exact .declaration ⟨.function,(style.nameAndForm name).1,line⟩ (fun _ _ => rfl) fun spot =>
      (annotations_outlines spot annotations).bind fun _ =>
      (typeParameters_outlines spot typeParameters).bind fun _ =>
      (typeReference_outlines spot receiver).bind fun _ =>
      (Outlines.plain (Parameter.outlines spot) parameters).bind fun _ =>
      (typeReference_outlines spot returnType).bind fun _ => (body_outlines spot body).done _
theorem body_outlines (spot : Spot) : (b : Option Body) → Outlines (bodyLayout spot b) spot (bodyOutline b)
  | none => by rw [bodyLayout,bodyOutline]; exact .pure _
  | some b => by rw [bodyLayout,bodyOutline]; exact b.outlines spot
theorem Body.outlines (spot : Spot) : (b : Body) → Outlines (b.layout spot) spot b.outline
  | ⟨block,statements⟩ => by
    rw [Body.layout,Body.outline]
    cases block with
    | false => exact .pure _
    | true => exact declarations_outlines spot statements
theorem declarations_outlines (spot : Spot) : (ds : List Declaration) →
    Outlines (declarationsLayout spot ds) spot (outlineOf ds)
  | [] => by rw [declarationsLayout,outlineOf]; exact .pure _
  | d :: ds => by
    rw [declarationsLayout,outlineOf]
    exact (d.outlines spot).cons (declarations_outlines spot ds)
end

theorem File.isFile (f : File) : IsFile f.layout f.outline where
  lays := f.lays
  outlines := .node (fun _ _ _ => rfl) fun spot => (annotations_outlines spot f.annotations).bind fun _ =>
    (declarations_outlines spot f.declarations).done _
  opens _ := ⟨_,_,rfl,isLastSegment_lastSegment '/' f.name,rfl⟩

end Kotlin

/-! ### Java files -/

namespace Java

def Method.declared (m : Method) : Declared :=
  ⟨.function,if m.isConstructor then "<init>" else m.name,m.line⟩

mutual
def ClassDecl.outline : ClassDecl → List Declared
  | ⟨name,_,_,_,_,_,_,members,line⟩ => ⟨.classLike,name,line⟩ :: outlineOf members
def Member.outline : Member → List Declared
  | .method m => [m.declared]
  | .field f => [⟨.property,f.name,f.line⟩]
  | .classLike c => ClassDecl.outline c
def outlineOf : List Member → List Declared
  | [] => []
  | m :: ms => m.outline ++ outlineOf ms
end

def File.outline (f : File) : Outline := ⟨f.name,f.package,f.classes.flatMap (·.outline)⟩

variable (spot : Spot)

theorem annotations_outlines (as : List AnnotationUse) : Outlines (annotationsLayout spot as) spot [] :=
  .plain (fun _ => Layout.annotationEntry_outlines _ _ _ _) as

mutual
theorem TypeUse.outlines (spot : Spot) : (t : TypeUse) → Outlines (t.layout spot) spot []
  | ⟨_,annotations,arguments⟩ => by
    rw [TypeUse.layout]
    exact .node (fun _ _ _ => rfl) fun spot => (annotations_outlines spot annotations).bind fun _ =>
      (types_outlines spot arguments).done _
theorem types_outlines (spot : Spot) : (ts : List TypeUse) → Outlines (typesLayout spot ts) spot []
  | [] => by rw [typesLayout]; exact .pure _
  | t :: ts => by
    rw [typesLayout]
    exact (t.outlines spot).cons (types_outlines spot ts)
end

theorem TypeParameter.outlines (t : TypeParameter) : Outlines (t.layout spot) spot [] :=
  .node (fun _ _ _ => rfl) fun spot => (types_outlines spot t.bounds).done _

theorem typeParameters_outlines (ts : List TypeParameter) :
    Outlines (typeParametersLayout spot ts) spot [] := .plain (TypeParameter.outlines spot) ts

theorem Parameter.outlines (p : Parameter) : Outlines (p.layout spot) spot [] :=
  .node (fun _ _ _ => rfl) fun spot => (annotations_outlines spot p.annotations).bind fun _ =>
    (p.type.outlines spot).done _

theorem Method.outlines (m : Method) : Outlines (m.layout spot) spot [m.declared] :=
  .declaration m.declared (fun _ _ => rfl) fun spot => (annotations_outlines spot m.annotations).bind fun _ =>
    (typeParameters_outlines spot m.typeParameters).bind fun _ =>
    (Outlines.plain (Parameter.outlines spot) m.parameters).bind fun _ =>
    (Outlines.option (TypeUse.outlines spot) m.returnType).done _

theorem Field.outlines (f : Field) : Outlines (f.layout spot) spot [⟨.property,f.name,f.line⟩] :=
  .declaration ⟨.property,f.name,f.line⟩ (fun _ _ => rfl) fun spot =>
    (annotations_outlines spot f.annotations).bind fun _ => (f.type.outlines spot).done _

mutual
theorem ClassDecl.outlines (spot : Spot) : (c : ClassDecl) → Outlines (c.layout spot) spot c.outline
  | ⟨name,_,_,annotations,typeParameters,superclasses,interfaces,members,line⟩ => by
    rw [ClassDecl.layout,ClassDecl.outline]
    exact .declaration ⟨.classLike,name,line⟩ (fun _ _ => rfl) fun spot =>
      (annotations_outlines spot annotations).bind fun _ =>
      (typeParameters_outlines spot typeParameters).bind fun _ =>
      (types_outlines spot (superclasses ++ interfaces)).bind fun _ => (members_outlines spot members).done _
theorem Member.outlines (spot : Spot) : (m : Member) → Outlines (m.layout spot) spot m.outline
  | .method m => by rw [Member.layout,Member.outline]; exact m.outlines spot
  | .field f => by rw [Member.layout,Member.outline]; exact f.outlines spot
  | .classLike c => by rw [Member.layout,Member.outline]; exact c.outlines spot
theorem members_outlines (spot : Spot) : (ms : List Member) →
    Outlines (membersLayout spot ms) spot (outlineOf ms)
  | [] => by rw [membersLayout,outlineOf]; exact .pure _
  | m :: ms => by
    rw [membersLayout,outlineOf]
    exact (m.outlines spot).cons (members_outlines spot ms)
end

theorem File.isFile (f : File) : IsFile f.layout f.outline where
  lays := f.lays
  outlines := .node (fun _ _ _ => rfl) fun spot => (Outlines.each (ClassDecl.outlines spot) f.classes).done _
  opens _ := ⟨_,_,rfl,isLastSegment_lastSegment '/' f.name,rfl⟩

end Java

/-- Flattened files of both languages are forests in the order of the source. -/
theorem flatten_sourceOrdered :
    (∀ fs : List Kotlin.File, (Kotlin.flatten fs).SourceOrdered (fs.map (·.outline))) ∧
      ∀ fs : List Java.File, (Java.flatten fs).SourceOrdered (fs.map (·.outline)) :=
  ⟨IsFile.sourceOrdered Kotlin.File.isFile .kotlin,IsFile.sourceOrdered Java.File.isFile .java⟩

end SymbolGraph
