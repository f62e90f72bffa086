import SymbolGraph.Java.Tree

/-! Laying out Java files. Classes and interfaces above a class are its super types alike, methods are
functions, and fields are properties with a written type. -/
namespace SymbolGraph
namespace Java

open Layout (Spot)

def constructorName : String := "<init>"

def overrideAnnotation : String := "Override"

/-- The modifiers of a declaration, with `override` where an annotation says so. -/
def effectiveModifiers (modifiers : Modifiers) (annotations : List AnnotationUse) : Modifiers :=
  if annotations.any fun a => a.shortName == overrideAnnotation then modifiers.insert .overriding
  else modifiers

def AnnotationUse.layout (spot : Spot) (a : AnnotationUse) : Layout NodeId :=
  Layout.annotationEntry spot a.shortName a.qualifiedName (a.arguments.map fun v => ⟨v.name,v.value⟩)

def annotationsLayout (spot : Spot) (as : List AnnotationUse) : Layout (List NodeId) :=
  Layout.each (AnnotationUse.layout spot) as

mutual
def TypeUse.layout (spot : Spot) : TypeUse → Layout NodeId
  | ⟨text,annotations,arguments⟩ =>
    Layout.node spot fun spot => do
      let annotations ← annotationsLayout spot annotations
      let arguments ← typesLayout spot arguments
      return .typeReference ⟨text,annotations,arguments⟩
def typesLayout (spot : Spot) : List TypeUse → Layout (List NodeId)
  | [] => pure []
  | t :: ts => do
    let id ← t.layout spot
    let ids ← typesLayout spot ts
    return id :: ids
end

def TypeParameter.layout (spot : Spot) (t : TypeParameter) : Layout NodeId :=
  Layout.node spot fun spot => do
    let bounds ← typesLayout spot t.bounds
    return .typeParameter ⟨t.name,.invariant,false,bounds⟩

def typeParametersLayout (spot : Spot) (ts : List TypeParameter) : Layout (List NodeId) :=
  Layout.each (TypeParameter.layout spot) ts

def Parameter.layout (spot : Spot) (p : Parameter) : Layout NodeId :=
  Layout.node spot fun spot => do
    let annotations ← annotationsLayout spot p.annotations
    let type ← p.type.layout spot
    return .valueParameter ⟨p.name,annotations,some type,⟨p.varargs,false,false,false,false,false⟩⟩

def Method.layout (spot : Spot) (m : Method) : Layout NodeId :=
  Layout.node (spot.onLine m.line) fun spot => do
    let annotations ← annotationsLayout spot m.annotations
    let typeParameters ← typeParametersLayout spot m.typeParameters
    let parameters ← Layout.each (Parameter.layout spot) m.parameters
    let returnType ← Layout.option (TypeUse.layout spot) m.returnType
    return .function ⟨if m.isConstructor then constructorName else m.name,
      if m.isConstructor then .constructor else .named,effectiveModifiers m.modifiers m.annotations,
      annotations,typeParameters,none,parameters,returnType,m.hasBody,[]⟩

def Field.layout (spot : Spot) (f : Field) : Layout NodeId :=
  Layout.node (spot.onLine f.line) fun spot => do
    let annotations ← annotationsLayout spot f.annotations
    let type ← f.type.layout spot
    return .property ⟨f.name,f.modifiers,annotations,[],none,some type,!f.modifiers.contains .final⟩

mutual
def ClassDecl.layout (spot : Spot) : ClassDecl → Layout NodeId
  | ⟨name,kind,modifiers,annotations,typeParameters,superclasses,interfaces,members,line⟩ =>
    Layout.node (spot.onLine line) fun spot => do
      let annotationIds ← annotationsLayout spot annotations
      let typeParameters ← typeParametersLayout spot typeParameters
      let superTypes ← typesLayout spot (superclasses ++ interfaces)
      let declarations ← membersLayout spot members
      return .classLike ⟨name,kind,effectiveModifiers modifiers annotations,annotationIds,
        typeParameters,superTypes,declarations⟩
def Member.layout (spot : Spot) : Member → Layout NodeId
  | .method m => m.layout spot
  | .field f => f.layout spot
  | .classLike c => ClassDecl.layout spot c
def membersLayout (spot : Spot) : List Member → Layout (List NodeId)
  | [] => pure []
  | m :: ms => do
    let id ← m.layout spot
    let ids ← membersLayout spot ms
    return id :: ids
end

def File.layout (f : File) : Layout NodeId :=
  Layout.node ⟨f.name,1,none⟩ fun spot => do
    let classes ← Layout.each (ClassDecl.layout spot) f.classes
    return .file ⟨lastSegment '/' f.name,f.package,[],classes⟩

/-- The nodes of Java files. -/
def flatten (files : List File) : Arena :=
  .ofSlots .java (Layout.each File.layout files).slots

end Java
end SymbolGraph
