import SymbolGraph.Kotlin.Tree
import SymbolGraph.Layout

/-! Laying out Kotlin files. Every part of a declaration stands on the line of that declaration. -/
namespace SymbolGraph
namespace Kotlin

open Layout (Spot)

def constructorName : String := "<init>"

def noName : String := "<no name provided>"

def AnnotationEntry.layout (spot : Spot) (a : AnnotationEntry) : Layout NodeId :=
  Layout.annotationEntry spot a.shortName a.shortName (a.arguments.map fun v => ⟨v.name,v.value⟩)

def annotationsLayout (spot : Spot) (as : List AnnotationEntry) : Layout (List NodeId) :=
  Layout.each (AnnotationEntry.layout spot) as

mutual
def TypeReference.layout (spot : Spot) : TypeReference → Layout NodeId
  | ⟨text,annotations,arguments⟩ =>
    Layout.node spot fun spot => do
      let annotations ← annotationsLayout spot annotations
      let arguments ← typeReferencesLayout spot arguments
      return .typeReference ⟨text,annotations,arguments⟩
def typeReferencesLayout (spot : Spot) : List TypeReference → Layout (List NodeId)
  | [] => pure []
  | t :: ts => do
    let id ← t.layout spot
    let ids ← typeReferencesLayout spot ts
    return id :: ids
end

def TypeParameter.layout (spot : Spot) (t : TypeParameter) : Layout NodeId :=
  Layout.node spot fun spot => do
    let bounds ← typeReferencesLayout spot t.bounds
    return .typeParameter ⟨t.name,t.variance,t.modifiers.contains .reified,bounds⟩

def typeParametersLayout (spot : Spot) (ts : List TypeParameter) : Layout (List NodeId) :=
  Layout.each (TypeParameter.layout spot) ts

def Parameter.flags (p : Parameter) : ParameterFlags where
  vararg := p.modifiers.contains .vararg
  hasDefault := p.hasDefault
  isVal := p.valVar = some .isVal
  isVar := p.valVar = some .isVar
  crossinline := p.modifiers.contains .crossinline
  noinline := p.modifiers.contains .noinline

def Parameter.layout (spot : Spot) (p : Parameter) : Layout NodeId :=
  Layout.node spot fun spot => do
    let annotations ← annotationsLayout spot p.annotations
    let typeReference ← Layout.option (TypeReference.layout spot) p.typeReference
    return .valueParameter ⟨p.name,annotations,typeReference,p.flags⟩

def PropertyDecl.layout (spot : Spot) (p : PropertyDecl) : Layout NodeId :=
  Layout.node (spot.onLine p.line) fun spot => do
    let annotations ← annotationsLayout spot p.annotations
    let typeParameters ← typeParametersLayout spot p.typeParameters
    let receiver ← Layout.option (TypeReference.layout spot) p.receiver
    let typeReference ← Layout.option (TypeReference.layout spot) p.typeReference
    return .property ⟨p.name,p.modifiers,annotations,typeParameters,receiver,typeReference,p.mutable⟩

def TypeAliasDecl.layout (spot : Spot) (a : TypeAliasDecl) : Layout NodeId :=
  Layout.node (spot.onLine a.line) fun spot => do
    let annotations ← annotationsLayout spot a.annotations
    let typeParameters ← typeParametersLayout spot a.typeParameters
    let target ← a.target.layout spot
    return .typeAlias ⟨a.name,a.modifiers,annotations,typeParameters,target⟩

/-- The name and the form of a function. Constructors and function literals have no name of their own. -/
def FunctionStyle.nameAndForm (name : Option String) : FunctionStyle → String × FunctionForm
  | .named => (name.getD noName,.named)
  | .primaryConstructor | .secondaryConstructor => (constructorName,.constructor)
  | .lambda => (noName,.literal false)
  | .anonymousFunction => (noName,.literal true)

mutual
def Declaration.layout (spot : Spot) : Declaration → Layout NodeId
  | .classLike c => ClassDecl.layout spot c
  | .function f => FunctionDecl.layout spot f
  | .property p => p.layout spot
  | .typeAlias a => a.layout spot
def ClassDecl.layout (spot : Spot) : ClassDecl → Layout NodeId
  | ⟨name,keyword,modifiers,annotations,typeParameters,superTypes,body,line⟩ =>
    Layout.node (spot.onLine line) fun spot => do
      let annotations ← annotationsLayout spot annotations
      let typeParameters ← typeParametersLayout spot typeParameters
      let superTypes ← typeReferencesLayout spot superTypes
      let declarations ← declarationsLayout spot body
      return .classLike ⟨name,keyword,modifiers,annotations,typeParameters,superTypes,declarations⟩
def FunctionDecl.layout (spot : Spot) : FunctionDecl → Layout NodeId
  | ⟨style,name,modifiers,annotations,typeParameters,receiver,parameters,returnType,body,line⟩ =>
    Layout.node (spot.onLine line) fun spot => do
      let annotations ← annotationsLayout spot annotations
      let typeParameters ← typeParametersLayout spot typeParameters
      let receiver ← Layout.option (TypeReference.layout spot) receiver
      let parameters ← Layout.each (Parameter.layout spot) parameters
      let returnType ← Layout.option (TypeReference.layout spot) returnType
      let locals ← bodyLayout spot body
      let (name,form) := style.nameAndForm name
      return .function ⟨name,form,modifiers,annotations,typeParameters,receiver,parameters,returnType,
        body.isSome,locals⟩
/-- Only a block holds local declarations. -/
def bodyLayout (spot : Spot) : Option Body → Layout (List NodeId)
  | none => pure []
  | some b => Body.layout spot b
def Body.layout (spot : Spot) : Body → Layout (List NodeId)
  | ⟨block,statements⟩ => if block then declarationsLayout spot statements else pure []
def declarationsLayout (spot : Spot) : List Declaration → Layout (List NodeId)
  | [] => pure []
  | d :: ds => do
    let id ← d.layout spot
    let ids ← declarationsLayout spot ds
    return id :: ids
end

def File.layout (f : File) : Layout NodeId :=
  Layout.node ⟨f.name,1,none⟩ fun spot => do
    let annotations ← annotationsLayout spot f.annotations
    let declarations ← declarationsLayout spot f.declarations
    return .file ⟨lastSegment '/' f.name,f.package,annotations,declarations⟩

/-- The nodes of Kotlin files. -/
def flatten (files : List File) : Arena :=
  .ofSlots .kotlin (Layout.each File.layout files).slots

end Kotlin
end SymbolGraph
