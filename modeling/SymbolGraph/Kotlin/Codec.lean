import SymbolGraph.Kotlin.Tree
import SymbolGraph.Location

/-! Kotlin trees as JSON. Every field is written; most may be left out on reading.
A tree nests only as deep as the text may, so the readers recurse on the room that the text leaves. -/
namespace SymbolGraph
namespace Kotlin

open Json Json.Draft.Member

def FunctionStyle.decoder : Decoder FunctionStyle := .word (wordTable all word)

def ValVar.decoder : Decoder ValVar := .word (wordTable all word)

namespace ValueArgument

def draft (a : ValueArgument) : Draft := .object [missable "name" .text a.name,required "value" (.text a.value)]

def decoder : Decoder ValueArgument :=
  Fields.decoder (mk <$> .missable "name" .text <*> .required "value" .text)

end ValueArgument

namespace AnnotationEntry

def draft (a : AnnotationEntry) : Draft :=
  .object [required "short_name" (.text a.shortName),listed "arguments" ValueArgument.draft a.arguments]

def decoder : Decoder AnnotationEntry :=
  Fields.decoder (mk <$> .required "short_name" .text <*> .listed "arguments" ValueArgument.decoder)

end AnnotationEntry

def annotationsField : Fields (List AnnotationEntry) := .listed "annotations" AnnotationEntry.decoder

def annotationsDraft (as : List AnnotationEntry) : Draft.Member :=
  listed "annotations" AnnotationEntry.draft as

mutual
def TypeReference.draft : TypeReference → Draft
  | ⟨spelling,annotations,arguments⟩ =>
    .object [required "text" (.text spelling),annotationsDraft annotations,
      ("arguments",arguments.isEmpty,.array (typeReferenceDrafts arguments))]
def typeReferenceDrafts : List TypeReference → List Draft
  | [] => []
  | t :: ts => t.draft :: typeReferenceDrafts ts
end

def TypeReference.toJson (t : TypeReference) : Json := t.draft.toJson

/-- Reads a type reference in which no more than `room` references enclose one another. -/
def TypeReference.decoderIn : Nat → Decoder TypeReference
  | 0 => fun _ _ => .error .malformed
  | room+1 =>
    Fields.decoder (mk <$> .required "text" .text <*> annotationsField
      <*> .listed "arguments" (decoderIn room))

def TypeReference.decoder : Decoder TypeReference := fun m => decoderIn (m.room + 1) m

namespace TypeParameter

def draft (t : TypeParameter) : Draft :=
  .object [required "name" (.text t.name),defaulted "variance" (.text ·.word) .invariant t.variance,
    t.modifiers.draft,listed "bounds" TypeReference.draft t.bounds]

def decoder : Decoder TypeParameter :=
  Fields.decoder (mk <$> .required "name" .text <*> .defaulted "variance" Variance.decoder .invariant
    <*> Modifiers.field <*> .listed "bounds" TypeReference.decoder)

end TypeParameter

namespace Parameter

def draft (p : Parameter) : Draft :=
  .object [missable "name" .text p.name,missable "type_reference" TypeReference.draft p.typeReference,
    defaulted "has_default" .bool false p.hasDefault,missable "val_var" (.text ·.word) p.valVar,
    p.modifiers.draft,annotationsDraft p.annotations]

def toJson (p : Parameter) : Json := p.draft.toJson

def decoder : Decoder Parameter :=
  Fields.decoder (mk <$> .missable "name" .text <*> .missable "type_reference" TypeReference.decoder
    <*> .defaulted "has_default" .bool false <*> .missable "val_var" ValVar.decoder
    <*> Modifiers.field <*> annotationsField)

end Parameter

def typeParametersField : Fields (List TypeParameter) :=
  .listed "type_parameters" TypeParameter.decoder

def typeParametersDraft (ts : List TypeParameter) : Draft.Member :=
  listed "type_parameters" TypeParameter.draft ts

namespace PropertyDecl

def fieldDrafts (p : PropertyDecl) : List Draft.Member :=
  [required "name" (.text p.name),defaulted "mutable" .bool false p.mutable,p.modifiers.draft,
    annotationsDraft p.annotations,typeParametersDraft p.typeParameters,
    missable "receiver" TypeReference.draft p.receiver,
    missable "type_reference" TypeReference.draft p.typeReference,lineDraft p.line]

def decoder : Decoder PropertyDecl :=
  Fields.decoder (mk <$> .required "name" .text <*> .defaulted "mutable" .bool false <*> Modifiers.field
    <*> annotationsField <*> typeParametersField <*> .missable "receiver" TypeReference.decoder
    <*> .missable "type_reference" TypeReference.decoder <*> lineField)

end PropertyDecl

namespace TypeAliasDecl

def fieldDrafts (a : TypeAliasDecl) : List Draft.Member :=
  [required "name" (.text a.name),a.modifiers.draft,annotationsDraft a.annotations,
    typeParametersDraft a.typeParameters,required "target" a.target.draft,lineDraft a.line]

def decoder : Decoder TypeAliasDecl :=
  Fields.decoder (mk <$> .required "name" .text <*> Modifiers.field <*> annotationsField
    <*> typeParametersField <*> .required "target" TypeReference.decoder <*> lineField)

end TypeAliasDecl

mutual
def Declaration.draft : Declaration → Draft
  | .classLike c => .object (required "kind" (.text "class") :: ClassDecl.fieldDrafts c)
  | .function f => .object (required "kind" (.text "function") :: FunctionDecl.fieldDrafts f)
  | .property p => .object (required "kind" (.text "property") :: p.fieldDrafts)
  | .typeAlias a => .object (required "kind" (.text "type_alias") :: a.fieldDrafts)
def ClassDecl.fieldDrafts : ClassDecl → List Draft.Member
  | ⟨name,keyword,modifiers,annotations,typeParameters,superTypes,body,line⟩ =>
    [required "name" (.text name),defaulted "keyword" (.text ·.word) .plain keyword,modifiers.draft,
      annotationsDraft annotations,typeParametersDraft typeParameters,
      listed "super_types" TypeReference.draft superTypes,
      ("body",body.isEmpty,.array (declarationDrafts body)),lineDraft line]
def FunctionDecl.fieldDrafts : FunctionDecl → List Draft.Member
  | ⟨style,name,modifiers,annotations,typeParameters,receiver,parameters,returnType,body,line⟩ =>
    [defaulted "form" (.text ·.word) .named style,missable "name" .text name,modifiers.draft,
      annotationsDraft annotations,typeParametersDraft typeParameters,
      missable "receiver" TypeReference.draft receiver,listed "parameters" Parameter.draft parameters,
      missable "return_type" TypeReference.draft returnType,("body",body.isNone,bodyDraft body),
      lineDraft line]
def bodyDraft : Option Body → Draft
  | none => .plain .null
  | some b => Body.draft b
def Body.draft : Body → Draft
  | ⟨block,statements⟩ =>
    .object [defaulted "block" .bool false block,
      ("statements",statements.isEmpty,.array (declarationDrafts statements))]
def declarationDrafts : List Declaration → List Draft
  | [] => []
  | d :: ds => d.draft :: declarationDrafts ds
end

def Declaration.toJson (d : Declaration) : Json := d.draft.toJson

def FunctionDecl.toJson (f : FunctionDecl) : Json := (Draft.object f.fieldDrafts).toJson

def classDecoderWith (declaration : Decoder Declaration) : Decoder ClassDecl :=
  Fields.decoder (ClassDecl.mk <$> .required "name" .text
    <*> .defaulted "keyword" ClassKind.decoder .plain <*> Modifiers.field <*> annotationsField
    <*> typeParametersField <*> .listed "super_types" TypeReference.decoder
    <*> .listed "body" declaration <*> lineField)

def bodyDecoderWith (declaration : Decoder Declaration) : Decoder Body :=
  Fields.decoder (Body.mk <$> .defaulted "block" .bool false <*> .listed "statements" declaration)

def functionDecoderWith (declaration : Decoder Declaration) : Decoder FunctionDecl :=
  Fields.decoder (FunctionDecl.mk <$> .defaulted "form" FunctionStyle.decoder .named
    <*> .missable "name" .text <*> Modifiers.field <*> annotationsField <*> typeParametersField
    <*> .missable "receiver" TypeReference.decoder <*> .listed "parameters" Parameter.decoder
    <*> .missable "return_type" TypeReference.decoder <*> .missable "body" (bodyDecoderWith declaration)
    <*> lineField)

/-- Reads a declaration in which no more than `room` declarations enclose one another. -/
def Declaration.decoderIn : Nat → Decoder Declaration
  | 0 => fun _ _ => .error .malformed
  | room+1 =>
    .tagged "kind"
      [("class",.map .classLike (classDecoderWith (decoderIn room))),
        ("function",.map .function (functionDecoderWith (decoderIn room))),
        ("property",.map .property PropertyDecl.decoder),
        ("type_alias",.map .typeAlias TypeAliasDecl.decoder)]

def Declaration.decoder : Decoder Declaration := fun m => decoderIn (m.room + 1) m

def FunctionDecl.decoder : Decoder FunctionDecl := functionDecoderWith Declaration.decoder

namespace File

def draft (f : File) : Draft :=
  .object [required "name" (.text f.name),defaulted "package" .text "" f.package,
    annotationsDraft f.annotations,listed "declarations" Declaration.draft f.declarations]

def toJson (f : File) : Json := f.draft.toJson

def decoder : Decoder File :=
  Fields.decoder (mk <$> .required "name" .text <*> .defaulted "package" .text "" <*> annotationsField
    <*> .listed "declarations" Declaration.decoder)

end File
end Kotlin
end SymbolGraph
