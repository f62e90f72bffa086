import SymbolGraph.Java.Tree
import SymbolGraph.Location

/-! Java trees as JSON. Every field is written; most may be left out on reading.
Among the members of a class the tag `kind` tells methods, fields and classes apart. A class has a
`kind` of its own, so that a member class is written with both, and read as a plain class. -/
namespace SymbolGraph
namespace Java

open Json Json.Draft.Member

namespace NameValue

def draft (v : NameValue) : Draft := .object [missable "name" .text v.name,required "value" (.text v.value)]

def decoder : Decoder NameValue :=
  Fields.decoder (mk <$> .missable "name" .text <*> .required "value" .text)

end NameValue

namespace AnnotationUse

def draft (a : AnnotationUse) : Draft :=
  .object [required "qualified_name" (.text a.qualifiedName),listed "arguments" NameValue.draft a.arguments]

def toJson (a : AnnotationUse) : Json := a.draft.toJson

def decoder : Decoder AnnotationUse :=
  Fields.decoder (mk <$> .required "qualified_name" .text <*> .listed "arguments" NameValue.decoder)

end AnnotationUse

def annotationsField : Fields (List AnnotationUse) := .listed "annotations" AnnotationUse.decoder

def annotationsDraft (as : List AnnotationUse) : Draft.Member :=
  listed "annotations" AnnotationUse.draft as

mutual
def TypeUse.draft : TypeUse → Draft
  | ⟨spelling,annotations,arguments⟩ =>
    .object [required "text" (.text spelling),annotationsDraft annotations,
      ("arguments",arguments.isEmpty,.array (typeDrafts arguments))]
def typeDrafts : List TypeUse → List Draft
  | [] => []
  | t :: ts => t.draft :: typeDrafts ts
end

def TypeUse.toJson (t : TypeUse) : Json := t.draft.toJson

/-- Reads a type in which no more than `room` types enclose one another. -/
def TypeUse.decoderIn : Nat → Decoder TypeUse
  | 0 => fun _ _ => .error .malformed
  | room+1 =>
    Fields.decoder (mk <$> .required "text" .text <*> annotationsField
      <*> .listed "arguments" (decoderIn room))

def TypeUse.decoder : Decoder TypeUse := fun m => decoderIn (m.room + 1) m

namespace TypeParameter

def draft (t : TypeParameter) : Draft :=
  .object [required "name" (.text t.name),listed "bounds" TypeUse.draft t.bounds]

def decoder : Decoder TypeParameter :=
  Fields.decoder (mk <$> .required "name" .text <*> .listed "bounds" TypeUse.decoder)

end TypeParameter

def typeParametersField : Fields (List TypeParameter) :=
  .listed "type_parameters" TypeParameter.decoder

def typeParametersDraft (ts : List TypeParameter) : Draft.Member :=
  listed "type_parameters" TypeParameter.draft ts

namespace Parameter

def draft (p : Parameter) : Draft :=
  .object [missable "name" .text p.name,required "type" p.type.draft,
    defaulted "varargs" .bool false p.varargs,annotationsDraft p.annotations]

def decoder : Decoder Parameter :=
  Fields.decoder (mk <$> .missable "name" .text <*> .required "type" TypeUse.decoder
    <*> .defaulted "varargs" .bool false <*> annotationsField)

end Parameter

namespace Method

def fieldDrafts (m : Method) : List Draft.Member :=
  [required "name" (.text m.name),defaulted "constructor" .bool false m.isConstructor,m.modifiers.draft,
    annotationsDraft m.annotations,typeParametersDraft m.typeParameters,
    listed "parameters" Parameter.draft m.parameters,missable "return_type" TypeUse.draft m.returnType,
    defaulted "has_body" .bool false m.hasBody,lineDraft m.line]

def decoder : Decoder Method :=
  Fields.decoder (mk <$> .required "name" .text <*> .defaulted "constructor" .bool false
    <*> Modifiers.field <*> annotationsField <*> typeParametersField
    <*> .listed "parameters" Parameter.decoder <*> .missable "return_type" TypeUse.decoder
    <*> .defaulted "has_body" .bool false <*> lineField)

end Method

namespace Field

def fieldDrafts (f : Field) : List Draft.Member :=
  [required "name" (.text f.name),f.modifiers.draft,annotationsDraft f.annotations,
    required "type" f.type.draft,lineDraft f.line]

def decoder : Decoder Field :=
  Fields.decoder (mk <$> .required "name" .text <*> Modifiers.field <*> annotationsField
    <*> .required "type" TypeUse.decoder <*> lineField)

end Field

mutual
def ClassDecl.fieldDrafts : ClassDecl → List Draft.Member
  | ⟨name,kind,modifiers,annotations,typeParameters,superclasses,interfaces,members,line⟩ =>
    [required "name" (.text name),defaulted "kind" (.text ·.word) .plain kind,modifiers.draft,
      annotationsDraft annotations,typeParametersDraft typeParameters,
      listed "extends" TypeUse.draft superclasses,listed "implements" TypeUse.draft interfaces,
      ("members",members.isEmpty,.array (memberDrafts members)),lineDraft line]
def Member.draft : Member → Draft
  | .method m => .object (required "kind" (.text "method") :: m.fieldDrafts)
  | .field f => .object (required "kind" (.text "field") :: f.fieldDrafts)
  | .classLike c => .object (required "kind" (.text "class") :: ClassDecl.fieldDrafts c)
def memberDrafts : List Member → List Draft
  | [] => []
  | m :: ms => m.draft :: memberDrafts ms
end

def Member.toJson (m : Member) : Json := m.draft.toJson

def ClassDecl.draft (c : ClassDecl) : Draft := .object c.fieldDrafts

def classDecoderWith (member : Decoder Member) : Decoder ClassDecl :=
  Fields.decoder (ClassDecl.mk <$> .required "name" .text <*> .defaulted "kind" ClassKind.decoder .plain
    <*> Modifiers.field <*> annotationsField <*> typeParametersField
    <*> .listed "extends" TypeUse.decoder <*> .listed "implements" TypeUse.decoder
    <*> .listed "members" member <*> lineField)

/-- Reads a member in which no more than `room` members enclose one another. -/
def Member.decoderIn : Nat → Decoder Member
  | 0 => fun _ _ => .error .malformed
  | room+1 =>
    .tagged "kind"
      [("method",.map .method Method.decoder),("field",.map .field Field.decoder),
        ("class",.map .classLike (classDecoderWith (decoderIn room)))]

def Member.decoder : Decoder Member := fun m => decoderIn (m.room + 1) m

def ClassDecl.decoder : Decoder ClassDecl := classDecoderWith Member.decoder

namespace File

def draft (f : File) : Draft :=
  .object [required "name" (.text f.name),defaulted "package" .text "" f.package,
    listed "classes" ClassDecl.draft f.classes]

def toJson (f : File) : Json := f.draft.toJson

def decoder : Decoder File :=
  Fields.decoder (mk <$> .required "name" .text <*> .defaulted "package" .text ""
    <*> .listed "classes" ClassDecl.decoder)

end File
end Java
end SymbolGraph
