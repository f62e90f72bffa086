import SymbolGraph.Shape

/-! Shapes as JSON: an object tagged by its kind, with every field written. -/
namespace SymbolGraph

open Json

def idsToJson (ids : List NodeId) : Json := .list NodeId.toJson ids

def idToJson (id : Option NodeId) : Json := .option NodeId.toJson id

def idsDecoder : Decoder (List NodeId) := .list NodeId.decoder

namespace FunctionForm

def toJson : FunctionForm → Json
  | .named => .text "named"
  | .constructor => .text "constructor"
  | .literal fun? => .object [("literal",.object [("has_fun_keyword",.bool fun?)])]

def decoder : Decoder FunctionForm :=
  .alternative [("named",.named),("constructor",.constructor)]
    [("literal",Fields.decoder (.literal <$> .required "has_fun_keyword" .bool))]

end FunctionForm

namespace ParameterFlags

def toJson (f : ParameterFlags) : Json :=
  .object [("vararg",.bool f.vararg),("has_default",.bool f.hasDefault),("val",.bool f.isVal),
    ("var",.bool f.isVar),("crossinline",.bool f.crossinline),("noinline",.bool f.noinline)]

def decoder : Decoder ParameterFlags :=
  Fields.decoder (mk <$> .required "vararg" .bool <*> .required "has_default" .bool
    <*> .required "val" .bool <*> .required "var" .bool <*> .required "crossinline" .bool
    <*> .required "noinline" .bool)

end ParameterFlags

namespace AnnotationArgument

def toJson (a : AnnotationArgument) : Json :=
  .object [("name",.option .text a.name),("value",.text a.value)]

def decoder : Decoder AnnotationArgument :=
  Fields.decoder (mk <$> .optional "name" .text <*> .required "value" .text)

end AnnotationArgument

namespace Shape

/-- The fields of a shape without its tag. -/
def fieldsToJson : Shape → List (String × Json)
  | .file s =>
    [("name",.text s.name),("package",.text s.package),("annotations",idsToJson s.annotations),
      ("declarations",idsToJson s.declarations)]
  | .classLike s =>
    [("name",.text s.name),("class_kind",.text s.classKind.word),("modifiers",s.modifiers.toJson),
      ("annotations",idsToJson s.annotations),("type_parameters",idsToJson s.typeParameters),
      ("super_types",idsToJson s.superTypes),("declarations",idsToJson s.declarations)]
  | .function s =>
    [("name",.text s.name),("form",s.form.toJson),("modifiers",s.modifiers.toJson),
      ("annotations",idsToJson s.annotations),("type_parameters",idsToJson s.typeParameters),
      ("receiver",idToJson s.receiver),("parameters",idsToJson s.parameters),
      ("return_type",idToJson s.returnType),("has_body",.bool s.hasBody),
      ("local_declarations",idsToJson s.localDeclarations)]
  | .property s =>
    [("name",.text s.name),("modifiers",s.modifiers.toJson),("annotations",idsToJson s.annotations),
      ("type_parameters",idsToJson s.typeParameters),("receiver",idToJson s.receiver),
      ("type_reference",idToJson s.typeReference),("mutable",.bool s.mutable)]
  | .typeAlias s =>
    [("name",.text s.name),("modifiers",s.modifiers.toJson),("annotations",idsToJson s.annotations),
      ("type_parameters",idsToJson s.typeParameters),("target",s.target.toJson)]
  | .typeParameter s =>
    [("name",.text s.name),("variance",.text s.variance.word),("reified",.bool s.reified),
      ("bounds",idsToJson s.bounds)]
  | .valueParameter s =>
    [("name",.option .text s.name),("annotations",idsToJson s.annotations),
      ("type_reference",idToJson s.typeReference),("flags",s.flags.toJson)]
  | .typeReference s =>
    [("text",.text s.text),("annotations",idsToJson s.annotations),("arguments",idsToJson s.arguments)]
  | .annotationEntry s =>
    [("short_name",.text s.shortName),("annotation_type",idToJson s.type),
      ("arguments",.list AnnotationArgument.toJson s.arguments)]

def toJson (s : Shape) : Json := .object (("kind",.text s.kind.word) :: s.fieldsToJson)

def fileDecoder : Decoder Shape := .map .file <| Fields.decoder <|
  FileShape.mk <$> .required "name" .text <*> .required "package" .text
    <*> .required "annotations" idsDecoder <*> .required "declarations" idsDecoder

def classDecoder : Decoder Shape := .map .classLike <| Fields.decoder <|
  ClassShape.mk <$> .required "name" .text <*> .required "class_kind" ClassKind.decoder
    <*> .required "modifiers" Modifiers.decoder <*> .required "annotations" idsDecoder
    <*> .required "type_parameters" idsDecoder <*> .required "super_types" idsDecoder
    <*> .required "declarations" idsDecoder

def functionDecoder : Decoder Shape := .map .function <| Fields.decoder <|
  FunctionShape.mk <$> .required "name" .text <*> .required "form" FunctionForm.decoder
    <*> .required "modifiers" Modifiers.decoder <*> .required "annotations" idsDecoder
    <*> .required "type_parameters" idsDecoder <*> .optional "receiver" NodeId.decoder
    <*> .required "parameters" idsDecoder <*> .optional "return_type" NodeId.decoder
    <*> .required "has_body" .bool <*> .required "local_declarations" idsDecoder

def propertyDecoder : Decoder Shape := .map .property <| Fields.decoder <|
  PropertyShape.mk <$> .required "name" .text <*> .required "modifiers" Modifiers.decoder
    <*> .required "annotations" idsDecoder <*> .required "type_parameters" idsDecoder
    <*> .optional "receiver" NodeId.decoder <*> .optional "type_reference" NodeId.decoder
    <*> .required "mutable" .bool

def typeAliasDecoder : Decoder Shape := .map .typeAlias <| Fields.decoder <|
  TypeAliasShape.mk <$> .required "name" .text <*> .required "modifiers" Modifiers.decoder
    <*> .required "annotations" idsDecoder <*> .required "type_parameters" idsDecoder
    <*> .required "target" NodeId.decoder

def typeParameterDecoder : Decoder Shape := .map .typeParameter <| Fields.decoder <|
  TypeParameterShape.mk <$> .required "name" .text <*> .required "variance" Variance.decoder
    <*> .required "reified" .bool <*> .required "bounds" idsDecoder

def valueParameterDecoder : Decoder Shape := .map .valueParameter <| Fields.decoder <|
  ValueParameterShape.mk <$> .optional "name" .text <*> .required "annotations" idsDecoder
    <*> .optional "type_reference" NodeId.decoder <*> .required "flags" ParameterFlags.decoder

def typeReferenceDecoder : Decoder Shape := .map .typeReference <| Fields.decoder <|
  TypeReferenceShape.mk <$> .required "text" .text <*> .required "annotations" idsDecoder
    <*> .required "arguments" idsDecoder

def annotationDecoder : Decoder Shape := .map .annotationEntry <| Fields.decoder <|
  AnnotationShape.mk <$> .required "short_name" .text <*> .optional "annotation_type" NodeId.decoder
    <*> .required "arguments" (.list AnnotationArgument.decoder)

def decoder : Decoder Shape :=
  .tagged "kind"
    [("file",fileDecoder),("class",classDecoder),("function",functionDecoder),
      ("property",propertyDecoder),("type_alias",typeAliasDecoder),
      ("type_parameter",typeParameterDecoder),("value_parameter",valueParameterDecoder),
      ("type_reference",typeReferenceDecoder),("annotation",annotationDecoder)]

end Shape
end SymbolGraph
