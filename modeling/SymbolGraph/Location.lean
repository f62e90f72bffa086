import SymbolGraph.Json.Decode
import SymbolGraph.Json.Draft

/-! Where a symbol comes from: the language of its source, and its place in it. -/
namespace SymbolGraph

open Json

/-- The language that a source model was made from. -/
structure Origin where
  name : String
  deriving DecidableEq, Repr, Inhabited

namespace Origin

def kotlin : Origin := ⟨"kotlin"⟩

def java : Origin := ⟨"java"⟩

def toJson (o : Origin) : Json := .text o.name

def decoder : Decoder Origin := .map .mk .text

end Origin

/-- A line of a file. References that stand for an inferred type have no place. -/
inductive Location
  | file (path : String) (line : Nat)
  | nonExisting
  deriving DecidableEq, Repr, Inhabited

/-- Line numbers take 32 bits. -/
def lineDecoder : Decoder Nat := .word32

def lineField : Fields Nat := .defaulted "line" lineDecoder 0

def lineDraft (line : Nat) : Draft.Member := .defaulted "line" .nat 0 line

namespace Location

def path? : Location → Option String
  | .file path _ => some path
  | .nonExisting => none

instance : ToString Location where
  toString
    | .file path line => path ++ ":" ++ toString line
    | .nonExisting => "<synthetic>"

def toJson : Location → Json
  | .file path line => .object [("type",.text "file"),("path",.text path),("line",.nat line)]
  | .nonExisting => .object [("type",.text "non_existing")]

def decoder : Decoder Location :=
  .tagged "type"
    [("file",Fields.decoder (.file <$> .required "path" .text <*> .required "line" lineDecoder)),
      ("non_existing",.fieldless .nonExisting)]

end Location
end SymbolGraph
