import SymbolGraph.Java.Codec
import SymbolGraph.Java.Flatten
import SymbolGraph.Kotlin.Codec
import SymbolGraph.Kotlin.Flatten
import SymbolGraph.Names.Hierarchy
import SymbolGraph.Session.Basic

/-! Fixtures: the parsed sources of a run in one text, and what a session looks at for them. -/
namespace SymbolGraph

open Json Json.Draft.Member

structure Fixture where
  kotlin : List Kotlin.File
  java : List Java.File
  /-- Types of declarations that are written without one, by qualified name. -/
  inferred : TextMap

inductive FixtureError
  | unreadable (path : String) (e : FileError)
  | malformed (f : Json.Fault)
  deriving DecidableEq, Repr

def FixtureError.message : FixtureError → String
  | .unreadable path e => s!"Failed to read fixture {path}: {e.message}"
  | .malformed f => s!"Malformed fixture: {f.message}"

def TextMap.toJson (m : TextMap) : Json := .object (m.entries.map fun (k,v) => (k,.text v))

namespace Fixture

def draft (f : Fixture) : Draft :=
  .object [listed "kotlin" Kotlin.File.draft f.kotlin,listed "java" Java.File.draft f.java,
    defaulted "inferred" (.plain ·.toJson) .empty f.inferred]

def toJson (f : Fixture) : Json := f.draft.toJson

def decoder : Decoder Fixture :=
  Fields.decoder (mk <$> .listed "kotlin" Kotlin.File.decoder <*> .listed "java" Java.File.decoder
    <*> .defaulted "inferred" (.map TextMap.ofList (.pairs .text)) .empty)

def load (path : String) (file : Except FileError String) : Except FixtureError Fixture := do
  let text ← file.mapError (.unreadable path)
  (decoder.decode text).mapError .malformed

/-- The sources, those in Kotlin first. -/
def models (f : Fixture) : Models := ⟨[Kotlin.flatten f.kotlin,Java.flatten f.java]⟩

/-- The sources with the oracle that knows them by name. -/
def environment (f : Fixture) (config : Config) : Environment :=
  ⟨f.models,(Names.ofModels f.models f.inferred).oracle,config⟩

end Fixture
end SymbolGraph
