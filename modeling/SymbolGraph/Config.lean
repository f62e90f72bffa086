import SymbolGraph.Error
import SymbolGraph.Json.Decode
import SymbolGraph.Json.Value

/-! The settings of a run. -/
namespace SymbolGraph

open Json

structure Config where
  /-- The short names of the annotations that mark types for comparison. -/
  interestingAnnotations : List String
  /-- Stands in place of an empty package. -/
  noPackagePlaceholder : String
  /-- Stands in place of a missing parameter name. -/
  unnamedParameterPlaceholder : String
  maxAliasDepth : Nat
  deriving DecidableEq, Repr

namespace Config

def standard : Config where
  interestingAnnotations := ["Anno","Bnno"]
  noPackagePlaceholder := "<no name>"
  unnamedParameterPlaceholder := "_"
  maxAliasDepth := 64

instance : Inhabited Config := ⟨standard⟩

def isInteresting (c : Config) (shortName : String) : Bool := c.interestingAnnotations.contains shortName

def validate (c : Config) : Except Error Unit :=
  if c.maxAliasDepth = 0 then .error (.config "max_alias_depth must be at least 1") else .ok ()

def toJson (c : Config) : Json :=
  .object [("interesting_annotations",.list .text c.interestingAnnotations),
    ("no_package_placeholder",.text c.noPackagePlaceholder),
    ("unnamed_parameter_placeholder",.text c.unnamedParameterPlaceholder),
    ("max_alias_depth",.nat c.maxAliasDepth)]

/-- Fields that are left out have their standard values. -/
def decoder : Decoder Config :=
  Fields.decoder (mk <$> .defaulted "interesting_annotations" (.list .text) standard.interestingAnnotations
    <*> .defaulted "no_package_placeholder" .text standard.noPackagePlaceholder
    <*> .defaulted "unnamed_parameter_placeholder" .text standard.unnamedParameterPlaceholder
    <*> .defaulted "max_alias_depth" .word64 standard.maxAliasDepth)

/-- Reads and checks the settings in a file. -/
def load (file : Except FileError String) : Except Error Config := do
  let text ← file.mapError .file
  let config ← (decoder.decode text).mapError .json
  config.validate
  return config

end Config
end SymbolGraph
