import SymbolGraph.CommandLine

/-! The program: reads the files that the arguments name, and prints. -/
namespace SymbolGraph

/-- What the system says about a file. Codes may come negated, in 32 bits. -/
def FileError.ofSystem : IO.Error → FileError
  | .alreadyExists _ code text | .invalidArgument _ code text | .permissionDenied _ code text
  | .resourceExhausted _ code text | .inappropriateType _ code text | .noSuchThing _ code text
  | .noFileOrDirectory _ code text | .interrupted _ code text
  | .otherError code text | .resourceBusy code text | .resourceVanished code text
  | .unsupportedOperation code text | .hardwareFault code text | .unsatisfiedConstraints code text
  | .illegalOperation code text | .protocolError code text | .timeExpired code text =>
    .ofCode code.toInt32.toInt.natAbs text
  | .unexpectedEof => .system 0 "unexpected end of file"
  | .userError text => .system 0 text

def readText (path : String) : IO (Except FileError String) := do
  if path.contains '\x00' then return .error .nulInPath
  try
    match String.fromUTF8? (← IO.FS.readBinFile path) with
    | some text => return .ok text
    | none => return .error .notText
  catch e => return .error (.ofSystem e)

/-- The paths of the files that a request reads. -/
def Request.paths : Request → List String
  | .run o => o.config.toList ++ [o.fixture]
  | .processors | .version | .help => []

end SymbolGraph

open SymbolGraph in
def main (arguments : List String) : IO UInt32 := do
  let paths := match Request.parse arguments with
    | some r => r.paths
    | none => []
  let contents ← paths.mapM fun path => return (path,← readText path)
  let files : Files := fun path => (contents.lookup path).getD (.error .notText)
  let outcome := Outcome.ofArguments files arguments
  IO.print outcome.output
  IO.eprint outcome.errors
  return UInt32.ofNat outcome.exit
