import SymbolGraph.Failure
import SymbolGraph.Processor

/-! The command line: what the arguments ask for, and what is printed for it. -/
namespace SymbolGraph

/-- The arguments of a run over a fixture. -/
structure RunOptions where
  fixture : String
  /-- All of them if none is named. -/
  processors : List String
  config : Option String
  json : Bool
  deriving DecidableEq, Repr

inductive Request
  | run (o : RunOptions)
  | processors | version | help
  deriving DecidableEq, Repr

/-! ### Arguments -/

namespace Arguments

/-- Why the arguments are not read to their end: they make no sense, or they ask for help. -/
inductive Halt
  | misuse | help
  deriving DecidableEq, Repr

/-- The options that take a value. -/
inductive Valued
  | processor | config
  deriving DecidableEq, Repr

/-- What has been read of the arguments of a run. -/
structure RunArguments where
  fixture : Option String
  /-- The latest first. -/
  processors : List String
  config : Option String
  json : Bool
  stderr : Bool
  /-- The option that waits for its value. -/
  pending : Option Valued
  /-- Whether the mark has been met after which there are no options. -/
  plain : Bool
  deriving DecidableEq, Repr

namespace RunArguments

def start : RunArguments := ⟨none,[],none,false,false,none,false⟩

def takeFixture (a : RunArguments) (path : String) : Except Halt RunArguments :=
  if a.fixture.isSome || path.isEmpty then .error .misuse else .ok { a with fixture := some path }

def takeValue (a : RunArguments) (value : String) : Valued → Except Halt RunArguments
  | .processor => .ok { a with processors := value :: a.processors, pending := none }
  | .config =>
    if a.config.isSome || value.isEmpty then .error .misuse
    else .ok { a with config := some value, pending := none }

def takeLong (a : RunArguments) (name : String) (value : Option String) : Except Halt RunArguments :=
  match name, value with
  | "processor", some v => a.takeValue v .processor
  | "processor", none => .ok { a with pending := some .processor }
  | "config", some v => a.takeValue v .config
  | "config", none => .ok { a with pending := some .config }
  | "json", none => if a.json then .error .misuse else .ok { a with json := true }
  | "stderr", none => if a.stderr then .error .misuse else .ok { a with stderr := true }
  | "help", none => .error .help
  | _, _ => .error .misuse

def takeShort (a : RunArguments) : List Char → Except Halt RunArguments
  | ['p'] => .ok { a with pending := some .processor }
  | 'p' :: '=' :: value => a.takeValue (String.ofList value) .processor
  | 'p' :: value => a.takeValue (String.ofList value) .processor
  | 'h' :: _ => .error .help
  | _ => .error .misuse

/-- Splits the text of an option at the sign before its value. -/
def nameAndValue (cs : List Char) : String × Option String :=
  (String.ofList (cs.takeWhile (· ≠ '=')),
    match cs.dropWhile (· ≠ '=') with
    | [] => none
    | _ :: value => some (String.ofList value))

def step (a : RunArguments) (argument : String) : Except Halt RunArguments :=
  if a.plain then a.takeFixture argument
  else
    match argument.toList, a.pending with
    | ['-','-'], none => .ok { a with plain := true }
    | '-' :: '-' :: cs, none => let (name,value) := nameAndValue cs; a.takeLong name value
    | '-' :: c :: cs, none => a.takeShort (c :: cs)
    | '-' :: _ :: _, some _ => .error .misuse
    | _, some o => a.takeValue argument o
    | _, none => a.takeFixture argument

def finish (a : RunArguments) : Except Halt Request :=
  match a.fixture, a.pending with
  | some path, none => .ok (.run ⟨path,a.processors.reverse,a.config,a.json⟩)
  | _, _ => .error .misuse

end RunArguments

/-- Arguments of a command that has none but a request for help. -/
def onlyHelp (r : Request) : List String → Except Halt Request
  | [] | ["--"] => .ok r
  | a :: _ => .error (if a = "--help" || a.startsWith "-h" then .help else .misuse)

def parse : List String → Except Halt Request
  | "run" :: rest => do (← rest.foldlM RunArguments.step .start).finish
  | "processors" :: rest => onlyHelp .processors rest
  | ["help"] | ["help","help"] | ["help","run"] | ["help","processors"] => .error .help
  | a :: _ =>
    if a = "--help" || a.startsWith "-h" then .error .help
    else if a = "--version" || a.startsWith "-V" then .ok .version
    else .error .misuse
  | [] => .error .misuse

end Arguments

/-- What arguments ask for. There is no answer to arguments that make no sense. -/
def Request.parse (arguments : List String) : Option Request :=
  match Arguments.parse arguments with
  | .ok r => some r
  | .error .help => some .help
  | .error .misuse => none

/-! ### Runs -/

/-- Reads files by their paths. -/
abbrev Files := String → Except FileError String

/-- The records of the processors of a run, by name, each name at its first place. -/
abbrev Results := List (String × Array String)

def Results.insert (rs : Results) (name : String) (records : Array String) : Results :=
  if rs.any (·.1 = name) then rs.map fun (n,r) => if n = name then (n,records) else (n,r)
  else rs ++ [(name,records)]

def Config.ofPath (files : Files) : Option String → Except Failure Config
  | none => .ok .standard
  | some path =>
    (Config.load (files path)).mapError (.ofError [s!"Failed to load config {path}"])

def Results.ofProcessor (env : Environment) (rs : Results) (name : String) : Except Failure Results := do
  let p ← (Processor.ofName name).mapError (.ofError [])
  let records ← (p.run env).mapError (.ofError [s!"Processor {quoted name} failed"])
  return rs.insert name records

/-- Runs processors over a fixture. The first problem ends the run. -/
def runFixture (files : Files) (path : String) (processors : List String) (config : Option String) :
    Except Failure Results := do
  let config ← Config.ofPath files config
  let fixture ← (Fixture.load path (files path)).mapError (⟨[],.fixture ·⟩)
  let names := if processors.isEmpty then Processor.all.map (·.name) else processors
  names.foldlM (Results.ofProcessor (fixture.environment config)) []

/-! ### Printing -/

def line (s : String) : String := s ++ "\n"

def lines (ss : List String) : String := String.join (ss.map line)

namespace Results

def toJson (rs : Results) : Json := .object (rs.map fun (n,records) => (n,.list .text records.toList))

/-- The records as lines, under the names of their processors if there are several. -/
def toText (rs : Results) : String :=
  String.join (rs.map fun (n,records) =>
    (if rs.length > 1 then line s!"== {n} ==" else "") ++ lines records.toList)

end Results

/-- What a command leaves behind. -/
structure Outcome where
  exit : Nat
  output : String
  errors : String
  deriving DecidableEq, Repr

namespace Outcome

def success (output : String) : Outcome := ⟨0,output,""⟩

def usage : String :=
  lines ["Usage: symscope run <FIXTURE> [-p <NAME>]... [--config <FILE>] [--json] [--stderr]",
    "       symscope processors"]

def ofRequest (files : Files) : Request → Outcome
  | .help => success usage
  | .version => success (line "symscope 0.1.0")
  | .processors => success (lines (Processor.all.map (·.name)))
  | .run o =>
    match runFixture files o.fixture o.processors o.config with
    | .ok rs => success (if o.json then line rs.toJson.pretty else rs.toText)
    | .error f => ⟨1,"",f.report⟩

def ofArguments (files : Files) (arguments : List String) : Outcome :=
  match Request.parse arguments with
  | some r => ofRequest files r
  | none => ⟨2,"",usage⟩

end Outcome
end SymbolGraph
