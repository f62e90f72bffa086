import SymbolGraph.Fixture

/-! Failures as they are told on the command line: what was being done, what went wrong, and what was
the cause of that. -/
namespace SymbolGraph

inductive Cause
  | run (e : Error)
  | fixture (e : FixtureError)
  deriving DecidableEq, Repr

namespace Cause

/-- The text of what went wrong, followed by the text of what is below it. -/
def texts : Cause → List String
  | .run (.file e) => [(Error.file e).message,e.message]
  | .run (.json f) => [(Error.json f).message,f.message]
  | .run e => [e.message]
  | .fixture (.unreadable path e) => [(FixtureError.unreadable path e).message,e.message]
  | .fixture (.malformed f) => [(FixtureError.malformed f).message,f.message]

end Cause

structure Failure where
  /-- What was being done, the outermost first. -/
  context : List String
  cause : Cause
  deriving DecidableEq, Repr

namespace Failure

def ofError (context : List String) (e : Error) : Failure := ⟨context,.run e⟩

/-- All texts, the outermost first. -/
def texts (f : Failure) : List String := f.context ++ f.cause.texts

/-- Writes a text behind `lead`, and its later lines as far from the margin. -/
def indented (lead text : String) : String :=
  lead ++ ("\n" ++ String.ofList (List.replicate lead.length ' ')).intercalate (text.splitOn "\n")

/-- A list of causes. Several are numbered. -/
def causes : List String → String
  | [] => ""
  | [t] => "\n\nCaused by:\n" ++ indented "    " t
  | ts => "\n\nCaused by:" ++ String.join (ts.mapIdx fun i t =>
      let number := toString i
      let blanks := String.ofList (List.replicate (5 - number.length) ' ')
      "\n" ++ indented (blanks ++ number ++ ": ") t)

def report (f : Failure) : String :=
  match f.texts with
  | [] => "Error: \n"
  | t :: ts => "Error: " ++ t ++ causes ts ++ "\n"

end Failure
end SymbolGraph
