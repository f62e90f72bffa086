import SymbolGraph.Json.Token
import SymbolGraph.Key
import SymbolGraph.Kind

/-! What can go wrong in a run. -/
namespace SymbolGraph

/-- A file that cannot be read as text: what the system says, that its bytes are no text, or that its
path holds the character that ends paths. -/
inductive FileError
  | system (code : Nat) (text : String)
  | notText | nulInPath
  deriving DecidableEq, Repr

namespace FileError

/-- The texts of the system's errors that reading a file can meet. -/
def systemTexts : List (Nat × String) :=
  [(1,"Operation not permitted"),(2,"No such file or directory"),(5,"Input/output error"),
    (13,"Permission denied"),(20,"Not a directory"),(21,"Is a directory"),(24,"Too many open files"),
    (36,"File name too long"),(40,"Too many levels of symbolic links")]

/-- The error of a code. The given text stands in where the code is not known. -/
def ofCode (code : Nat) (text : String) : FileError :=
  .system code ((systemTexts.lookup code).getD text)

def missing : FileError := ofCode 2 ""

def message : FileError → String
  | .system code text => s!"{text} (os error {code})"
  | .notText => "stream did not contain valid UTF-8"
  | .nulInPath => "file name contained an unexpected NUL byte"

end FileError

def Json.Fault.message : Json.Fault → String
  | .unfinished => "the text ends too early"
  | .malformed => "the text is no JSON"
  | .mismatched => "the text holds a value of another form"

/-- What a type is wanted of and cannot be found: a written reference, a declaration without a written
type, or an id that was not given out. -/
inductive Unresolved
  | written (text : String)
  | inferred (declaration : NodeKey)
  | id (type : TypeId)
  deriving DecidableEq, Repr

def Unresolved.shown : Unresolved → String
  | .written text => text
  | .inferred k => s!"<inferred type of {k}>"
  | .id t => t.shown

/-- A fatal condition of a run. Most say that the sources or the oracle contradict themselves. -/
inductive Error
  | unknownNode (k : NodeKey)
  | unknownSource (s : SourceId)
  | unknownSymbol (id : SymbolId)
  | unexpectedKind (k : NodeKey) (expected found : NodeKind)
  | notADeclaration (k : NodeKey)
  | missingDescriptor (k : NodeKey)
  | unresolvedType (what : Unresolved)
  | notATypeDeclaration (k : NodeKey)
  | ambiguousOverridee (function : String) (count : Nat)
  | aliasCycle (names : List String)
  | aliasDepthExceeded (depth : Nat)
  | reentrantResolution (name : String)
  | unknownProcessor (name : String)
  | config (text : String)
  | file (e : FileError)
  | json (f : Json.Fault)
  deriving DecidableEq, Repr

/-- A name in the quotes of messages. -/
def quoted (s : String) : String := "\x60" ++ s ++ "\x60"

namespace Error

def message : Error → String
  | .unknownNode k => s!"Unknown raw node {k}"
  | .unknownSource s => s!"Unknown source model {s.shown}"
  | .unknownSymbol id => s!"Unknown symbol {id.shown}"
  | .unexpectedKind k expected found => s!"Raw node {k} is a {found.word}, expected {expected.word}"
  | .notADeclaration k => s!"Raw node {k} is not a declaration"
  | .missingDescriptor k => s!"No semantic descriptor for declaration {k}"
  | .unresolvedType what => s!"Type reference {quoted what.shown} cannot be resolved"
  | .notATypeDeclaration k => s!"Raw node {k} does not declare a type"
  | .ambiguousOverridee function count => s!"Function {quoted function} overrides {count} root declarations"
  | .aliasCycle names => "Type alias cycle: " ++ " -> ".intercalate names
  | .aliasDepthExceeded depth => s!"Alias chain exceeds {depth} expansions"
  | .reentrantResolution name => s!"Re-entrant resolution of {quoted name}"
  | .unknownProcessor name => s!"Unknown processor {quoted name}"
  | .config text => s!"Configuration error: {text}"
  | .file e => s!"I/O error: {e.message}"
  | .json f => s!"JSON serialization/deserialization error: {f.message}"

end Error
end SymbolGraph
