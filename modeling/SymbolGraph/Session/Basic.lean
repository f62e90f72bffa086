import SymbolGraph.Arena
import SymbolGraph.Config
import SymbolGraph.Session.State

/-! Sessions: computations that look at sources through symbols and an oracle. A symbol is made when it
is first mentioned, and is the same one from then on. -/
namespace SymbolGraph

/-- What a session looks at. -/
structure Environment where
  models : Models
  oracle : Oracle
  config : Config

abbrev Session (A : Type) := ReaderT Environment (Attempt State) A

namespace Session

variable {A : Type}

/-- Runs a session that has no symbols yet. -/
def runFresh (x : Session A) (env : Environment) : Except Error A := (x env .initial).1

def fail (e : Error) : Session A := throw e

def state : Session State := fun _ => Attempt.get

def modifyState (f : State → State) : Session Unit := fun _ => Attempt.modify f

/-- The value of an option, or a failure. -/
def orFail (e : Error) : Option A → Session A
  | some a => pure a
  | none => fail e

/-- Computes an attribute of a symbol, or remembers it. -/
def memo (id : SymbolId) (a : Attribute) (init : Session a.Value) : Session a.Value := fun env =>
  (State.cell id a).getOrInit a.name (init env)

/-! ### Questions to the oracle -/

/-- Asks the oracle, and notes the question. -/
def ask (q : Query) (answer : Oracle → A) : Session A := do
  modifyState fun s => { s with asked := s.asked.push q }
  return answer (← read).oracle

def askFiles : Session (List NodeKey) := ask .files (·.files)

def askDescriptor (k : NodeKey) : Session (Option Descriptor) := ask (.descriptor k) (·.descriptor k)

def askReference (k : NodeKey) : Session (Option ResolvedType) := ask (.reference k) (·.reference k)

def askVisible (k scope : NodeKey) : Session Bool := ask (.visible k scope) (·.visible k scope)

def askCompatibility (base candidate : Descriptor) : Session Compatibility :=
  ask (.compatibility base.declaration candidate.declaration) (·.compatibility base candidate)

def askAssignable (target source : ResolvedType) : Session Bool :=
  ask (.assignable target.declaration source.declaration) (·.assignable target source)

/-- The descriptor of a declaration that must have one. -/
def descriptor (k : NodeKey) : Session Descriptor := do orFail (.missingDescriptor k) (← askDescriptor k)

/-! ### The sources -/

def model (s : SourceId) : Session Arena := do
  orFail (.unknownSource s) ((← read).models.arena? s)

def rawShape (k : NodeKey) : Session Shape := do
  orFail (.unknownNode k) ((← model k.source).shape? k.node)

def rawParent? (k : NodeKey) : Session (Option NodeKey) := do
  return ((← model k.source).parent? k.node).map k.sibling

/-- The ancestors of a node, the nearest first. -/
def rawAncestors (k : NodeKey) : Session (List NodeKey) := do
  return ((← model k.source).ancestors k.node).map k.sibling

/-! ### Symbols -/

def nodeById (id : SymbolId) : Session Node := do orFail (.unknownSymbol id) ((← state).node? id)

/-- The symbol of a key. If there is none yet it is made as described. -/
def symbol (k : SymbolKey) (describe : Session (Location × Form)) : Session Node := do
  match (← state).id? k with
  | some id => nodeById id
  | none =>
    let arena ← model k.anchor.source
    let (location,form) ← describe
    let id := (← state).nextId
    let n : Node := ⟨⟨id,k,arena.origin,location⟩,form⟩
    modifyState (·.add n)
    return n

/-- The symbol of a node. -/
def node (k : NodeKey) : Session Node :=
  symbol (.node k) do return ((← model k.source).location k.node,.written (← rawShape k))

/-- A view of a symbol that must be of one kind. -/
def view (S : Type) [OneKind S] (n : Node) : Session (View S) :=
  orFail (.unexpectedKind n.anchor (OneKind.kind S) n.kind) (n.as? S)

def typed (S : Type) [OneKind S] (k : NodeKey) : Session (View S) := do view S (← node k)

def typedById (S : Type) [OneKind S] (id : SymbolId) : Session (View S) := do view S (← nodeById id)

/-- The type reference that stands for the missing one of a declaration. -/
def deferredReference (owner : NodeKey) : Session ReferenceView := do
  view ReferenceForm (← symbol (.deferred owner) (return (.nonExisting,.deferred)))

/-- The files of a run. -/
def allFiles : Session (List FileView) := do (← askFiles).mapM (typed FileShape)

/-! ### Types -/

def internType (t : ResolvedType) : Session TypeId := fun _ s =>
  let (id,types) := s.types.intern t
  (.ok id,{ s with types := types })

/-- What a type id stands for. -/
def resolvedType (id : TypeId) : Session ResolvedType := do
  orFail (.unresolvedType (.id id)) ((← state).types.get? id)

end Session
end SymbolGraph
