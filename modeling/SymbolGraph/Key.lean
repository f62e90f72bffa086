import SymbolGraph.Json.Decode
import SymbolGraph.Json.Value

/-! The names of things: nodes of a source model, models, symbols and types of a session. -/
namespace SymbolGraph

open Json

/-- A node of one source model. Models number their nodes densely, in the order of the source. -/
structure NodeId where
  index : Nat
  deriving DecidableEq, Repr, Inhabited

/-- The position of a source model among the models of a run. -/
structure SourceId where
  index : Nat
  deriving DecidableEq, Repr, Inhabited

/-- A node together with the model that holds it. -/
structure NodeKey where
  source : SourceId
  node : NodeId
  deriving DecidableEq, Repr, Inhabited

/-- A symbol of one session, in the order of creation. -/
structure SymbolId where
  index : Nat
  deriving DecidableEq, Repr, Inhabited

/-- A type of one session, in the order of interning. -/
structure TypeId where
  index : Nat
  deriving DecidableEq, Repr, Inhabited

namespace NodeId

def toJson (n : NodeId) : Json := .nat n.index

def decoder : Decoder NodeId := .map .mk .word32

end NodeId

namespace SourceId

def toJson (s : SourceId) : Json := .nat s.index

def decoder : Decoder SourceId := .map .mk .word16

/-- The id as messages show it. -/
def shown (s : SourceId) : String := s!"SourceId({s.index})"

end SourceId

def SymbolId.shown (s : SymbolId) : String := s!"SymbolId({s.index})"

def TypeId.shown (t : TypeId) : String := s!"TypeId({t.index})"

namespace NodeKey

/-- Another node of the same model. -/
def sibling (k : NodeKey) (n : NodeId) : NodeKey := { k with node := n }

instance : ToString NodeKey where
  toString k := toString k.source.index ++ "#" ++ toString k.node.index

def toJson (k : NodeKey) : Json := .object [("source",k.source.toJson),("node",k.node.toJson)]

def decoder : Decoder NodeKey :=
  Fields.decoder (mk <$> .required "source" SourceId.decoder <*> .required "node" NodeId.decoder)

@[simp] theorem sibling_source (k : NodeKey) (n : NodeId) : (k.sibling n).source = k.source := rfl
@[simp] theorem sibling_node (k : NodeKey) (n : NodeId) : (k.sibling n).node = n := rfl
@[simp] theorem sibling_sibling (k : NodeKey) (m n : NodeId) : (k.sibling m).sibling n = k.sibling n := rfl

end NodeKey
end SymbolGraph
