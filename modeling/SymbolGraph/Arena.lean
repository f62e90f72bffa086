import SymbolGraph.Location
import SymbolGraph.Shape

/-! The flat store of the nodes of one language, and the stores of a run side by side.
A node is known by its position. Files are the nodes without a parent. -/
namespace SymbolGraph

structure Slot where
  parent : Option NodeId
  path : String
  line : Nat
  shape : Option Shape
  deriving DecidableEq

structure Arena where
  origin : Origin
  slots : Array Slot
  deriving DecidableEq

namespace Arena

def empty (origin : Origin) : Arena := ⟨origin,#[]⟩

def ofSlots (origin : Origin) (slots : List Slot) : Arena := ⟨origin,slots.toArray⟩

/-- Appends a node whose shape is not known yet. -/
def reserve (a : Arena) (parent : Option NodeId) (path : String) (line : Nat) : Arena :=
  { a with slots := a.slots.push ⟨parent,path,line,none⟩ }

/-- Gives a node its shape. Nothing happens to an unknown node. -/
def fill (a : Arena) (n : NodeId) (s : Shape) : Arena :=
  { a with slots := a.slots.modify n.index fun slot => { slot with shape := some s } }

def shape? (a : Arena) (n : NodeId) : Option Shape := a.slots[n.index]?.bind (·.shape)

def parent? (a : Arena) (n : NodeId) : Option NodeId := a.slots[n.index]?.bind (·.parent)

def location (a : Arena) (n : NodeId) : Location :=
  match a.slots[n.index]? with
  | some slot => .file slot.path slot.line
  | none => .nonExisting

def size (a : Arena) : Nat := a.slots.size

def nodes (a : Arena) : List NodeId := (List.range a.size).map .mk

def files (a : Arena) : List NodeId := a.nodes.filter fun n => (a.parent? n).isNone

def ancestorsUpTo (a : Arena) : Nat → NodeId → List NodeId
  | 0, _ => []
  | k+1, n =>
    match a.parent? n with
    | none => []
    | some p => p :: ancestorsUpTo a k p

/-- The ancestors of a node, the nearest first. A chain of parents without a cycle has at most one link
for every node. So the number of links is cut off only on a cycle, where a climb that asks for the next parent
alone never ends. -/
def ancestors (a : Arena) (n : NodeId) : List NodeId := a.ancestorsUpTo a.size n

@[simp] theorem size_reserve (a : Arena) (p : Option NodeId) (path : String) (line : Nat) :
    (a.reserve p path line).size = a.size + 1 := by
  simp [reserve,size]

@[simp] theorem size_fill (a : Arena) (n : NodeId) (s : Shape) : (a.fill n s).size = a.size := by
  simp [fill,size]

@[simp] theorem size_ofSlots (o : Origin) (l : List Slot) : (ofSlots o l).size = l.length := by
  simp [ofSlots,size]

theorem shape?_ofSlots (o : Origin) (l : List Slot) (n : NodeId) :
    (ofSlots o l).shape? n = l[n.index]?.bind (·.shape) := by
  simp [ofSlots,shape?]

theorem parent?_ofSlots (o : Origin) (l : List Slot) (n : NodeId) :
    (ofSlots o l).parent? n = l[n.index]?.bind (·.parent) := by
  simp [ofSlots,parent?]

theorem location_ofSlots (o : Origin) (l : List Slot) (n : NodeId) :
    (ofSlots o l).location n = l[n.index]?.elim .nonExisting fun s => .file s.path s.line := by
  simp only [ofSlots,location,List.getElem?_toArray]
  cases l[n.index]? <;> rfl

/-- Nothing else can be seen of an arena than where its nodes stand and what they are. -/
theorem eq_of_seen {a b : Arena} (origin : a.origin = b.origin)
    (seen : ∀ n, a.shape? n = b.shape? n ∧ a.parent? n = b.parent? n ∧ a.location n = b.location n) :
    a = b := by
  obtain ⟨_,as⟩ := a
  obtain ⟨_,bs⟩ := b
  obtain rfl := origin
  congr 1
  refine Array.ext_getElem? fun i => ?_
  obtain ⟨shape,parent,place⟩ := seen ⟨i⟩
  simp only [shape?,parent?,location] at shape parent place
  rcases ha : as[i]? with _ | ⟨p,path,line,s⟩ <;> rcases hb : bs[i]? with _ | ⟨q,path',line',t⟩ <;>
    simp_all

end Arena

/-- The source models of a run, each at its source id. -/
structure Models where
  toList : List Arena

namespace Models

def arena? (ms : Models) (s : SourceId) : Option Arena := ms.toList[s.index]?

def shape? (ms : Models) (k : NodeKey) : Option Shape := do (← ms.arena? k.source).shape? k.node

def parent? (ms : Models) (k : NodeKey) : Option NodeKey := do
  return k.sibling (← (← ms.arena? k.source).parent? k.node)

/-- The ancestors of a node, the nearest first. -/
def ancestors (ms : Models) (k : NodeKey) : List NodeKey :=
  match ms.arena? k.source with
  | some a => (a.ancestors k.node).map k.sibling
  | none => []

/-- A node and its ancestors. -/
def scopes (ms : Models) (k : NodeKey) : List NodeKey := k :: ms.ancestors k

/-- The root above a node, or the node itself if it has no parent. -/
def root (ms : Models) (k : NodeKey) : NodeKey := (ms.ancestors k).getLastD k

/-- The package of the file that holds a node. -/
def packageOf (ms : Models) (k : NodeKey) : String :=
  match ms.shape? (ms.root k) with
  | some (.file f) => f.package
  | _ => ""

/-- All models with their ids, in order. -/
def indexed (ms : Models) : List (SourceId × Arena) := ms.toList.mapIdx fun i a => (⟨i⟩,a)

/-- The files of all models, in order. -/
def files (ms : Models) : List NodeKey :=
  ms.indexed.flatMap fun (s,a) => a.files.map fun n => ⟨s,n⟩

/-- All nodes of all models. -/
def keys (ms : Models) : List NodeKey :=
  ms.indexed.flatMap fun (s,a) => a.nodes.map fun n => ⟨s,n⟩

/-- The number of nodes in all models. No descent without a repetition is longer. -/
def size (ms : Models) : Nat := ms.toList.foldr (fun a n => a.size + n) 0

theorem mem_keys {ms : Models} {k : NodeKey} {s : Shape} (h : ms.shape? k = some s) : k ∈ ms.keys := by
  obtain ⟨⟨i⟩,⟨n⟩⟩ := k
  simp only [shape?,arena?,Option.bind_eq_bind,Option.bind_eq_some_iff,Arena.shape?] at h
  obtain ⟨a,ha,slot,hs,_⟩ := h
  have hi : (SourceId.mk i,a) ∈ ms.indexed := by
    simp only [indexed,List.mem_mapIdx]
    obtain ⟨h,e⟩ := List.getElem?_eq_some_iff.mp ha
    exact ⟨i,h,by rw [e]⟩
  have hn : n < a.size := (Array.getElem?_eq_some_iff.mp hs).1
  exact List.mem_flatMap.mpr ⟨_,hi,List.mem_map.mpr
    ⟨⟨n⟩,List.mem_map.mpr ⟨n,List.mem_range.mpr hn,rfl⟩,rfl⟩⟩

end Models
end SymbolGraph
