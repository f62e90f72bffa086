import SymbolGraph.Lazy
import SymbolGraph.Oracle
import SymbolGraph.Session.Symbol
import SymbolGraph.TypeTable

/-! What a session remembers: its symbols with their lazy attributes, its types, and the questions that
it has asked the oracle. -/
namespace SymbolGraph

/-- The lists of children that symbols remember. -/
inductive ChildList
  | annotations | typeParameters | superTypes | declarations | parameters | bounds | typeArguments
  deriving DecidableEq, Repr

def ChildList.name : ChildList → String
  | .annotations => "annotations"
  | .typeParameters => "type_parameters"
  | .superTypes => "super_types"
  | .declarations => "declarations"
  | .parameters => "parameters"
  | .bounds => "bounds"
  | .typeArguments => "type_arguments"

/-- What is computed of a symbol when it is first asked for. -/
inductive Attribute
  | packageName | qualifiedName | isLocal | parentDeclaration | containingFile
  | children (l : ChildList)
  | type
  | overridee
  deriving DecidableEq, Repr

namespace Attribute

def name : Attribute → String
  | .packageName => "package_name"
  | .qualifiedName => "qualified_name"
  | .isLocal => "is_local"
  | .parentDeclaration => "parent_declaration"
  | .containingFile => "containing_file"
  | .children l => l.name
  | .type => "type"
  | .overridee => "overridee"

/-- Attributes that are symbols or types hold their ids. -/
@[reducible] def Value : Attribute → Type
  | .packageName => String
  | .qualifiedName => Option String
  | .isLocal => Bool
  | .parentDeclaration => Option SymbolId
  | .containingFile => SymbolId
  | .children _ => List SymbolId
  | .type => TypeId
  | .overridee => Option SymbolId

end Attribute

/-- The attributes of one symbol. -/
def Attributes := (a : Attribute) → Lazy a.Value

namespace Attributes

def unresolved : Attributes := fun _ => .unresolved

def set (as : Attributes) (a : Attribute) (v : Lazy a.Value) : Attributes := fun b =>
  if h : b = a then h ▸ v else as b

@[simp] theorem set_same (as : Attributes) (a : Attribute) (v : Lazy a.Value) : as.set a v a = v := by
  simp [set]

theorem set_other (as : Attributes) {a b : Attribute} (v : Lazy a.Value) (h : b ≠ a) :
    as.set a v b = as b := by
  simp [set,h]

@[simp] theorem unresolved_apply (a : Attribute) : unresolved a = .unresolved := rfl

end Attributes

structure Entry where
  node : Node
  attributes : Attributes

structure State where
  /-- The symbols in the order of their ids. -/
  entries : Array Entry
  /-- The ids of the symbols, by their keys. -/
  index : List (SymbolKey × SymbolId)
  types : TypeTable
  /-- The questions asked so far, the latest last. -/
  asked : Array Query

namespace State

def initial : State := ⟨#[],[],.empty,#[]⟩

instance : Inhabited State := ⟨initial⟩

def node? (s : State) (id : SymbolId) : Option Node := (s.entries[id.index]?).map (·.node)

/-- The id of the symbol that stands for a key. -/
def id? (s : State) (k : SymbolKey) : Option SymbolId := s.index.lookup k

/-- The id of the next symbol. -/
def nextId (s : State) : SymbolId := ⟨s.entries.size⟩

def add (s : State) (n : Node) : State :=
  { s with entries := s.entries.push ⟨n,.unresolved⟩, index := (n.header.key,n.header.id) :: s.index }

/-- The place of an attribute of a symbol. -/
def cell (id : SymbolId) (a : Attribute) : Cell State a.Value where
  get s :=
    match s.entries[id.index]? with
    | some e => e.attributes a
    | none => .unresolved
  set v s :=
    { s with entries := s.entries.modify id.index fun e =>
        { e with attributes := e.attributes.set a v } }

@[simp] theorem node?_initial (id : SymbolId) : initial.node? id = none := rfl

@[simp] theorem node?_add_nextId (s : State) (n : Node) : (s.add n).node? s.nextId = some n := by
  simp [node?,add,nextId]

@[simp] theorem node?_nextId (s : State) : s.node? s.nextId = none := by simp [node?,nextId]

theorem node?_add_of_some {s : State} {id : SymbolId} {m : Node} (n : Node) (h : s.node? id = some m) :
    (s.add n).node? id = some m := by
  simp only [node?,Option.map_eq_some_iff] at h ⊢
  obtain ⟨e,he,rfl⟩ := h
  obtain ⟨hi,he⟩ := Array.getElem?_eq_some_iff.mp he
  exact ⟨e,by simp [add,Array.getElem?_push,Nat.ne_of_lt hi,hi,he],rfl⟩

theorem node?_add (s : State) (n : Node) (id : SymbolId) :
    (s.add n).node? id = if id = s.nextId then some n else s.node? id := by
  obtain ⟨i⟩ := id
  simp only [node?,add,nextId,Array.getElem?_push,SymbolId.mk.injEq]
  split <;> simp

/-- The attributes of a new symbol are unresolved, as those of a symbol that is not there. -/
@[simp] theorem get_add (s : State) (n : Node) (id : SymbolId) (a : Attribute) :
    (cell id a).get (s.add n) = (cell id a).get s := by
  by_cases h : id.index = s.entries.size
  · have hs : s.entries[id.index]? = none := by simp [h]
    have hn : (s.add n).entries[id.index]? = some ⟨n,.unresolved⟩ := by simp [add,h]
    simp only [cell,hs,hn]; rfl
  · have hn : (s.add n).entries[id.index]? = s.entries[id.index]? := by
      simp [add,Array.getElem?_push,h]
    simp only [cell,hn]

@[simp] theorem id?_initial (k : SymbolKey) : initial.id? k = none := rfl

theorem id?_add (s : State) (n : Node) (k : SymbolKey) :
    (s.add n).id? k = if k = n.header.key then some n.header.id else s.id? k := by
  rw [id?,add,List.lookup_cons]
  by_cases h : k = n.header.key
  · simp [h]
  · have other : (k == n.header.key) = false := by simpa using h
    simp [h,other,id?]

/-- Attributes have no part in what a symbol is. -/
@[simp] theorem node?_set (s : State) (i j : SymbolId) (a : Attribute) (v : Lazy a.Value) :
    ((cell i a).set v s).node? j = s.node? j := by
  simp only [node?,cell,Array.getElem?_modify]
  split <;> simp [Function.comp_def]

@[simp] theorem id?_set (s : State) (i : SymbolId) (a : Attribute) (v : Lazy a.Value) (k : SymbolKey) :
    ((cell i a).set v s).id? k = s.id? k := rfl

@[simp] theorem set_types (s : State) (i : SymbolId) (a : Attribute) (v : Lazy a.Value) :
    ((cell i a).set v s).types = s.types := rfl

@[simp] theorem set_asked (s : State) (i : SymbolId) (a : Attribute) (v : Lazy a.Value) :
    ((cell i a).set v s).asked = s.asked := rfl

theorem get_set {s : State} {i : SymbolId} {n : Node} (h : s.node? i = some n) (a : Attribute)
    (v : Lazy a.Value) : (cell i a).get ((cell i a).set v s) = v := by
  simp only [node?,Option.map_eq_some_iff] at h
  obtain ⟨e,he,_⟩ := h
  simp [cell,Array.getElem?_modify,he]

theorem get_set_other (s : State) {i j : SymbolId} {a b : Attribute} (v : Lazy a.Value)
    (h : i ≠ j ∨ b ≠ a) : (cell j b).get ((cell i a).set v s) = (cell j b).get s := by
  simp only [cell,Array.getElem?_modify]
  by_cases hij : i = j
  · subst hij
    have hb : b ≠ a := h.resolve_left (· rfl)
    cases s.entries[i.index]? <;> simp [Attributes.set_other _ v hb]
  · rw [if_neg fun e => hij (by cases i; cases j; simp_all)]

end State
end SymbolGraph
