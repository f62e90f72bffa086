import SymbolGraph.Location
import SymbolGraph.Shape

/-! Symbols: nodes of the sources as a session shows them. A symbol is known by its id, and is shown
through views of several widths: as any node, as a declaration, or as one kind of node. -/
namespace SymbolGraph

/-- What a symbol stands for: a node, or the type reference that a declaration is written without. -/
inductive SymbolKey
  | node (k : NodeKey)
  | deferred (owner : NodeKey)
  deriving DecidableEq, Repr, Inhabited

/-- The node at which a symbol is found. A deferred reference is found at its declaration. -/
def SymbolKey.anchor : SymbolKey → NodeKey
  | .node k => k
  | .deferred owner => owner

structure Header where
  id : SymbolId
  key : SymbolKey
  origin : Origin
  location : Location
  deriving DecidableEq, Repr, Inhabited

/-- A symbol seen as an `S`. -/
structure View (S : Type) where
  header : Header
  shape : S
  deriving DecidableEq

inductive Form
  | written (s : Shape)
  | deferred
  deriving DecidableEq

def Form.kind : Form → NodeKind
  | .written s => s.kind
  | .deferred => .typeReference

inductive ReferenceForm
  | written (s : TypeReferenceShape)
  | deferred
  deriving DecidableEq

inductive DeclaredForm
  | classLike (s : ClassShape)
  | function (s : FunctionShape)
  | property (s : PropertyShape)
  | typeAlias (s : TypeAliasShape)
  | typeParameter (s : TypeParameterShape)
  deriving DecidableEq

/-- Parts of the forms of symbols that views show. -/
class Viewed (S : Type) where
  form : S → Form
  ofForm? : Form → Option S
  ofForm?_eq_some : ∀ f s, ofForm? f = some s ↔ f = form s

/-- Parts that consist of the symbols of one kind. -/
class OneKind (S : Type) extends Viewed S where
  kind : NodeKind
  kind_form : ∀ s, (form s).kind = kind
  exists_form : ∀ f : Form, f.kind = kind → ∃ s, f = form s

abbrev Node := View Form
abbrev Declaration := View DeclaredForm
abbrev FileView := View FileShape
abbrev ClassView := View ClassShape
abbrev FunctionView := View FunctionShape
abbrev PropertyView := View PropertyShape
abbrev TypeAliasView := View TypeAliasShape
abbrev TypeParameterView := View TypeParameterShape
abbrev ValueParameterView := View ValueParameterShape
abbrev ReferenceView := View ReferenceForm
abbrev AnnotationView := View AnnotationShape

instance : Viewed Form := ⟨id,some,by simp⟩

instance : Viewed DeclaredForm where
  form
    | .classLike s => .written (.classLike s)
    | .function s => .written (.function s)
    | .property s => .written (.property s)
    | .typeAlias s => .written (.typeAlias s)
    | .typeParameter s => .written (.typeParameter s)
  ofForm?
    | .written (.classLike s) => some (.classLike s)
    | .written (.function s) => some (.function s)
    | .written (.property s) => some (.property s)
    | .written (.typeAlias s) => some (.typeAlias s)
    | .written (.typeParameter s) => some (.typeParameter s)
    | _ => none
  ofForm?_eq_some f s := by rcases f with ⟨⟨⟩⟩ | ⟨⟩ <;> cases s <;> simp

instance : OneKind FileShape where
  form s := .written (.file s)
  ofForm? | .written (.file s) => some s | _ => none
  ofForm?_eq_some f s := by rcases f with ⟨⟨⟩⟩ | ⟨⟩ <;> simp
  kind := .file
  kind_form _ := rfl
  exists_form f h := by rcases f with ⟨⟨⟩⟩ | ⟨⟩ <;> simp_all [Form.kind,Shape.kind]

instance : OneKind ClassShape where
  form s := .written (.classLike s)
  ofForm? | .written (.classLike s) => some s | _ => none
  ofForm?_eq_some f s := by rcases f with ⟨⟨⟩⟩ | ⟨⟩ <;> simp
  kind := .classLike
  kind_form _ := rfl
  exists_form f h := by rcases f with ⟨⟨⟩⟩ | ⟨⟩ <;> simp_all [Form.kind,Shape.kind]

instance : OneKind FunctionShape where
  form s := .written (.function s)
  ofForm? | .written (.function s) => some s | _ => none
  ofForm?_eq_some f s := by rcases f with ⟨⟨⟩⟩ | ⟨⟩ <;> simp
  kind := .function
  kind_form _ := rfl
  exists_form f h := by rcases f with ⟨⟨⟩⟩ | ⟨⟩ <;> simp_all [Form.kind,Shape.kind]

instance : OneKind PropertyShape where
  form s := .written (.property s)
  ofForm? | .written (.property s) => some s | _ => none
  ofForm?_eq_some f s := by rcases f with ⟨⟨⟩⟩ | ⟨⟩ <;> simp
  kind := .property
  kind_form _ := rfl
  exists_form f h := by rcases f with ⟨⟨⟩⟩ | ⟨⟩ <;> simp_all [Form.kind,Shape.kind]

instance : OneKind TypeAliasShape where
  form s := .written (.typeAlias s)
  ofForm? | .written (.typeAlias s) => some s | _ => none
  ofForm?_eq_some f s := by rcases f with ⟨⟨⟩⟩ | ⟨⟩ <;> simp
  kind := .typeAlias
  kind_form _ := rfl
  exists_form f h := by rcases f with ⟨⟨⟩⟩ | ⟨⟩ <;> simp_all [Form.kind,Shape.kind]

instance : OneKind TypeParameterShape where
  form s := .written (.typeParameter s)
  ofForm? | .written (.typeParameter s) => some s | _ => none
  ofForm?_eq_some f s := by rcases f with ⟨⟨⟩⟩ | ⟨⟩ <;> simp
  kind := .typeParameter
  kind_form _ := rfl
  exists_form f h := by rcases f with ⟨⟨⟩⟩ | ⟨⟩ <;> simp_all [Form.kind,Shape.kind]

instance : OneKind ValueParameterShape where
  form s := .written (.valueParameter s)
  ofForm? | .written (.valueParameter s) => some s | _ => none
  ofForm?_eq_some f s := by rcases f with ⟨⟨⟩⟩ | ⟨⟩ <;> simp
  kind := .valueParameter
  kind_form _ := rfl
  exists_form f h := by rcases f with ⟨⟨⟩⟩ | ⟨⟩ <;> simp_all [Form.kind,Shape.kind]

instance : OneKind ReferenceForm where
  form
    | .written s => .written (.typeReference s)
    | .deferred => .deferred
  ofForm?
    | .written (.typeReference s) => some (.written s)
    | .deferred => some .deferred
    | _ => none
  ofForm?_eq_some f s := by rcases f with ⟨⟨⟩⟩ | ⟨⟩ <;> cases s <;> simp
  kind := .typeReference
  kind_form s := by cases s <;> rfl
  exists_form f h := by
    rcases f with ⟨⟨⟩⟩ | ⟨⟩ <;> simp_all [Form.kind,Shape.kind]
    · exact ⟨.written _,rfl⟩
    · exact ⟨.deferred,rfl⟩

instance : OneKind AnnotationShape where
  form s := .written (.annotationEntry s)
  ofForm? | .written (.annotationEntry s) => some s | _ => none
  ofForm?_eq_some f s := by rcases f with ⟨⟨⟩⟩ | ⟨⟩ <;> simp
  kind := .annotationEntry
  kind_form _ := rfl
  exists_form f h := by rcases f with ⟨⟨⟩⟩ | ⟨⟩ <;> simp_all [Form.kind,Shape.kind]

namespace View

variable {S : Type}

def id (v : View S) : SymbolId := v.header.id

/-- The node at which the symbol is found. -/
def anchor (v : View S) : NodeKey := v.header.key.anchor

/-- A node of the same model. -/
def near (v : View S) (n : NodeId) : NodeKey := v.anchor.sibling n

variable [Viewed S]

def toNode (v : View S) : Node := ⟨v.header,Viewed.form v.shape⟩

def kind (v : View S) : NodeKind := (Viewed.form v.shape).kind

instance : ToString (View S) where
  toString v := v.kind.word ++ "#" ++ toString v.id.index ++ "@" ++ toString v.header.location

/-- The text of a symbol together with the name of its kind. -/
def labelled (v : View S) : String := v.kind.label ++ "(" ++ toString v ++ ")"

/-- The same symbol through another view, if it has one. -/
def as? (T : Type) [Viewed T] (v : View S) : Option (View T) :=
  (Viewed.ofForm? (Viewed.form v.shape)).map (⟨v.header,·⟩)

def asDeclaration? (v : View S) : Option Declaration := v.as? DeclaredForm

@[simp] theorem toNode_header (v : View S) : v.toNode.header = v.header := rfl

@[simp] theorem as?_self (v : View S) : v.as? S = some v := by
  simp [as?,(Viewed.ofForm?_eq_some _ _).mpr rfl]

end View

namespace DeclaredForm

def name : DeclaredForm → String
  | .classLike s => s.name
  | .function s => s.name
  | .property s => s.name
  | .typeAlias s => s.name
  | .typeParameter s => s.name

/-- A type parameter has no modifier but one. -/
def modifiers : DeclaredForm → Modifiers
  | .classLike s => s.modifiers
  | .function s => s.modifiers
  | .property s => s.modifiers
  | .typeAlias s => s.modifiers
  | .typeParameter s => if s.reified then .ofList [.reified] else .empty

/-- Annotations of type parameters are not kept. -/
def annotations : DeclaredForm → List NodeId
  | .classLike s => s.annotations
  | .function s => s.annotations
  | .property s => s.annotations
  | .typeAlias s => s.annotations
  | .typeParameter _ => []

/-- The declarations inside a declaration, for the kinds that have some. -/
def declarations? : DeclaredForm → Option (List NodeId)
  | .classLike s => some s.declarations
  | .function s => some s.localDeclarations
  | .property _ | .typeAlias _ | .typeParameter _ => none

end DeclaredForm

/-- The type parameters that a declaration brings into scope. -/
def DeclaredForm.typeParameters : DeclaredForm → List NodeId
  | .classLike s => s.typeParameters
  | .function s => s.typeParameters
  | .property s => s.typeParameters
  | .typeAlias s => s.typeParameters
  | .typeParameter _ => []

namespace ReferenceForm

/-- The text of a reference, unless it is deferred. -/
def text? : ReferenceForm → Option String
  | .written s => some s.text
  | .deferred => none

def shown (r : ReferenceForm) : String := r.text?.getD "<deferred>"

def annotations : ReferenceForm → List NodeId
  | .written s => s.annotations
  | .deferred => []

end ReferenceForm

/-- Parts that carry annotations. -/
class Annotated (S : Type) extends Viewed S where
  annotations : S → List NodeId

instance : Annotated FileShape := ⟨(·.annotations)⟩
instance : Annotated DeclaredForm := ⟨(·.annotations)⟩
instance : Annotated ValueParameterShape := ⟨(·.annotations)⟩
instance : Annotated ReferenceForm := ⟨(·.annotations)⟩

/-- Parts that belong to declarations. -/
class Declares (S : Type) extends Viewed S where
  declared : S → DeclaredForm
  form_declared : ∀ s, Viewed.form (declared s) = form s

instance : Declares DeclaredForm := ⟨id,fun _ => rfl⟩
instance : Declares ClassShape := ⟨.classLike,fun _ => rfl⟩
instance : Declares FunctionShape := ⟨.function,fun _ => rfl⟩
instance : Declares PropertyShape := ⟨.property,fun _ => rfl⟩
instance : Declares TypeAliasShape := ⟨.typeAlias,fun _ => rfl⟩
instance : Declares TypeParameterShape := ⟨.typeParameter,fun _ => rfl⟩

def View.toDeclaration {S : Type} [Declares S] (v : View S) : Declaration :=
  ⟨v.header,Declares.declared v.shape⟩

@[simp] theorem View.toNode_toDeclaration {S : Type} [Declares S] (v : View S) :
    v.toDeclaration.toNode = v.toNode := by
  simp [toDeclaration,toNode,Declares.form_declared]

end SymbolGraph
