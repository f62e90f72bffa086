import SymbolGraph.Proofs.Direct.Declarations
import SymbolGraph.Proofs.Direct.Traversal
import SymbolGraph.Proofs.Walk

/-! The children of genuine symbols of well-formed models are found, they are genuine, and they are those
that the models list, in order. -/
namespace SymbolGraph

namespace Place

/-- The kind of the nodes in a place, for the places of one kind. -/
def kind? : Place → Option NodeKind
  | .root => some .file
  | .annotationEntry => some .annotationEntry
  | .typeParameter => some .typeParameter
  | .reference => some .typeReference
  | .parameter => some .valueParameter
  | .declaration => none

theorem kind_of_admits {p : Place} {k k' : NodeKind} (h : p.kind? = some k) (admitted : p.admits k') :
    k' = k := by
  cases p <;> cases h <;> cases k' <;> first | rfl | cases admitted

theorem isDeclaration_of_admits {k : NodeKind} (admitted : Place.declaration.admits k) :
    k.isDeclaration = true := by
  cases k <;> first | rfl | cases admitted

end Place

/-- The place of the nodes of a child list. -/
def ChildList.place : ChildList → Place
  | .annotations => .annotationEntry
  | .typeParameters => .typeParameter
  | .superTypes | .bounds | .typeArguments => .reference
  | .parameters => .parameter
  | .declarations => .declaration

theorem Shape.mem_places_of_childList {s : Shape} {l : ChildList} {c : NodeId} (h : c ∈ s.childList l) :
    (c,l.place) ∈ s.places := by
  cases l <;> cases s <;> simp_all [childList,annotations,typeParameters,places,ChildList.place]

/-- What has a node in a child list is written, and has the node among its children. -/
theorem Form.exists_places {f : Form} {l : ChildList} {c : NodeId} (h : c ∈ f.childList l) :
    ∃ s, f = .written s ∧ (c,l.place) ∈ s.places := by
  cases f with
  | deferred => cases h
  | written s => exact ⟨s,rfl,Shape.mem_places_of_childList h⟩

theorem Sight.exists_declared {w : Sight Form} {s : Shape} (shape : w.shape = .written s)
    (h : s.kind.isDeclaration = true) : ∃ d, w.as? DeclaredForm = some d := by
  obtain ⟨d,hd⟩ : ∃ d : DeclaredForm, Viewed.ofForm? (.written s) = some d := by
    cases s <;> first | exact ⟨_,rfl⟩ | cases h
  have form : Form.written s = Viewed.form d := (Viewed.ofForm?_eq_some _ _).mp hd
  exact exists_as? (form.symm.trans shape.symm)

/-- Genuine symbols of what a node lists. -/
def Sight.Listed {T : Type} [Viewed T] (env : Environment) (k : NodeKey) (ns : List (Option NodeId))
    (ws : List (Sight T)) : Prop :=
  ws.map (·.key) = ns.map k.listed ∧ ∀ w ∈ ws, w.Genuine env

theorem Sight.Listed.singleton {T : Type} [Viewed T] {env : Environment} {k : NodeKey} {n : Option NodeId}
    {w : Sight T} (key : w.key = k.listed n) (genuine : w.Genuine env) : Listed env k [n] [w] :=
  ⟨congrArg (fun x => [x]) key,List.forall_mem_singleton.mpr genuine⟩

theorem Sight.Listed.toNode {T : Type} [Viewed T] {env : Environment} {k : NodeKey}
    {ns : List (Option NodeId)} {ws : List (Sight T)} (h : Listed env k ns ws) :
    Listed env k ns (ws.map (·.toNode)) :=
  ⟨(List.map_map ..).trans h.1,fun w hw => by
    obtain ⟨v,hv,rfl⟩ := List.mem_map.mp hw
    exact (h.2 v hv).toNode⟩

namespace Direct

variable {env : Environment} {allowed : Error → Prop} {T : Type} [Viewed T] {v : Sight T}

theorem Within.mapM_keys {C S : Type} {f : C → Direct (Sight S)} {key : C → SymbolKey}
    {P : Sight S → Prop} {l : List C} (h : ∀ c ∈ l, Within allowed env (f c) fun w => w.key = key c ∧ P w) :
    Within allowed env (l.mapM f) fun ws => ws.map (·.key) = l.map key ∧ ∀ w ∈ ws, P w := by
  induction l with
  | nil => exact .pure ⟨rfl,List.forall_mem_nil _⟩
  | cons c l ih =>
    obtain ⟨hc,hl⟩ := List.forall_mem_cons.mp h
    rw [List.mapM_cons]
    refine hc.bind fun w ⟨own,hw⟩ => (ih hl).bind fun ws ⟨keys,hws⟩ => .pure ?_
    rw [List.map_cons,List.map_cons,own,keys]
    exact ⟨rfl,List.forall_mem_cons.mpr ⟨hw,hws⟩⟩

theorem declaration_within {w : Sight Form} {s : Shape} (genuine : w.Genuine env)
    (shape : w.shape = .written s) (kind : s.kind.isDeclaration = true) :
    Within allowed env (declaration w) fun d => d.key = w.key ∧ d.Genuine env := by
  obtain ⟨d,seen⟩ := Sight.exists_declared shape kind
  exact .found seen ⟨Sight.key_of_as? seen,genuine.narrow seen⟩

variable (hw : env.models.WellFormed) (hv : v.Genuine env)
include hw hv

/-- What a symbol lists is in the models, and of a kind that the place admits. -/
theorem exists_child {s : Shape} (form : Viewed.form v.shape = .written s) {c : NodeId} {place : Place}
    (hc : (c,place) ∈ s.places) : ∃ t, env.models.shape? (v.near c) = some t ∧ place.admits t.kind :=
  (hw.child (hv.written form).2 hc).2

theorem children_within (l : ChildList) {nodes : List NodeId} (S : Type) [OneKind S]
    (hl : (Viewed.form v.shape).childList l = nodes) (hk : l.place.kind? = some (OneKind.kind S)) :
    Within allowed env (children v nodes S) (Sight.Listed env v.anchor (nodes.map some)) := by
  have found : Within allowed env (children v nodes S) fun ws =>
      ws.map (·.key) = nodes.map (fun c => .node (v.near c)) ∧ ∀ w ∈ ws, w.Genuine env := by
    refine .mapM_keys fun c hc => ?_
    obtain ⟨s,form,listed⟩ := Form.exists_places (hl ▸ hc)
    obtain ⟨t,ht,admitted⟩ := exists_child hw hv form listed
    exact (typed_within S ht (Place.kind_of_admits hk admitted)).weaken fun _ => And.symm
  exact found.weaken fun ws ⟨keys,genuine⟩ => ⟨by rw [keys,List.map_map]; rfl,genuine⟩

theorem childDeclarations_within {nodes : List NodeId}
    (hl : (Viewed.form v.shape).childList .declarations = nodes) :
    Within allowed env (childDeclarations v nodes) (Sight.Listed env v.anchor (nodes.map some)) := by
  have found : Within allowed env (nodes.mapM fun n => node (v.near n)) fun ws =>
      ws.map (·.key) = nodes.map (fun c => .node (v.near c)) ∧
        ∀ w ∈ ws, w.Genuine env ∧ ∃ s, w.shape = .written s ∧ s.kind.isDeclaration = true := by
    refine .mapM_keys fun c hc => ?_
    obtain ⟨s,form,listed⟩ := Form.exists_places (hl ▸ hc)
    obtain ⟨t,ht,admitted⟩ := exists_child hw hv form listed
    exact (node_within ht).weaken fun w ⟨genuine,key,shape⟩ =>
      ⟨key,genuine,t,shape,Place.isDeclaration_of_admits admitted⟩
  refine found.bind fun ws ⟨keys,hws⟩ => ?_
  have declared : Within allowed env (ws.mapM declaration) fun ds =>
      ds.map (·.key) = ws.map (·.key) ∧ ∀ d ∈ ds, d.Genuine env := by
    refine .mapM_keys fun w hw => ?_
    obtain ⟨genuine,s,shape,kind⟩ := hws w hw
    exact declaration_within genuine shape kind
  exact declared.weaken fun ds ⟨same,genuine⟩ => ⟨by rw [same,keys,List.map_map]; rfl,genuine⟩

/-- A single reference that a written symbol lists. -/
theorem typed_reference_within {s : Shape} (form : Viewed.form v.shape = .written s) {c : NodeId}
    (hc : (c,Place.reference) ∈ s.places) :
    Within allowed env (typed ReferenceForm (v.near c)) fun r => r.Genuine env ∧ r.key = .node (v.near c) := by
  obtain ⟨t,ht,admitted⟩ := exists_child hw hv form hc
  exact typed_within ReferenceForm ht (Place.kind_of_admits rfl admitted)

theorem child?_within {s : Shape} (form : Viewed.form v.shape = .written s) {c : Option NodeId}
    (hc : ∀ n ∈ c, (n,Place.reference) ∈ s.places) :
    Within allowed env (child? v c ReferenceForm) fun r =>
      Sight.Listed env v.anchor (c.toList.map some) r.toList := by
  cases c with
  | none => exact .pure ⟨rfl,List.forall_mem_nil _⟩
  | some c => exact (typed_reference_within hw hv form (hc c rfl)).map fun r ⟨genuine,key⟩ => .singleton key genuine

theorem typeReference_within {s : Shape} (form : Viewed.form v.shape = .written s) {c : Option NodeId}
    (hc : ∀ n ∈ c, (n,Place.reference) ∈ s.places) :
    Within allowed env (typeReference v c) fun r => Sight.Listed env v.anchor [c] [r] := by
  cases c with
  | none =>
    obtain ⟨a,ha,-⟩ := hv.exists_arena
    exact (deferredReference_within ha).weaken fun r ⟨genuine,key⟩ => .singleton key genuine
  | some c =>
    exact (typed_reference_within hw hv form (hc c rfl)).weaken fun r ⟨genuine,key⟩ => .singleton key genuine

end Direct

namespace Sight

open Direct

variable {env : Environment} {allowed : Error → Prop}

section Nodes

variable {S : Type} [Viewed S] {k : NodeKey} {ns : List (Option NodeId)}

theorem nodes_within {x : Direct (List (Sight S))} (h : Within allowed env x (Listed env k ns)) :
    Within allowed env (nodes x) (Listed env k ns) := h.map fun _ => Listed.toNode

theorem singleNode_within {x : Direct (Sight S)} (h : Within allowed env x fun w => Listed env k ns [w]) :
    Within allowed env (singleNode x) (Listed env k ns) := h.map fun _ => Listed.toNode

theorem optionalNode_within {x : Direct (Option (Sight S))}
    (h : Within allowed env x fun o => Listed env k ns o.toList) :
    Within allowed env (optionalNode x) (Listed env k ns) := h.map fun _ => Listed.toNode

end Nodes

variable (hw : env.models.WellFormed)
include hw

theorem annotations_within {T : Type} [Annotated T] [LawfulAnnotated T] {v : Sight T}
    (hv : v.Genuine env) :
    Within allowed env v.annotations (Listed env v.anchor ((Annotated.annotations v.shape).map some)) :=
  children_within hw hv .annotations AnnotationShape (LawfulAnnotated.annotations_eq _).symm rfl

theorem typeParameters_within {d : Sight DeclaredForm} (hd : d.Genuine env) :
    Within allowed env d.typeParameters (Listed env d.anchor (d.shape.typeParameters.map some)) :=
  children_within hw hd .typeParameters TypeParameterShape (by cases d.shape <;> rfl) rfl

theorem declarations_within {d : Sight DeclaredForm} (hd : d.Genuine env) :
    Within allowed env d.declarations (Listed env d.anchor ((d.shape.declarations?.getD []).map some)) := by
  rw [declarations]
  cases e : d.shape.declarations? with
  | none => exact .pure ⟨rfl,List.forall_mem_nil _⟩
  | some ns =>
    refine childDeclarations_within hw hd ?_
    cases hs : d.shape <;> rw [hs] at e <;> cases e <;> rfl

theorem typeArguments_within {r : Sight ReferenceForm} (hr : r.Genuine env) :
    Within allowed env r.typeArguments
      (Listed env r.anchor (((Viewed.form r.shape).childList .typeArguments).map some)) := by
  rw [typeArguments]
  cases e : r.shape with
  | written t => exact children_within hw hr .typeArguments ReferenceForm (by rw [e]; rfl) rfl
  | deferred => exact .pure ⟨rfl,List.forall_mem_nil _⟩

theorem target_within {a : Sight TypeAliasShape} (ha : a.Genuine env) :
    Within allowed env a.target fun r => r.Genuine env ∧ r.key = .node (a.near a.shape.target) :=
  typed_reference_within hw ha (s := .typeAlias a.shape) rfl (by simp [Shape.places])

/-- The groups of children of a symbol are found, and are together what the models list below it. -/
theorem childGroups_within {n : Sight Form} (hn : n.Genuine env) :
    ∃ groups : List (List (Option NodeId)),
      List.Forall₂ (fun x ns => Within allowed env x (Listed env n.anchor ns)) n.childGroups groups ∧
        groups.flatten.map n.anchor.listed = env.models.below n.key := by
  have below : ∀ {s : Shape} {groups : List (List (Option NodeId))}, n.shape = .written s →
      groups.flatten = s.visited → groups.flatten.map n.anchor.listed = env.models.below n.key := by
    intro s groups form same
    obtain ⟨key,shape⟩ := hn.written form
    rw [key,Models.below_node shape,same]
  obtain ⟨key,origin,location,⟨⟨⟩⟩ | ⟨⟩⟩ := n
  case written.file t =>
    have h : (⟨key,origin,location,t⟩ : Sight FileShape).Genuine env := hn
    refine ⟨_,.cons (nodes_within (annotations_within hw h)) <|
      .cons (nodes_within (childDeclarations_within hw h rfl)) .nil,below rfl ?_⟩
    simp [Shape.visited,Shape.children,Annotated.annotations]
  case written.classLike t =>
    have h : (⟨key,origin,location,t⟩ : Sight ClassShape).Genuine env := hn
    refine ⟨_,.cons (nodes_within (annotations_within hw h.toDeclaration)) <|
      .cons (nodes_within (typeParameters_within hw h.toDeclaration)) <|
      .cons (nodes_within (children_within hw h .superTypes ReferenceForm rfl rfl)) <|
      .cons (nodes_within (declarations_within hw h.toDeclaration)) .nil,below rfl ?_⟩
    simp [Shape.visited,Shape.children,toDeclaration,Declares.declared,Annotated.annotations,
      DeclaredForm.annotations,DeclaredForm.typeParameters,DeclaredForm.declarations?]
  case written.function t =>
    have h : (⟨key,origin,location,t⟩ : Sight FunctionShape).Genuine env := hn
    refine ⟨_,.cons (nodes_within (annotations_within hw h.toDeclaration)) <|
      .cons (nodes_within (typeParameters_within hw h.toDeclaration)) <|
      .cons (optionalNode_within (child?_within hw h rfl fun c (hc : t.receiver = some c) => ?_)) <|
      .cons (nodes_within (children_within hw h .parameters ValueParameterShape rfl rfl)) <|
      .cons (singleNode_within (typeReference_within hw h rfl fun c (hc : t.returnType = some c) => ?_)) <|
      .cons (nodes_within (declarations_within hw h.toDeclaration)) .nil,below rfl ?_⟩
    · simp [Shape.places,hc]
    · simp [Shape.places,hc]
    · simp [Shape.visited,toDeclaration,Declares.declared,Annotated.annotations,
        DeclaredForm.annotations,DeclaredForm.typeParameters,DeclaredForm.declarations?]
  case written.property t =>
    have h : (⟨key,origin,location,t⟩ : Sight PropertyShape).Genuine env := hn
    refine ⟨_,.cons (nodes_within (annotations_within hw h.toDeclaration)) <|
      .cons (nodes_within (typeParameters_within hw h.toDeclaration)) <|
      .cons (optionalNode_within (child?_within hw h rfl fun c (hc : t.receiver = some c) => ?_)) <|
      .cons (singleNode_within (typeReference_within hw h rfl fun c (hc : t.typeReference = some c) => ?_)) .nil,
      below rfl ?_⟩
    · simp [Shape.places,hc]
    · simp [Shape.places,hc]
    · simp [Shape.visited,toDeclaration,Declares.declared,Annotated.annotations,
        DeclaredForm.annotations,DeclaredForm.typeParameters]
  case written.typeAlias t =>
    have h : (⟨key,origin,location,t⟩ : Sight TypeAliasShape).Genuine env := hn
    refine ⟨_,.cons (nodes_within (annotations_within hw h.toDeclaration)) <|
      .cons (nodes_within (typeParameters_within hw h.toDeclaration)) <|
      .cons (singleNode_within ((target_within hw h).weaken fun _ hr =>
        .singleton (n := some t.target) hr.2 hr.1)) .nil,below rfl ?_⟩
    simp [Shape.visited,Shape.children,toDeclaration,Declares.declared,Annotated.annotations,
      DeclaredForm.annotations,DeclaredForm.typeParameters]
  case written.typeParameter t =>
    have h : (⟨key,origin,location,t⟩ : Sight TypeParameterShape).Genuine env := hn
    refine ⟨_,.cons (nodes_within (children_within hw h .bounds ReferenceForm rfl rfl)) .nil,below rfl ?_⟩
    simp [Shape.visited,Shape.children]
  case written.valueParameter t =>
    have h : (⟨key,origin,location,t⟩ : Sight ValueParameterShape).Genuine env := hn
    refine ⟨_,.cons (nodes_within (annotations_within hw h)) <|
      .cons (singleNode_within (typeReference_within hw h rfl fun c (hc : t.typeReference = some c) => ?_)) .nil,
      below rfl ?_⟩
    · simp [Shape.places,hc]
    · simp [Shape.visited,Annotated.annotations]
  case written.typeReference t =>
    have h : (⟨key,origin,location,.written t⟩ : Sight ReferenceForm).Genuine env := hn
    refine ⟨_,.cons (nodes_within (annotations_within hw h)) <|
      .cons (nodes_within (typeArguments_within hw h)) .nil,below rfl ?_⟩
    simp [Shape.visited,Shape.children,Annotated.annotations,ReferenceForm.annotations,Viewed.form,
      Form.childList,Shape.childList]
  case written.annotationEntry t =>
    have h : (⟨key,origin,location,t⟩ : Sight AnnotationShape).Genuine env := hn
    refine ⟨_,.cons (optionalNode_within (child?_within hw h rfl fun c (hc : t.type = some c) => ?_)) .nil,
      below rfl ?_⟩
    · simp [Shape.places,hc]
    · simp [Shape.visited,Shape.children]
  case deferred =>
    have h : (⟨key,origin,location,.deferred⟩ : Sight ReferenceForm).Genuine env := hn
    refine ⟨_,.cons (nodes_within (annotations_within hw h)) <|
      .cons (nodes_within (typeArguments_within hw h)) .nil,?_⟩
    cases key with
    | node k =>
      obtain ⟨_,written⟩ := hn.exists_written rfl
      cases written
    | deferred k => rfl

/-- All symbols below a symbol are found. -/
theorem childGroups_below {n : Sight Form} (hn : n.Genuine env) : ∀ x ∈ n.childGroups,
    Within allowed env x fun ws => ∀ w ∈ ws, w.Genuine env ∧ w.key ∈ env.models.below n.key := by
  obtain ⟨groups,found,all⟩ :
      ∃ groups, List.Forall₂ (fun x ns => Within allowed env x (Listed env n.anchor ns)) n.childGroups groups ∧
        groups.flatten.map n.anchor.listed = env.models.below n.key := childGroups_within hw hn
  have inside : ∀ ns ∈ groups, ∀ c ∈ ns, n.anchor.listed c ∈ env.models.below n.key := fun ns hns c hc => by
    rw [← all]
    exact List.mem_map_of_mem (List.mem_flatten_of_mem hns hc)
  clear all
  generalize n.childGroups = xs at found ⊢
  induction found with
  | nil => exact fun _ => nofun
  | @cons x ns xs groups hx _ ih =>
    obtain ⟨here,others⟩ := List.forall_mem_cons.mp inside
    refine List.forall_mem_cons.mpr ⟨hx.weaken fun ws ⟨keys,genuine⟩ w hw => ⟨genuine w hw,?_⟩,ih others⟩
    obtain ⟨c,hc,same⟩ := List.mem_map.mp (keys ▸ List.mem_map_of_mem hw)
    rw [← same]
    exact here c hc

end Sight
end SymbolGraph
