import SymbolGraph.Proofs.Direct.Gathering
import SymbolGraph.Proofs.Operation

/-! Direct computations over any models, well-formed or not. The symbols that they find are genuine, and what
they do not find is not in the models. The one exception is a declaration that stands nowhere: its file is not
found, and the declaration itself is named in the error. -/
namespace SymbolGraph

variable {A B C G : Type} {env : Environment} {stray : NodeKey → Prop}

/-- A declaration that stands nowhere: the models have it, but as the child of no node. -/
def Models.Stray (ms : Models) (k : NodeKey) : Prop :=
  ms.parent? k = none ∧ ∃ s, ms.shape? k = some s ∧ s.kind.isDeclaration = true

theorem Models.parent?_of_ancestors_eq_nil {ms : Models} {k : NodeKey} {t : Shape} (h : ms.shape? k = some t)
    (top : ms.ancestors k = []) : ms.parent? k = none := by
  obtain ⟨a,ha,hs⟩ := exists_arena_of_shape? h
  have room := Arena.lt_size_of_shape? hs
  obtain ⟨j,hj⟩ : ∃ j, a.size = j + 1 := ⟨a.size - 1,by omega⟩
  rw [ancestors_eq ha,Arena.ancestors,hj,Arena.ancestorsUpTo,List.map_eq_nil_iff] at top
  rw [parent?_eq ha]
  cases e : a.parent? k.node with
  | none => rfl
  | some p => rw [e] at top; cases top

/-- An error that names an unknown node or source is right, but for declarations that stand nowhere. No
computation waits for itself. -/
def Error.Founded (env : Environment) (stray : NodeKey → Prop) : Error → Prop
  | .unknownNode k => env.models.shape? k = none ∨ stray k
  | .unknownSource i => env.models.arena? i = none
  | .reentrantResolution _ => False
  | _ => True

namespace Direct

theorem Within.filterMapM {f : C → Direct (Option A)} {l : List C}
    (h : ∀ c ∈ l, Within (Error.Founded env stray) env (f c) fun _ => True) :
    Within (Error.Founded env stray) env (l.filterMapM f) fun _ => True := by
  have loop : ∀ (r : List C) (taken : List A), (∀ c ∈ r, c ∈ l) →
      Within (Error.Founded env stray) env (List.filterMapM.loop f r taken) fun _ => True := by
    intro r
    induction r with
    | nil => exact fun _ _ => .pure trivial
    | cons c r ih =>
      intro taken hr
      obtain ⟨hc,hr⟩ := List.forall_mem_cons.mp hr
      refine (h c hc).bind fun b _ => ?_
      cases b with
      | none => exact ih taken hr
      | some a => exact ih (a :: taken) hr
  exact loop l [] fun _ => id

/-! ### The sources -/

theorem model_founded (i : SourceId) :
    Within (Error.Founded env stray) env (model i) fun a => env.models.arena? i = some a :=
  .readThen (f := fun env => orFail (.unknownSource i) (env.models.arena? i))
    (.orFail (fun _ h => h) fun none => none)

theorem rawShape_founded (k : NodeKey) :
    Within (Error.Founded env stray) env (rawShape k) fun s => env.models.shape? k = some s := by
  refine (model_founded k.source).bind fun a ha => ?_
  rw [Models.shape?_eq ha]
  refine .orFail (fun _ h => h) fun none => .inl ?_
  rw [Models.shape?_eq ha,none]

theorem rawParent?_founded (k : NodeKey) :
    Within (Error.Founded env stray) env (rawParent? k) fun p => p = env.models.parent? k :=
  (model_founded k.source).map fun _ ha => (Models.parent?_eq ha).symm

theorem rawAncestors_founded (k : NodeKey) :
    Within (Error.Founded env stray) env (rawAncestors k) fun ks => ks = env.models.ancestors k :=
  (model_founded k.source).map fun _ ha => (Models.ancestors_eq ha).symm

theorem descriptor_founded (k : NodeKey) :
    Within (Error.Founded env stray) env (descriptor k) fun _ => True :=
  .after (ask_eq _) (.orFail (fun _ _ => trivial) fun _ => trivial)

theorem anyFunction_founded (ks : List NodeKey) :
    Within (Error.Founded env stray) env (anyFunction ks) fun _ => True := by
  induction ks with
  | nil => exact .pure trivial
  | cons k ks ih =>
    refine (rawShape_founded k).bind fun s _ => ?_
    split
    · exact .pure trivial
    · exact ih

/-! ### Symbols -/

theorem symbol_founded (k : SymbolKey) :
    Within (Error.Founded env stray) env (symbol k) fun n => n.Genuine env ∧ n.key = k := by
  have run : Within (Error.Founded env stray) env (symbol k) fun _ => True := by
    cases k with
    | deferred k => exact (model_founded k.source).map fun _ _ => trivial
    | node k => exact (model_founded k.source).bind fun _ _ => (rawShape_founded k).map fun _ _ => trivial
  rcases run.ok_or_error with ⟨n,e,-⟩ | ⟨er,e,founded⟩
  · exact .ok e (symbol_genuine e)
  · exact .error e founded

theorem node_founded (k : NodeKey) :
    Within (Error.Founded env stray) env (node k) fun n => n.Genuine env :=
  (symbol_founded (.node k)).weaken fun _ => And.left

theorem view_founded (S : Type) [OneKind S] {n : Sight Form} (hn : n.Genuine env) :
    Within (Error.Founded env stray) env (view S n) fun v => v.Genuine env :=
  .orFail (fun _ h => hn.narrow h) fun _ => trivial

theorem typed_founded (S : Type) [OneKind S] (k : NodeKey) :
    Within (Error.Founded env stray) env (typed S k) fun v => v.Genuine env :=
  (node_founded k).bind fun _ hn => view_founded S hn

theorem declaration_founded {n : Sight Form} (hn : n.Genuine env) :
    Within (Error.Founded env stray) env (declaration n) fun d => d.Genuine env :=
  .orFail (fun _ h => hn.narrow h) fun _ => trivial

theorem deferredReference_founded (k : NodeKey) :
    Within (Error.Founded env stray) env (deferredReference k) fun r => r.Genuine env :=
  (model_founded k.source).map fun a ha => symbol_deferred_eq_ok.mpr ⟨a,ha,rfl⟩

theorem allFiles_founded : Within (Error.Founded env stray) env allFiles fun fs => ∀ f ∈ fs, f.Genuine env :=
  .after (ask_eq _) (.mapM fun k _ => typed_founded FileShape k)

section Children

variable {T : Type} (v : Sight T)

theorem children_founded (nodes : List NodeId) (S : Type) [OneKind S] :
    Within (Error.Founded env stray) env (children v nodes S) fun ws => ∀ w ∈ ws, w.Genuine env :=
  .mapM fun n _ => typed_founded S (v.near n)

theorem childDeclarations_founded (nodes : List NodeId) :
    Within (Error.Founded env stray) env (childDeclarations v nodes) fun ds => ∀ d ∈ ds, d.Genuine env :=
  (Within.mapM fun n _ => node_founded (v.near n)).bind fun _ hns => .mapM fun n hn => declaration_founded (hns n hn)

theorem child?_founded (n : Option NodeId) (S : Type) [OneKind S] :
    Within (Error.Founded env stray) env (child? v n S) fun w => ∀ u ∈ w, u.Genuine env := by
  cases n with
  | none => exact .pure fun _ h => absurd h (Option.not_mem_none _)
  | some n => exact (typed_founded S (v.near n)).map fun w hw u e => Option.some.inj e ▸ hw

theorem typeReference_founded (n : Option NodeId) :
    Within (Error.Founded env stray) env (typeReference v n) fun r => r.Genuine env := by
  cases n with
  | none => exact deferredReference_founded v.anchor
  | some n => exact typed_founded ReferenceForm (v.near n)

end Children

end Direct

open Direct

/-! ### Attributes of symbols -/

namespace Sight

section Declaration

variable {d : Sight DeclaredForm}

theorem Genuine.isStray {d : Sight DeclaredForm} (hd : d.Genuine env)
    (top : env.models.ancestors d.anchor = []) : env.models.Stray d.anchor := by
  obtain ⟨t,form,kind,-⟩ := d.shape.exists_shape
  have shape := (hd.written form).2
  exact ⟨Models.parent?_of_ancestors_eq_nil shape top,t,shape,kind⟩

theorem isLocal_founded (d : Sight DeclaredForm) :
    Within (Error.Founded env stray) env d.isLocal fun _ => True :=
  (rawAncestors_founded d.anchor).bind fun ks _ => anyFunction_founded ks

theorem parentDeclaration_founded (d : Sight DeclaredForm) :
    Within (Error.Founded env stray) env d.parentDeclaration fun p => ∀ e ∈ p, e.Genuine env := by
  refine (rawParent?_founded d.anchor).bind fun p _ => ?_
  cases p with
  | none => exact .pure fun _ h => absurd h (Option.not_mem_none _)
  | some p => exact (node_founded p).map fun n hn e narrow => hn.narrow narrow

theorem parentClassKind?_founded (d : Sight DeclaredForm) :
    Within (Error.Founded env stray) env d.parentClassKind? fun _ => True := by
  refine (parentDeclaration_founded d).bind fun p _ => ?_
  split <;> exact .pure trivial

theorem declarations_founded (d : Sight DeclaredForm) :
    Within (Error.Founded env stray) env d.declarations fun ds => ∀ e ∈ ds, e.Genuine env := by
  rw [declarations]
  split
  · exact childDeclarations_founded d _
  · exact .pure (List.forall_mem_nil _)

theorem isOpen_founded (d : Sight DeclaredForm) :
    Within (Error.Founded env stray) env d.isOpen fun _ => True := by
  have rest : Within (Error.Founded env stray) env (do
      if [.overriding,.abstracted,.opened].any d.shape.modifiers.contains then return true
      if (← d.parentClassKind?) = some .interface then return true
      return d.origin = .java && !d.shape.modifiers.contains .final : Direct Bool) fun _ => True := by
    split
    · exact .pure trivial
    · refine (parentClassKind?_founded d).bind fun _ _ => ?_
      split <;> exact .pure trivial
  rw [isOpen]
  refine (isLocal_founded d).bind fun inside _ => ?_
  dsimp only
  split
  · exact .pure trivial
  · split
    · split
      · exact .pure trivial
      · exact rest
    · exact rest

/-- The file of a declaration is found, unless it has no parent. -/
theorem containingFile_founded (own : env.models.ancestors d.anchor = [] → stray d.anchor) :
    Within (Error.Founded env stray) env d.containingFile fun f => f.Genuine env := by
  refine (rawAncestors_founded d.anchor).bind fun ks same => ?_
  subst same
  refine Within.bind (P := fun _ => True) ?_ fun root _ => typed_founded FileShape root
  refine .orFail (fun _ _ => trivial) fun none => .inr (own ?_)
  exact List.getLast?_eq_none_iff.mp none

variable (own : env.models.ancestors d.anchor = [] → stray d.anchor)
include own

theorem packageName_founded : Within (Error.Founded env stray) env d.packageName fun _ => True :=
  (containingFile_founded own).map fun _ _ => trivial

theorem qualifiedName_founded : Within (Error.Founded env stray) env d.qualifiedName fun _ => True := by
  rw [qualifiedName]
  split
  · exact .pure trivial
  · refine (isLocal_founded d).bind fun inside _ => ?_
    split
    · exact .pure trivial
    · refine (rawAncestors_founded d.anchor).bind fun ks _ => ?_
      refine (Within.filterMapM fun k _ => (rawShape_founded k).map fun _ _ => trivial).bind fun _ _ => ?_
      exact (packageName_founded own).map fun _ _ => trivial

theorem displayName_founded : Within (Error.Founded env stray) env d.displayName fun _ => True :=
  (qualifiedName_founded own).map fun _ _ => trivial

end Declaration

theorem functionKind_founded (f : Sight FunctionShape) :
    Within (Error.Founded env stray) env f.functionKind fun _ => True := by
  refine (parentDeclaration_founded f.toDeclaration).bind fun p _ => ?_
  split
  · exact .pure trivial
  · split <;> exact .pure trivial

theorem isAbstract_founded (f : Sight FunctionShape) :
    Within (Error.Founded env stray) env f.isAbstract fun _ => True := by
  rw [isAbstract]
  split
  · exact .pure trivial
  · exact (parentClassKind?_founded f.toDeclaration).map fun _ _ => trivial

theorem typeArguments_founded (r : Sight ReferenceForm) :
    Within (Error.Founded env stray) env r.typeArguments fun ws => ∀ w ∈ ws, w.Genuine env := by
  rw [typeArguments]
  split
  · exact children_founded r _ ReferenceForm
  · exact .pure (List.forall_mem_nil _)

theorem resolve_founded (r : Sight ReferenceForm) :
    Within (Error.Founded env stray) env r.resolve fun _ => True := by
  rw [resolve]
  split
  · exact .after (ask_eq _) (.orFail (fun _ _ => trivial) fun _ => trivial)
  · exact (descriptor_founded r.anchor).bind fun _ _ => .orFail (fun _ _ => trivial) fun _ => trivial

theorem overrides_founded (f base : Sight FunctionShape) :
    Within (Error.Founded env stray) env (f.overrides base) fun _ => True := by
  rw [overrides]
  split
  · exact .pure trivial
  · refine (isOpen_founded base.toDeclaration).bind fun _ _ => ?_
    split
    · exact .pure trivial
    · refine .after (ask_eq _) ?_
      split
      · exact .pure trivial
      · refine .after (ask_eq _) ?_
        split
        · exact .pure trivial
        · exact (descriptor_founded f.anchor).bind fun _ _ => .after (ask_eq _) (.pure trivial)

theorem findOverridee_founded {f : Sight FunctionShape}
    (own : env.models.ancestors f.anchor = [] → stray f.anchor) :
    Within (Error.Founded env stray) env f.findOverridee fun o => ∀ g ∈ o, g.Genuine env := by
  have roots : Within (Error.Founded env stray) env f.overriddenRoots fun _ => True := by
    refine (descriptor_founded f.anchor).bind fun d _ => ?_
    refine .readThen (f := fun env => (env.oracle.overriddenGraph.explore true [] d.overridden).filterM
      fun k => return (← descriptor k).overridden.isEmpty) ?_
    refine (Within.filterM (Q := fun _ => True) fun k _ => ?_).weaken fun _ _ => trivial
    exact (descriptor_founded k).map fun _ _ _ => trivial
  refine roots.bind fun ks _ => ?_
  split
  · exact .pure fun _ h => absurd h (Option.not_mem_none _)
  · exact (typed_founded FunctionShape _).map fun g hg u e => Option.some.inj e ▸ hg
  · exact (displayName_founded (d := f.toDeclaration) own).bind fun _ _ => .fail trivial

end Sight

/-! ### Types -/

namespace ResolvedType

theorem declared_founded (t : ResolvedType) :
    Within (Error.Founded env stray) env t.declared fun d => d.Genuine env :=
  (node_founded t.declaration).bind fun _ hn => .orFail (fun _ h => hn.narrow h) fun _ => trivial

theorem alias?_founded (t : ResolvedType) :
    Within (Error.Founded env stray) env t.alias? fun _ => True :=
  (declared_founded t).map fun _ _ => trivial

theorem names_founded (ts : List ResolvedType) :
    Within (Error.Founded env stray) env (names ts) fun _ => True :=
  (Within.mapM (P := fun _ => True) fun t _ => (declared_founded t).map fun _ _ => trivial).weaken
    fun _ _ => trivial

theorem chainFrom_founded (steps : Nat) (chain : List ResolvedType) (t : ResolvedType) :
    Within (Error.Founded env stray) env (chainFrom steps chain t) fun _ => True := by
  induction steps generalizing chain t with
  | zero =>
    rw [chainFrom]
    refine (alias?_founded t).bind fun a _ => ?_
    cases a with
    | none => exact .pure trivial
    | some a =>
      exact .readThen (f := fun env => Direct.fail (.aliasDepthExceeded env.config.maxAliasDepth)) (.fail trivial)
  | succ steps ih =>
    rw [chainFrom]
    refine (alias?_founded t).bind fun a _ => ?_
    cases a with
    | none => exact .pure trivial
    | some a =>
      refine (typed_founded ReferenceForm _).bind fun r _ => (Sight.resolve_founded r).bind fun next _ => ?_
      dsimp only
      split
      · exact (names_founded _).bind fun _ _ => Within.bind (.fail (P := fun _ => True) trivial) fun _ _ => ih _ _
      · exact ih _ _

theorem aliasChain_founded (t : ResolvedType) :
    Within (Error.Founded env stray) env t.aliasChain fun _ => True := chainFrom_founded _ _ _

end ResolvedType

/-! ### Questions -/

namespace Direct

theorem through_founded {S : Type} [Viewed S] {n : Sight Form} {f : Sight S → Direct Answer}
    (h : ∀ v, n.as? S = some v → Within (Error.Founded env stray) env (f v) fun _ => True) :
    Within (Error.Founded env stray) env (through S n f) fun _ => True := by
  rw [through]
  split
  · next v seen => exact h v seen
  · exact .pure trivial

/-- What is asked of a symbol and not found is not in the models, but for the file of the symbol itself. -/
theorem facet_founded {n : Sight Form} (hn : n.Genuine env)
    (own : env.models.Stray n.anchor → n.key = .node n.anchor → stray n.anchor) (f : Facet) :
    Within (Error.Founded env stray) env (facet n f) fun _ => True := by
  have declared : ∀ {S : Type} [Declares S] {v : Sight S}, n.as? S = some v →
      env.models.ancestors v.toDeclaration.anchor = [] → stray v.toDeclaration.anchor := by
    intro S _ v seen top
    have key : v.key = n.key := Sight.key_of_as? seen
    have anchor : v.toDeclaration.anchor = n.anchor := congrArg SymbolKey.anchor key
    have shown := (hn.narrow seen).toDeclaration
    have nowhere := shown.isStray top
    obtain ⟨s,form,-⟩ := (Declares.declared v.shape).exists_shape
    have written := (shown.written form).1
    rw [anchor] at nowhere written ⊢
    exact own nowhere (key ▸ written)
  cases f with
  | packageName =>
    exact through_founded fun _ seen => (Sight.packageName_founded (declared seen)).map fun _ _ => trivial
  | qualifiedName =>
    exact through_founded fun _ seen => (Sight.qualifiedName_founded (declared seen)).map fun _ _ => trivial
  | displayName =>
    exact through_founded fun _ seen => (Sight.displayName_founded (declared seen)).map fun _ _ => trivial
  | containingFile =>
    exact through_founded fun _ seen => (Sight.containingFile_founded (declared seen)).map fun _ _ => trivial
  | overridee =>
    exact through_founded fun _ seen => (Sight.findOverridee_founded (declared seen)).map fun _ _ => trivial
  | isLocal => exact through_founded fun d _ => (Sight.isLocal_founded d).map fun _ _ => trivial
  | parentDeclaration => exact through_founded fun d _ => (Sight.parentDeclaration_founded d).map fun _ _ => trivial
  | isOpen => exact through_founded fun d _ => (Sight.isOpen_founded d).map fun _ _ => trivial
  | functionKind => exact through_founded fun f _ => (Sight.functionKind_founded f).map fun _ _ => trivial
  | isAbstract => exact through_founded fun f _ => (Sight.isAbstract_founded f).map fun _ _ => trivial
  | overrides base =>
    refine through_founded fun f _ => (symbol_founded base).bind fun b _ => through_founded fun b _ => ?_
    exact (Sight.overrides_founded f b).map fun _ _ => trivial
  | declarations => exact through_founded fun d _ => (Sight.declarations_founded d).map fun _ _ => trivial
  | functions | properties =>
    exact through_founded fun c _ =>
      ((Sight.declarations_founded c.toDeclaration).map (Q := fun _ => True) fun _ _ => trivial).map fun _ _ => trivial
  | topLevel => exact through_founded fun f _ => (childDeclarations_founded f _).map fun _ _ => trivial
  | fileAnnotations | declarationAnnotations | parameterAnnotations | referenceAnnotations =>
    exact through_founded fun v _ => (children_founded v _ AnnotationShape).map fun _ _ => trivial
  | typeParameters => exact through_founded fun d _ => (children_founded d _ TypeParameterShape).map fun _ _ => trivial
  | superTypes => exact through_founded fun c _ => (children_founded c _ ReferenceForm).map fun _ _ => trivial
  | bounds => exact through_founded fun t _ => (children_founded t _ ReferenceForm).map fun _ _ => trivial
  | parameters => exact through_founded fun f _ => (children_founded f _ ValueParameterShape).map fun _ _ => trivial
  | functionReceiver => exact through_founded fun f _ => (child?_founded f _ ReferenceForm).map fun _ _ => trivial
  | propertyReceiver => exact through_founded fun p _ => (child?_founded p _ ReferenceForm).map fun _ _ => trivial
  | annotationType => exact through_founded fun a _ => (child?_founded a _ ReferenceForm).map fun _ _ => trivial
  | returnType => exact through_founded fun f _ => (typeReference_founded f _).map fun _ _ => trivial
  | propertyType => exact through_founded fun p _ => (typeReference_founded p _).map fun _ _ => trivial
  | parameterType => exact through_founded fun v _ => (typeReference_founded v _).map fun _ _ => trivial
  | target => exact through_founded fun a _ => (typed_founded ReferenceForm _).map fun _ _ => trivial
  | parameterName => exact through_founded fun _ _ => .readThen (.pure trivial)
  | typeArguments => exact through_founded fun r _ => (Sight.typeArguments_founded r).map fun _ _ => trivial
  | resolve => exact through_founded fun r _ => (Sight.resolve_founded r).map fun _ _ => trivial

theorem typeOf_founded (t : TypeAddress) :
    Within (Error.Founded env stray) env (typeOf t) fun _ => True := by
  cases t with
  | built t => exact .pure trivial
  | meant k =>
    refine (symbol_founded k).bind fun n _ => ?_
    split
    · exact (Sight.resolve_founded _).map fun _ _ => trivial
    · exact .pure trivial

theorem typeFacet_founded (t : ResolvedType) (f : TypeFacet) :
    Within (Error.Founded env stray) env (typeFacet t f) fun _ => True := by
  cases f with
  | declaration => exact (ResolvedType.declared_founded t).map fun _ _ => trivial
  | arguments => exact .pure trivial
  | withNullable nullable => exact .pure trivial
  | shown => exact (ResolvedType.shown_within t).map fun _ _ => trivial
  | isAlias => exact ((ResolvedType.alias?_founded t).map (Q := fun _ => True) fun _ _ => trivial).map fun _ _ => trivial
  | aliasChain => exact (ResolvedType.aliasChain_founded t).map fun _ _ => trivial
  | isAssignableFrom source =>
    refine (typeOf_founded source).bind fun u _ => ?_
    split
    · exact .after (ask_eq _) (.pure trivial)
    · exact .pure trivial

end Direct

/-! ### Traversals -/

namespace Sight

section Nodes

variable {S : Type} [Viewed S]

theorem nodes_founded {x : Direct (List (Sight S))}
    (h : Within (Error.Founded env stray) env x fun ws => ∀ w ∈ ws, w.Genuine env) :
    Within (Error.Founded env stray) env (nodes x) fun ws => ∀ w ∈ ws, w.Genuine env :=
  h.map fun _ hws => List.forall_mem_map.mpr fun w hw => (hws w hw).toNode

theorem singleNode_founded {x : Direct (Sight S)}
    (h : Within (Error.Founded env stray) env x fun w => w.Genuine env) :
    Within (Error.Founded env stray) env (singleNode x) fun ws => ∀ w ∈ ws, w.Genuine env :=
  h.map fun _ hw => List.forall_mem_singleton.mpr hw.toNode

theorem optionalNode_founded {x : Direct (Option (Sight S))}
    (h : Within (Error.Founded env stray) env x fun w => ∀ u ∈ w, u.Genuine env) :
    Within (Error.Founded env stray) env (optionalNode x) fun ws => ∀ w ∈ ws, w.Genuine env := by
  refine h.map fun w hw => ?_
  cases w with
  | none => exact List.forall_mem_nil _
  | some u => exact List.forall_mem_singleton.mpr (hw u rfl).toNode

end Nodes

theorem childGroups_founded (n : Sight Form) : ∀ x ∈ n.childGroups,
    Within (Error.Founded env stray) env x fun ws => ∀ w ∈ ws, w.Genuine env := by
  obtain ⟨key,origin,location,⟨⟨⟩⟩ | ⟨⟩⟩ := n <;> rw [childGroups] <;> simp only [List.forall_mem_cons]
  case written.file =>
    exact ⟨nodes_founded (children_founded ..),nodes_founded (childDeclarations_founded ..),nofun⟩
  case written.classLike =>
    exact ⟨nodes_founded (children_founded ..),nodes_founded (children_founded ..),
      nodes_founded (children_founded ..),nodes_founded (declarations_founded _),nofun⟩
  case written.function =>
    exact ⟨nodes_founded (children_founded ..),nodes_founded (children_founded ..),
      optionalNode_founded (child?_founded ..),nodes_founded (children_founded ..),
      singleNode_founded (typeReference_founded ..),nodes_founded (declarations_founded _),nofun⟩
  case written.property =>
    exact ⟨nodes_founded (children_founded ..),nodes_founded (children_founded ..),
      optionalNode_founded (child?_founded ..),singleNode_founded (typeReference_founded ..),nofun⟩
  case written.typeAlias =>
    exact ⟨nodes_founded (children_founded ..),nodes_founded (children_founded ..),
      singleNode_founded (typed_founded ..),nofun⟩
  case written.typeParameter => exact ⟨nodes_founded (children_founded ..),nofun⟩
  case written.valueParameter =>
    exact ⟨nodes_founded (children_founded ..),singleNode_founded (typeReference_founded ..),nofun⟩
  case written.typeReference =>
    exact ⟨nodes_founded (children_founded ..),nodes_founded (typeArguments_founded _),nofun⟩
  case written.annotationEntry => exact ⟨optionalNode_founded (child?_founded ..),nofun⟩
  case deferred => exact ⟨nodes_founded (children_founded ..),nodes_founded (typeArguments_founded _),nofun⟩

end Sight

theorem Direct.reaches_founded : Reaches (Error.Founded env stray) env :=
  ⟨allFiles_founded,fun _ => Sight.childGroups_founded _⟩

end SymbolGraph
