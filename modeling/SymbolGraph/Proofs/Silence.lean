import SymbolGraph.Proofs.Agreement.Views
import SymbolGraph.Session.Overriding
import SymbolGraph.Session.Types

/-! What sessions leave alone, whether they fail or not: sessions that put no question to the oracle, or none of some
kind, and those that meet no type. What is below a symbol is found in silence, and so are the names of a declaration
and the texts of types. -/
namespace SymbolGraph

/-- A session that leaves alone what is read off a state. -/
def Keeps {A B : Type} (f : State → B) (x : Session A) : Prop := ∀ env s, f (x env s).2 = f s

/-- What is read off a state besides its symbols with their attributes, and besides some of the questions. -/
structure Aside {B : Type} (f : State → B) (idle : Query → Prop) : Prop where
  add : ∀ s n, f (s.add n) = f s
  set : ∀ s id (a : Attribute) v, f ((State.cell id a).set v s) = f s
  ask : ∀ s q, idle q → f { s with asked := s.asked.push q } = f s

theorem Aside.asked {B : Type} (f : Array Query → B) : Aside (fun s => f s.asked) fun _ => False :=
  ⟨fun _ _ => rfl,fun _ _ _ _ => rfl,fun _ _ => False.elim⟩

theorem Aside.references (k : NodeKey) :
    Aside (fun s => s.asked.count (.reference k)) fun q => ∀ k, q ≠ .reference k :=
  ⟨fun _ _ => rfl,fun _ _ _ _ => rfl,fun _ _ other => Array.count_push_of_ne (other k)⟩

theorem Aside.types : Aside State.types fun _ => True :=
  ⟨fun _ _ => rfl,fun _ _ _ _ => rfl,fun _ _ _ => rfl⟩

namespace Keeps

variable {A B C S T : Type} {f : State → B} {idle : Query → Prop} {x : Session A}

theorem pure (a : A) : Keeps f (pure a : Session A) := fun _ _ => rfl

theorem bind {g : A → Session C} (hx : Keeps f x) (hg : ∀ a, Keeps f (g a)) : Keeps f (x >>= g) := by
  intro env s
  have first := hx env s
  rcases run : x env s with ⟨e | a,s'⟩ <;> rw [run] at first
  · rw [Attempt.bind_error run]
    exact first
  · rw [Attempt.bind_ok run]
    exact (hg a env s').trans first

theorem map {g : A → C} (hx : Keeps f x) : Keeps f (do return g (← x)) := hx.bind fun _ => .pure _

theorem readThen {g : Environment → Session A} (h : ∀ env, Keeps f (g env)) :
    Keeps f (do g (← MonadReader.read)) := fun env s => h env env s

theorem branch {c : Prop} [Decidable c] {y : Session A} (hx : Keeps f x) (hy : Keeps f y) :
    Keeps f (if c then x else y) := by
  split
  · exact hx
  · exact hy

theorem rescue {g : Error → Session A} (hx : Keeps f x) (hg : ∀ e, Keeps f (g e)) :
    Keeps f (tryCatch x g) := by
  intro env s
  have first := hx env s
  rcases run : x env s with ⟨e | a,s'⟩ <;> rw [run] at first
  · rw [Attempt.rescue_error run]
    exact (hg e env s').trans first
  · rw [Attempt.rescue_ok run]
    exact first

theorem mapM {g : A → Session C} (h : ∀ a, Keeps f (g a)) (l : List A) : Keeps f (l.mapM g) := by
  induction l with
  | nil => exact .pure _
  | cons a l ih =>
    rw [List.mapM_cons]
    exact (h a).bind fun _ => ih.map

theorem filterM {g : A → Session Bool} (h : ∀ a, Keeps f (g a)) (l : List A) : Keeps f (l.filterM g) := by
  have loop : ∀ taken, Keeps f (l.filterAuxM g taken) := by
    induction l with
    | nil => exact fun _ => .pure _
    | cons a l ih => exact fun _ => (h a).bind fun _ => ih _
  exact (loop []).bind fun _ => .pure _

theorem filterMapM {g : A → Session (Option C)} (h : ∀ a, Keeps f (g a)) (l : List A) :
    Keeps f (l.filterMapM g) := by
  have loop : ∀ taken, Keeps f (List.filterMapM.loop g l taken) := by
    induction l with
    | nil => exact fun _ => .pure _
    | cons a l ih =>
      refine fun _ => (h a).bind fun b => ?_
      cases b with
      | none => exact ih _
      | some b => exact ih _
  exact loop []

/-- What leaves the state alone leaves alone what is read off it. -/
theorem of_quiet {p : Direct A} (h : Quiet x p) : Keeps f x := fun env s => by rw [h env s]

theorem orFail (e : Error) (o : Option A) : Keeps f (Session.orFail e o) := of_quiet (.orFail e o)

theorem state : Keeps f Session.state := fun _ _ => rfl

section Aside

variable (aside : Aside f idle)
include aside

theorem memo (id : SymbolId) {a : Attribute} {init : Session a.Value} (h : Keeps f init) :
    Keeps f (Session.memo id a init) := by
  intro env s
  rw [Session.memo,Cell.getOrInit]
  cases (State.cell id a).get s with
  | resolved v => rfl
  | resolving => rfl
  | unresolved =>
    have ran := (h env ((State.cell id a).set .resolving s)).trans (aside.set s id a _)
    dsimp only
    rcases run : init env ((State.cell id a).set .resolving s) with ⟨_ | v,s'⟩ <;> rw [run] at ran
    · exact (aside.set s' id a _).trans ran
    · exact (aside.set s' id a _).trans ran

theorem ask {q : Query} (hq : idle q) (answer : Oracle → A) : Keeps f (Session.ask q answer) :=
  fun _ s => aside.ask s q hq

theorem descriptor (hq : ∀ k, idle (.descriptor k)) (k : NodeKey) : Keeps f (Session.descriptor k) :=
  (ask aside (hq k) _).bind fun _ => orFail _ _

end Aside

/-! ### Symbols -/

theorem nodeById (id : SymbolId) : Keeps f (Session.nodeById id) := state.bind fun _ => orFail _ _

theorem typeById (id : TypeId) : Keeps f (Session.typeById id) := (state.bind fun _ => orFail _ _).map

theorem typedById [OneKind S] (id : SymbolId) : Keeps f (Session.typedById S id) :=
  (nodeById id).bind fun _ => orFail _ _

section Symbols

variable (aside : Aside f idle)
include aside

theorem symbol (k : SymbolKey) {describe : Session (Location × Form)} (h : Keeps f describe) :
    Keeps f (Session.symbol k describe) := by
  refine state.bind fun s => ?_
  cases s.id? k with
  | some id => exact nodeById id
  | none =>
    refine (of_quiet (.model k.anchor.source)).bind fun arena => h.bind fun described => ?_
    obtain ⟨location,form⟩ := described
    exact state.bind fun s => bind (fun _ s' => aside.add s' _) fun _ => pure _

theorem node (k : NodeKey) : Keeps f (Session.node k) :=
  symbol aside _ <| (of_quiet (.model k.source)).bind fun _ => (of_quiet (.rawShape k)).map

theorem typed [OneKind S] (k : NodeKey) : Keeps f (Session.typed S k) := (node aside k).bind fun _ => orFail _ _

theorem deferredReference (owner : NodeKey) : Keeps f (Session.deferredReference owner) :=
  (symbol aside _ (pure _)).bind fun _ => orFail _ _

/-! ### Children -/

section Children

variable [Viewed T] (v : View T)

theorem children (l : ChildList) (nodes : List NodeId) [OneKind S] : Keeps f (Session.children v l nodes S) :=
  (memo aside v.id (a := .children l) <| mapM (fun n => (typed aside (v.near n)).map) nodes).bind <| mapM typedById

theorem childDeclarations (nodes : List NodeId) : Keeps f (Session.childDeclarations v nodes) :=
  (memo aside v.id (a := .children .declarations) <| mapM (fun n => (node aside (v.near n)).map) nodes).bind <|
    mapM fun id => (nodeById id).bind fun _ => orFail _ _

theorem child? (n : Option NodeId) [OneKind S] : Keeps f (Session.child? v n S) := by
  cases n with
  | none => exact pure none
  | some n => exact (typed aside (v.near n)).map

theorem typeReference (n : Option NodeId) : Keeps f (Session.typeReference v n) := by
  cases n with
  | none => exact deferredReference aside v.anchor
  | some n => exact typed aside (v.near n)

end Children

theorem declarations (d : Declaration) : Keeps f d.declarations := by
  rw [View.declarations]
  cases d.shape.declarations? with
  | none => exact pure []
  | some nodes => exact childDeclarations aside d nodes

theorem typeArguments (r : ReferenceView) : Keeps f r.typeArguments := by
  rw [View.typeArguments]
  cases r.shape with
  | written s => exact children aside r _ _
  | deferred => exact pure []

/-- The children of a symbol are found without a question to the oracle. -/
theorem childGroups (n : Node) : ∀ x ∈ n.childGroups, Keeps f x := by
  have nodes : ∀ {T : Type} [Viewed T] {x : Session (List (View T))}, Keeps f x → Keeps f (View.nodes x) := map
  have singleNode : ∀ {T : Type} [Viewed T] {x : Session (View T)}, Keeps f x → Keeps f (View.singleNode x) := map
  have optionalNode : ∀ {T : Type} [Viewed T] {x : Session (Option (View T))},
      Keeps f x → Keeps f (View.optionalNode x) := map
  have annotated : ∀ {T : Type} [Annotated T] (v : View T), Keeps f (View.nodes v.annotations) :=
    fun v => nodes (children aside v _ _)
  have generic : ∀ d : Declaration, Keeps f (View.nodes d.typeParameters) := fun d => nodes (children aside d _ _)
  obtain ⟨header,⟨⟨⟩⟩ | ⟨⟩⟩ := n <;>
    simp only [View.childGroups,List.forall_mem_cons,List.not_mem_nil,false_implies,implies_true,and_true]
  case written.file s => exact ⟨annotated _,nodes (childDeclarations aside _ _)⟩
  case written.classLike s =>
    exact ⟨annotated _,generic _,nodes (children aside _ _ _),nodes (declarations aside _)⟩
  case written.function s =>
    exact ⟨annotated _,generic _,optionalNode (child? aside _ _),nodes (children aside _ _ _),
      singleNode (typeReference aside _ _),nodes (declarations aside _)⟩
  case written.property s =>
    exact ⟨annotated _,generic _,optionalNode (child? aside _ _),singleNode (typeReference aside _ _)⟩
  case written.typeAlias s => exact ⟨annotated _,generic _,singleNode (typed aside _)⟩
  case written.typeParameter s => exact nodes (children aside _ _ _)
  case written.valueParameter s => exact ⟨annotated _,singleNode (typeReference aside _ _)⟩
  case written.typeReference s => exact ⟨annotated _,nodes (typeArguments aside _)⟩
  case written.annotationEntry s => exact optionalNode (child? aside _ _)
  case deferred => exact ⟨annotated _,nodes (typeArguments aside _)⟩

/-! ### Declarations -/

section Declaration

variable (d : Declaration) (g : FunctionView)

theorem parentDeclaration : Keeps f d.parentDeclaration := by
  refine (memo aside d.id (a := .parentDeclaration) ?_).bind fun parent => ?_
  · refine (of_quiet (.rawParent? d.anchor)).bind fun p => ?_
    cases p with
    | some p => exact (node aside p).map
    | none => exact pure none
  · cases parent with
    | some id => exact (nodeById id).bind fun n => (orFail _ _).map
    | none => exact pure none

theorem containingFile : Keeps f d.containingFile := by
  have found : Keeps f (do
      let root ← Session.orFail (.unknownNode d.anchor) (← Session.rawAncestors d.anchor).getLast?
      return (← Session.typed FileShape root).id) :=
    (of_quiet (.rawAncestors d.anchor)).bind fun _ => (orFail _ _).bind fun root => (typed aside root).map
  exact (memo aside d.id (a := .containingFile) found).bind typedById

theorem packageName : Keeps f d.packageName := memo aside d.id (a := .packageName) (containingFile aside d).map

theorem isLocal : Keeps f d.isLocal :=
  memo aside d.id (a := .isLocal) <| of_quiet ((Quiet.rawAncestors d.anchor).bind fun ks => .anyFunction ks)

theorem qualifiedName : Keeps f d.qualifiedName := by
  refine memo aside d.id (a := .qualifiedName) (branch (pure none) ?_)
  refine (isLocal aside d).bind fun _ => branch (pure none) ?_
  refine (of_quiet (.rawAncestors d.anchor)).bind fun ks => ?_
  refine bind (filterMapM (fun k => (of_quiet (.rawShape k)).map) ks) fun outer => ?_
  exact (packageName aside d).bind fun _ => pure _

theorem displayName : Keeps f d.displayName := (qualifiedName aside d).map

theorem parentClassKind? : Keeps f (View.parentClassKind? d) := by
  refine (parentDeclaration aside d).bind fun parent => ?_
  obtain _ | ⟨_,_ | _ | _ | _ | _⟩ := parent <;> exact pure _

theorem isOpen : Keeps f d.isOpen := by
  refine (isLocal aside d).bind fun _ => branch (pure false) ?_
  have rest : Keeps f (do
      if [.overriding,.abstracted,.opened].any d.modifiers.contains then return true
      if (← View.parentClassKind? d) = some .interface then return true
      return d.header.origin = .java && !d.modifiers.contains .final) :=
    branch (pure true) ((parentClassKind? aside d).bind fun _ => branch (pure true) (pure _))
  obtain ⟨_,c | _ | _ | _ | _⟩ := d
  case classLike => exact branch (pure true) rest
  all_goals exact rest

theorem functionKind : Keeps f g.functionKind := by
  refine (parentDeclaration aside g.toDeclaration).bind fun _ => branch (pure _) ?_
  cases g.shape.form with
  | literal anonymous => cases anonymous <;> exact pure _
  | named | constructor => exact pure _

theorem isAbstract : Keeps f g.isAbstract :=
  branch (pure true) ((parentClassKind? aside g.toDeclaration).map)

/-! What is asked of the oracle leaves other things alone. -/

variable (asks : ∀ q, (∀ k, q ≠ .reference k) → idle q)
include asks

theorem allFiles : Keeps f Session.allFiles :=
  (ask aside (asks _ (by simp)) _).bind fun ks => mapM (fun k => typed aside k) ks

theorem overriddenRoots : Keeps f g.overriddenRoots := by
  have described : ∀ k, Keeps f (Session.descriptor k) := descriptor aside fun _ => asks _ (by simp)
  refine (described g.anchor).bind fun own => readThen fun env => ?_
  exact filterM (fun base => (described base).map) _

theorem findOverridee : Keeps f g.findOverridee := by
  refine (memo aside g.id (a := .overridee) ?_).bind fun overridee => ?_
  · refine (overriddenRoots aside g asks).bind fun roots => ?_
    match roots with
    | [] => exact pure none
    | [root] => exact (typed aside root).map
    | _ :: _ :: _ => exact (displayName aside g.toDeclaration).bind fun _ => fun _ _ => rfl
  · cases overridee with
    | none => exact pure none
    | some id => exact (typedById id).map

theorem overrides (base : FunctionView) : Keeps f (g.overrides base) := by
  refine branch (pure false) ((isOpen aside base.toDeclaration).bind fun _ => ?_)
  refine branch (pure false) ((ask aside (asks _ (by simp)) _).bind fun _ => ?_)
  refine branch (pure false) ((ask aside (asks _ (by simp)) _).bind fun d => ?_)
  cases d with
  | none => exact pure false
  | some b =>
    exact (descriptor aside (fun _ => asks _ (by simp)) g.anchor).bind fun _ => (ask aside (asks _ (by simp)) _).map

end Declaration

/-! ### Types -/

section Types

variable (t : InternedType)

theorem declarationOf (t : ResolvedType) : Keeps f (InternedType.declarationOf t) :=
  (node aside t.declaration).bind fun _ => orFail _ _

theorem headName (t : ResolvedType) : Keeps f (InternedType.headName t) :=
  rescue (declarationOf aside t).map fun _ => pure _

theorem declared : Keeps f t.declaration := declarationOf aside t.resolved

theorem alias? : Keeps f t.alias? := (declared aside t).map

theorem isAlias : Keeps f t.isAlias := (alias? aside t).map

theorem names (ts : List InternedType) : Keeps f (InternedType.names ts) := mapM (fun t => (declared aside t).map) ts

end Types

end Symbols

end Keeps

/-- A session that leaves alone what is read off the questions asked, whether it fails or not. -/
def Retains {A B : Type} (f : Array Query → B) (x : Session A) : Prop :=
  ∀ env s, f (x env s).2.asked = f s.asked

namespace Retains

variable {A B C : Type} {f : Array Query → B} {x : Session A}

theorem bind {g : A → Session C} (hx : Retains f x) (hg : ∀ a, Retains f (g a)) : Retains f (x >>= g) :=
  Keeps.bind (f := fun s => f s.asked) hx hg

theorem readThen {g : Environment → Session A} (h : ∀ env, Retains f (g env)) :
    Retains f (do g (← MonadReader.read)) := fun env s => h env env s

theorem memo (id : SymbolId) {a : Attribute} {init : Session a.Value} (h : Retains f init) :
    Retains f (Session.memo id a init) := Keeps.memo (.asked f) id h

end Retains

/-- A session that asks nothing, whether it fails or not. -/
def Silent {A : Type} (x : Session A) : Prop := ∀ env s, (x env s).2.asked = s.asked

namespace Silent

variable {A B S T : Type} {x : Session A}

theorem retains (h : Silent x) (f : Array Query → B) : Retains f x := fun env s => congrArg f (h env s)

theorem bind {f : A → Session B} (hx : Silent x) (hf : ∀ a, Silent (f a)) : Silent (x >>= f) :=
  Keeps.bind (f := State.asked) hx hf

theorem pure (a : A) : Silent (pure a) := fun _ _ => rfl

/-- What goes on in silence adds nothing to what has been asked before. -/
theorem asked_bind {f : A → Session B} (hf : ∀ a, Silent (f a)) (env : Environment) (s : State) :
    ((x >>= f) env s).2.asked = (x env s).2.asked := by
  rcases run : x env s with ⟨e | a,s'⟩
  · rw [Attempt.bind_error run]
  · rw [Attempt.bind_ok run]
    exact hf a env s'

theorem map {f : A → B} (hx : Silent x) : Silent (do return f (← x)) := hx.bind fun _ => .pure _

theorem branch {c : Prop} [Decidable c] {y : Session A} (hx : Silent x) (hy : Silent y) :
    Silent (if c then x else y) := Keeps.branch (f := State.asked) hx hy

theorem orFail (e : Error) (o : Option A) : Silent (Session.orFail e o) := Keeps.orFail (f := State.asked) e o

theorem mapM {f : A → Session B} (h : ∀ a, Silent (f a)) (l : List A) : Silent (l.mapM f) :=
  Keeps.mapM (f := State.asked) h l

theorem nodeById (id : SymbolId) : Silent (Session.nodeById id) := Keeps.nodeById (f := State.asked) id

theorem typed [OneKind S] (k : NodeKey) : Silent (Session.typed S k) := Keeps.typed (.asked id) k

theorem childGroups (n : Node) : ∀ x ∈ n.childGroups, Silent x := Keeps.childGroups (.asked id) n

theorem packageName (d : Declaration) : Silent d.packageName := Keeps.packageName (.asked id) d

theorem displayName (d : Declaration) : Silent d.displayName := Keeps.displayName (.asked id) d

theorem isOpen (d : Declaration) : Silent d.isOpen := Keeps.isOpen (.asked id) d

/-! ### Types -/

section Types

theorem internType (t : ResolvedType) : Silent (Session.internType t) := fun _ _ => rfl

theorem intern (t : ResolvedType) : Silent (Session.intern t) := (internType t).map

theorem typeById (id : TypeId) : Silent (Session.typeById id) := Keeps.typeById (f := State.asked) id

theorem headName (t : ResolvedType) : Silent (InternedType.headName t) := Keeps.headName (.asked id) t

theorem projection (a : TypeArgument) : Silent (InternedType.projection a) := by
  obtain ⟨variance,_ | t⟩ := a
  · exact .pure _
  · exact (intern t).map

theorem internArguments (as : List TypeArgument) : Silent (InternedType.internArguments as) := by
  induction as with
  | nil => exact .pure ()
  | cons a as ih => exact (projection a).bind fun _ => ih

mutual
theorem shownType : ∀ t : ResolvedType, Silent (InternedType.shownType t)
  | ⟨declaration,arguments,nullable⟩ => by
    rw [InternedType.shownType]
    exact (headName _).bind fun _ => (internArguments arguments).bind fun _ => (shownArguments arguments).map
theorem shownOption (variance : Variance) : ∀ t : Option ResolvedType, Silent (InternedType.shownOption variance t)
  | none => .pure "*"
  | some t => by
    rw [InternedType.shownOption]
    exact (shownType t).map
theorem shownArgument : ∀ a : TypeArgument, Silent (InternedType.shownArgument a)
  | ⟨variance,type⟩ => by
    rw [InternedType.shownArgument]
    exact shownOption variance type
theorem shownArguments : ∀ as : List TypeArgument, Silent (InternedType.shownArguments as)
  | [] => .pure []
  | a :: as => by
    rw [InternedType.shownArguments]
    exact (shownArgument a).bind fun _ => (shownArguments as).map
end

variable (t : InternedType)

theorem shown : Silent t.shown := shownType t.resolved

theorem declared : Silent t.declaration := Keeps.declared (.asked id) t

theorem arguments : Silent t.arguments := mapM projection _

theorem withNullable (nullable : Bool) : Silent (t.withNullable nullable) := .branch (.pure t) (intern _)

theorem alias? : Silent t.alias? := Keeps.alias? (.asked id) t

theorem isAlias : Silent t.isAlias := Keeps.isAlias (.asked id) t

theorem names (ts : List InternedType) : Silent (InternedType.names ts) := Keeps.names (.asked id) ts

end Types

end Silent
end SymbolGraph
