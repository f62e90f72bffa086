import SymbolGraph.Proofs.Agreement.Semantics

/-! What can be asked of a session by keys. Answers hold symbols and types in place of their ids, so
that answers of different sessions can be compared. -/
namespace SymbolGraph

/-- What can be asked of a symbol. -/
inductive Facet
  | packageName | qualifiedName | displayName | isLocal | parentDeclaration | containingFile
  | typeParameters | declarations | isOpen
  | fileAnnotations | declarationAnnotations | parameterAnnotations | referenceAnnotations
  | topLevel | superTypes | functions | properties
  | functionReceiver | parameters | returnType | functionKind | isAbstract | overridee
  | overrides (base : SymbolKey)
  | propertyReceiver | propertyType | target | bounds | parameterType | parameterName
  | typeArguments | resolve | annotationType
  deriving DecidableEq

/-- A type is what a reference means, or is built by hand. -/
inductive TypeAddress
  | meant (k : SymbolKey)
  | built (t : ResolvedType)

/-- What can be asked of a type. -/
inductive TypeFacet
  | declaration | arguments | withNullable (nullable : Bool) | shown | isAlias | aliasChain
  | isAssignableFrom (source : TypeAddress)

inductive Operation
  | files
  | symbol (k : SymbolKey)
  | facet (k : SymbolKey) (f : Facet)
  | type (t : TypeAddress) (f : TypeFacet)

inductive Answer
  | symbols (ss : List (Sight Form))
  | text (t : Option String)
  | flag (b : Bool)
  | functionKind (k : FunctionKind)
  | types (ts : List ResolvedType)
  | arguments (as : List TypeArgument)
  /-- The symbol has nothing of the kind. -/
  | notApplicable
  deriving DecidableEq

/-! ### In a session -/

namespace Answer

variable {S : Type} [Viewed S]

def one (v : View S) : Answer := .symbols [v.toNode.sight]

def optional (v : Option (View S)) : Answer := .symbols (v.toList.map (·.toNode.sight))

def many (vs : List (View S)) : Answer := .symbols (vs.map (·.toNode.sight))

end Answer

namespace Session

def symbolOf : SymbolKey → Session Node
  | .node k => node k
  | .deferred owner => return (← deferredReference owner).toNode

/-- Asks a symbol for what only its views of one width have. -/
def through (S : Type) [Viewed S] (n : Node) (f : View S → Session Answer) : Session Answer :=
  match n.as? S with
  | some v => f v
  | none => return .notApplicable

def facet (n : Node) : Facet → Session Answer
  | .packageName => through DeclaredForm n fun d => return .text (some (← d.packageName))
  | .qualifiedName => through DeclaredForm n fun d => return .text (← d.qualifiedName)
  | .displayName => through DeclaredForm n fun d => return .text (some (← d.displayName))
  | .isLocal => through DeclaredForm n fun d => return .flag (← d.isLocal)
  | .parentDeclaration => through DeclaredForm n fun d => return .optional (← d.parentDeclaration)
  | .containingFile => through DeclaredForm n fun d => return .one (← d.containingFile)
  | .typeParameters => through DeclaredForm n fun d => return .many (← d.typeParameters)
  | .declarations => through DeclaredForm n fun d => return .many (← d.declarations)
  | .isOpen => through DeclaredForm n fun d => return .flag (← d.isOpen)
  | .fileAnnotations => through FileShape n fun f => return .many (← f.annotations)
  | .declarationAnnotations => through DeclaredForm n fun d => return .many (← d.annotations)
  | .parameterAnnotations => through ValueParameterShape n fun v => return .many (← v.annotations)
  | .referenceAnnotations => through ReferenceForm n fun r => return .many (← r.annotations)
  | .topLevel => through FileShape n fun f => return .many (← f.topLevel)
  | .superTypes => through ClassShape n fun c => return .many (← c.superTypes)
  | .functions => through ClassShape n fun c => return .many (← c.functions)
  | .properties => through ClassShape n fun c => return .many (← c.properties)
  | .functionReceiver => through FunctionShape n fun f => return .optional (← f.functionReceiver?)
  | .parameters => through FunctionShape n fun f => return .many (← f.parameters)
  | .returnType => through FunctionShape n fun f => return .one (← f.returnType)
  | .functionKind => through FunctionShape n fun f => return .functionKind (← f.functionKind)
  | .isAbstract => through FunctionShape n fun f => return .flag (← f.isAbstract)
  | .overridee => through FunctionShape n fun f => return .optional (← f.findOverridee)
  | .overrides base => through FunctionShape n fun f => do
    through FunctionShape (← symbolOf base) fun b => return .flag (← f.overrides b)
  | .propertyReceiver => through PropertyShape n fun p => return .optional (← p.propertyReceiver?)
  | .propertyType => through PropertyShape n fun p => return .one (← p.propertyType)
  | .target => through TypeAliasShape n fun a => return .one (← a.target)
  | .bounds => through TypeParameterShape n fun t => return .many (← t.bounds)
  | .parameterType => through ValueParameterShape n fun v => return .one (← v.parameterType)
  | .parameterName => through ValueParameterShape n fun v => return .text (some (← v.parameterName))
  | .typeArguments => through ReferenceForm n fun r => return .many (← r.typeArguments)
  | .resolve => through ReferenceForm n fun r => return .types [(← r.resolve).resolved]
  | .annotationType => through AnnotationShape n fun a => return .optional (← a.annotationType?)

/-- The type of an address, unless it is that of a symbol that is no reference. -/
def typeOf : TypeAddress → Session (Option InternedType)
  | .meant k => do
    match (← symbolOf k).as? ReferenceForm with
    | some r => return some (← r.resolve)
    | none => return none
  | .built t => return some (← intern t)

/-- An argument of a type without the id of its type. -/
def unprojected (p : Projection) : TypeArgument := ⟨p.variance,p.type.map (·.resolved)⟩

def typeFacet (t : InternedType) : TypeFacet → Session Answer
  | .declaration => return .one (← t.declaration)
  | .arguments => return .arguments ((← t.arguments).map unprojected)
  | .withNullable nullable => return .types [(← t.withNullable nullable).resolved]
  | .shown => return .text (some (← t.shown))
  | .isAlias => return .flag (← t.isAlias)
  | .aliasChain => return .types ((← t.aliasChain).map (·.resolved))
  | .isAssignableFrom source => do
    match ← typeOf source with
    | some u => return .flag (← t.isAssignableFrom u)
    | none => return .notApplicable

end Session

def Operation.run : Operation → Session Answer
  | .files => return .many (← Session.allFiles)
  | .symbol k => return .one (← Session.symbolOf k)
  | .facet k f => do Session.facet (← Session.symbolOf k) f
  | .type t f => do
    match ← Session.typeOf t with
    | some u => Session.typeFacet u f
    | none => return .notApplicable

/-- The state in which operations leave a fresh session. Failures end an operation, but not the session. -/
def State.after (env : Environment) (history : List Operation) : State :=
  history.foldl (fun s op => (op.run env s).2) .initial

/-! ### Without a session -/

namespace Direct

def through (S : Type) [Viewed S] (n : Sight Form) (f : Sight S → Direct Answer) : Direct Answer :=
  match n.as? S with
  | some v => f v
  | none => return .notApplicable

/-- What symbols are, whatever the width of their views. -/
def symbols {S : Type} [Viewed S] (ws : List (Sight S)) : Answer := .symbols (ws.map Sight.toNode)

def facet (n : Sight Form) : Facet → Direct Answer
  | .packageName => through DeclaredForm n fun d => return .text (some (← d.packageName))
  | .qualifiedName => through DeclaredForm n fun d => return .text (← d.qualifiedName)
  | .displayName => through DeclaredForm n fun d => return .text (some (← d.displayName))
  | .isLocal => through DeclaredForm n fun d => return .flag (← d.isLocal)
  | .parentDeclaration => through DeclaredForm n fun d => return symbols (← d.parentDeclaration).toList
  | .containingFile => through DeclaredForm n fun d => return symbols [← d.containingFile]
  | .typeParameters => through DeclaredForm n fun d => return symbols (← d.typeParameters)
  | .declarations => through DeclaredForm n fun d => return symbols (← d.declarations)
  | .isOpen => through DeclaredForm n fun d => return .flag (← d.isOpen)
  | .fileAnnotations => through FileShape n fun f => return symbols (← f.annotations)
  | .declarationAnnotations => through DeclaredForm n fun d => return symbols (← d.annotations)
  | .parameterAnnotations => through ValueParameterShape n fun v => return symbols (← v.annotations)
  | .referenceAnnotations => through ReferenceForm n fun r => return symbols (← r.annotations)
  | .topLevel => through FileShape n fun f => return symbols (← f.topLevel)
  | .superTypes => through ClassShape n fun c => return symbols (← c.superTypes)
  | .functions => through ClassShape n fun c => return symbols (← c.functions)
  | .properties => through ClassShape n fun c => return symbols (← c.properties)
  | .functionReceiver => through FunctionShape n fun f => return symbols (← f.functionReceiver?).toList
  | .parameters => through FunctionShape n fun f => return symbols (← f.parameters)
  | .returnType => through FunctionShape n fun f => return symbols [← f.returnType]
  | .functionKind => through FunctionShape n fun f => return .functionKind (← f.functionKind)
  | .isAbstract => through FunctionShape n fun f => return .flag (← f.isAbstract)
  | .overridee => through FunctionShape n fun f => return symbols (← f.findOverridee).toList
  | .overrides base => through FunctionShape n fun f => do
    through FunctionShape (← symbol base) fun b => return .flag (← f.overrides b)
  | .propertyReceiver => through PropertyShape n fun p => return symbols (← p.propertyReceiver?).toList
  | .propertyType => through PropertyShape n fun p => return symbols [← p.propertyType]
  | .target => through TypeAliasShape n fun a => return symbols [← a.target]
  | .bounds => through TypeParameterShape n fun t => return symbols (← t.bounds)
  | .parameterType => through ValueParameterShape n fun v => return symbols [← v.parameterType]
  | .parameterName => through ValueParameterShape n fun v => return .text (some (← v.parameterName))
  | .typeArguments => through ReferenceForm n fun r => return symbols (← r.typeArguments)
  | .resolve => through ReferenceForm n fun r => return .types [← r.resolve]
  | .annotationType => through AnnotationShape n fun a => return symbols (← a.annotationType?).toList

def typeOf : TypeAddress → Direct (Option ResolvedType)
  | .meant k => do
    match (← symbol k).as? ReferenceForm with
    | some r => return some (← r.resolve)
    | none => return none
  | .built t => return some t

def typeFacet (t : ResolvedType) : TypeFacet → Direct Answer
  | .declaration => return symbols [← t.declared]
  | .arguments => return .arguments t.arguments
  | .withNullable nullable => return .types [t.withNullable nullable]
  | .shown => return .text (some (← t.shown))
  | .isAlias => return .flag (← t.isAlias)
  | .aliasChain => return .types (← t.aliasChain)
  | .isAssignableFrom source => do
    match ← typeOf source with
    | some u => return .flag (← t.isAssignableFrom u)
    | none => return .notApplicable

end Direct

def Operation.direct : Operation → Direct Answer
  | .files => return Direct.symbols (← Direct.allFiles)
  | .symbol k => return Direct.symbols [← Direct.symbol k]
  | .facet k f => do Direct.facet (← Direct.symbol k) f
  | .type t f => do
    match ← Direct.typeOf t with
    | some u => Direct.typeFacet u f
    | none => return .notApplicable

/-! ### Agreement -/

section Agreement

variable {env : Environment} {rank : Nat} {s : State}

section Answers

variable {S : Type} [Viewed S]

theorem Shows.toNode_sight {v : View S} {w : Sight S} (h : Shows s v w) : v.toNode.sight = w.toNode := by
  rw [← h.2]; rfl

theorem Shows.one {v : View S} {w : Sight S} (h : Shows s v w) : Answer.one v = Direct.symbols [w] := by
  simp [Answer.one,Direct.symbols,h.toNode_sight]

theorem Answer.many_eq {vs : List (View S)} {ws : List (Sight S)} (h : Each Shows s vs ws) :
    Answer.many vs = Direct.symbols ws := by
  rw [Answer.many,Direct.symbols]
  congr 1
  induction h with
  | nil => rfl
  | cons h _ ih => rw [List.map_cons,List.map_cons,ih,h.toNode_sight]

theorem Answer.optional_eq {v : Option (View S)} {w : Option (Sight S)} (h : Maybe Shows s v w) :
    Answer.optional v = Direct.symbols w.toList := by
  cases h with
  | none => rfl
  | some h => exact h.one

end Answers

namespace Agrees

theorem symbolOf (k : SymbolKey) :
    Agrees Shows env rank s (Session.symbolOf k) (Direct.symbol k) := by
  cases k with
  | node k => exact node k
  | deferred owner =>
    have made : Direct.symbol (.deferred owner) =
        (do return (← Direct.deferredReference owner).toNode) := by
      simp only [Direct.symbol,Direct.deferredReference,bind_assoc,pure_bind]; rfl
    rw [made]
    exact (deferredReference owner).map fun _ _ _ _ h => h.toNode

theorem through {S : Type} [Viewed S] {n : Node} {w : Sight Form} (h : Shows s n w)
    {f : View S → Session Answer} {g : Sight S → Direct Answer}
    (hf : ∀ v w, Shows s v w → Agrees Same env rank s (f v) (g w)) :
    Agrees Same env rank s (Session.through S n f) (Direct.through S w g) := by
  have narrow := h.as? S
  rw [Session.through,Direct.through]
  cases hn : n.as? S <;> cases hw : w.as? S <;> rw [hn,hw] at narrow <;> cases narrow
  · exact .pure rfl
  · exact hf _ _ ‹_›

theorem facet {n : Node} {w : Sight Form} (h : Shows s n w) (f : Facet) :
    Agrees Same env 4 s (Session.facet n f) (Direct.facet w f) := by
  have h0 : 0 < 4 := by decide
  cases f with
  | packageName =>
    exact through h fun _ _ h => (packageName h (by decide)).map fun _ _ _ _ e => by cases e; rfl
  | qualifiedName =>
    exact through h fun _ _ h => (qualifiedName h (by decide)).map fun _ _ _ _ e => by cases e; rfl
  | displayName =>
    exact through h fun _ _ h => (displayName h (by decide)).map fun _ _ _ _ e => by cases e; rfl
  | isLocal => exact through h fun _ _ h => (isLocal h h0).map fun _ _ _ _ e => by cases e; rfl
  | parentDeclaration =>
    exact through h fun _ _ h => (parentDeclaration h h0).map fun _ _ _ _ => Answer.optional_eq
  | containingFile => exact through h fun _ _ h => (containingFile h h0).map fun _ _ _ _ => Shows.one
  | typeParameters => exact through h fun _ _ h => (typeParameters h h0).map fun _ _ _ _ => Answer.many_eq
  | declarations => exact through h fun _ _ h => (declarations h h0).map fun _ _ _ _ => Answer.many_eq
  | isOpen => exact through h fun _ _ h => (isOpen h h0).map fun _ _ _ _ e => by cases e; rfl
  | fileAnnotations | declarationAnnotations | parameterAnnotations | referenceAnnotations =>
    exact through h fun _ _ h => (annotations h h0).map fun _ _ _ _ => Answer.many_eq
  | topLevel => exact through h fun _ _ h => (topLevel h h0).map fun _ _ _ _ => Answer.many_eq
  | superTypes => exact through h fun _ _ h => (superTypes h h0).map fun _ _ _ _ => Answer.many_eq
  | functions => exact through h fun _ _ h => (functions h h0).map fun _ _ _ _ => Answer.many_eq
  | properties => exact through h fun _ _ h => (properties h h0).map fun _ _ _ _ => Answer.many_eq
  | functionReceiver =>
    exact through h fun _ _ h => (functionReceiver? h).map fun _ _ _ _ => Answer.optional_eq
  | parameters => exact through h fun _ _ h => (parameters h h0).map fun _ _ _ _ => Answer.many_eq
  | returnType => exact through h fun _ _ h => (returnType h).map fun _ _ _ _ => Shows.one
  | functionKind => exact through h fun _ _ h => (functionKind h h0).map fun _ _ _ _ e => by cases e; rfl
  | isAbstract => exact through h fun _ _ h => (isAbstract h h0).map fun _ _ _ _ e => by cases e; rfl
  | overridee =>
    exact through h fun _ _ h => (findOverridee h (by decide)).map fun _ _ _ _ => Answer.optional_eq
  | overrides base =>
    refine through h fun _ _ h => (symbolOf base).bind fun _ _ _ g hb => through hb fun _ _ hb => ?_
    exact (overrides (g.reading h) hb h0).map fun _ _ _ _ e => by cases e; rfl
  | propertyReceiver =>
    exact through h fun _ _ h => (propertyReceiver? h).map fun _ _ _ _ => Answer.optional_eq
  | propertyType => exact through h fun _ _ h => (propertyType h).map fun _ _ _ _ => Shows.one
  | target => exact through h fun _ _ h => (target h).map fun _ _ _ _ => Shows.one
  | bounds => exact through h fun _ _ h => (bounds h h0).map fun _ _ _ _ => Answer.many_eq
  | parameterType => exact through h fun _ _ h => (parameterType h).map fun _ _ _ _ => Shows.one
  | parameterName => exact through h fun _ _ h => (parameterName h).map fun _ _ _ _ e => by cases e; rfl
  | typeArguments => exact through h fun _ _ h => (typeArguments h h0).map fun _ _ _ _ => Answer.many_eq
  | resolve => exact through h fun _ _ h => (resolve h h0).map fun _ _ _ _ h => by rw [h.2]; rfl
  | annotationType =>
    exact through h fun _ _ h => (annotationType? h).map fun _ _ _ _ => Answer.optional_eq

theorem typeOf (t : TypeAddress) :
    Agrees (Maybe Interns) env 4 s (Session.typeOf t) (Direct.typeOf t) := by
  cases t with
  | meant k =>
    refine (symbolOf k).bind fun _ n w _ h => ?_
    have narrow := h.as? ReferenceForm
    cases hn : n.as? ReferenceForm <;> cases hw : w.as? ReferenceForm <;> rw [hn,hw] at narrow <;>
      cases narrow
    · exact .pure .none
    · exact (resolve ‹_› (by decide)).map fun _ _ _ _ h => .some h
  | built t =>
    have interned : Agrees (Maybe Interns) env 4 s (do return some (← Session.intern t))
        (do return some (← Pure.pure t)) := (intern t).map fun _ _ _ _ h => .some h
    rwa [pure_bind] at interned

theorem unprojected_of_each {ps : List Projection} {as : List TypeArgument} (h : Each Projects s ps as) :
    ps.map Session.unprojected = as := by
  induction h with
  | nil => rfl
  | @cons p a _ _ h _ ih =>
    obtain ⟨v,t⟩ := p
    obtain ⟨v',t'⟩ := a
    obtain ⟨rfl,h⟩ := h
    rw [List.map_cons,ih]
    congr 1
    cases h with
    | none => rfl
    | some h => rw [← h.2]; rfl

theorem typeFacet {t : InternedType} {w : ResolvedType} (h : Interns s t w) (f : TypeFacet) :
    Agrees Same env 4 s (Session.typeFacet t f) (Direct.typeFacet w f) := by
  cases f with
  | declaration => exact (declared h).map fun _ _ _ _ => Shows.one
  | arguments =>
    have done : Agrees Same env 4 s (do return Answer.arguments ((← t.arguments).map Session.unprojected))
        (do return Answer.arguments (← Pure.pure w.arguments)) :=
      (arguments h).map fun _ _ _ _ h => by rw [unprojected_of_each h]; rfl
    rwa [pure_bind] at done
  | withNullable nullable =>
    have done : Agrees Same env 4 s (do return Answer.types [(← t.withNullable nullable).resolved])
        (do return Answer.types [← Pure.pure (w.withNullable nullable)]) :=
      (withNullable h nullable).map fun _ _ _ _ h => by rw [h.2]; rfl
    rwa [pure_bind] at done
  | shown => exact (shown h).map fun _ _ _ _ e => by cases e; rfl
  | isAlias => exact (isAlias h).map fun _ _ _ _ e => by cases e; rfl
  | aliasChain =>
    exact (aliasChain h (by decide)).map fun _ _ _ _ h => by rw [resolved_of_each h]; rfl
  | isAssignableFrom source =>
    refine (typeOf source).bind fun _ _ _ g hu => ?_
    cases hu with
    | none => exact .pure rfl
    | some hu => exact (isAssignableFrom (g.reading h) hu).map fun _ _ _ _ e => by cases e; rfl

/-- A session answers as if it had no memory. -/
theorem operation (op : Operation) : Agrees Same env 4 s op.run op.direct := by
  cases op with
  | files => exact allFiles.map fun _ _ _ _ => Answer.many_eq
  | symbol k => exact (symbolOf k).map fun _ _ _ _ => Shows.one
  | facet k f => exact (symbolOf k).bind fun _ _ _ _ h => facet h f
  | type t f =>
    refine (typeOf t).bind fun _ _ _ _ h => ?_
    cases h with
    | none => exact .pure rfl
    | some h => exact typeFacet h f

end Agrees

end Agreement

/-! ### Histories -/

theorem State.Sound.foldl {env : Environment} {s : State} (h : s.Sound env 4) (ops : List Operation) :
    (ops.foldl (fun s op => (op.run env s).2) s).Sound env 4 := by
  induction ops generalizing s with
  | nil => exact h
  | cons op ops ih => exact ih (Agrees.operation op h).sound

/-- Whatever is asked, what a session remembers is right. -/
theorem State.sound_after (env : Environment) (history : List Operation) :
    (after env history).Sound env 4 := (sound_initial env 4).foldl history

theorem Operation.run_of_sound {env : Environment} {s : State} (h : s.Sound env 4) (op : Operation) :
    (op.run env s).1 = op.direct env := (Agrees.operation op h).answer.eq

/-- What a session remembers cannot be told from its answers. After any operations, whether they failed
or not, an operation answers as it does in a fresh session. -/
theorem Operation.run_after_history (env : Environment) (history : List Operation) (op : Operation) :
    (op.run env (.after env history)).1 = op.run.runFresh env := by
  rw [run_of_sound (State.sound_after env history),Session.runFresh,
    run_of_sound (State.sound_initial env 4)]

end SymbolGraph
