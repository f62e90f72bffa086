import SymbolGraph.Proofs.Direct.Founded

/-! Inquiries: what is asked of a session through the ids that it has given out, one attribute at a time. The
symbols and types of an answer come with their ids, and can be asked in turn. -/
namespace SymbolGraph

inductive Inquiry
  | files
  | symbol (k : SymbolKey)
  | symbolById (id : SymbolId)
  | facet (id : SymbolId) (f : Facet)
  | intern (t : ResolvedType)
  | typeById (id : TypeId)
  | type (id : TypeId) (f : TypeFacet)

inductive Reply
  | symbols (ns : List Node)
  | types (ts : List InternedType)
  | arguments (ps : List Projection)
  /-- An answer without symbols and types. -/
  | value (a : Answer)

/-! ### In a session -/

namespace Reply

variable {S : Type} [Viewed S]

def one (v : View S) : Reply := .symbols [v.toNode]

def optional (v : Option (View S)) : Reply := .symbols (v.toList.map (·.toNode))

def many (vs : List (View S)) : Reply := .symbols (vs.map (·.toNode))

/-- The symbols that are handed out. -/
def nodes : Reply → List Node
  | .symbols ns => ns
  | .types _ | .arguments _ | .value _ => []

end Reply

namespace Session

/-- Asks a symbol for what only its views of one width have. -/
def handThrough (S : Type) [Viewed S] (n : Node) (f : View S → Session Reply) : Session Reply :=
  match n.as? S with
  | some v => f v
  | none => return .value .notApplicable

def reply (n : Node) : Facet → Session Reply
  | .parentDeclaration => handThrough DeclaredForm n fun d => return .optional (← d.parentDeclaration)
  | .containingFile => handThrough DeclaredForm n fun d => return .one (← d.containingFile)
  | .typeParameters => handThrough DeclaredForm n fun d => return .many (← d.typeParameters)
  | .declarations => handThrough DeclaredForm n fun d => return .many (← d.declarations)
  | .fileAnnotations => handThrough FileShape n fun f => return .many (← f.annotations)
  | .declarationAnnotations => handThrough DeclaredForm n fun d => return .many (← d.annotations)
  | .parameterAnnotations => handThrough ValueParameterShape n fun v => return .many (← v.annotations)
  | .referenceAnnotations => handThrough ReferenceForm n fun r => return .many (← r.annotations)
  | .topLevel => handThrough FileShape n fun f => return .many (← f.topLevel)
  | .superTypes => handThrough ClassShape n fun c => return .many (← c.superTypes)
  | .functions => handThrough ClassShape n fun c => return .many (← c.functions)
  | .properties => handThrough ClassShape n fun c => return .many (← c.properties)
  | .functionReceiver => handThrough FunctionShape n fun f => return .optional (← f.functionReceiver?)
  | .parameters => handThrough FunctionShape n fun f => return .many (← f.parameters)
  | .returnType => handThrough FunctionShape n fun f => return .one (← f.returnType)
  | .overridee => handThrough FunctionShape n fun f => return .optional (← f.findOverridee)
  | .propertyReceiver => handThrough PropertyShape n fun p => return .optional (← p.propertyReceiver?)
  | .propertyType => handThrough PropertyShape n fun p => return .one (← p.propertyType)
  | .target => handThrough TypeAliasShape n fun a => return .one (← a.target)
  | .bounds => handThrough TypeParameterShape n fun t => return .many (← t.bounds)
  | .parameterType => handThrough ValueParameterShape n fun v => return .one (← v.parameterType)
  | .typeArguments => handThrough ReferenceForm n fun r => return .many (← r.typeArguments)
  | .annotationType => handThrough AnnotationShape n fun a => return .optional (← a.annotationType?)
  | .resolve => handThrough ReferenceForm n fun r => return .types [← r.resolve]
  | f => return .value (← facet n f)

def typeReply (t : InternedType) : TypeFacet → Session Reply
  | .declaration => return .one (← t.declaration)
  | .arguments => return .arguments (← t.arguments)
  | .withNullable nullable => return .types [← t.withNullable nullable]
  | .aliasChain => return .types (← t.aliasChain)
  | f => return .value (← typeFacet t f)

/-! A reply differs from an answer in what it holds, but not in what is done for it. -/

section State

variable {C D : Type} {env : Environment} {s : State}

theorem map_state (x : Session C) (f : C → D) : ((do return f (← x) : Session D) env s).2 = (x env s).2 := by
  rcases run : x env s with ⟨e | a,s'⟩
  · rw [Attempt.bind_error run]
  · rw [Attempt.bind_ok run]
    rfl

theorem handThrough_state {S : Type} [Viewed S] (n : Node) (x : View S → Session C) (f : C → Reply)
    (g : C → Answer) :
    (handThrough S n (fun v => do return f (← x v)) env s).2 =
      (through S n (fun v => do return g (← x v)) env s).2 := by
  rw [handThrough,through]
  cases n.as? S with
  | none => rfl
  | some v => exact (map_state (x v) f).trans (map_state (x v) g).symm

theorem reply_state (n : Node) (f : Facet) : (reply n f env s).2 = (facet n f env s).2 := by
  cases f <;> first | exact map_state _ _ | exact handThrough_state n _ _ _

theorem typeReply_state (t : InternedType) (f : TypeFacet) : (typeReply t f env s).2 = (typeFacet t f env s).2 := by
  cases f <;> first | exact map_state _ _ | exact (map_state _ _).trans (map_state _ _).symm

end State

end Session

open Session in
def Inquiry.serve : Inquiry → Session Reply
  | .files => return .many (← allFiles)
  | .symbol k => return .one (← symbolOf k)
  | .symbolById id => return .one (← nodeById id)
  | .facet id f => do reply (← nodeById id) f
  | .intern t => return .types [← Session.intern t]
  | .typeById id => return .types [← Session.typeById id]
  | .type id f => do typeReply (← Session.typeById id) f

/-! ### Without a session -/

namespace Direct

/-- What an id of a state shows. -/
def known (s : State) (id : SymbolId) : Direct (Sight Form) :=
  orFail (.unknownSymbol id) ((s.node? id).map (·.sight))

def knownType (s : State) (id : TypeId) : Direct ResolvedType :=
  orFail (.unresolvedType (.id id)) (s.types.get? id)

end Direct

open Direct in
/-- What an inquiry asks for, if made in a given state. -/
def Inquiry.direct (s : State) : Inquiry → Direct Answer
  | .files => return symbols (← allFiles)
  | .symbol k => return symbols [← Direct.symbol k]
  | .symbolById id => return symbols [← known s id]
  | .facet id f => do Direct.facet (← known s id) f
  | .intern t => return .types [t]
  | .typeById id => return .types [← knownType s id]
  | .type id f => do typeFacet (← knownType s id) f

/-! ### Agreement -/

section Agreement

variable {env : Environment} {rank : Nat} {s : State}

/-- What a reply hands out stands for what is shown of it. -/
inductive Replies : Reading Reply Answer
  | symbols {s ns ws} : Each Shows s ns ws → Replies s (.symbols ns) (.symbols ws)
  | types {s ts us} : Each Interns s ts us → Replies s (.types ts) (.types us)
  | arguments {s ps as} : Each Projects s ps as → Replies s (.arguments ps) (.arguments as)
  | value {s a} : Replies s (.value a) a

namespace Replies

instance : Lasting Replies := ⟨fun h h' _ _ r => by
  cases r with
  | symbols r => exact .symbols (Lasting.mono (R := Each Shows) h h' r)
  | types r => exact .types (Lasting.mono (R := Each Interns) h h' r)
  | arguments r => exact .arguments (Lasting.mono (R := Each Projects) h h' r)
  | value => exact .value⟩

section Symbols

variable {S : Type} [Viewed S]

theorem many {vs : List (View S)} {ws : List (Sight S)} (h : Each Shows s vs ws) :
    Replies s (.many vs) (Direct.symbols ws) :=
  .symbols (List.forall₂_map_left_iff.mpr (List.forall₂_map_right_iff.mpr (h.imp fun _ _ h => h.toNode)))

theorem one {v : View S} {w : Sight S} (h : Shows s v w) : Replies s (.one v) (Direct.symbols [w]) :=
  many (.cons h .nil)

theorem optional {v : Option (View S)} {w : Option (Sight S)} (h : Maybe Shows s v w) :
    Replies s (.optional v) (Direct.symbols w.toList) := by
  cases h with
  | none => exact many .nil
  | some h => exact one h

end Symbols

/-- The symbols of a reply are those of their ids. -/
theorem node? {r : Reply} {a : Answer} (h : Replies s r a) : ∀ n ∈ r.nodes, s.node? n.id = some n := by
  cases h with
  | @symbols _ ns ws h =>
    have held : Each (fun s n w => s.node? n.id = some n ∧ Shows s n w) s ns ws :=
      h.imp fun _ _ shown => ⟨shown.1,shown⟩
    exact ((List.forall₂_and_left ns ws).mp held).1
  | types | arguments | value => exact List.forall_mem_nil _

end Replies

namespace Agrees

theorem handThrough {S : Type} [Viewed S] {n : Node} {w : Sight Form} (h : Shows s n w)
    {f : View S → Session Reply} {g : Sight S → Direct Answer}
    (hf : ∀ v w, Shows s v w → Agrees Replies env rank s (f v) (g w)) :
    Agrees Replies env rank s (Session.handThrough S n f) (Direct.through S w g) := by
  have narrow := h.as? S
  rw [Session.handThrough,Direct.through]
  cases hn : n.as? S <;> cases hw : w.as? S <;> rw [hn,hw] at narrow <;> cases narrow
  · exact .pure .value
  · exact hf _ _ ‹_›

theorem valued {x : Session Answer} {p : Direct Answer} (h : Agrees Same env rank s x p) :
    Agrees Replies env rank s (do return .value (← x)) p := by
  have replied : Agrees Replies env rank s (do return .value (← x)) (p >>= Pure.pure) :=
    h.bind fun _ _ _ _ e => .pure (by cases e; exact .value)
  rwa [bind_pure] at replied

theorem reply {n : Node} {w : Sight Form} (h : Shows s n w) (f : Facet) :
    Agrees Replies env 4 s (Session.reply n f) (Direct.facet w f) := by
  have h0 : 0 < 4 := by decide
  cases f with
  | parentDeclaration =>
    exact handThrough h fun _ _ h => (parentDeclaration h h0).map fun _ _ _ _ => Replies.optional
  | containingFile => exact handThrough h fun _ _ h => (containingFile h h0).map fun _ _ _ _ => Replies.one
  | typeParameters => exact handThrough h fun _ _ h => (typeParameters h h0).map fun _ _ _ _ => Replies.many
  | declarations => exact handThrough h fun _ _ h => (declarations h h0).map fun _ _ _ _ => Replies.many
  | fileAnnotations | declarationAnnotations | parameterAnnotations | referenceAnnotations =>
    exact handThrough h fun _ _ h => (annotations h h0).map fun _ _ _ _ => Replies.many
  | topLevel => exact handThrough h fun _ _ h => (topLevel h h0).map fun _ _ _ _ => Replies.many
  | superTypes => exact handThrough h fun _ _ h => (superTypes h h0).map fun _ _ _ _ => Replies.many
  | functions => exact handThrough h fun _ _ h => (functions h h0).map fun _ _ _ _ => Replies.many
  | properties => exact handThrough h fun _ _ h => (properties h h0).map fun _ _ _ _ => Replies.many
  | functionReceiver =>
    exact handThrough h fun _ _ h => (functionReceiver? h).map fun _ _ _ _ => Replies.optional
  | parameters => exact handThrough h fun _ _ h => (parameters h h0).map fun _ _ _ _ => Replies.many
  | returnType => exact handThrough h fun _ _ h => (returnType h).map fun _ _ _ _ => Replies.one
  | overridee =>
    exact handThrough h fun _ _ h => (findOverridee h (by decide)).map fun _ _ _ _ => Replies.optional
  | propertyReceiver =>
    exact handThrough h fun _ _ h => (propertyReceiver? h).map fun _ _ _ _ => Replies.optional
  | propertyType => exact handThrough h fun _ _ h => (propertyType h).map fun _ _ _ _ => Replies.one
  | target => exact handThrough h fun _ _ h => (target h).map fun _ _ _ _ => Replies.one
  | bounds => exact handThrough h fun _ _ h => (bounds h h0).map fun _ _ _ _ => Replies.many
  | parameterType => exact handThrough h fun _ _ h => (parameterType h).map fun _ _ _ _ => Replies.one
  | typeArguments => exact handThrough h fun _ _ h => (typeArguments h h0).map fun _ _ _ _ => Replies.many
  | annotationType => exact handThrough h fun _ _ h => (annotationType? h).map fun _ _ _ _ => Replies.optional
  | resolve => exact handThrough h fun _ _ h => (resolve h h0).map fun _ _ _ _ h => .types (.cons h .nil)
  | packageName | qualifiedName | displayName | isLocal | isOpen | functionKind | isAbstract | overrides
  | parameterName => exact (facet h _).valued

theorem typeReply {t : InternedType} {w : ResolvedType} (h : Interns s t w) (f : TypeFacet) :
    Agrees Replies env 4 s (Session.typeReply t f) (Direct.typeFacet w f) := by
  cases f with
  | declaration => exact (declared h).map fun _ _ _ _ => Replies.one
  | arguments =>
    have replied : Agrees Replies env 4 s (do return .arguments (← t.arguments))
        (do return .arguments (← Pure.pure w.arguments)) := (arguments h).map fun _ _ _ _ => .arguments
    rwa [pure_bind] at replied
  | withNullable nullable =>
    have replied : Agrees Replies env 4 s (do return .types [← t.withNullable nullable])
        (do return .types [← Pure.pure (w.withNullable nullable)]) :=
      (withNullable h nullable).map fun _ _ _ _ h => .types (.cons h .nil)
    rwa [pure_bind] at replied
  | aliasChain => exact (aliasChain h (by decide)).map fun _ _ _ _ => .types
  | shown | isAlias | isAssignableFrom => exact (typeFacet h _).valued

theorem known (id : SymbolId) : Agrees Shows env rank s (Session.nodeById id) (Direct.known s id) := by
  intro hs
  rw [Direct.known]
  cases hn : s.node? id with
  | none =>
    rw [Session.nodeById_missing hn]
    exact ⟨.refl s,hs,rfl⟩
  | some n =>
    rw [Session.nodeById_run hn]
    exact ⟨.refl s,hs,hs.shows hn⟩

theorem knownType (id : TypeId) : Agrees Interns env rank s (Session.typeById id) (Direct.knownType s id) := by
  cases ht : s.types.get? id with
  | some t =>
    rw [Direct.knownType,ht]
    exact typeById ht
  | none =>
    intro hs
    rw [Session.typeById_missing ht,Direct.knownType,ht]
    exact ⟨.refl s,hs,rfl⟩

/-- A session hands out what the models and the oracle show, whatever it was asked before. -/
theorem inquiry (r : Inquiry) : Agrees Replies env 4 s r.serve (r.direct s) := by
  cases r with
  | files => exact allFiles.map fun _ _ _ _ => Replies.many
  | symbol k => exact (symbolOf k).map fun _ _ _ _ => Replies.one
  | symbolById id => exact (known id).map fun _ _ _ _ => Replies.one
  | facet id f => exact (known id).bind fun _ _ _ _ h => reply h f
  | intern t =>
    have replied : Agrees Replies env 4 s (do return .types [← Session.intern t])
        (do return .types [← Pure.pure t]) := (intern t).map fun _ _ _ _ h => .types (.cons h .nil)
    rwa [pure_bind] at replied
  | typeById id => exact (knownType id).map fun _ _ _ _ h => .types (.cons h .nil)
  | type id f => exact (knownType id).bind fun _ _ _ _ h => typeReply h f

end Agrees

end Agreement

/-! ### Failures -/

section Failures

variable {env : Environment} {s : State} {stray : NodeKey → Prop}

open Direct

theorem Direct.known_founded (hs : s.Sound env 4) (id : SymbolId) :
    Within (Error.Founded env stray) env (known s id) fun n =>
      n.Genuine env ∧ ∃ m, s.node? id = some m ∧ n = m.sight := by
  refine .orFail (fun n h => ?_) fun _ => trivial
  obtain ⟨m,hm,rfl⟩ := Option.map_eq_some_iff.mp h
  exact ⟨hs.symbol hm,m,hm,rfl⟩

theorem Direct.knownType_founded (id : TypeId) :
    Within (Error.Founded env stray) env (knownType s id) fun _ => True :=
  .orFail (fun _ _ => trivial) fun _ => trivial

/-- What an inquiry does not find is not in the models, or is a declaration that stands nowhere and has a
symbol already. -/
theorem Inquiry.founded (hs : s.Sound env 4) (r : Inquiry) :
    Within (Error.Founded env fun k => env.models.Stray k ∧ (s.id? (.node k)).isSome) env (r.direct s)
      fun _ => True := by
  cases r with
  | files => exact allFiles_founded.map fun _ _ => trivial
  | symbol k => exact (symbol_founded k).map fun _ _ => trivial
  | symbolById id => exact (known_founded hs id).map fun _ _ => trivial
  | facet id f =>
    refine (known_founded hs id).bind fun n hn => ?_
    obtain ⟨genuine,m,hm,rfl⟩ := hn
    refine facet_founded genuine (fun nowhere key => ⟨nowhere,?_⟩) f
    have here : s.id? (.node m.sight.anchor) = some id := hs.indexed.mpr ⟨m,hm,key⟩
    rw [here]
    rfl
  | intern t => exact .pure trivial
  | typeById id => exact (knownType_founded id).map fun _ _ => trivial
  | type id f => exact (knownType_founded id).bind fun t _ => typeFacet_founded t f

end Failures

end SymbolGraph
