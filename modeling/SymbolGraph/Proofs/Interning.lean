import Mathlib.Data.List.Induction
import SymbolGraph.Proofs.Memory
import SymbolGraph.Proofs.Questions

/-! The identity of types. A type gets the next id when it is first met, so what a session hands out has one id
exactly where it is one type, and an id stands for its type as long as the session lasts. -/
namespace SymbolGraph

variable {A B C : Type} {env : Environment} {s s' : State}

/-! ### The table -/

theorem eraseDups_of_nodup [DecidableEq A] {l : List A} (h : l.Nodup) : l.eraseDups = l := by
  induction l with
  | nil => rfl
  | cons a l ih =>
    obtain ⟨new,h⟩ := List.nodup_cons.mp h
    have others : l.filter (fun b => !b == a) = l := by
      rw [List.filter_eq_self]
      rintro b hb
      have other : b ≠ a := fun e => new (e ▸ hb)
      simp [other]
    rw [List.eraseDups_cons,others,ih h]

namespace TypeTable

variable {T T' : TypeTable} {id : TypeId} {u : ResolvedType}

/-- A table after some types were met in turn. -/
def internAll (T : TypeTable) (us : List ResolvedType) : TypeTable := us.foldl (fun T u => (T.intern u).2) T

theorem internAll_cons_of_some (h : T.get? id = some u) (us : List ResolvedType) :
    T.internAll (u :: us) = T.internAll us := by
  rw [internAll,List.foldl_cons,intern_of_some h]
  rfl

theorem internAll_append (T : TypeTable) (us vs : List ResolvedType) :
    T.internAll (us ++ vs) = (T.internAll us).internAll vs := List.foldl_append

/-- A table lists the types that were met, each where it was met first. -/
theorem entries_internAll (T : TypeTable) (us : List ResolvedType) :
    (T.internAll us).entries.toList = (T.entries.toList ++ us).eraseDups := by
  induction us using List.reverseRecOn with
  | nil => rw [List.append_nil,eraseDups_of_nodup T.nodup,internAll,List.foldl_nil]
  | append_singleton us u ih =>
    rw [internAll_append,← List.append_assoc,List.eraseDups_append,← ih]
    show ((T.internAll us).intern u).2.entries.toList = _
    have known : u ∈ (T.internAll us).entries.toList ↔ u ∈ T.entries.toList ++ us := by rw [ih,List.mem_eraseDups]
    by_cases h : u ∈ (T.internAll us).entries.toList
    · obtain ⟨id,found⟩ := exists_get? h
      have old : [u].removeAll (T.entries.toList ++ us) = [] := by
        simpa [List.removeAll,or_iff_not_imp_left] using known.mp h
      rw [intern_of_some found,old,List.eraseDups_nil,List.append_nil]
    · have new : [u].removeAll (T.entries.toList ++ us) = [u] := by
        simpa [List.removeAll] using mt known.mpr h
      rw [(intern_of_new h).2,Array.toList_push,new]
      rfl

/-- A table in which all ids keep their types only goes on at its end. -/
theorem entries_prefix (h : ∀ {id u}, T.get? id = some u → T'.get? id = some u) :
    T.entries.toList <+: T'.entries.toList := by
  rw [List.prefix_iff_getElem?]
  intro i hi
  have kept : T'.get? ⟨i⟩ = some T.entries.toList[i] := h (by simp [get?])
  simpa [get?] using kept

end TypeTable

/-! ### What a session meets -/

namespace Session

/-- How a type is interned. -/
theorem intern_run (u : ResolvedType) : intern u env s =
    (.ok (⟨(s.types.intern u).1,u⟩ : InternedType),{ s with types := (s.types.intern u).2 }) := rfl

theorem intern_of_some {i : TypeId} {u : ResolvedType} (h : s.types.get? i = some u) :
    intern u env s = (.ok ⟨i,u⟩,s) := by
  rw [intern_run,TypeTable.intern_of_some h]

theorem intern_of_new {u : ResolvedType} (new : u ∉ s.types.entries.toList) :
    (intern u env s).1 = .ok ⟨⟨s.types.size⟩,u⟩ ∧
      (intern u env s).2.types.entries = s.types.entries.push u := by
  obtain ⟨first,pushed⟩ := TypeTable.intern_of_new new
  rw [intern_run,first]
  exact ⟨rfl,pushed⟩

end Session

/-- A session that meets, if it answers, the types that its answer tells, in their order. -/
def Meets (x : Session A) (met : A → List ResolvedType) : Prop :=
  ∀ env s a s', x env s = (.ok a,s') → s'.types = s.types.internAll (met a)

namespace Meets

variable {x : Session A}

theorem pure {a : A} {met : A → List ResolvedType} (h : met a = []) : Meets (pure a) met := by
  intro env s a' s' run
  cases run
  rw [h]
  rfl

theorem of_keeps (h : Keeps State.types x) : Meets x fun _ => [] := fun env s a s' run => by
  have kept := h env s
  rw [run] at kept
  exact kept

theorem map {f : A → B} {met : B → List ResolvedType} (h : Meets x fun a => met (f a)) :
    Meets (do return f (← x)) met := by
  intro env s b s'' run
  obtain ⟨a,s',first,next⟩ := Attempt.bind_eq_ok.mp run
  cases next
  exact h _ _ _ _ first

theorem const {f : A → B} {us : List ResolvedType} (h : Meets x fun _ => us) :
    Meets (do return f (← x)) fun _ => us := h.map

/-- What is met first does not depend on the answer. -/
theorem bind {f : A → Session B} {us : List ResolvedType} {met : B → List ResolvedType}
    (hx : Meets x fun _ => us) (hf : ∀ a, Meets (f a) met) : Meets (x >>= f) fun b => us ++ met b := by
  intro env s b s'' run
  obtain ⟨a,s',first,next⟩ := Attempt.bind_eq_ok.mp run
  rw [TypeTable.internAll_append,← hx _ _ _ _ first]
  exact hf _ _ _ _ _ next

theorem after {f : A → Session B} {met : B → List ResolvedType} (hx : Keeps State.types x)
    (hf : ∀ a, Meets (f a) met) : Meets (x >>= f) met := (of_keeps hx).bind hf

theorem mapM {f : A → Session B} {met : B → List ResolvedType} (h : ∀ a, Meets (f a) met) (l : List A) :
    Meets (l.mapM f) fun bs => bs.flatMap met := by
  induction l with
  | nil => exact .pure rfl
  | cons a l ih =>
    intro env s bs s'' run
    rw [List.mapM_cons] at run
    obtain ⟨b,s₁,first,run⟩ := Attempt.bind_eq_ok.mp run
    obtain ⟨cs,s₂,others,run⟩ := Attempt.bind_eq_ok.mp run
    cases run
    show s''.types = s.types.internAll (met b ++ cs.flatMap met)
    rw [TypeTable.internAll_append,← h _ _ _ _ _ first]
    exact ih _ _ _ _ others

end Meets

theorem Keeps.referenced (r : ReferenceView) : Keeps State.types (Session.referenced r) := by
  rw [Session.referenced]
  cases r.shape with
  | written s => exact (ask .types trivial _).bind fun _ => orFail _ _
  | deferred => exact (descriptor .types (fun _ => trivial) _).bind fun _ => orFail _ _

namespace ResolvedType

mutual
/-- What is met while a type is shown: its arguments, and then what is met while each of them is shown. -/
def inside : ResolvedType → List ResolvedType
  | ⟨_,arguments,_⟩ => arguments.filterMap (·.type) ++ insideArguments arguments
def insideOption : Option ResolvedType → List ResolvedType
  | none => []
  | some t => t.inside
def insideArgument : TypeArgument → List ResolvedType
  | ⟨_,type⟩ => insideOption type
def insideArguments : List TypeArgument → List ResolvedType
  | [] => []
  | a :: as => insideArgument a ++ insideArguments as
end

end ResolvedType

namespace Meets

theorem intern (u : ResolvedType) : Meets (Session.intern u) fun t => [t.resolved] := by
  intro env s t s' run
  cases run
  rfl

/-- A reference that was resolved before meets its type again. -/
theorem resolve (r : ReferenceView) : Meets r.resolve fun t => [t.resolved] := by
  intro env s t s' run
  obtain ⟨id,s₁,remembered,found⟩ := Attempt.bind_eq_ok.mp run
  obtain ⟨rfl,-,there⟩ := Session.typeById_eq_ok found
  rcases Session.memo_eq_ok remembered with ⟨-,rfl⟩ | ⟨s₂,computed,rfl⟩
  · exact (TypeTable.internAll_cons_of_some there []).symm
  · obtain ⟨u,s₃,told,interned⟩ := Attempt.bind_eq_ok.mp computed
    have kept := Keeps.referenced r env ((State.cell r.id .type).set .resolving s)
    rw [told] at kept
    obtain ⟨ok,rfl⟩ := Prod.mk.inj interned
    obtain rfl := Except.ok.inj ok
    have same : u = t.resolved := Option.some.inj ((TypeTable.get?_intern s₃.types u).symm.trans there)
    show (s₃.types.intern u).2 = (s.types.intern t.resolved).2
    rw [same,show s₃.types = s.types from kept]

theorem projection (a : TypeArgument) : Meets (InternedType.projection a) fun p => p.type.toList.map (·.resolved) := by
  obtain ⟨variance,_ | u⟩ := a
  · exact pure rfl
  · exact (intern u).map

theorem arguments (t : InternedType) :
    Meets t.arguments fun ps => (ps.filterMap (·.type)).map (·.resolved) := by
  have each := mapM projection t.resolved.arguments
  have same : ∀ ps : List Projection, (ps.flatMap fun p => p.type.toList.map (·.resolved)) =
      (ps.filterMap (·.type)).map (·.resolved) := fun ps => by
    rw [List.filterMap_eq_flatMap_toList,List.map_flatMap]
  rw [InternedType.arguments]
  simpa only [same] using each

/-- The types by which a chain gets longer are met one after another. -/
theorem chainFrom {steps : Nat} {chain ts : List InternedType} {t : InternedType}
    (run : InternedType.chainFrom steps chain t env s = (.ok ts,s')) :
    ∃ rest, ts = chain ++ rest ∧ s'.types = s.types.internAll (rest.map (·.resolved)) := by
  induction steps generalizing s chain t
  all_goals
    rw [InternedType.chainFrom] at run
    obtain ⟨o,s₁,looked,went⟩ := Attempt.bind_eq_ok.mp run
    have kept := Keeps.alias? .types t env s
    rw [looked] at kept
    obtain _ | a := o
    · cases went
      exact ⟨[],(List.append_nil _).symm,kept⟩
  case zero => cases went
  case succ steps ih =>
    obtain ⟨r,s₂,aimed,went⟩ := Attempt.bind_eq_ok.mp went
    obtain ⟨next,s₃,resolved,went⟩ := Attempt.bind_eq_ok.mp went
    split at went
    · obtain ⟨names,s₄,-,went⟩ := Attempt.bind_eq_ok.mp went
      cases went
    · obtain ⟨rest,rfl,met⟩ := ih went
      have found : s₂.types = s₁.types := by
        have typed := Keeps.typed .types (a.near a.shape.target) env s₁ (S := ReferenceForm)
        rw [View.target] at aimed
        rwa [aimed] at typed
      refine ⟨next :: rest,by simp,?_⟩
      rw [met,resolve r _ _ _ _ resolved,found,kept]
      rfl

/-- A chain begins at a type that is there already. -/
theorem aliasChain {t : InternedType} {ts : List InternedType} (held : s.types.get? t.id = some t.resolved)
    (run : t.aliasChain env s = (.ok ts,s')) : s'.types = s.types.internAll (ts.map (·.resolved)) := by
  have followed : InternedType.chainFrom env.config.maxAliasDepth [t] t env s = (.ok ts,s') := run
  obtain ⟨rest,rfl,met⟩ := chainFrom followed
  rw [met,List.map_append,List.map_singleton,List.singleton_append,TypeTable.internAll_cons_of_some held]

theorem withNullable {t u : InternedType} {b : Bool} (held : s.types.get? t.id = some t.resolved)
    (run : t.withNullable b env s = (.ok u,s')) : s'.types = s.types.internAll [u.resolved] := by
  rw [InternedType.withNullable] at run
  split at run
  · cases run
    exact (TypeTable.internAll_cons_of_some held []).symm
  · exact intern _ _ _ _ _ run

theorem internArguments (as : List TypeArgument) :
    Meets (InternedType.internArguments as) fun _ => as.filterMap (·.type) := by
  induction as with
  | nil => exact pure rfl
  | cons a as ih =>
    obtain ⟨variance,_ | u⟩ := a
    · exact after (.pure _) fun _ => ih
    · intro env s b s' run
      exact ih _ _ _ _ run

mutual
theorem shownType : ∀ t : ResolvedType, Meets (InternedType.shownType t) fun _ => t.inside
  | ⟨declaration,arguments,nullable⟩ => by
    rw [InternedType.shownType,ResolvedType.inside]
    exact after (.headName .types _) fun _ => (internArguments arguments).bind fun _ => (shownArguments arguments).const
theorem shownOption (variance : Variance) :
    ∀ t : Option ResolvedType, Meets (InternedType.shownOption variance t) fun _ => ResolvedType.insideOption t
  | none => pure rfl
  | some t => by
    rw [InternedType.shownOption,ResolvedType.insideOption]
    exact (shownType t).const
theorem shownArgument : ∀ a : TypeArgument, Meets (InternedType.shownArgument a) fun _ => ResolvedType.insideArgument a
  | ⟨variance,type⟩ => by
    rw [InternedType.shownArgument,ResolvedType.insideArgument]
    exact shownOption variance type
theorem shownArguments :
    ∀ as : List TypeArgument, Meets (InternedType.shownArguments as) fun _ => ResolvedType.insideArguments as
  | [] => pure rfl
  | a :: as => by
    rw [InternedType.shownArguments,ResolvedType.insideArguments]
    exact (shownArgument a).bind fun _ => (shownArguments as).const
end

end Meets

/-! ### Types that are handed out -/

/-- The types that are handed out. -/
def Reply.handles : Reply → List InternedType
  | .types ts => ts
  | .arguments ps => ps.filterMap (·.type)
  | .symbols _ | .value _ => []

/-- Inquiries that hand out all the types that they meet. -/
def Inquiry.handsOutAll : Inquiry → Bool
  | .type _ .shown | .type _ (.isAssignableFrom _) => false
  | _ => true

namespace Session

variable {n : Node} {r : Reply}

theorem handles_of_handThrough {S : Type} [Viewed S] {x : View S → Session A} {f : A → Reply}
    (none : ∀ a, (f a).handles = [])
    (run : handThrough S n (fun v => do return f (← x v)) env s = (.ok r,s')) : r.handles = [] := by
  rw [handThrough] at run
  cases narrow : n.as? S with
  | none =>
    rw [narrow] at run
    cases run
    rfl
  | some v =>
    rw [narrow] at run
    obtain ⟨a,s₁,-,answered⟩ := Attempt.bind_eq_ok.mp run
    cases answered
    exact none a

/-- Types of symbols are handed out by resolution only. -/
theorem handles_of_reply {f : Facet} (other : f ≠ .resolve) (run : reply n f env s = (.ok r,s')) :
    r.handles = [] := by
  cases f with
  | resolve => exact (other rfl).elim
  | packageName | qualifiedName | displayName | isLocal | isOpen | functionKind | isAbstract | overrides
  | parameterName =>
    obtain ⟨a,s₁,-,answered⟩ := Attempt.bind_eq_ok.mp run
    cases answered
    rfl
  | _ => exact handles_of_handThrough (fun _ => rfl) run

end Session

namespace Meets

theorem reply (n : Node) (f : Facet) : Meets (Session.reply n f) fun reply => reply.handles.map (·.resolved) := by
  by_cases other : f = .resolve
  · subst other
    rw [Session.reply,Session.handThrough]
    cases n.as? ReferenceForm with
    | none => exact pure rfl
    | some r => exact (resolve r).map
  · intro env s reply s' run
    have kept := Keeps.facet .types (fun _ _ => trivial) n other env s
    rw [← Session.reply_state,run] at kept
    show s'.types = s.types.internAll (reply.handles.map (·.resolved))
    rw [Session.handles_of_reply other run]
    exact kept

theorem typeReply {t : InternedType} {f : TypeFacet} {r : Reply} (held : s.types.get? t.id = some t.resolved)
    (all : (Inquiry.type t.id f).handsOutAll = true) (run : Session.typeReply t f env s = (.ok r,s')) :
    s'.types = s.types.internAll (r.handles.map (·.resolved)) := by
  cases f with
  | shown | isAssignableFrom => cases all
  | declaration =>
    obtain ⟨d,s₁,found,answered⟩ := Attempt.bind_eq_ok.mp run
    cases answered
    exact of_keeps (Keeps.declared .types t) _ _ _ _ found
  | isAlias =>
    obtain ⟨a,s₁,told,answered⟩ := Attempt.bind_eq_ok.mp run
    obtain ⟨b,s₂,looked,told⟩ := Attempt.bind_eq_ok.mp told
    cases answered
    cases told
    exact of_keeps (Keeps.isAlias .types t) _ _ _ _ looked
  | arguments =>
    obtain ⟨ps,s₁,made,answered⟩ := Attempt.bind_eq_ok.mp run
    cases answered
    exact arguments t _ _ _ _ made
  | withNullable b =>
    obtain ⟨u,s₁,made,answered⟩ := Attempt.bind_eq_ok.mp run
    cases answered
    exact withNullable held made
  | aliasChain =>
    obtain ⟨ts,s₁,followed,answered⟩ := Attempt.bind_eq_ok.mp run
    cases answered
    exact aliasChain held followed

/-- What an inquiry hands out is what it met, in the same order. -/
theorem inquiry {r : Inquiry} (all : r.handsOutAll = true) :
    Meets r.serve fun reply => reply.handles.map (·.resolved) := by
  cases r with
  | files => exact (of_keeps (Keeps.allFiles .types fun _ _ => trivial)).map
  | symbol k => exact (of_keeps (Keeps.symbolOf .types k)).map
  | symbolById id => exact (of_keeps (.nodeById id)).map
  | facet id f => exact after (.nodeById id) fun n => reply n f
  | intern u => exact (intern u).map
  | typeById id =>
    intro env s reply s' run
    obtain ⟨t,s₁,found,answered⟩ := Attempt.bind_eq_ok.mp run
    obtain ⟨rfl,-,held⟩ := Session.typeById_eq_ok found
    cases answered
    exact (TypeTable.internAll_cons_of_some held []).symm
  | type id f =>
    intro env s reply s' run
    obtain ⟨t,s₁,found,asked⟩ := Attempt.bind_eq_ok.mp run
    obtain ⟨rfl,rfl,held⟩ := Session.typeById_eq_ok found
    exact typeReply held all asked

end Meets

/-- The types of a reply are those of their ids. -/
theorem Replies.type? {r : Reply} {a : Answer} (h : Replies s r a) :
    ∀ t ∈ r.handles, s.types.get? t.id = some t.resolved := by
  cases h with
  | symbols | value => exact List.forall_mem_nil _
  | types h => exact Agrees.held_of_each h
  | arguments h =>
    induction h with
    | nil => exact List.forall_mem_nil _
    | @cons p a _ _ first _ ih =>
      obtain ⟨variance,_ | t⟩ := p
      · exact ih
      · obtain ⟨variance',type⟩ := a
        obtain ⟨-,interned⟩ := first
        cases interned with
        | some h => exact List.forall_mem_cons.mpr ⟨h.1,ih⟩

namespace Action

/-- The types that an action hands out. -/
def handles (env : Environment) (s : State) : Action → List InternedType
  | .inquiry r =>
    match (r.serve env s).1 with
    | .ok reply => reply.handles
    | .error _ => []
  | .symbols _ _ | .names _ _ | .references _ | .process _ => []

/-- The types that actions hand out, from a given state on. -/
def handed (env : Environment) : State → List Action → List InternedType
  | _, [] => []
  | s, a :: rest => a.handles env s ++ handed env (a.run env s).2 rest

/-- An inquiry that is answered and hands out all that it meets. -/
def isCandid (env : Environment) (s : State) : Action → Bool
  | .inquiry r => r.handsOutAll && (r.serve env s).1.isOk
  | .symbols _ _ | .names _ _ | .references _ | .process _ => false

/-- All actions are such inquiries, from a given state on. -/
def candid (env : Environment) : State → List Action → Bool
  | _, [] => true
  | s, a :: rest => a.isCandid env s && candid env (a.run env s).2 rest

theorem run_inquiry (r : Inquiry) : ((Action.inquiry r).run env s).2 = (r.serve env s).2 :=
  Session.map_state r.serve Reply.nodes

theorem held_handles (hs : s.Sound env 4) (a : Action) :
    ∀ t ∈ a.handles env s, (a.run env s).2.types.get? t.id = some t.resolved := by
  cases a with
  | inquiry r =>
    have follows : Follows Replies env 4 s (r.serve env s) (r.direct s env) := Agrees.inquiry r hs
    rw [run_inquiry,handles]
    cases served : (r.serve env s).1 with
    | error e => exact List.forall_mem_nil _
    | ok reply =>
      obtain ⟨a,-,replied⟩ := follows.exists_direct served
      exact replied.type?
  | symbols | names | references | process => exact List.forall_mem_nil _

/-- What is handed out is a type of the session from then on. -/
theorem held_handed (hs : s.Sound env 4) (history : List Action) :
    ∀ t ∈ handed env s history,
      (history.foldl (fun s a => (a.run env s).2) s).types.get? t.id = some t.resolved := by
  induction history generalizing s with
  | nil => exact List.forall_mem_nil _
  | cons a rest ih =>
    have step := a.follows hs
    intro t ht
    rcases List.mem_append.mp ht with now | later
    · exact (State.continues_foldl step.sound rest).grows.type (held_handles hs a t now)
    · exact ih step.sound t later

theorem types_of_isCandid {a : Action} (h : a.isCandid env s = true) :
    (a.run env s).2.types = s.types.internAll ((a.handles env s).map (·.resolved)) := by
  cases a with
  | inquiry r =>
    obtain ⟨all,answered⟩ := Bool.and_eq_true_iff.mp h
    rw [run_inquiry,handles]
    rcases served : r.serve env s with ⟨e | reply,s'⟩
    · rw [served] at answered
      cases answered
    · exact Meets.inquiry all _ _ _ _ served
  | symbols | names | references | process => cases h

/-- A session that hands out all types that it meets has these, in the order in which they were handed out. -/
theorem types_of_candid {history : List Action} (h : candid env s history = true) :
    (history.foldl (fun s a => (a.run env s).2) s).types =
      s.types.internAll ((handed env s history).map (·.resolved)) := by
  induction history generalizing s with
  | nil => rfl
  | cons a rest ih =>
    obtain ⟨now,others⟩ := Bool.and_eq_true_iff.mp h
    rw [List.foldl_cons,ih others,handed,List.map_append,TypeTable.internAll_append,types_of_isCandid now]

end Action

/-! ### Nullability -/

namespace InternedType

variable {t u : InternedType}

/-- A type that is there in both nullabilities is found, and the session stays as it is. -/
theorem withNullable_run {b : Bool} (ht : s.types.get? t.id = some t.resolved)
    (hu : s.types.get? u.id = some u.resolved) (same : u.resolved = t.resolved.withNullable b) :
    t.withNullable b env s = (.ok u,s) := by
  rw [same] at hu
  have e : u = ⟨u.id,t.resolved.withNullable b⟩ := by rw [← same]
  rw [e,withNullable]
  split
  · next already =>
    have itself : t.resolved.withNullable b = t.resolved := by
      rw [← already]
      exact t.resolved.withNullable_self
    have ids : u.id = t.id := TypeTable.get?_injective hu (itself ▸ ht)
    rw [itself,ids]
    rfl
  · exact Session.intern_of_some hu

/-- What a session tells, in a state, of a type that it once handed out. -/
structure Lasts (env : Environment) (s : State) (t : InternedType) : Prop where
  found : Session.typeById t.id env s = (.ok t,s)
  /-- A text of a type meets what is inside it. -/
  shown : ∀ text s', t.shown env s = (.ok text,s') →
    s'.types.entries.toList = (s.types.entries.toList ++ t.resolved.inside).eraseDups
  /-- Nullability is set with nothing else changed, stays set, and is set back to the very type that was there
  before. -/
  withNullable : ∀ b, ∃ u s₁, t.withNullable b env s = (.ok u,s₁) ∧
    u.resolved = ⟨t.resolved.declaration,t.resolved.arguments,b⟩ ∧ (t.isNullable = b → u = t ∧ s₁ = s) ∧
    ∀ after : List Action,
      let s₂ := after.foldl (fun s a => (a.run env s).2) s₁
      t.withNullable b env s₂ = (.ok u,s₂) ∧ u.withNullable b env s₂ = (.ok u,s₂) ∧
        u.withNullable t.isNullable env s₂ = (.ok t,s₂)

theorem lasts (hs : s.Sound env 4) (ht : s.types.get? t.id = some t.resolved) : Lasts env s t where
  found := Session.typeById_run ht
  shown text s' run := by rw [Meets.shownType t.resolved _ _ _ _ run,TypeTable.entries_internAll]
  withNullable b := by
    have follows := Agrees.withNullable (t := t) ⟨ht,rfl⟩ b hs
    obtain ⟨u,ok,hu,same⟩ := follows.exists_answer rfl
    have back : t.resolved = u.resolved.withNullable t.isNullable := by
      rw [same,ResolvedType.withNullable_withNullable]
      exact t.resolved.withNullable_self.symm
    have again : u.resolved = u.resolved.withNullable b := by rw [same,ResolvedType.withNullable_withNullable]
    refine ⟨u,_,Prod.ext ok rfl,same,fun already => ?_,fun after => ?_⟩
    · have itself : t.resolved = t.resolved.withNullable b := by
        rw [← already]
        exact t.resolved.withNullable_self.symm
      have stays : t.withNullable b env s = (.ok t,s) := withNullable_run ht ht itself
      rw [stays] at ok
      exact ⟨(Except.ok.inj ok).symm,congrArg Prod.snd stays⟩
    · have later := (State.continues_foldl follows.sound after).grows
      have ht' := later.type (follows.grows.type ht)
      have hu' := later.type hu
      exact ⟨withNullable_run ht' hu' same,withNullable_run hu' hu' again,withNullable_run hu' ht' back⟩

end InternedType

/-! ### Identity -/

namespace State

/-- How a session gives ids to types in a state. -/
structure Numbers (env : Environment) (s : State) : Prop where
  /-- Ids are given without gaps. -/
  dense : ∀ id, (s.types.get? id).isSome ↔ id.index < s.types.size
  known : ∀ id u, s.types.get? id = some u → Session.intern u env s = (.ok ⟨id,u⟩,s)
  new : ∀ u, (∀ id, s.types.get? id ≠ some u) → (Session.intern u env s).1 = .ok ⟨⟨s.types.size⟩,u⟩ ∧
    (Session.intern u env s).2.types.entries = s.types.entries.push u
  /-- An inquiry meets what it hands out, in this order. -/
  met : ∀ r : Inquiry, r.handsOutAll = true → ∀ reply s', r.serve env s = (.ok reply,s') →
    s'.types.entries.toList = (s.types.entries.toList ++ reply.handles.map (·.resolved)).eraseDups

theorem numbers (env : Environment) (s : State) : s.Numbers env where
  dense _ := TypeTable.isSome_get?
  known _ _ := Session.intern_of_some
  new u missing := by
    refine Session.intern_of_new fun known => ?_
    obtain ⟨id,found⟩ := TypeTable.exists_get? known
    exact missing id found
  met r all reply s' run := by rw [Meets.inquiry all _ _ _ _ run,TypeTable.entries_internAll]

/-- What holds of the types that a session has after some actions, of those that it handed out on the way, and of both
after some more. -/
structure TypeIdentity (env : Environment) (history later : List Action) : Prop where
  numbers : (during env history).Numbers env
  /-- What was handed out has one id exactly where it is one type. -/
  same : ∀ t ∈ Action.handed env .initial history, ∀ u ∈ Action.handed env .initial history,
    t.id = u.id ↔ t.resolved = u.resolved
  /-- If all that was met was handed out, the table lists it as it was met first. -/
  ordered : Action.candid env .initial history = true → (during env history).types.entries.toList =
    ((Action.handed env .initial history).map (·.resolved)).eraseDups
  /-- The table only goes on at its end. -/
  grows : (during env history).types.entries.toList <+: (during env (history ++ later)).types.entries.toList
  lasts : ∀ t ∈ Action.handed env .initial history, InternedType.Lasts env (during env (history ++ later)) t

/-- Whatever is done with a session, the types that it hands out have one id exactly where they are equal, and an id
stands for its type from then on. Ids are given without gaps, in the order in which types are first met. Nullability is
set with nothing else changed, and set back to the very type that was there before. -/
theorem types_during (env : Environment) (history later : List Action) : TypeIdentity env history later := by
  have continued : (during env history).Continues env (during env (history ++ later)) := by
    have from_s := continues_foldl (sound_during env history) later
    rwa [← during_append] at from_s
  have held := Action.held_handed (sound_initial env 4) history
  exact {
    numbers := State.numbers env _
    same t ht u hu := by
      constructor
      · intro ids
        exact Option.some.inj ((held t ht).symm.trans ((congrArg (during env history).types.get? ids).trans (held u hu)))
      · intro same
        exact TypeTable.get?_injective (held t ht) (same ▸ held u hu)
    ordered candid := by
      rw [show (during env history).types = _ from Action.types_of_candid candid,TypeTable.entries_internAll]
      rfl
    grows := TypeTable.entries_prefix continued.grows.type
    lasts t ht := InternedType.lasts continued.sound (continued.grows.type (held t ht))
  }

end State

/-- Two classes, an alias for the first one with the second as its argument, and an alias for this alias. -/
def Environment.aliased : Environment where
  models := ⟨[.ofSlots .kotlin [⟨none,"K.kt",1,some (.file ⟨"K.kt","d",[],[⟨1⟩,⟨2⟩,⟨3⟩,⟨5⟩]⟩)⟩,
    ⟨some ⟨0⟩,"K.kt",1,some (.classLike ⟨"List",.plain,.empty,[],[],[],[]⟩)⟩,
    ⟨some ⟨0⟩,"K.kt",2,some (.classLike ⟨"Name",.plain,.empty,[],[],[],[]⟩)⟩,
    ⟨some ⟨0⟩,"K.kt",3,some (.typeAlias ⟨"Names",.empty,[],[],⟨4⟩⟩)⟩,
    ⟨some ⟨3⟩,"K.kt",3,some (.typeReference ⟨"List<Name>",[],[]⟩)⟩,
    ⟨some ⟨0⟩,"K.kt",4,some (.typeAlias ⟨"All",.empty,[],[],⟨6⟩⟩)⟩,
    ⟨some ⟨5⟩,"K.kt",4,some (.typeReference ⟨"Names",[],[]⟩)⟩]]⟩
  oracle := .ofTables ⟨[⟨⟨0⟩,⟨0⟩⟩],[],[(⟨⟨0⟩,⟨4⟩⟩,⟨⟨⟨0⟩,⟨1⟩⟩,[⟨.invariant,some (.simple ⟨⟨0⟩,⟨2⟩⟩)⟩],false⟩),
    (⟨⟨0⟩,⟨6⟩⟩,.simple ⟨⟨0⟩,⟨3⟩⟩)],.incompatible,[],[]⟩
  config := .standard

/-- Types that are met again come with the ids that they have. -/
theorem State.types_during_aliased :
    let env := Environment.aliased
    let history : List Action := [.inquiry (.symbol (.node ⟨⟨0⟩,⟨6⟩⟩)),.inquiry (.facet ⟨0⟩ .resolve),
      .inquiry (.type ⟨0⟩ .aliasChain),.inquiry (.type ⟨1⟩ .arguments),
      .inquiry (.type ⟨1⟩ (.withNullable true)),.inquiry (.type ⟨3⟩ (.withNullable false)),
      .inquiry (.intern (.simple ⟨⟨0⟩,⟨2⟩⟩))]
    let name : ResolvedType := .simple ⟨⟨0⟩,⟨2⟩⟩
    let names : ResolvedType := .simple ⟨⟨0⟩,⟨3⟩⟩
    let list : ResolvedType := ⟨⟨⟨0⟩,⟨1⟩⟩,[⟨.invariant,some name⟩],false⟩
    Action.handed env .initial history = [⟨⟨0⟩,names⟩,⟨⟨0⟩,names⟩,⟨⟨1⟩,list⟩,⟨⟨2⟩,name⟩,
      ⟨⟨3⟩,list.withNullable true⟩,⟨⟨1⟩,list⟩,⟨⟨2⟩,name⟩] ∧
    (during env history).types.entries.toList = [names,list,name,list.withNullable true] := by
  intro env history name names list
  have handed : Action.handed env .initial history = [⟨⟨0⟩,names⟩,⟨⟨0⟩,names⟩,⟨⟨1⟩,list⟩,⟨⟨2⟩,name⟩,
    ⟨⟨3⟩,list.withNullable true⟩,⟨⟨1⟩,list⟩,⟨⟨2⟩,name⟩] := by decide +kernel
  have met := (types_during env history []).ordered (by decide +kernel)
  rw [handed] at met
  exact ⟨handed,met.trans (by decide +kernel)⟩

end SymbolGraph
