import SymbolGraph.Proofs.Processor
import SymbolGraph.Proofs.Inquiry
import SymbolGraph.Proofs.Visit

/-! Actions: all that is done with a session, and what it comes to without one, over any models and any oracle.
A history of actions leaves a sound state, and the symbols that it hands out stay. -/
namespace SymbolGraph

open Direct

variable {A G H : Type} {env : Environment} {s : State}

/-! ### Actions -/

/-- What is done with a session: an inquiry, a visit of a symbol that was handed out or of all files, or the
run of a processor. -/
inductive Action
  | inquiry (r : Inquiry)
  /-- Gathers what a visit meets, without what is below symbols of some keys. -/
  | symbols (skip : SymbolKey → Bool) (start : Option SymbolId)
  | names (start : Option SymbolId) (noPackage : String)
  | references (start : Option SymbolId)
  | process (p : Processor)

/-- Gathers all symbols, but leaves out some and what is below them. -/
def Visitor.symbols (skip : SymbolKey → Bool) : Visitor (Array Node) := .pruned skip Gathering.record

def Direct.Visitor.symbols (skip : SymbolKey → Bool) : Direct.Visitor (Array (Sight Form)) where
  enter n := return !skip n.key
  leave n := Direct.Gathering.record n

def Visitor.visitFrom (v : Visitor G) : Option SymbolId → Gathering G Unit
  | none => v.visitFiles
  | some id => do v.visit (← Gathering.ofSession (Session.nodeById id))

def Direct.Visitor.visitFrom (v : Direct.Visitor G) (s : State) : Option SymbolId → Direct.Gathering G Unit
  | none => v.visitFiles
  | some id => do v.visit (← Gathering.ofDirect (known s id))

namespace Action

open Gathering in
/-- Does something with a session, and answers the symbols that it hands out. -/
def run : Action → Session (List Node)
  | .inquiry r => return (← r.serve).nodes
  | .symbols skip start => return (← gathered ((Visitor.symbols skip).visitFrom start) #[]).toList
  | .names start noPackage => do
    let _ ← gathered ((Visitor.names noPackage).visitFrom start) #[]
    return []
  | .references start => return (← gathered (Visitor.references.visitFrom start) #[]).toList.map (·.toNode)
  | .process p => do
    let _ ← gathered p.process #[]
    return []

open Direct.Gathering in
/-- What an action comes to without a session. -/
def direct (s : State) : Action → Direct Unit
  | .inquiry r => do
    let _ ← r.direct s
    return
  | .symbols skip start => do
    let _ ← gathered ((Direct.Visitor.symbols skip).visitFrom s start) #[]
    return
  | .names start noPackage => do
    let _ ← gathered ((Direct.Visitor.names noPackage).visitFrom s start) #[]
    return
  | .references start => do
    let _ ← gathered (Direct.Visitor.references.visitFrom s start) #[]
    return
  | .process p => do
    let _ ← gathered (Direct.process p) #[]
    return

end Action

/-- The symbols handed out are symbols of the session. -/
def Held {B : Type} : Reading (List Node) B := fun s ns _ => ∀ n ∈ ns, s.node? n.id = some n

theorem Visits.symbols (skip : SymbolKey → Bool) :
    Visits (Listed Shows) env 4 (.symbols skip) (.symbols skip) where
  enter {_ n m} h := by
    have key : n.header.key = m.key := congrArg Sight.key h.2
    have same : (!skip n.header.key) = !skip m.key := by rw [key]
    exact .pure same
  leave h := Gathers.update fun _ _ _ gathered => gathered.push h

theorem Visits.visitFrom {Q : Reading G H} [Lasting Q] {v : Visitor G} {w : Direct.Visitor H}
    (h : Visits Q env 4 v w) (start : Option SymbolId) :
    Gathers Same Q env 4 s (v.visitFrom start) (w.visitFrom s start) := by
  cases start with
  | none => exact h.visitFiles (by decide)
  | some id => exact (Gathers.ofSession (.known id)).bind fun _ _ _ _ hn => h.visit (by decide) hn

theorem Agrees.action (a : Action) : Agrees Held env 4 s a.run (a.direct s) := by
  cases a with
  | inquiry r => exact (inquiry r).map fun _ _ _ _ h => h.node?
  | symbols skip start =>
    have visited : Gathers Same (Listed Shows) env 4 s ((Visitor.symbols skip).visitFrom start) _ :=
      (Visits.symbols skip).visitFrom start
    refine (visited.gathered (g := #[]) (h := #[]) .nil).map fun s' ns ws _ hns => ?_
    have all : Replies s' (.symbols ns.toList) (.symbols ws.toList) := .symbols hns
    exact all.node?
  | names start noPackage =>
    have visited : Gathers Same Same env 4 s ((Visitor.names noPackage).visitFrom start) _ :=
      (Visits.names noPackage (by decide)).visitFrom start
    exact (visited.gathered rfl).map fun _ _ _ _ _ => List.forall_mem_nil _
  | references start =>
    have visited : Gathers Same (Listed Shows) env 4 s (Visitor.references.visitFrom start) _ :=
      Visits.references.visitFrom start
    refine (visited.gathered (g := #[]) (h := #[]) .nil).map fun s' rs ws _ hrs => ?_
    have all : Replies s' (.many rs.toList) _ := Replies.many hrs
    exact all.node?
  | process p => exact ((Gathers.process p).gathered rfl).map fun _ _ _ _ _ => List.forall_mem_nil _

/-! ### Failures -/

theorem Direct.Visitor.Within.symbols {allowed : Error → Prop} (skip : SymbolKey → Bool) :
    Visitor.Within allowed env (fun _ => True) (.symbols skip) where
  enter _ := .pure trivial
  leave _ := .update fun _ _ => trivial

theorem Direct.Visitor.Within.visitFrom {kept : H → Prop} {allowed : Error → Prop} {v : Direct.Visitor H}
    (h : Visitor.Within allowed env kept v) (reach : Reaches allowed env)
    (found : ∀ id, Direct.Within allowed env (known s id) fun n => n.Genuine env) (start : Option SymbolId) :
    Gathering.Within allowed env kept (v.visitFrom s start) fun _ => True := by
  cases start with
  | none => exact h.visitFiles reach
  | some id => exact (Gathering.Within.ofDirect (found id)).bind fun _ hn => h.visit reach hn

namespace Direct

theorem comparedTypes_founded {stray : NodeKey → Prop} (r : Sight ReferenceForm) :
    Within (Error.Founded env stray) env (comparedTypes r) fun _ => True := by
  have marked : Within (Error.Founded env stray) env (isInteresting r) fun _ => True :=
    .readThen (f := fun env => do
      return (← r.annotations).any fun a => env.config.isInteresting a.shape.shortName)
      ((children_founded r _ AnnotationShape).map fun _ _ => trivial)
  refine marked.bind fun _ _ => ?_
  split
  · exact (Sight.resolve_founded r).bind fun t _ => ResolvedType.aliasChain_founded t
  · exact .pure trivial

/-- What a processor does not find is not in the models, but for the files of stray declarations. -/
theorem process_founded (p : Processor) :
    Gathering.Within (Error.Founded env env.models.Stray) env (fun _ => True) (process p) fun _ => True := by
  cases p with
  | packageNames =>
    have named : Visitor.Within (Error.Founded env env.models.Stray) env (fun _ => True) (.names _) :=
      .names env.config.noPackagePlaceholder fun hd => Sight.packageName_founded hd.isStray
    exact .readThen (named.visitFiles reaches_founded)
  | aliasComparison => exact compareAliases_within reaches_founded fun _ => comparedTypes_founded _
  | overridee =>
    have found : Visitor.Within (Error.Founded env env.models.Stray) env (fun _ => True) .overridees :=
      .overridees (fun hf => Sight.findOverridee_founded hf.toDeclaration.isStray)
        fun hd => Sight.displayName_founded hd.isStray
    exact found.visitFiles reaches_founded

end Direct

/-- The nodes that an action may call unknown although the models have them: declarations that stand nowhere,
and for an inquiry, only those that have a symbol. -/
def Action.Excused (env : Environment) (s : State) : Action → NodeKey → Prop
  | .inquiry _ => fun k => env.models.Stray k ∧ (s.id? (.node k)).isSome
  | .symbols _ _ | .names _ _ | .references _ | .process _ => env.models.Stray

theorem Action.founded (hs : s.Sound env 4) (a : Action) :
    Within (Error.Founded env (a.Excused env s)) env (a.direct s) fun _ => True := by
  have known : ∀ id, Within (Error.Founded env env.models.Stray) env (known s id) fun n => n.Genuine env :=
    fun id => (known_founded hs id).weaken fun _ => And.left
  cases a with
  | inquiry r => exact (r.founded hs).map fun _ _ => trivial
  | symbols skip start =>
    have met : Visitor.Within (Error.Founded env env.models.Stray) env (fun _ => True) (.symbols skip) :=
      .symbols skip
    exact ((met.visitFrom reaches_founded known start).gathered trivial).map fun _ _ => trivial
  | names start noPackage =>
    have named : Visitor.Within (Error.Founded env env.models.Stray) env (fun _ => True) (.names noPackage) :=
      .names noPackage fun hd => Sight.packageName_founded hd.isStray
    exact ((named.visitFrom reaches_founded known start).gathered trivial).map fun _ _ => trivial
  | references start =>
    have listed : Within (Error.Founded env env.models.Stray) env
        (Direct.Gathering.gathered (Direct.Visitor.references.visitFrom s start) #[])
        fun rs : Array (Sight ReferenceForm) => ∀ r ∈ rs.toList, r.Genuine env :=
      (Visitor.Within.references.visitFrom reaches_founded known start).gathered (List.forall_mem_nil _)
    exact listed.map fun _ _ => trivial
  | process p => exact ((process_founded p).gathered trivial).map fun _ _ => trivial

/-! ### Histories -/

/-- The state in which actions leave a fresh session. -/
def State.during (env : Environment) (history : List Action) : State :=
  history.foldl (fun s a => (a.run env s).2) .initial

/-- The symbols that actions hand out, from a given state on. -/
def Action.obtained (env : Environment) : State → List Action → List Node
  | _, [] => []
  | s, a :: rest => (a.run env s).1.toOption.getD [] ++ obtained env (a.run env s).2 rest

theorem Action.follows (hs : s.Sound env 4) (a : Action) :
    Follows Held env 4 s (a.run env s) (a.direct s env) :=
  Agrees.action a hs

theorem State.continues_foldl (hs : s.Sound env 4) (history : List Action) :
    s.Continues env (history.foldl (fun s a => (a.run env s).2) s) := by
  induction history generalizing s with
  | nil => exact .refl hs
  | cons a rest ih =>
    have step := a.follows hs
    exact State.Continues.trans ⟨step.grows,step.sound⟩ (ih step.sound)

theorem State.sound_during (env : Environment) (history : List Action) : (during env history).Sound env 4 :=
  (continues_foldl (sound_initial env 4) history).sound

/-- What a history leaves, the next one starts from. -/
theorem State.during_append (env : Environment) (history later : List Action) :
    during env (history ++ later) = later.foldl (fun s a => (a.run env s).2) (during env history) :=
  List.foldl_append

/-- What is handed out is a symbol of the session from then on. -/
theorem Action.held_obtained (hs : s.Sound env 4) (history : List Action) :
    ∀ n ∈ obtained env s history, (history.foldl (fun s a => (a.run env s).2) s).node? n.id = some n := by
  induction history generalizing s with
  | nil => exact List.forall_mem_nil _
  | cons a rest ih =>
    have step := a.follows hs
    intro n hn
    rcases List.mem_append.mp hn with now | later
    · have held : (a.run env s).2.node? n.id = some n := by
        have answer := step.answer
        cases e : (a.run env s).1 with
        | error er => rw [e] at now; cases now
        | ok ns =>
          rw [e] at now answer
          cases d : a.direct s env with
          | error er => rw [d] at answer; exact answer.elim
          | ok u => rw [d] at answer; exact answer n now
      exact (State.continues_foldl step.sound rest).grows.node held
    · exact ih step.sound n later

end SymbolGraph
