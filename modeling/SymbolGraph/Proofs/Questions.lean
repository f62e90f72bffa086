import SymbolGraph.Proofs.Action

/-! Which questions are put to the oracle. Whatever is done with a session, what a written reference means is asked
by its resolution only. -/
namespace SymbolGraph

variable {A B G S : Type}

/-! ### Inquiries -/

namespace Keeps

variable {f : State → B} {idle : Query → Prop} (aside : Aside f idle)

theorem through [Viewed S] (n : Node) {x : View S → Session Answer} (h : ∀ v, Keeps f (x v)) :
    Keeps f (Session.through S n x) := by
  rw [Session.through]
  cases n.as? S with
  | some v => exact h v
  | none => exact pure _

include aside

theorem symbolOf (k : SymbolKey) : Keeps f (Session.symbolOf k) := by
  cases k with
  | node k => exact node aside k
  | deferred owner => exact (deferredReference aside owner).map

variable (asks : ∀ q, (∀ k, q ≠ .reference k) → idle q)
include asks

theorem isAssignableFrom (t u : InternedType) : Keeps f (t.isAssignableFrom u) := ask aside (asks _ (by simp)) _

/-- Only the meaning of a reference is asked in another way. -/
theorem facet (n : Node) {g : Facet} (other : g ≠ .resolve) : Keeps f (Session.facet n g) := by
  have each {T : Type} [Viewed T] {C : Type} {x : View T → Session C} {h : C → Answer} (kept : ∀ v, Keeps f (x v)) :
      Keeps f (Session.through T n fun v => do return h (← x v)) := through n fun v => (kept v).map
  cases g with
  | packageName => exact each (packageName aside)
  | qualifiedName => exact each (qualifiedName aside)
  | displayName => exact each (displayName aside)
  | isLocal => exact each (isLocal aside)
  | parentDeclaration => exact each (parentDeclaration aside)
  | containingFile => exact each (containingFile aside)
  | declarations => exact each (declarations aside)
  | isOpen => exact each (isOpen aside)
  | functions | properties => exact each fun c => (declarations aside c.toDeclaration).map
  | topLevel => exact each fun f => childDeclarations aside f _
  | typeParameters | fileAnnotations | declarationAnnotations | parameterAnnotations | referenceAnnotations
  | superTypes | parameters | bounds => exact each fun v => children aside v _ _
  | functionReceiver | propertyReceiver | annotationType => exact each fun v => child? aside v _
  | returnType | propertyType | parameterType => exact each fun v => typeReference aside v _
  | target => exact each fun a => typed aside _
  | typeArguments => exact each (typeArguments aside)
  | functionKind => exact each (functionKind aside)
  | isAbstract => exact each (isAbstract aside)
  | parameterName => exact each fun v => fun _ _ => rfl
  | overridee => exact through n fun f => (findOverridee aside f asks).map
  | overrides base =>
    exact through n fun f => (symbolOf aside base).bind fun m => through m fun b => (overrides aside f asks b).map
  | resolve => exact (other rfl).elim

end Keeps

/-- A session that does not ask what written references mean, whether it fails or not. -/
def Omits (x : Session A) : Prop := ∀ k : NodeKey, Retains (·.count (.reference k)) x

namespace Omits

variable {x : Session A}

theorem of_silent (h : Silent x) : Omits x := fun _ => h.retains _

theorem pure (a : A) : Omits (pure a) := of_silent (.pure a)

theorem bind {f : A → Session B} (hx : Omits x) (hf : ∀ a, Omits (f a)) : Omits (x >>= f) :=
  fun k => .bind (hx k) fun a => hf a k

theorem map {f : A → B} (hx : Omits x) : Omits (do return f (← x)) := hx.bind fun _ => .pure _

theorem readThen {f : Environment → Session A} (h : ∀ env, Omits (f env)) :
    Omits (do f (← MonadReader.read)) := fun k => .readThen fun env => h env k

theorem memo (id : SymbolId) {a : Attribute} {init : Session a.Value} (h : Omits init) :
    Omits (Session.memo id a init) := fun k => .memo id (h k)

/-! What asks other questions leaves the number of these questions alone. -/

theorem descriptor (k : NodeKey) : Omits (Session.descriptor k) :=
  fun j => Keeps.descriptor (.references j) (by simp) k

theorem allFiles : Omits Session.allFiles := fun j => Keeps.allFiles (.references j) fun _ => id

theorem symbolOf (k : SymbolKey) : Omits (Session.symbolOf k) := fun j => Keeps.symbolOf (.references j) k

theorem isAssignableFrom (t u : InternedType) : Omits (t.isAssignableFrom u) :=
  fun j => Keeps.isAssignableFrom (.references j) (fun _ => id) t u

theorem findOverridee (f : FunctionView) : Omits f.findOverridee :=
  fun j => Keeps.findOverridee (.references j) f fun _ => id

theorem comparison (i j : InternedType) : Omits (Processor.comparison i j) :=
  (of_silent (.shown i)).bind fun _ => (of_silent (.shown j)).bind fun _ => (isAssignableFrom i j).map

/-- What a reference means is asked of references only. -/
theorem facet (n : Node) {f : Facet} (other : f ≠ .resolve) : Omits (Session.facet n f) :=
  fun j => Keeps.facet (.references j) (fun _ => id) n other

end Omits

/-! ### Visits -/

namespace Gathering

/-- A gathering session that does not ask what written references mean. -/
def Omits (x : Gathering G A) : Prop :=
  ∀ (k : NodeKey) env s g, (x env (s,g)).2.1.asked.count (.reference k) = s.asked.count (.reference k)

namespace Omits

variable {x : Gathering G A}

theorem pure (a : A) : Omits (pure a : Gathering G A) := fun _ _ _ _ => rfl

theorem bind {f : A → Gathering G B} (hx : Omits x) (hf : ∀ a, Omits (f a)) : Omits (x >>= f) := by
  intro k env s g
  have first := hx k env s g
  rcases run : x env (s,g) with ⟨e | a,s',g'⟩ <;> rw [run] at first
  · rw [Attempt.bind_error run]
    exact first
  · rw [Attempt.bind_ok run]
    exact (hf a k env s' g').trans first

theorem branch {c : Prop} [Decidable c] {y : Gathering G A} (hx : Omits x) (hy : Omits y) :
    Omits (if c then x else y) := by
  split
  · exact hx
  · exact hy

theorem readThen {f : Environment → Gathering G A} (h : ∀ env, Omits (f env)) :
    Omits (do f (← MonadReader.read)) := fun k env s g => h env k env s g

theorem ofSession {x : Session A} (h : SymbolGraph.Omits x) : Omits (ofSession x : Gathering G A) :=
  fun k env s _ => h k env s

theorem update (f : G → G) : Omits (update f) := fun _ _ _ _ => rfl

theorem forM {f : A → Gathering G Unit} {l : List A} (h : ∀ a ∈ l, Omits (f a)) : Omits (l.forM f) := by
  induction l with
  | nil => exact .pure ()
  | cons a l ih =>
    obtain ⟨first,rest⟩ := List.forall_mem_cons.mp h
    exact first.bind fun _ => ih rest

theorem gathered {x : Gathering G Unit} (h : Omits x) (g : G) : SymbolGraph.Omits (gathered x g) := by
  intro k env s
  have ran := h k env s g
  show (Gathering.gathered x g env s).2.asked.count _ = _
  rw [Gathering.gathered]
  rcases run : x env (s,g) with ⟨e | a,s',g'⟩ <;> rw [run] at ran <;> exact ran

variable {v : Visitor G} (enter : ∀ n, Omits (v.enter n)) (leave : ∀ n, Omits (v.leave n))
include enter leave

theorem visitIn (depth : Nat) (n : Node) : Omits (v.visitIn depth n) := by
  induction depth generalizing n with
  | zero => exact .pure ()
  | succ depth ih =>
    refine (enter n).bind fun _ => .branch (.bind ?_ fun _ => leave n) (.pure ())
    refine forM fun group hg => ?_
    exact (ofSession (.of_silent (Silent.childGroups n group hg))).bind fun ns => forM fun m _ => ih m

theorem visit (n : Node) : Omits (v.visit n) := .readThen fun _ => visitIn enter leave _ n

theorem visitFiles : Omits v.visitFiles :=
  (ofSession .allFiles).bind fun _ => forM fun f _ => visit enter leave f.toNode

theorem visitFrom (start : Option SymbolId) : Omits (v.visitFrom start) := by
  cases start with
  | none => exact visitFiles enter leave
  | some id => exact (ofSession (.of_silent (.nodeById id))).bind fun n => visit enter leave n

end Omits
end Gathering

namespace Omits

open Gathering.Omits

theorem names (start : Option SymbolId) (noPackage : String) :
    Gathering.Omits ((Visitor.names noPackage).visitFrom start) := by
  refine visitFrom (fun n => .bind ?_ fun _ => .pure true) (fun _ => .pure ()) start
  dsimp only
  cases n.asDeclaration? with
  | none => exact .pure ()
  | some d =>
    have named : Gathering.Omits (do
        let package ← Gathering.ofSession d.packageName
        Gathering.record ((if package.isEmpty then noPackage else package) ++ ":" ++ d.name)) :=
      (ofSession (of_silent (.packageName d))).bind fun _ => update _
    dsimp only
    cases d.shape <;> first | exact named | exact .pure ()

theorem symbols (skip : SymbolKey → Bool) (start : Option SymbolId) :
    Gathering.Omits ((Visitor.symbols skip).visitFrom start) :=
  visitFrom (fun _ => .pure _) (fun _ => update _) start

theorem references (start : Option SymbolId) : Gathering.Omits (Visitor.references.visitFrom start) := by
  refine visitFrom (fun _ => .pure _) (fun n => ?_) start
  dsimp only [Visitor.references,Visitor.postorder]
  cases n.as? ReferenceForm with
  | none => exact .pure ()
  | some r => exact update _

theorem overridees : Gathering.Omits Processor.overridees.visitFiles := by
  refine visitFiles (fun n => .bind ?_ fun _ => .pure true) fun _ => .pure ()
  dsimp only
  cases n.as? FunctionShape with
  | none => exact .pure ()
  | some f =>
    refine .branch ((ofSession (findOverridee f)).bind fun o => ?_) (.pure ())
    cases o with
    | none => exact .pure ()
    | some o =>
      refine (ofSession (of_silent (.displayName f.toDeclaration))).bind fun _ => ?_
      exact (ofSession (of_silent (.displayName o.toDeclaration))).bind fun _ => update _

theorem comparisons (ts : List InternedType) : Gathering.Omits (ts.forM fun i => ts.forM fun j => do
    Gathering.record (← Gathering.ofSession (Processor.comparison i j))) :=
  forM fun i _ => forM fun j _ => (ofSession (comparison i j)).bind fun _ => update _

end Omits
end SymbolGraph
