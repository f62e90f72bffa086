import SymbolGraph.Proofs.Direct.Genuine

/-! Computations that ask nothing of the oracle. Sources, symbols and texts of types are the same for all oracles. -/
namespace SymbolGraph

namespace Direct

variable {A B : Type} {x : Direct A} {f : A → Direct B}

/-- A computation asks nothing of the oracle. -/
def Unasking (x : Direct A) : Prop := ∀ env o, x { env with oracle := o } = x env

/-- What comes to the same in parts comes to the same. -/
theorem bind_agree {env env' : Environment} {x' : Direct A} {f' : A → Direct B} (first : x env = x' env')
    (rest : ∀ a, x env = .ok a → f a env = f' a env') : (x >>= f) env = (x' >>= f') env' := by
  cases run : x env with
  | error e => rw [bind_error run,bind_error (first.symm.trans run)]
  | ok a => rw [bind_ok run,bind_ok (first.symm.trans run),rest a run]

theorem mapM_agree {env env' : Environment} {f' : A → Direct B} {as : List A}
    (each : ∀ a ∈ as, f a env = f' a env') : as.mapM f env = as.mapM f' env' := by
  induction as with
  | nil => rfl
  | cons a as ih =>
    obtain ⟨first,each⟩ := List.forall_mem_cons.mp each
    rw [List.mapM_cons,List.mapM_cons]
    exact bind_agree first fun _ _ => bind_agree (ih each) fun _ _ => rfl

theorem Unasking.bind (hx : Unasking x) (hf : ∀ a, Unasking (f a)) : Unasking (x >>= f) := fun env o =>
  bind_agree (hx env o) fun a _ => hf a env o

theorem Unasking.pure (a : A) : Unasking (Pure.pure a) := fun _ _ => rfl

theorem Unasking.fail (e : Error) : Unasking (Direct.fail e : Direct A) := fun _ _ => rfl

theorem Unasking.orFail (e : Error) (o : Option A) : Unasking (Direct.orFail e o) := by
  cases o with
  | none => exact .fail e
  | some a => exact .pure a

theorem Unasking.rescue {g : Error → Direct A} (hx : Unasking x) (hg : ∀ e, Unasking (g e)) :
    Unasking (tryCatch x g) := by
  intro env o
  cases run : x env with
  | error e => rw [rescue_error run,rescue_error ((hx env o).trans run),hg e env o]
  | ok a => rw [rescue_ok run,rescue_ok ((hx env o).trans run)]

theorem model_unasking (i : SourceId) : Unasking (model i) := fun env o =>
  Unasking.orFail (.unknownSource i) (env.models.arena? i) env o

theorem rawShape_unasking (k : NodeKey) : Unasking (rawShape k) :=
  (model_unasking k.source).bind fun _ => .orFail _ _

theorem rawAncestors_unasking (k : NodeKey) : Unasking (rawAncestors k) :=
  (model_unasking k.source).bind fun _ => .pure _

theorem node_unasking (k : NodeKey) : Unasking (node k) :=
  (model_unasking k.source).bind fun _ => (rawShape_unasking k).bind fun _ => .pure _

theorem symbol_unasking (k : SymbolKey) : Unasking (symbol k) := by
  cases k with
  | node k => exact node_unasking k
  | deferred owner => exact (model_unasking owner.source).bind fun _ => .pure _

theorem typed_unasking (S : Type) [OneKind S] (k : NodeKey) : Unasking (typed S k) :=
  (node_unasking k).bind fun _ => .orFail _ _

theorem anyFunction_unasking (ks : List NodeKey) : Unasking (anyFunction ks) := by
  induction ks with
  | nil => exact .pure false
  | cons k ks ih =>
    refine (rawShape_unasking k).bind fun s => ?_
    split
    · exact .pure true
    · exact ih

theorem Unasking.filterMapM {C : Type} {f : C → Direct (Option A)} (hf : ∀ c, Unasking (f c)) (cs : List C) :
    Unasking (cs.filterMapM f) := by
  have loop : ∀ taken, Unasking (List.filterMapM.loop f cs taken) := by
    induction cs with
    | nil => exact fun taken => .pure taken.reverse
    | cons c cs ih =>
      intro taken
      refine (hf c).bind fun a => ?_
      cases a with
      | none => exact ih taken
      | some a => exact ih (a :: taken)
  exact loop []

end Direct

namespace ResolvedType

open Direct

theorem declared_unasking (t : ResolvedType) : Unasking t.declared :=
  (node_unasking t.declaration).bind fun _ => .orFail _ _

theorem alias?_unasking (t : ResolvedType) : Unasking t.alias? := t.declared_unasking.bind fun _ => .pure _

theorem headName_unasking (t : ResolvedType) : Unasking t.headName :=
  (t.declared_unasking.bind fun _ => .pure _).rescue fun _ => .pure _

theorem names_unasking (ts : List ResolvedType) : Unasking (names ts) := by
  induction ts with
  | nil => exact .pure []
  | cons t ts ih =>
    rw [names,List.mapM_cons]
    exact (t.declared_unasking.bind fun _ => .pure _).bind fun _ => ih.bind fun _ => .pure _

mutual
theorem shown_unasking : (t : ResolvedType) → Unasking t.shown
  | ⟨declaration,arguments,nullable⟩ => by
    rw [shown]
    exact (headName_unasking _).bind fun _ => (shownArguments_unasking arguments).bind fun _ => .pure _
theorem shownOption_unasking (v : Variance) : (t : Option ResolvedType) → Unasking (shownOption v t)
  | none => .pure _
  | some t => by
    rw [shownOption]
    exact (shown_unasking t).bind fun _ => .pure _
theorem shownArgument_unasking : (a : TypeArgument) → Unasking (shownArgument a)
  | ⟨v,t⟩ => by
    rw [shownArgument]
    exact shownOption_unasking v t
theorem shownArguments_unasking : (as : List TypeArgument) → Unasking (shownArguments as)
  | [] => .pure _
  | a :: as => by
    rw [shownArguments]
    exact (shownArgument_unasking a).bind fun _ => (shownArguments_unasking as).bind fun _ => .pure _
end

end ResolvedType
end SymbolGraph
