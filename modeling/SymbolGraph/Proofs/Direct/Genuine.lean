import SymbolGraph.Proofs.Direct.Basic
import SymbolGraph.Proofs.Models

/-! Direct computations over well-formed models. Every symbol that is reached from a genuine one is
genuine again, and where declarations stand is found without a failure. -/
namespace SymbolGraph

variable {A B : Type} {env : Environment}

namespace Direct

/-- A computation answers as described, or fails with an error that is allowed. -/
def Within (allowed : Error → Prop) (env : Environment) (x : Direct A) (post : A → Prop) : Prop :=
  match x env with
  | .ok a => post a
  | .error e => allowed e

namespace Within

variable {allowed : Error → Prop} {x : Direct A} {P : A → Prop} {Q : B → Prop}

theorem ok {a : A} (run : x env = .ok a) (h : P a) : Within allowed env x P := by
  rw [Within,run]; exact h

theorem error {e : Error} (run : x env = .error e) (h : allowed e) : Within allowed env x P := by
  rw [Within,run]; exact h

theorem done {a : A} (run : x env = .ok a) : Within allowed env x fun _ => True := ok run trivial

theorem ok_or_error (h : Within allowed env x P) :
    (∃ a, x env = .ok a ∧ P a) ∨ ∃ e, x env = .error e ∧ allowed e := by
  rw [Within] at h
  cases run : x env with
  | ok a => rw [run] at h; exact .inl ⟨a,rfl,h⟩
  | error e => rw [run] at h; exact .inr ⟨e,rfl,h⟩

theorem exists_ok (h : Within (fun _ => False) env x P) : ∃ a, x env = .ok a ∧ P a :=
  h.ok_or_error.resolve_right fun ⟨_,_,never⟩ => never

theorem pure {a : A} (h : P a) : Within allowed env (pure a) P := h

theorem fail {e : Error} (h : allowed e) : Within allowed env (Direct.fail e : Direct A) P := h

theorem orFail {o : Option A} {e : Error} (h : ∀ a, o = some a → P a) (none : o = none → allowed e) :
    Within allowed env (Direct.orFail e o) P := by
  cases o with
  | none => exact none rfl
  | some a => exact h a rfl

/-- What is there is found. -/
theorem found {o : Option A} {e : Error} {a : A} (there : o = some a) (h : P a) :
    Within allowed env (Direct.orFail e o) P := by
  rw [there]; exact .pure h

/-- Goes on from an answer that is known. -/
theorem after {f : A → Direct B} {a : A} (run : x env = .ok a) (h : Within allowed env (f a) Q) :
    Within allowed env (x >>= f) Q := by
  rw [Within,bind_ok run]; exact h

theorem bind {f : A → Direct B} (hx : Within allowed env x P)
    (hf : ∀ a, P a → Within allowed env (f a) Q) : Within allowed env (x >>= f) Q := by
  rcases hx.ok_or_error with ⟨a,run,h⟩ | ⟨e,run,h⟩
  · exact .after run (hf a h)
  · exact .error (bind_error run) h

theorem readThen {f : Environment → Direct A} (h : Within allowed env (f env) P) :
    Within allowed env (do f (← MonadReader.read)) P := h

theorem map {f : A → B} (hx : Within allowed env x P) (hf : ∀ a, P a → Q (f a)) :
    Within allowed env (do return f (← x)) Q :=
  hx.bind fun a h => .pure (hf a h)

theorem weaken {R : A → Prop} (hx : Within allowed env x P) (h : ∀ a, P a → R a) :
    Within allowed env x R := by
  rcases hx.ok_or_error with ⟨a,run,ha⟩ | ⟨e,run,he⟩
  · exact .ok run (h a ha)
  · exact .error run he

theorem any : Within (fun _ => True) env x fun _ => True := by
  cases run : x env with
  | ok a => exact .done run
  | error e => exact .error run trivial

theorem rescue {f : Error → Direct A} (hx : Within (fun _ => True) env x P)
    (hf : ∀ e, Within allowed env (f e) P) : Within allowed env (tryCatch x f) P := by
  rcases hx.ok_or_error with ⟨a,run,h⟩ | ⟨e,run,-⟩
  · exact .ok (rescue_ok run) h
  · rw [Within,rescue_error run]; exact hf e

theorem mapM {C : Type} {f : C → Direct A} {l : List C} (h : ∀ c ∈ l, Within allowed env (f c) P) :
    Within allowed env (l.mapM f) fun as => ∀ a ∈ as, P a := by
  induction l with
  | nil => exact .pure nofun
  | cons c l ih =>
    rw [List.mapM_cons]
    refine (h c List.mem_cons_self).bind fun a ha => ?_
    refine (ih fun c hc => h c (List.mem_cons_of_mem _ hc)).bind fun as has => .pure ?_
    exact List.forall_mem_cons.mpr ⟨ha,has⟩

/-- What is kept of a list is of the list, and has the property that it is kept for. -/
theorem filterM {C : Type} {f : C → Direct Bool} {l : List C} {Q : C → Prop}
    (h : ∀ c ∈ l, Within allowed env (f c) fun b => b = true → Q c) :
    Within allowed env (l.filterM f) fun r => ∀ c ∈ r, c ∈ l ∧ Q c := by
  have loop : ∀ (r taken : List C), (∀ c ∈ r, c ∈ l) → (∀ c ∈ taken, c ∈ l ∧ Q c) →
      Within allowed env (r.filterAuxM f taken) fun r => ∀ c ∈ r, c ∈ l ∧ Q c := by
    intro r
    induction r with
    | nil => exact fun taken _ ht => .pure ht
    | cons c r ih =>
      intro taken hr ht
      obtain ⟨hc,hr⟩ := List.forall_mem_cons.mp hr
      refine (h c hc).bind fun b hb => ih _ hr ?_
      cases b with
      | false => exact ht
      | true => exact List.forall_mem_cons.mpr ⟨⟨hc,hb rfl⟩,ht⟩
  exact (loop l [] (fun _ => id) nofun).bind fun r hr => .pure fun c hc => hr c (List.mem_reverse.mp hc)

end Within

/-! ### The sources -/

variable {k : NodeKey} {s : Shape} {a : Arena}

theorem bind_eq_ok {x : Direct A} {f : A → Direct B} {b : B} :
    (x >>= f) env = .ok b ↔ ∃ a, x env = .ok a ∧ f a env = .ok b := by
  constructor
  · intro h
    cases e : x env with
    | ok a => exact ⟨a,rfl,by rwa [bind_ok e] at h⟩
    | error er => rw [bind_error e] at h; cases h
  · rintro ⟨a,e,h⟩
    rw [bind_ok e,h]

theorem bind_eq_error {x : Direct A} {f : A → Direct B} {e : Error} :
    (x >>= f) env = .error e ↔ x env = .error e ∨ ∃ a, x env = .ok a ∧ f a env = .error e := by
  cases run : x env with
  | error e' => simp [bind_error run]
  | ok a => simp [bind_ok run]

theorem orFail_eq_ok {e : Error} {o : Option A} {a : A} : orFail e o env = .ok a ↔ o = some a := by
  cases o with
  | none => exact ⟨nofun,nofun⟩
  | some b => exact ⟨fun h => congrArg some (Except.ok.inj h),fun h => congrArg Except.ok (Option.some.inj h)⟩

theorem ask_eq (answer : Oracle → A) : ask answer env = .ok (answer env.oracle) := rfl

theorem descriptor_eq_ok {d : Descriptor} :
    descriptor k env = .ok d ↔ env.oracle.descriptor k = some d := by
  rw [descriptor,bind_ok (ask_eq _)]
  exact orFail_eq_ok

/-- A computation that answers no unless a condition holds. -/
theorem guard_eq_ok_true {c : Bool} {x : Direct Bool} :
    (if !c then Pure.pure false else x) env = .ok true ↔ c = true ∧ x env = .ok true := by
  cases c with
  | false => exact ⟨nofun,nofun⟩
  | true => exact ⟨fun h => ⟨rfl,h⟩,And.right⟩

theorem model_eq_ok {i : SourceId} : model i env = .ok a ↔ env.models.arena? i = some a :=
  orFail_eq_ok (e := .unknownSource i)

theorem model_eq {i : SourceId} (h : env.models.arena? i = some a) : model i env = .ok a :=
  model_eq_ok.mpr h

theorem rawShape_eq_ok : rawShape k env = .ok s ↔ env.models.shape? k = some s := by
  constructor
  · intro h
    obtain ⟨a,ha,hs⟩ := bind_eq_ok.mp h
    rw [Models.shape?_eq (model_eq_ok.mp ha)]
    exact orFail_eq_ok.mp hs
  · intro h
    obtain ⟨a,ha,hs⟩ := Models.exists_arena_of_shape? h
    rw [rawShape,bind_ok (model_eq ha),hs]; rfl

theorem rawShape_eq (h : env.models.shape? k = some s) : rawShape k env = .ok s := rawShape_eq_ok.mpr h

theorem node_eq_ok {n : Sight Form} : node k env = .ok n ↔
    ∃ a s, env.models.arena? k.source = some a ∧ env.models.shape? k = some s ∧
      n = ⟨.node k,a.origin,a.location k.node,.written s⟩ := by
  constructor
  · intro h
    obtain ⟨a,ha,h⟩ := bind_eq_ok.mp h
    obtain ⟨s,hs,made⟩ := bind_eq_ok.mp h
    exact ⟨a,s,model_eq_ok.mp ha,rawShape_eq_ok.mp hs,(Except.ok.inj made).symm⟩
  · rintro ⟨a,s,ha,hs,rfl⟩
    rw [node,bind_ok (model_eq ha),bind_ok (rawShape_eq hs)]; rfl

theorem deferredReference_eq_ok {n : Sight ReferenceForm} : deferredReference k env = .ok n ↔
    ∃ a, env.models.arena? k.source = some a ∧ n = ⟨.deferred k,a.origin,.nonExisting,.deferred⟩ := by
  constructor
  · intro h
    obtain ⟨a,ha,made⟩ := bind_eq_ok.mp h
    exact ⟨a,model_eq_ok.mp ha,(Except.ok.inj made).symm⟩
  · rintro ⟨a,ha,rfl⟩
    rw [deferredReference,bind_ok (model_eq ha)]; rfl

/-- What a deferred key stands for is a reference that is not written. -/
theorem symbol_deferred_eq_ok {n : Sight Form} : symbol (.deferred k) env = .ok n ↔
    ∃ a, env.models.arena? k.source = some a ∧ n = ⟨.deferred k,a.origin,.nonExisting,.deferred⟩ := by
  constructor
  · intro h
    obtain ⟨a,ha,made⟩ := bind_eq_ok.mp h
    exact ⟨a,model_eq_ok.mp ha,(Except.ok.inj made).symm⟩
  · rintro ⟨a,ha,rfl⟩
    rw [symbol,bind_ok (model_eq ha)]; rfl

theorem rawParent?_eq (h : env.models.arena? k.source = some a) :
    rawParent? k env = .ok (env.models.parent? k) := by
  rw [rawParent?,bind_ok (model_eq h),Models.parent?_eq h]; rfl

theorem rawAncestors_eq (h : env.models.arena? k.source = some a) :
    rawAncestors k env = .ok (env.models.ancestors k) := by
  rw [rawAncestors,bind_ok (model_eq h),Models.ancestors_eq h]; rfl

end Direct

/-! ### Genuine symbols -/

namespace Sight

/-- What has the form of a narrower view can be seen through it. -/
theorem exists_as? {S T : Type} [Viewed S] [Viewed T] {v : Sight S} {t : T}
    (h : Viewed.form t = Viewed.form v.shape) : ∃ w, v.as? T = some w := by
  refine ⟨⟨v.key,v.origin,v.location,t⟩,as?_eq_some.mpr ?_⟩
  rw [toNode,toNode,h]

theorem key_of_as? {S T : Type} [Viewed S] [Viewed T] {v : Sight S} {w : Sight T}
    (h : v.as? T = some w) : w.key = v.key :=
  (congrArg Sight.key (as?_eq_some.mp h)).symm

/-- A symbol is what its key stands for. -/
def Genuine {S : Type} [Viewed S] (env : Environment) (v : Sight S) : Prop :=
  Direct.symbol v.key env = .ok v.toNode

namespace Genuine

variable {S : Type} [Viewed S] {v : Sight S}

theorem toNode (h : v.Genuine env) : v.toNode.Genuine env := h

theorem toDeclaration {S : Type} [Declares S] {v : Sight S} (h : v.Genuine env) :
    v.toDeclaration.Genuine env := by
  rw [Genuine,toNode_toDeclaration]; exact h

theorem narrow {T : Type} [Viewed T] {w : Sight T} (h : v.Genuine env) (e : v.as? T = some w) :
    w.Genuine env := by
  rw [Genuine,key_of_as? e,← as?_eq_some.mp e]; exact h

/-- What is written is in the models. -/
theorem written (h : v.Genuine env) {s : Shape} (e : Viewed.form v.shape = .written s) :
    v.key = .node v.anchor ∧ env.models.shape? v.anchor = some s := by
  obtain ⟨key,origin,location,shape⟩ := v
  cases key with
  | deferred owner =>
    obtain ⟨a,-,made⟩ := Direct.symbol_deferred_eq_ok.mp h
    have form : Viewed.form shape = .deferred := congrArg Sight.shape made
    cases e.symm.trans form
  | node k =>
    obtain ⟨a,t,-,ht,made⟩ := Direct.node_eq_ok.mp h
    have form : Viewed.form shape = .written t := congrArg Sight.shape made
    cases e.symm.trans form
    exact ⟨rfl,ht⟩

/-- The symbol of a node is written. -/
theorem exists_written (h : v.Genuine env) {k : NodeKey} (e : v.key = .node k) :
    ∃ s, Viewed.form v.shape = .written s := by
  rw [Genuine,e] at h
  obtain ⟨a,s,-,-,made⟩ := Direct.node_eq_ok.mp h
  exact ⟨s,congrArg Sight.shape made⟩

/-- A symbol is of the model that holds its anchor. -/
theorem exists_arena (h : v.Genuine env) :
    ∃ a, env.models.arena? v.anchor.source = some a ∧ v.origin = a.origin := by
  obtain ⟨key,origin,location,shape⟩ := v
  cases key with
  | deferred owner =>
    obtain ⟨a,ha,made⟩ := Direct.symbol_deferred_eq_ok.mp h
    exact ⟨a,ha,congrArg Sight.origin made⟩
  | node k =>
    obtain ⟨a,_,ha,-,made⟩ := Direct.node_eq_ok.mp h
    exact ⟨a,ha,congrArg Sight.origin made⟩

end Genuine

end Sight

namespace Direct

theorem symbol_genuine {k : SymbolKey} {n : Sight Form} (h : symbol k env = .ok n) :
    n.Genuine env ∧ n.key = k := by
  have key : n.key = k := by
    cases k with
    | deferred owner =>
      obtain ⟨a,-,rfl⟩ := symbol_deferred_eq_ok.mp h
      rfl
    | node k =>
      obtain ⟨a,s,-,-,rfl⟩ := node_eq_ok.mp h
      rfl
  exact ⟨by rw [Sight.Genuine,key]; exact h,key⟩

theorem typed_eq_ok {S : Type} [OneKind S] {k : NodeKey} {v : Sight S} (h : typed S k env = .ok v) :
    v.Genuine env ∧ v.key = .node k := by
  obtain ⟨w,hw,seen⟩ := bind_eq_ok.mp h
  obtain ⟨genuine,key⟩ := symbol_genuine (k := .node k) hw
  have narrow := orFail_eq_ok.mp seen
  exact ⟨genuine.narrow narrow,(Sight.key_of_as? narrow).trans key⟩

variable {k : NodeKey} {s : Shape} {allowed : Error → Prop}

/-- What is in the models is shown by a genuine symbol. -/
theorem exists_genuine {S : Type} [Viewed S] (h : env.models.shape? k = some s) {t : S}
    (e : Viewed.form t = .written s) :
    ∃ v : Sight S, v.Genuine env ∧ v.key = .node k ∧ v.shape = t := by
  obtain ⟨a,ha,-⟩ := Models.exists_arena_of_shape? h
  refine ⟨⟨.node k,a.origin,a.location k.node,t⟩,?_,rfl,rfl⟩
  exact node_eq_ok.mpr ⟨a,s,ha,h,by rw [Sight.toNode,e]⟩

theorem node_within (h : env.models.shape? k = some s) :
    Within allowed env (node k) fun w => w.Genuine env ∧ w.key = .node k ∧ w.shape = .written s := by
  obtain ⟨w,genuine,key,shape⟩ : ∃ w : Sight Form, w.Genuine env ∧ w.key = .node k ∧ w.shape = .written s :=
    exists_genuine h rfl
  have run : node k env = .ok w := by
    rw [Sight.Genuine,key] at genuine; exact genuine
  exact .ok run ⟨genuine,key,shape⟩

theorem typed_within (S : Type) [OneKind S] (h : env.models.shape? k = some s)
    (hk : s.kind = OneKind.kind S) :
    Within allowed env (typed S k) fun v => v.Genuine env ∧ v.key = .node k := by
  refine (node_within h).bind fun w ⟨genuine,key,shape⟩ => ?_
  obtain ⟨t,ht⟩ := OneKind.exists_form (S := S) w.shape (by rw [shape]; exact hk)
  obtain ⟨v,seen⟩ := Sight.exists_as? (v := w) ht.symm
  exact .found seen ⟨genuine.narrow seen,(Sight.key_of_as? seen).trans key⟩

theorem deferredReference_within {a : Arena} (h : env.models.arena? k.source = some a) :
    Within allowed env (deferredReference k) fun r => r.Genuine env ∧ r.key = .deferred k :=
  .ok (deferredReference_eq_ok.mpr ⟨a,h,rfl⟩) ⟨symbol_deferred_eq_ok.mpr ⟨a,h,rfl⟩,rfl⟩

end Direct
end SymbolGraph
