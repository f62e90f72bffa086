import SymbolGraph.Proofs.Visit

/-! What a session tells from a state on. Once a question has been answered, the answer stays, and symbols of the
state are told apart by their keys. -/
namespace SymbolGraph

variable {A B C D S : Type} {env : Environment} {s u v : State}

namespace Session

/-- At some time from a state on, a session answers `a`. -/
def Answers (env : Environment) (s : State) (x : Session A) (a : A) : Prop :=
  ∃ u, s.Continues env u ∧ (x env u).1 = .ok a

/-- Whenever it is asked from a state on, a session answers, and it gives the same answer from then on. -/
def Responds (env : Environment) (s : State) (x : Session A) : Prop :=
  ∀ u, s.Continues env u → ∃ a v, x env u = (.ok a,v) ∧ u.Continues env v ∧
    ∀ w, v.Continues env w → (x env w).1 = .ok a

/-- Whenever it is asked from a state on, a session gives an answer that stands for `b`. -/
def Tells (R : Reading A B) (env : Environment) (s : State) (x : Session A) (b : B) : Prop :=
  ∀ u, s.Continues env u → ∃ a v, x env u = (.ok a,v) ∧ u.Continues env v ∧ R v a b

theorem Responds.exists_answer {x : Session A} (h : Responds env s x) (hs : s.Sound env 4) :
    ∃ a, Answers env s x a := by
  obtain ⟨a,v,run,-,-⟩ := h s (.refl hs)
  exact ⟨a,s,.refl hs,congrArg Prod.fst run⟩

end Session

/-- Symbols of a state, in the order of their keys. -/
def Keyed [Viewed S] : Reading (List (View S)) (List SymbolKey) := fun s vs ks =>
  vs.map (·.header.key) = ks ∧ ∀ v ∈ vs, s.node? v.id = some v.toNode

instance [Viewed S] : Lasting (@Keyed S _) := ⟨fun h _ => fun ⟨keys,held⟩ => ⟨keys,fun v hv => h (held v hv)⟩⟩

/-- A reading of answers through what can be made of them. -/
def Reading.through (f : C → A) (R : Reading A B) : Reading C B := fun s c b => R s (f c) b

instance (f : C → A) (R : Reading A B) [Lasting R] : Lasting (R.through f) := ⟨fun h h' => Lasting.mono (R := R) h h'⟩

/-- In a sound state, an answer is determined by what it stands for. -/
class Definite (R : Reading A B) : Prop where
  eq : ∀ {env s a a' b}, State.Sound env 4 s → R s a b → R s a' b → a = a'

/-! ### Symbols and their keys -/

section Views

variable [Viewed S]

theorem View.toNode_injective {v w : View S} (h : v.toNode = w.toNode) : v = w := by
  obtain ⟨header,shape⟩ := v
  obtain ⟨header',shape'⟩ := w
  obtain rfl : header = header' := congrArg View.header h
  have form : Viewed.form shape = Viewed.form shape' := congrArg View.shape h
  have same := (Viewed.ofForm?_eq_some _ shape).mpr rfl
  rw [form,(Viewed.ofForm?_eq_some _ shape').mpr rfl] at same
  rw [Option.some.inj same]

/-- Symbols of one state are one symbol if they have one key. -/
theorem State.Sound.eq_iff (hs : s.Sound env 4) {v w : View S} (hv : s.node? v.id = some v.toNode)
    (hw : s.node? w.id = some w.toNode) : v = w ↔ v.header.key = w.header.key := by
  refine ⟨fun e => by rw [e],fun key => ?_⟩
  have ids : v.id = w.id := hs.unique hv hw key
  rw [ids] at hv
  exact View.toNode_injective (Option.some.inj (hv.symm.trans hw))

namespace Keyed

variable {vs ws : List (View S)} {ks : List SymbolKey} {w : View S}

theorem nil : Keyed s ([] : List (View S)) [] := ⟨rfl,List.forall_mem_nil _⟩

theorem of_shows {v : View S} {w : Sight S} (h : Shows s v w) : Keyed s [v] [w.key] :=
  ⟨congrArg (fun k => [k]) (congrArg Sight.key h.2),List.forall_mem_singleton.mpr h.1⟩

theorem of_each {ws : List (Sight S)} (h : Each Shows s vs ws) : Keyed s vs (ws.map (·.key)) :=
  ⟨h.keys,h.held⟩

theorem of_maybe {v : Option (View S)} {w : Option (Sight S)} (h : Maybe Shows s v w) :
    Keyed s v.toList (w.toList.map (·.key)) := by
  cases h with
  | none => exact .nil
  | some h => exact of_shows h

theorem append {ls : List SymbolKey} (h : Keyed s vs ks) (h' : Keyed s ws ls) : Keyed s (vs ++ ws) (ks ++ ls) :=
  ⟨by rw [List.map_append,h.1,h'.1],List.forall_mem_append.mpr ⟨h.2,h'.2⟩⟩

theorem toDeclaration {T : Type} [Declares T] {vs : List (View T)} (h : Keyed s vs ks) :
    Keyed s (vs.map (·.toDeclaration)) ks := by
  refine ⟨by rw [List.map_map]; exact h.1,fun d hd => ?_⟩
  obtain ⟨v,hv,rfl⟩ := List.mem_map.mp hd
  rw [View.toNode_toDeclaration]
  exact h.2 v hv

theorem mem (hs : s.Sound env 4) (h : Keyed s vs ks) (hw : s.node? w.id = some w.toNode) :
    w ∈ vs ↔ w.header.key ∈ ks := by
  obtain ⟨rfl,held⟩ := h
  constructor
  · exact fun mem => List.mem_map_of_mem mem
  · intro mem
    obtain ⟨v,hv,key⟩ := List.mem_map.mp mem
    rwa [← (hs.eq_iff (held v hv) hw).mpr key]

theorem count [DecidableEq S] (hs : s.Sound env 4) (h : Keyed s vs ks) (hw : s.node? w.id = some w.toNode) :
    vs.count w = ks.count w.header.key := by
  obtain ⟨rfl,held⟩ := h
  induction vs with
  | nil => rfl
  | cons v vs ih =>
    obtain ⟨hv,held⟩ := List.forall_mem_cons.mp held
    have same : (v == w) = (v.header.key == w.header.key) := by
      rw [Bool.eq_iff_iff,beq_iff_eq,beq_iff_eq]
      exact hs.eq_iff hv hw
    rw [List.map_cons,List.count_cons,List.count_cons,same,ih held]

end Keyed

end Views

/-! ### Answers that stay -/

theorem Definite.through {R : Reading A B} [Definite R] {f : C → A} (hf : Function.Injective f) :
    Definite (Reading.through f R) := ⟨fun hs h h' => hf (Definite.eq hs h h')⟩

instance : Definite (@Same A) := ⟨fun _ h h' => Eq.trans h h'.symm⟩

instance [Viewed S] : Definite (@Keyed S _) where
  eq {env s vs ws ks} hs h h' := by
    induction vs generalizing ws ks with
    | nil =>
      obtain ⟨rfl,-⟩ := h
      exact (List.map_eq_nil_iff.mp h'.1).symm
    | cons v vs ih =>
      obtain ⟨rfl,held⟩ := h
      obtain ⟨w,ws,rfl,key,keys⟩ := List.map_eq_cons_iff.mp h'.1
      obtain ⟨hv,held⟩ := List.forall_mem_cons.mp held
      obtain ⟨hw,held'⟩ := List.forall_mem_cons.mp h'.2
      rw [(hs.eq_iff hv hw).mpr key.symm,ih ⟨rfl,held⟩ ⟨keys,held'⟩]

namespace Session.Tells

variable {R : Reading A B} {x : Session A} {a : A} {b : B}

theorem of_agrees {p : Direct B} (agrees : ∀ u, s.Continues env u → Agrees R env 4 u x p) (direct : p env = .ok b) :
    Tells R env s x b := by
  intro u went
  have follows := agrees u went went.sound
  obtain ⟨a,answer,reads⟩ := follows.exists_answer direct
  exact ⟨a,_,Prod.ext answer rfl,⟨follows.grows,follows.sound⟩,reads⟩

theorem imp {R' : Reading A C} {c : C} (h : Tells R env s x b) (reads : ∀ v a, v.Sound env 4 → R v a b → R' v a c) :
    Tells R' env s x c := by
  intro u went
  obtain ⟨a,v,run,goes,hr⟩ := h u went
  exact ⟨a,v,run,goes,reads v a goes.sound hr⟩

theorem bind {Q : Reading C D} {f : A → Session C} {c : D} (h : Tells R env s x b)
    (hf : ∀ v a, s.Continues env v → R v a b → Tells Q env v (f a) c) : Tells Q env s (x >>= f) c := by
  intro u went
  obtain ⟨a,v,run,goes,hr⟩ := h u went
  obtain ⟨c,w,run',goes',hq⟩ := hf v a (went.trans goes) hr v (.refl goes.sound)
  exact ⟨c,w,(Attempt.bind_ok run).trans run',goes.trans goes',hq⟩

theorem pure (h : R s a b) [Lasting R] : Tells R env s (pure a) b :=
  fun u went => ⟨a,u,rfl,.refl went.sound,went.grows.reading h⟩

theorem after (h : Tells R env s x b) (went : s.Continues env u) : Tells R env u x b :=
  fun v later => h v (went.trans later)

theorem of_run (h : Tells R env s x b) (went : s.Continues env u) (run : x env u = (.ok a,v)) :
    u.Continues env v ∧ R v a b := by
  obtain ⟨a',v',run',goes,hr⟩ := h u went
  cases run.symm.trans run'
  exact ⟨goes,hr⟩

/-- What a session answers stands for what it tells. -/
theorem reads (h : Tells R env s x b) (answer : Answers env s x a) : ∃ v, s.Continues env v ∧ R v a b := by
  obtain ⟨u,went,answer⟩ := answer
  obtain ⟨a',v,run,goes,hr⟩ := h u went
  rw [run] at answer
  obtain rfl := Except.ok.inj answer
  exact ⟨v,went.trans goes,hr⟩

theorem responds [Lasting R] [Definite R] (h : Tells R env s x b) : Responds env s x := by
  intro u went
  obtain ⟨a,v,run,goes,hr⟩ := h u went
  refine ⟨a,v,run,goes,fun w later => ?_⟩
  obtain ⟨a',t,again,on,hr'⟩ := h w ((went.trans goes).trans later)
  have kept : R t a b := (later.trans on).grows.reading hr
  rw [again,Definite.eq on.sound kept hr']

end Session.Tells
end SymbolGraph
