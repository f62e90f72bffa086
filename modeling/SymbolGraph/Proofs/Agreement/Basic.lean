import Mathlib.Data.List.Forall2
import SymbolGraph.Proofs.Direct.Basic

/-! What a session remembers is what it would compute: a state is sound if every symbol in it is the one
that its key stands for, and if every attribute that is resolved holds its value. A session agrees with
a direct computation if from every sound state it answers the same, up to ids, and leaves a sound state
that has only grown. -/
namespace SymbolGraph

/-- Attributes of a higher rank may be computed from those of lower ranks. -/
def Attribute.rank : Attribute → Nat
  | .isLocal | .parentDeclaration | .containingFile | .children _ | .type => 0
  | .packageName => 1
  | .qualifiedName => 2
  | .overridee => 3

/-! ### What answers of a session stand for -/

/-- How answers of a session stand for direct answers in a state. -/
abbrev Reading (A B : Type) := State → A → B → Prop

/-- Answers that hold no ids stand for themselves. -/
def Same {A : Type} : Reading A A := fun _ a b => a = b

/-- A view stands for what it shows, and is a view of the symbol of its id. -/
def Shows {S : Type} [Viewed S] : Reading (View S) (Sight S) := fun s v w =>
  s.node? v.id = some v.toNode ∧ v.sight = w

def Identifies : Reading SymbolId (Sight Form) := fun s id w => ∃ n, s.node? id = some n ∧ n.sight = w

def Types : Reading TypeId ResolvedType := fun s id t => s.types.get? id = some t

def Interns : Reading InternedType ResolvedType := fun s t r =>
  s.types.get? t.id = some t.resolved ∧ t.resolved = r

section Containers

variable {A B : Type}

def Each (R : Reading A B) : Reading (List A) (List B) := fun s => List.Forall₂ (R s)

def Maybe (R : Reading A B) : Reading (Option A) (Option B) := fun s => Option.Rel (R s)

end Containers

def Attribute.reading : (a : Attribute) → Reading a.Value a.Seen
  | .packageName | .qualifiedName | .isLocal => Same
  | .parentDeclaration | .overridee => Maybe Identifies
  | .containingFile => Identifies
  | .children _ => Each Identifies
  | .type => Types

namespace State

/-- What a state remembers is kept, and no computation is begun without being ended. -/
structure Grows (s s' : State) : Prop where
  node : ∀ {id n}, s.node? id = some n → s'.node? id = some n
  type : ∀ {id t}, s.types.get? id = some t → s'.types.get? id = some t
  resolved : ∀ {id a v}, (cell id a).get s = .resolved v → (cell id a).get s' = .resolved v
  resolving : ∀ {id a}, (cell id a).get s' = .resolving → (cell id a).get s = .resolving

theorem Grows.refl (s : State) : s.Grows s := ⟨id,id,id,id⟩

theorem Grows.trans {s s' s'' : State} (h : s.Grows s') (h' : s'.Grows s'') : s.Grows s'' :=
  ⟨fun e => h'.node (h.node e),fun e => h'.type (h.type e),fun e => h'.resolved (h.resolved e),
    fun e => h.resolving (h'.resolving e)⟩

end State

/-- Readings that hold on when a state grows. -/
class Lasting {A B : Type} (R : Reading A B) : Prop where
  mono : ∀ {s s' : State}, (∀ {id n}, s.node? id = some n → s'.node? id = some n) →
    (∀ {id t}, s.types.get? id = some t → s'.types.get? id = some t) → ∀ {a b}, R s a b → R s' a b

namespace Lasting

variable {A B : Type} (R : Reading A B) [Lasting R]

instance : Lasting (@Same A) := ⟨fun _ _ => id⟩

instance {S : Type} [Viewed S] : Lasting (@Shows S _) := ⟨fun h _ => fun ⟨e,e'⟩ => ⟨h e,e'⟩⟩

instance : Lasting Identifies := ⟨fun h _ => fun ⟨n,e,e'⟩ => ⟨n,h e,e'⟩⟩

instance : Lasting Types := ⟨fun _ h => h⟩

instance : Lasting Interns := ⟨fun _ h => fun ⟨e,e'⟩ => ⟨h e,e'⟩⟩

instance : Lasting (Each R) := ⟨fun h h' => List.Forall₂.imp fun _ _ => Lasting.mono h h'⟩

instance : Lasting (Maybe R) := ⟨fun h h' _ _ r => by
  cases r with
  | some r => exact .some (Lasting.mono h h' r)
  | none => exact .none⟩

instance (a : Attribute) : Lasting a.reading := by
  cases a <;> (unfold Attribute.reading; infer_instance)

end Lasting

theorem State.Grows.reading {A B : Type} {R : Reading A B} [Lasting R] {s s' : State} (g : s.Grows s')
    {a : A} {b : B} (h : R s a b) : R s' a b := Lasting.mono g.node g.type h

namespace State

/-- What is remembered is right, and the attributes below a rank are not being computed. -/
structure Sound (env : Environment) (rank : Nat) (s : State) : Prop where
  id_eq : ∀ {id n}, s.node? id = some n → n.header.id = id
  symbol : ∀ {id n}, s.node? id = some n → Direct.symbol n.header.key env = .ok n.sight
  indexed : ∀ {k id}, s.id? k = some id ↔ ∃ n, s.node? id = some n ∧ n.header.key = k
  value : ∀ {id n a v}, s.node? id = some n → (cell id a).get s = .resolved v →
    ∃ b, n.sight.value a env = .ok b ∧ a.reading s v b
  idle : ∀ {id a}, (cell id a).get s = .resolving → rank ≤ a.rank

theorem sound_initial (env : Environment) (rank : Nat) : Sound env rank .initial where
  id_eq h := by simp at h
  symbol h := by simp at h
  indexed := by simp
  value h := by simp at h
  idle h := by simp [cell,initial] at h

/-- Symbols of one key are one symbol. -/
theorem Sound.unique {env : Environment} {rank : Nat} {s : State} (h : Sound env rank s) {i j : SymbolId}
    {m n : Node} (hm : s.node? i = some m) (hn : s.node? j = some n) (same : m.header.key = n.header.key) :
    i = j := by
  have hi := h.indexed.mpr ⟨m,hm,same⟩
  have hj := h.indexed.mpr ⟨n,hn,rfl⟩
  exact Option.some.inj (hi.symm.trans hj)

end State

/-! ### Agreement -/

section Agreement

variable {A B A' B' : Type} {R : Reading A B} {R' : Reading A' B'}

/-- Two outcomes are the same error, or answers of which one stands for the other. -/
def Matches (R : Reading A B) (s : State) : Except Error A → Except Error B → Prop
  | .ok a, .ok b => R s a b
  | .error e, .error e' => e = e'
  | _, _ => False

theorem Matches.eq {A : Type} {s : State} {x y : Except Error A} (h : Matches Same s x y) : x = y := by
  cases x <;> cases y <;> first | exact congrArg _ h | exact h.elim

/-- What a run from a state leads to. -/
structure Follows (R : Reading A B) (env : Environment) (rank : Nat) (s : State)
    (r : Except Error A × State) (d : Except Error B) : Prop where
  grows : s.Grows r.2
  sound : r.2.Sound env rank
  answer : Matches R r.2 r.1 d

namespace Follows

variable {env : Environment} {rank : Nat} {s : State} {r : Except Error A × State} {d : Except Error B}

theorem exists_direct (h : Follows R env rank s r d) {a : A} (ok : r.1 = .ok a) :
    ∃ b, d = .ok b ∧ R r.2 a b := by
  have answer := h.answer
  cases d with
  | error e => rw [ok] at answer; exact answer.elim
  | ok b => rw [ok] at answer; exact ⟨b,rfl,answer⟩

theorem exists_answer (h : Follows R env rank s r d) {b : B} (ok : d = .ok b) :
    ∃ a, r.1 = .ok a ∧ R r.2 a b := by
  have answer := h.answer
  cases ha : r.1 with
  | error e => rw [ha,ok] at answer; exact answer.elim
  | ok a => rw [ha,ok] at answer; exact ⟨a,rfl,answer⟩

/-- The errors are the same. -/
theorem error_iff (h : Follows R env rank s r d) {e : Error} : r.1 = .error e ↔ d = .error e := by
  have answer := h.answer
  cases hr : r.1 <;> cases hd : d <;> rw [hr,hd] at answer
  case error.error e₁ e₂ =>
    have same : e₁ = e₂ := answer
    rw [same,Except.error.injEq,Except.error.injEq]
  case ok.ok => exact ⟨nofun,nofun⟩
  case error.ok => exact answer.elim
  case ok.error => exact answer.elim

/-- If an answer determines what it agrees with, then so does a run. -/
theorem map_eq (h : Follows R env rank s r d) {f : A → B} (agree : ∀ a b, R r.2 a b → f a = b) :
    r.1.map f = d := by
  cases hd : d with
  | error e =>
    rw [h.error_iff.mpr hd]
    rfl
  | ok b =>
    obtain ⟨a,ok,related⟩ := h.exists_answer hd
    rw [ok,← agree a b related]
    rfl

end Follows

/-- A session answers from a state as a direct computation does. It may read attributes whose rank is
less than `rank`. -/
def Agrees (R : Reading A B) (env : Environment) (rank : Nat) (s : State) (x : Session A)
    (p : Direct B) : Prop :=
  s.Sound env rank → Follows R env rank s (x env s) (p env)

namespace Agrees

variable {env : Environment} {rank : Nat} {s : State} {x : Session A} {p : Direct B}

theorem pure {a : A} {b : B} (h : R s a b) : Agrees R env rank s (pure a) (pure b) :=
  fun hs => ⟨.refl s,hs,h⟩

theorem fail (e : Error) : Agrees R env rank s (Session.fail e) (Direct.fail e) :=
  fun hs => ⟨.refl s,hs,rfl⟩

theorem bind {f : A → Session A'} {g : B → Direct B'} (hx : Agrees R env rank s x p)
    (hf : ∀ s' a b, s.Grows s' → R s' a b → Agrees R' env rank s' (f a) (g b)) :
    Agrees R' env rank s (x >>= f) (p >>= g) := by
  intro hs
  obtain ⟨g₁,h₁,m₁⟩ := hx hs
  rcases hr : x env s with ⟨_ | a,s'⟩ <;> rcases hd : p env with _ | b <;> rw [hr] at g₁ h₁ <;>
    rw [hr,hd] at m₁
  · rw [Attempt.bind_error hr,Direct.bind_error hd]
    exact ⟨g₁,h₁,m₁⟩
  · exact m₁.elim
  · exact m₁.elim
  · rw [Attempt.bind_ok hr,Direct.bind_ok hd]
    obtain ⟨g₂,h₂,m₂⟩ := hf s' a b g₁ m₁ h₁
    exact ⟨g₁.trans g₂,h₂,m₂⟩

theorem map {f : A → A'} {g : B → B'} (hx : Agrees R env rank s x p)
    (hf : ∀ s' a b, s.Grows s' → R s' a b → R' s' (f a) (g b)) :
    Agrees R' env rank s (do return f (← x)) (do return g (← p)) :=
  hx.bind fun s' a b g h => .pure (hf s' a b g h)

/-- Answers may be read in another way. -/
theorem as (hx : Agrees R env rank s x p) {R' : Reading A B} (hr : ∀ {s a b}, R s a b → R' s a b) :
    Agrees R' env rank s x p := by
  intro hs
  obtain ⟨g,h,m⟩ := hx hs
  refine ⟨g,h,?_⟩
  revert m
  cases (x env s).1 <;> cases p env <;> first | exact hr | exact id

theorem branch {c : Prop} [Decidable c] {y : Session A} {q : Direct B} (hx : Agrees R env rank s x p)
    (hy : Agrees R env rank s y q) :
    Agrees R env rank s (if c then x else y) (if c then p else q) := by
  split
  · exact hx
  · exact hy

theorem orFail {a : Option A} {b : Option B} (e : Error) (h : Maybe R s a b) :
    Agrees R env rank s (Session.orFail e a) (Direct.orFail e b) := by
  cases h with
  | some h => exact .pure h
  | none => exact .fail e

theorem rescue {f : Error → Session A} {g : Error → Direct B} (hx : Agrees R env rank s x p)
    (hf : ∀ s' e, s.Grows s' → Agrees R env rank s' (f e) (g e)) :
    Agrees R env rank s (tryCatch x f) (tryCatch p g) := by
  intro hs
  obtain ⟨g₁,h₁,m₁⟩ := hx hs
  rcases hr : x env s with ⟨e | a,s'⟩ <;> rcases hd : p env with e' | b <;> rw [hr] at g₁ h₁ <;>
    rw [hr,hd] at m₁
  · obtain rfl : e = e' := m₁
    rw [Attempt.rescue_error hr,Direct.rescue_error hd]
    obtain ⟨g₂,h₂,m₂⟩ := hf s' e g₁ h₁
    exact ⟨g₁.trans g₂,h₂,m₂⟩
  · exact m₁.elim
  · exact m₁.elim
  · rw [Attempt.rescue_ok hr,Direct.rescue_ok hd]
    exact ⟨g₁,h₁,m₁⟩

/-- What is read off the surroundings alone. -/
theorem read {f : Environment → A} :
    Agrees Same env rank s (do return f (← MonadReader.read)) (do return f (← MonadReader.read)) :=
  fun hs => ⟨.refl s,hs,rfl⟩

theorem readThen {f : Environment → Session A} {g : Environment → Direct B}
    (h : Agrees R env rank s (f env) (g env)) :
    Agrees R env rank s (do f (← MonadReader.read)) (do g (← MonadReader.read)) := h

/-! ### Lists -/

variable {C D : Type} {Q : Reading C D}

theorem mapM [Lasting Q] [Lasting R] {f : C → Session A} {g : D → Direct B} {cs : List C}
    {ds : List D} (h : Each Q s cs ds)
    (hf : ∀ s' c d, s.Grows s' → Q s' c d → Agrees R env rank s' (f c) (g d)) :
    Agrees (Each R) env rank s (cs.mapM f) (ds.mapM g) := by
  induction cs generalizing ds s with
  | nil =>
    cases h
    simpa using Agrees.pure (R := Each R) .nil
  | cons c cs ih =>
    rcases h with _ | ⟨hcd,hs⟩
    rename_i d ds
    rw [List.mapM_cons,List.mapM_cons]
    refine (hf s c d (.refl s) hcd).bind fun s₁ a b g₁ hab => ?_
    refine (ih (g₁.reading (R := Each Q) hs) fun s' c d g' h => hf s' c d (g₁.trans g') h).bind fun s₂ as bs g₂ hs => ?_
    exact .pure (.cons (g₂.reading hab) hs)

theorem filterM {cs : List C} {f : C → Session Bool} {g : C → Direct Bool}
    (hf : ∀ s' c, s.Grows s' → Agrees Same env rank s' (f c) (g c)) :
    Agrees Same env rank s (cs.filterM f) (cs.filterM g) := by
  have loop : ∀ s' taken, s.Grows s' →
      Agrees Same env rank s' (cs.filterAuxM f taken) (cs.filterAuxM g taken) := by
    induction cs with
    | nil => exact fun _ _ _ => .pure rfl
    | cons c cs ih =>
      intro s' taken g'
      refine (hf s' c g').bind fun s₁ b _ g₁ hb => ?_
      cases hb
      exact ih s₁ _ (g'.trans g₁)
  exact (loop s [] (.refl s)).bind fun _ _ _ _ h => .pure (congrArg List.reverse h)

theorem filterMapM {cs : List C} {f : C → Session (Option A)} {g : C → Direct (Option A)}
    (hf : ∀ s' c, s.Grows s' → Agrees Same env rank s' (f c) (g c)) :
    Agrees Same env rank s (cs.filterMapM f) (cs.filterMapM g) := by
  have loop : ∀ s' taken, s.Grows s' →
      Agrees Same env rank s' (List.filterMapM.loop f cs taken) (List.filterMapM.loop g cs taken) := by
    induction cs with
    | nil => exact fun _ _ _ => .pure rfl
    | cons c cs ih =>
      intro s' taken g'
      refine (hf s' c g').bind fun s₁ b _ g₁ hb => ?_
      cases hb
      cases b with
      | none => exact ih s₁ taken (g'.trans g₁)
      | some a => exact ih s₁ (a :: taken) (g'.trans g₁)
  exact loop s [] (.refl s)

end Agrees

end Agreement
end SymbolGraph
