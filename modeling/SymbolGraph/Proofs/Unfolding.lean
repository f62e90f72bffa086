import SymbolGraph.Proofs.Action
import SymbolGraph.Proofs.Outcome

/-! What the chain of aliases of a type comes to, over any sources and any oracle. The types that it runs through
form a path that ends, comes back to a declaration or goes on beyond the depth that is allowed. Which of these
comes first decides what is answered. -/
namespace SymbolGraph

open Direct

/-! ### The path -/

namespace Environment

variable (env : Environment)

def IsAlias (t : ResolvedType) : Prop := ∃ a, env.models.shape? t.declaration = some (.typeAlias a)

/-- What an alias stands for, if a type is built from one. -/
def aliased? (t : ResolvedType) : Option ResolvedType :=
  match env.models.shape? t.declaration with
  | some (.typeAlias a) => env.oracle.reference (t.declaration.sibling a.target)
  | _ => none

/-- The type after so many steps to what aliases stand for. -/
def unfolded? (t : ResolvedType) : Nat → Option ResolvedType
  | 0 => some t
  | k+1 => (unfolded? t k).bind env.aliased?

/-- The path ends after so many steps, with a type that is built from no alias. -/
def EndsAt (t : ResolvedType) (n : Nat) : Prop := ∃ d, env.unfolded? t n = some d ∧ ¬env.IsAlias d

/-- After so many steps there is a type that is built from the same declaration as an earlier one. -/
def RepeatsAt (t : ResolvedType) (k : Nat) : Prop :=
  ∃ i < k, ∃ c d, env.unfolded? t i = some c ∧ env.unfolded? t k = some d ∧ c.declaration = d.declaration

/-- After so many steps a declaration is met again for the first time. -/
def TurnsAt (t : ResolvedType) (k : Nat) : Prop := env.RepeatsAt t k ∧ ∀ j < k, ¬env.RepeatsAt t j

/-- So many steps lead through types that are built from different aliases, the last one included. -/
def Outruns (t : ResolvedType) (m : Nat) : Prop :=
  ∀ k ≤ m, (∃ d, env.unfolded? t k = some d ∧ env.IsAlias d) ∧ ¬env.RepeatsAt t k

variable {env} {t c d : ResolvedType} {i k m n : Nat}

theorem isAlias_of_aliased? (h : env.aliased? c = some d) : env.IsAlias c := by
  rw [aliased?] at h
  split at h
  · next a shape => exact ⟨a,shape⟩
  · cases h

theorem aliased?_eq {a : TypeAliasShape} (shape : env.models.shape? d.declaration = some (.typeAlias a)) :
    env.aliased? d = env.oracle.reference (d.declaration.sibling a.target) := by
  rw [aliased?,shape]

theorem aliased?_eq_none (h : ¬env.IsAlias d) : env.aliased? d = none :=
  Option.eq_none_iff_forall_ne_some.mpr fun _ next => h (isAlias_of_aliased? next)

theorem aliased?_congr (same : c.declaration = d.declaration) : env.aliased? c = env.aliased? d := by
  rw [aliased?,aliased?,same]

/-- Before a type on the path there are types that are built from aliases. -/
theorem exists_unfolded?_lt (h : (env.unfolded? t k).isSome) (lt : i < k) :
    ∃ c, env.unfolded? t i = some c ∧ env.IsAlias c := by
  induction k with
  | zero => cases lt
  | succ k ih =>
    obtain ⟨d,next⟩ := Option.isSome_iff_exists.mp h
    obtain ⟨c,before,step⟩ := Option.bind_eq_some_iff.mp next
    rcases Nat.lt_succ_iff_lt_or_eq.mp lt with lt | rfl
    · exact ih (by rw [before]; rfl) lt
    · exact ⟨c,before,isAlias_of_aliased? step⟩

/-- From where a declaration is met again the path runs as it ran from there before. -/
theorem unfolded?_periodic (hc : env.unfolded? t i = some c) (hd : env.unfolded? t k = some d)
    (same : c.declaration = d.declaration) (j : Nat) : env.unfolded? t (i+j+1) = env.unfolded? t (k+j+1) := by
  induction j with
  | zero =>
    rw [Nat.add_zero,Nat.add_zero,unfolded?,unfolded?,hc,hd]
    exact aliased?_congr same
  | succ j ih =>
    have step : (env.unfolded? t (i+j+1)).bind env.aliased? = (env.unfolded? t (k+j+1)).bind env.aliased? := by
      rw [ih]
    exact step

/-- Nothing on a path comes after its end. -/
theorem EndsAt.le (h : env.EndsAt t n) (passed : (env.unfolded? t k).isSome) : k ≤ n := by
  obtain ⟨d,last,none⟩ := h
  by_contra more
  obtain ⟨_,there,isAlias⟩ := exists_unfolded?_lt passed (Nat.lt_of_not_le more)
  obtain rfl := Option.some.inj (last.symm.trans there)
  exact none isAlias

/-- A path that ends meets no declaration twice. -/
theorem EndsAt.not_repeatsAt (h : env.EndsAt t n) : ¬env.RepeatsAt t k := by
  obtain ⟨e,last,none⟩ := id h
  have beyond : env.unfolded? t (n+1) = Option.none := by
    rw [unfolded?,last]
    exact aliased?_eq_none none
  rintro ⟨i,lt,c,d,hc,hd,same⟩
  have le : k ≤ n := h.le (by rw [hd]; rfl)
  -- What comes after the end would also come after an earlier type, but that is on the path.
  have periodic := unfolded?_periodic hc hd same (n-k)
  rw [show k+(n-k)+1 = n+1 by omega,beyond] at periodic
  by_cases final : i+(n-k)+1 = n
  · rw [final,last] at periodic
    cases periodic
  · obtain ⟨_,there,-⟩ := exists_unfolded?_lt (i := i+(n-k)+1) (by rw [last]; rfl) (by omega)
    rw [periodic] at there
    cases there

/-! ### The chain -/

/-- The simple name of the declaration of a type. -/
def simpleName? (env : Environment) (t : ResolvedType) : Option String :=
  (env.models.shape? t.declaration).bind Shape.declaredName?

/-- All lookups on the path succeed, as far as it is followed to a depth: types are built from declarations, and
before the last step that is allowed, aliases are written with references whose meaning is known. -/
def LooksUp (env : Environment) (t : ResolvedType) (m : Nat) : Prop :=
  ∀ k ≤ m, ∀ d, env.unfolded? t k = some d → (∀ j ≤ k, ¬env.RepeatsAt t j) → env.models.Declares d.declaration ∧
    ∀ a, k < m → env.models.shape? d.declaration = some (.typeAlias a) →
      (∃ r, env.models.shape? (d.declaration.sibling a.target) = some (.typeReference r)) ∧
        (env.oracle.reference (d.declaration.sibling a.target)).isSome

/-- What a chain of no more than so many steps comes to. -/
inductive ChainOutcome (env : Environment) (t : ResolvedType) (m : Nat) : Except Error (List ResolvedType) → Prop
  /-- A path that ends in time is the chain. -/
  | ends {n : Nat} {us : List ResolvedType} (le : n ≤ m) (last : env.EndsAt t n) (length : us.length = n + 1)
      (all : ∀ i ≤ n, us[i]? = env.unfolded? t i) (distinct : (us.map (·.declaration)).Nodup) :
      ChainOutcome env t m (.ok us)
  /-- If a declaration is met again in time, then the names of all are told, the one met again included. -/
  | turns {k : Nat} {ns : List String} (le : k ≤ m) (turn : env.TurnsAt t k) (length : ns.length = k + 1)
      (all : ∀ i ≤ k, ns[i]? = (env.unfolded? t i).bind env.simpleName?) :
      ChainOutcome env t m (.error (.aliasCycle ns))
  /-- Otherwise the depth is exceeded. -/
  | outruns (beyond : env.Outruns t m) : ChainOutcome env t m (.error (.aliasDepthExceeded m))

theorem EndsAt.unique (h : env.EndsAt t n) (h' : env.EndsAt t m) : n = m := by
  obtain ⟨d,last,-⟩ := id h
  obtain ⟨d',last',-⟩ := id h'
  have le : n ≤ m := h'.le (by rw [last]; rfl)
  have ge : m ≤ n := h.le (by rw [last']; rfl)
  exact Nat.le_antisymm le ge

theorem TurnsAt.unique (h : env.TurnsAt t n) (h' : env.TurnsAt t m) : n = m := by
  have le : n ≤ m := Nat.le_of_not_lt fun lt => h.2 m lt h'.1
  have ge : m ≤ n := Nat.le_of_not_lt fun lt => h'.2 n lt h.1
  exact Nat.le_antisymm le ge

theorem EndsAt.not_turnsAt (h : env.EndsAt t n) : ¬env.TurnsAt t k := fun turn => h.not_repeatsAt turn.1

theorem Outruns.not_endsAt (h : env.Outruns t m) (le : n ≤ m) : ¬env.EndsAt t n := by
  rintro ⟨d,last,none⟩
  obtain ⟨⟨_,there,more⟩,-⟩ := h n le
  obtain rfl := Option.some.inj (last.symm.trans there)
  exact none more

theorem Outruns.not_turnsAt (h : env.Outruns t m) (le : k ≤ m) : ¬env.TurnsAt t k := fun turn => (h k le).2 turn.1

/-- A path decides what its chain comes to. -/
theorem ChainOutcome.unique {r r' : Except Error (List ResolvedType)} (h : env.ChainOutcome t m r)
    (h' : env.ChainOutcome t m r') : r = r' := by
  cases h with
  | @ends n us le last length all distinct =>
    cases h' with
    | @ends n' us' le' last' length' all' distinct' =>
      obtain rfl := last.unique last'
      refine congrArg Except.ok (List.ext_getElem?' fun i lt => ?_)
      rw [all i (by omega),all' i (by omega)]
    | turns _ turn => exact absurd turn last.not_turnsAt
    | outruns beyond => exact absurd last (beyond.not_endsAt le)
  | @turns k ns le turn length all =>
    cases h' with
    | ends _ last => exact absurd turn last.not_turnsAt
    | @turns k' ns' le' turn' length' all' =>
      obtain rfl := turn.unique turn'
      refine congrArg (fun ns => Except.error (Error.aliasCycle ns)) (List.ext_getElem?' fun i lt => ?_)
      rw [all i (by omega),all' i (by omega)]
    | outruns beyond => exact absurd turn (beyond.not_turnsAt le)
  | outruns beyond =>
    cases h' with
    | ends le last => exact absurd last (beyond.not_endsAt le)
    | turns le turn => exact absurd turn (beyond.not_turnsAt le)
    | outruns => rfl

/-- Types are the beginning of a path. -/
structure Begins (env : Environment) (t : ResolvedType) (us : List ResolvedType) : Prop where
  eq : ∀ i < us.length, us[i]? = env.unfolded? t i
  distinct : (us.map (·.declaration)).Nodup

namespace Begins

variable {us : List ResolvedType} {u v : ResolvedType}

theorem not_repeatsAt (h : env.Begins t us) (lt : k < us.length) : ¬env.RepeatsAt t k := by
  rintro ⟨i,before,c,d,hc,hd,same⟩
  rw [← h.eq i (Nat.lt_trans before lt)] at hc
  rw [← h.eq k lt] at hd
  have distinct := List.nodup_iff_getElem?_ne_getElem?.mp h.distinct i k before (by simpa using lt)
  simp [hc,hd,same] at distinct

theorem not_repeatsAt_le (h : env.Begins t (us ++ [u])) (le : k ≤ us.length) : ¬env.RepeatsAt t k :=
  h.not_repeatsAt (by simpa using Nat.lt_succ_of_le le)

/-- Types at the beginning of a path are on it. -/
theorem unfolded?_eq (h : env.Begins t us) (lt : k < us.length) : env.unfolded? t k = some us[k] := by
  rw [← h.eq k lt]
  exact List.getElem?_eq_getElem lt

theorem last (h : env.Begins t (us ++ [u])) : env.unfolded? t us.length = some u := by
  rw [← h.eq us.length (by simp)]
  exact List.getElem?_concat_length

/-- The path goes on after its beginning. -/
theorem following (h : env.Begins t (us ++ [u])) : env.unfolded? t (us.length + 1) = env.aliased? u := by
  rw [unfolded?,h.last]
  rfl

theorem eq_append (h : env.Begins t (us ++ [u])) (hv : env.aliased? u = some v) :
    ∀ i < (us ++ [u] ++ [v]).length, (us ++ [u] ++ [v])[i]? = env.unfolded? t i := by
  intro i lt
  by_cases last : i = us.length + 1
  · subst last
    rw [h.following,hv]
    simp
  · have lt : i < (us ++ [u]).length := by
      simp only [List.length_append,List.length_singleton] at lt ⊢
      omega
    rw [List.getElem?_append_left lt]
    exact h.eq i lt

theorem append (h : env.Begins t (us ++ [u])) (hv : env.aliased? u = some v)
    (new : v.declaration ∉ (us ++ [u]).map (·.declaration)) : env.Begins t (us ++ [u] ++ [v]) where
  eq := h.eq_append hv
  distinct := by
    rw [List.map_append,List.nodup_append_comm]
    exact List.nodup_cons.mpr ⟨new,h.distinct⟩

theorem turnsAt (h : env.Begins t (us ++ [u])) (hv : env.aliased? u = some v)
    (met : v.declaration ∈ (us ++ [u]).map (·.declaration)) : env.TurnsAt t (us.length + 1) := by
  constructor
  · obtain ⟨c,hc,same⟩ := List.mem_map.mp met
    obtain ⟨i,lt,rfl⟩ := List.mem_iff_getElem.mp hc
    exact ⟨i,by simpa using lt,_,v,h.unfolded?_eq lt,h.following.trans hv,same⟩
  · intro j lt
    exact h.not_repeatsAt_le (Nat.le_of_lt_succ lt)

theorem outruns (h : env.Begins t (us ++ [u])) (more : env.IsAlias u) : env.Outruns t us.length := by
  intro k le
  refine ⟨?_,h.not_repeatsAt_le le⟩
  rcases Nat.lt_or_eq_of_le le with lt | rfl
  · exact exists_unfolded?_lt (by rw [h.last]; rfl) lt
  · exact ⟨u,h.last,more⟩

/-- The types at the beginning of a path are built from declarations. -/
theorem declares (h : env.Begins t us) (known : env.LooksUp t m) (le : us.length ≤ m + 1) :
    ∀ d ∈ us, env.models.Declares d.declaration := by
  intro d hd
  obtain ⟨i,lt,rfl⟩ := List.mem_iff_getElem.mp hd
  exact (known i (by omega) _ (h.unfolded?_eq lt) fun j le => h.not_repeatsAt (Nat.lt_of_le_of_lt le lt)).1

end Begins

end Environment

namespace ResolvedType

variable {env : Environment}

/-- The names of the declarations of types. -/
theorem names_eq {ts : List ResolvedType} (h : ∀ t ∈ ts, env.models.Declares t.declaration) :
    ∃ ns, names ts env = .ok ns ∧ ns.map some = ts.map env.simpleName? := by
  induction ts with
  | nil => exact ⟨[],rfl,rfl⟩
  | cons t ts ih =>
    obtain ⟨own,rest⟩ := List.forall_mem_cons.mp h
    obtain ⟨d,declared,-,name⟩ := exists_declared own
    obtain ⟨ns,run,all⟩ := ih rest
    refine ⟨d.shape.name :: ns,?_,?_⟩
    · have first : (do return (← t.declared).shape.name : Direct String) env = .ok d.shape.name := bind_ok declared
      rw [names,List.mapM_cons,bind_ok first]
      exact bind_ok run
    · rw [List.map_cons,List.map_cons,all,← name]
      rfl

variable {t u v : ResolvedType} {us : List ResolvedType} {m steps : Nat}

/-- A chain ends where the path does. -/
theorem outcome_of_end (begins : env.Begins t (us ++ [u])) (le : us.length ≤ m)
    (declares : env.models.Declares u.declaration) (last : ¬env.IsAlias u) :
    env.ChainOutcome t m (chainFrom steps (us ++ [u]) u env) := by
  rw [chainFrom_stop declares fun a shape => last ⟨a,shape⟩]
  refine .ends le ⟨u,begins.last,last⟩ (by simp) (fun i le => ?_) begins.distinct
  exact begins.eq i (by simpa using Nat.lt_succ_of_le le)

/-- A chain is refused where the path turns. -/
theorem outcome_of_turn (begins : env.Begins t (us ++ [u])) (le : us.length + 1 ≤ m)
    (declares : ∀ d ∈ us ++ [u], env.models.Declares d.declaration) {a : TypeAliasShape}
    (shape : env.models.shape? u.declaration = some (.typeAlias a))
    (target : ∃ r, env.models.shape? (u.declaration.sibling a.target) = some (.typeReference r))
    (meant : env.oracle.reference (u.declaration.sibling a.target) = some v)
    (met : v.declaration ∈ (us ++ [u]).map (·.declaration)) :
    env.ChainOutcome t m (chainFrom (steps+1) (us ++ [u]) u env) := by
  have next : env.aliased? u = some v := (Environment.aliased?_eq shape).trans meant
  have again : env.models.Declares v.declaration := by
    obtain ⟨d,hd,same⟩ := List.mem_map.mp met
    exact same ▸ declares d hd
  obtain ⟨ns,named,all⟩ := names_eq (List.forall_mem_append.mpr ⟨declares,List.forall_mem_singleton.mpr again⟩)
  rw [chainFrom_cycle shape target meant met named]
  have length : ns.length = us.length + 1 + 1 := by simpa using congrArg List.length all
  refine .turns le (begins.turnsAt next met) length fun i le => ?_
  have lt : i < (us ++ [u] ++ [v]).length := by
    simp only [List.length_append,List.length_singleton]
    omega
  have each : ns[i]?.map some = (env.unfolded? t i).map env.simpleName? := by
    rw [← List.getElem?_map,all,List.getElem?_map,begins.eq_append next i lt]
  calc ns[i]?
    _ = (ns[i]?.map some).bind id := by cases ns[i]? <;> rfl
    _ = ((env.unfolded? t i).map env.simpleName?).bind id := by rw [each]
    _ = (env.unfolded? t i).bind env.simpleName? := Option.bind_map ..

/-- A chain that has begun as the path comes to what the path comes to, within the steps that are left. -/
theorem chainFrom_outcome (depth : env.config.maxAliasDepth = m) (known : env.LooksUp t m)
    (begins : env.Begins t (us ++ [u])) (room : us.length + steps = m) :
    env.ChainOutcome t m (chainFrom steps (us ++ [u]) u env) := by
  -- A step of the chain either decides or makes the beginning of the path longer by one type.
  induction steps generalizing us u with
  | zero =>
    obtain rfl : us.length = m := room
    by_cases more : env.IsAlias u
    · obtain ⟨a,shape⟩ := id more
      rw [chainFrom_exceeded shape,depth]
      exact .outruns (begins.outruns more)
    · exact outcome_of_end begins (Nat.le_refl _) (begins.declares known (by simp) u (by simp)) more
  | succ steps ih =>
    have le : us.length + 1 ≤ m := by omega
    have declares := begins.declares known (by simpa using Nat.le_succ_of_le le)
    by_cases more : env.IsAlias u
    · obtain ⟨a,shape⟩ := more
      obtain ⟨-,looked⟩ :=
        known us.length (Nat.le_of_succ_le le) u begins.last fun _ => begins.not_repeatsAt_le
      obtain ⟨target,meant⟩ := looked a le shape
      obtain ⟨v,meant⟩ := Option.isSome_iff_exists.mp meant
      by_cases met : v.declaration ∈ (us ++ [u]).map (·.declaration)
      · exact outcome_of_turn begins le declares shape target meant met
      · rw [chainFrom_step shape target meant met]
        have next : env.aliased? u = some v := (Environment.aliased?_eq shape).trans meant
        exact ih (begins.append next met) (by simp; omega)
    · exact outcome_of_end begins (Nat.le_of_succ_le le) (declares u (by simp)) more

end ResolvedType

/-! ### In a session -/

namespace InternedType

/-- The chain of aliases of a type of a session comes to what the path of the type comes to, and to nothing else,
if all lookups on the path succeed. The path ends in time, or a declaration is met again in time, or neither. -/
theorem aliasChain_outcome (env : Environment) (history : List Action) {t : InternedType}
    (held : (State.during env history).types.get? t.id = some t.resolved)
    (known : env.LooksUp t.resolved env.config.maxAliasDepth) :
    let m := env.config.maxAliasDepth
    let run := t.aliasChain env (.during env history)
    (∀ r, env.ChainOutcome t.resolved m r ↔ r = run.1.map (·.map (·.resolved))) ∧
    (∀ cs, run.1 = .ok cs → ∀ c ∈ cs, run.2.types.get? c.id = some c.resolved) ∧
    (∀ n k, env.EndsAt t.resolved n → ¬env.TurnsAt t.resolved k) ∧
    (∀ n ≤ m, env.EndsAt t.resolved n → ¬env.Outruns t.resolved m) ∧
    ∀ k ≤ m, env.TurnsAt t.resolved k → ¬env.Outruns t.resolved m := by
  intro m run
  have follows : Follows (Each Interns) env 4 _ run (t.resolved.aliasChain env) :=
    Agrees.aliasChain ⟨held,rfl⟩ (by decide) (State.sound_during env history)
  have answered : run.1.map (·.map (·.resolved)) = t.resolved.aliasChain env :=
    follows.map_eq fun _ _ each => (Agrees.resolved_of_each each).symm
  have begins : env.Begins t.resolved ([] ++ [t.resolved]) := ⟨fun i lt => ?_,List.nodup_singleton _⟩
  have outcome : env.ChainOutcome t.resolved m (t.resolved.aliasChain env) :=
    ResolvedType.chainFrom_outcome rfl known begins (Nat.zero_add m)
  refine ⟨fun r => ⟨fun other => ?_,?_⟩,fun cs ok c hc => ?_,fun _ _ last => last.not_turnsAt,
    fun _ le last beyond => beyond.not_endsAt le last,fun _ le turn beyond => beyond.not_turnsAt le turn⟩
  · rw [answered]
    exact other.unique outcome
  · rintro rfl
    rw [answered]
    exact outcome
  · obtain ⟨us,-,each⟩ := follows.exists_direct ok
    exact Agrees.held_of_each each c hc
  · obtain rfl : i = 0 := by simpa using lt
    rfl

end InternedType

/-- Three aliases. The first one stands for the second one, and the other two for each other. No chain has more than
three steps. -/
def Environment.lasso : Environment where
  models := ⟨[.ofSlots .kotlin [⟨none,"K.kt",1,some (.file ⟨"K.kt","d",[],[⟨1⟩,⟨3⟩,⟨5⟩]⟩)⟩,
    ⟨some ⟨0⟩,"K.kt",1,some (.typeAlias ⟨"A",.empty,[],[],⟨2⟩⟩)⟩,
    ⟨some ⟨1⟩,"K.kt",1,some (.typeReference ⟨"B",[],[]⟩)⟩,
    ⟨some ⟨0⟩,"K.kt",2,some (.typeAlias ⟨"B",.empty,[],[],⟨4⟩⟩)⟩,
    ⟨some ⟨3⟩,"K.kt",2,some (.typeReference ⟨"C",[],[]⟩)⟩,
    ⟨some ⟨0⟩,"K.kt",3,some (.typeAlias ⟨"C",.empty,[],[],⟨6⟩⟩)⟩,
    ⟨some ⟨5⟩,"K.kt",3,some (.typeReference ⟨"B",[],[]⟩)⟩]]⟩
  oracle := .ofTables ⟨[⟨⟨0⟩,⟨0⟩⟩],[],[(⟨⟨0⟩,⟨2⟩⟩,.simple ⟨⟨0⟩,⟨3⟩⟩),(⟨⟨0⟩,⟨4⟩⟩,.simple ⟨⟨0⟩,⟨5⟩⟩),
    (⟨⟨0⟩,⟨6⟩⟩,.simple ⟨⟨0⟩,⟨3⟩⟩)],.overridable,[],[]⟩
  config := { Config.standard with maxAliasDepth := 3 }

/-- The second alias is met again with the last step that is allowed. -/
theorem InternedType.aliasChain_outcome_lasso :
    let env := Environment.lasso
    let s := State.during env [.inquiry (.intern (.simple ⟨⟨0⟩,⟨1⟩⟩))]
    ∃ t : InternedType, t.resolved = .simple ⟨⟨0⟩,⟨1⟩⟩ ∧
      (t.aliasChain env s).1 = .error (.aliasCycle ["A","B","C","B"]) := by
  intro env s
  let a : ResolvedType := .simple ⟨⟨0⟩,⟨1⟩⟩
  let path : List ResolvedType := [a,.simple ⟨⟨0⟩,⟨3⟩⟩,.simple ⟨⟨0⟩,⟨5⟩⟩]
  have begins : env.Begins a path := by
    refine ⟨fun i lt => ?_,by decide⟩
    match i, lt with
    | 0, _ | 1, _ | 2, _ => rfl
  have turn : env.TurnsAt a 3 := ⟨⟨1,by decide,_,_,rfl,rfl,rfl⟩,fun j lt => begins.not_repeatsAt lt⟩
  have known : env.LooksUp a 3 := by
    intro k le d there _
    have among : d ∈ path := by
      match k, le with
      | 0, _ | 1, _ | 2, _ | 3, _ => cases there; simp [path]
    simp only [path,List.mem_cons,List.not_mem_nil,or_false] at among
    rcases among with rfl | rfl | rfl
    all_goals
      refine ⟨⟨_,rfl,rfl⟩,fun a _ shape => ?_⟩
      cases shape
      exact ⟨⟨_,rfl⟩,rfl⟩
  let t : InternedType := ⟨(TypeTable.empty.intern a).1,a⟩
  have held : s.types.get? t.id = some t.resolved := TypeTable.get?_intern .empty a
  obtain ⟨decided,-⟩ := InternedType.aliasChain_outcome env _ held known
  have answered := (decided (.error (.aliasCycle ["A","B","C","B"]))).mp (.turns (by decide) turn rfl (by decide))
  refine ⟨t,rfl,?_⟩
  cases run : (t.aliasChain env s).1 with
  | error e =>
    rw [run] at answered
    cases answered
    rfl
  | ok cs =>
    rw [run] at answered
    cases answered

end SymbolGraph
