import SymbolGraph.Proofs.Dispatch
import SymbolGraph.Proofs.Traversal

/-! Traversals that leave out some symbols. What is handed over is what the full traversal hands over, in its order,
without those symbols and all that is below them, and if the handler fails, what was handed over until then. -/
namespace SymbolGraph

variable {G : Type} {env : Environment} {s : State}

/-! ### What is left out -/

namespace Models

variable {ms : Models} {skip : SymbolKey → Bool} {x y z : SymbolKey}

/-- A symbol is one of those that are skipped, or is below one of them. -/
def isPruned (ms : Models) (skip : SymbolKey → Bool) (order : List SymbolKey) (y : SymbolKey) : Bool :=
  order.any fun z => skip z && (ms.postorder z).contains y

/-- What remains of symbols without those that are skipped and all that is below these. -/
def without (ms : Models) (skip : SymbolKey → Bool) (order : List SymbolKey) : List SymbolKey :=
  order.filter fun y => !ms.isPruned skip order y

theorem isPruned_eq_true {order : List SymbolKey} : ms.isPruned skip order y = true ↔
    ∃ z ∈ order, skip z = true ∧ y ∈ ms.postorder z := by
  simp [isPruned]

theorem isPruned_eq_false {order : List SymbolKey} : ms.isPruned skip order y = false ↔
    ∀ z ∈ order, skip z = true → y ∉ ms.postorder z := by
  rw [← Bool.not_eq_true,isPruned_eq_true]
  exact ⟨fun none z hz skipped inside => none ⟨z,hz,skipped,inside⟩,
    fun none ⟨z,hz,skipped,inside⟩ => none z hz skipped inside⟩

theorem mem_without {order : List SymbolKey} : y ∈ ms.without skip order ↔
    y ∈ order ∧ ∀ z ∈ order, skip z = true → y ∉ ms.postorder z := by
  rw [without,List.mem_filter,Bool.not_eq_true',isPruned_eq_false]

/-- What is above a symbol has more room. -/
theorem room_le_of_mem_postorder (hw : ms.WellFormed) (h : y ∈ ms.postorder x) : ms.room y ≤ ms.room x := by
  induction x using ascend hw with
  | step x ih =>
    rcases (mem_postorder hw).mp h with rfl | ⟨z,hz,h⟩
    · exact Nat.le_refl _
    · exact Nat.le_trans (ih z hz h) (Nat.le_of_lt (room_lt hw hz))

/-- Two symbols are not below each other. -/
theorem postorder_antisymm (hw : ms.WellFormed) (h : y ∈ ms.postorder x) (h' : x ∈ ms.postorder y) : y = x := by
  rcases (mem_postorder hw).mp h with same | ⟨z,hz,h⟩
  · exact same
  · have up := room_le_of_mem_postorder hw h'
    have down := room_le_of_mem_postorder hw h
    have less := room_lt hw hz
    omega

/-- What is left out below one child of a symbol is left out for what is found below this child. -/
theorem isPruned_of_below (hw : ms.WellFormed) (own : skip x = false) {c : SymbolKey} (hc : c ∈ ms.below x)
    (hy : y ∈ ms.postorder c) : ms.isPruned skip (ms.postorder x) y = ms.isPruned skip (ms.postorder c) y := by
  rw [Bool.eq_iff_iff,isPruned_eq_true,isPruned_eq_true]
  constructor
  · rintro ⟨z,hz,skipped,inside⟩
    rcases (mem_postorder hw).mp hz with rfl | ⟨d,hd,lower⟩
    · rw [own] at skipped
      cases skipped
    · have under : y ∈ ms.postorder d := (postorder_contiguous hw lower).subset inside
      obtain ⟨p,rfl,-⟩ := (mem_below hw).mp hc
      obtain rfl := eq_of_mem_postorder hw hc hd hy under
      exact ⟨z,lower,skipped,inside⟩
  · rintro ⟨z,lower,skipped,inside⟩
    exact ⟨z,(mem_postorder hw).mpr (.inr ⟨c,hc,lower⟩),skipped,inside⟩

/-- A walk that skips symbols meets what remains of the full walk without them. -/
theorem walk_eq_without (hw : ms.WellFormed) (skip : SymbolKey → Bool) (x : SymbolKey) :
    ms.walk skip x = ms.without skip (ms.postorder x) := by
  induction x using ascend hw with
  | step x ih =>
    rw [walk_eq hw]
    cases own : skip x with
    | true =>
      refine (List.filter_eq_nil_iff.mpr fun y hy => ?_).symm
      have pruned : ms.isPruned skip (ms.postorder x) y = true :=
        isPruned_eq_true.mpr ⟨x,self_mem_postorder hw x,own,hy⟩
      rw [pruned]
      exact Bool.false_ne_true
    | false =>
      have below : (ms.below x).flatMap (ms.walk skip) = ((ms.below x).flatMap ms.postorder).filter
          fun y => !ms.isPruned skip (ms.postorder x) y := by
        rw [List.filter_flatMap]
        refine List.flatMap_congr fun c hc => ?_
        rw [ih c hc,without]
        exact List.filter_congr fun y hy => congrArg (!·) (isPruned_of_below hw own hc hy).symm
      have kept : ms.isPruned skip (ms.postorder x) x = false :=
        isPruned_eq_false.mpr fun z hz skipped inside => by
          rw [postorder_antisymm hw hz inside,own] at skipped
          cases skipped
      have last : [x] = [x].filter fun y => !ms.isPruned skip (ms.postorder x) y := by
        rw [List.filter_singleton,kept]
        rfl
      rw [if_neg Bool.false_ne_true,below,last,← List.filter_append,← postorder_eq hw,without]

end Models

/-! ### What a handler was given -/

/-- A run in which a handler was given exactly the symbols of a list of keys. It failed for the last of them, or for
none. Apart from this the run only finds symbols. -/
inductive Calls (h : Handler env G) : List SymbolKey → State → G → Except Error Unit × (State × G) → Prop
  | none {s s' : State} {g} : s.Finds env s' → Calls h [] s g (.ok (),(s',g))
  | next {s s' s'' : State} {g g' n ks r} : s.Finds env s' → s'.node? n.id = some n →
      h.handle n env (s',g) = (.ok (),(s'',g')) → Calls h ks s'' g' r → Calls h (n.header.key :: ks) s g r
  | failed {s s' : State} {g n e t} : s.Finds env s' → s'.node? n.id = some n →
      h.handle n env (s',g) = (.error e,t) → Calls h [n.header.key] s g (.error e,t)

/-- A handler does not fail before its `n`-th call, and fails then, if it is given the symbols of `ks`. -/
def Handler.FailsAt (h : Handler env G) (ks : List SymbolKey) (s : State) (g : G) (n : Nat) (e : Error) : Prop :=
  ∀ given r, given <+: ks → Calls h given s g r →
    (given.length < n → r.1 = .ok ()) ∧ (given.length = n → r.1 = .error e)

variable {h : Handler env G} {ks : List SymbolKey} {g : G} {r : Except Error Unit × (State × G)}

/-- A run gives the handler a first part of what it is to hand over, and all of that if it does not fail. -/
theorem Handled.exists_calls (run : Handled h ks s g r) :
    ∃ given, given <+: ks ∧ Calls h given s g r ∧ (r.1 = .ok () → given = ks) := by
  induction run with
  | done found => exact ⟨[],List.nil_prefix,.none found,fun _ => rfl⟩
  | @next _ _ _ _ _ n _ _ found held answer _ ih =>
    obtain ⟨given,first,calls,all⟩ := ih
    exact ⟨n.header.key :: given,List.cons_prefix_cons.mpr ⟨rfl,first⟩,.next found held answer calls,
      fun ok => congrArg (n.header.key :: ·) (all ok)⟩
  | @failed _ _ _ n ks _ _ found held answer =>
    exact ⟨[n.header.key],List.cons_prefix_cons.mpr ⟨rfl,List.nil_prefix⟩,.failed found held answer,nofun⟩

/-- The calls before the last one do not fail. -/
theorem Calls.exists_take (calls : Calls h ks s g r) {n : Nat} (early : n < ks.length) :
    ∃ t, Calls h (ks.take n) s g (.ok (),t) := by
  induction calls generalizing n with
  | none => cases early
  | next found held answer _ ih =>
    cases n with
    | zero => exact ⟨_,.none found⟩
    | succ n =>
      obtain ⟨t,calls⟩ := ih (Nat.lt_of_succ_lt_succ early)
      exact ⟨t,.next found held answer calls⟩
  | failed found =>
    obtain rfl : n = 0 := Nat.lt_one_iff.mp early
    exact ⟨_,.none found⟩

/-- If the handler fails at its `n`-th call, the run ends with this error after the first `n` symbols. If there are
fewer of them, all are handed over. -/
theorem Handled.of_failsAt (run : Handled h ks s g r) {n : Nat} {e : Error} (fails : h.FailsAt ks s g n e) :
    (n ≤ ks.length → r.1 = .error e ∧ Calls h (ks.take n) s g r) ∧
      (ks.length < n → r.1 = .ok () ∧ Calls h ks s g r) := by
  obtain ⟨given,first,calls,all⟩ := run.exists_calls
  obtain ⟨earlier,last⟩ := fails given r first calls
  have most : given.length ≤ n := by
    by_contra more
    obtain ⟨t,taken⟩ := calls.exists_take (Nat.lt_of_not_le more)
    have length : (given.take n).length = n := by rw [List.length_take]; omega
    have failed := (fails (given.take n) _ ((List.take_prefix n given).trans first) taken).2 length
    cases failed
  have inside : given.length ≤ ks.length := first.length_le
  rcases Nat.lt_or_eq_of_le most with fewer | exactly
  · have ok := earlier fewer
    obtain rfl := all ok
    exact ⟨fun le => absurd fewer (Nat.not_lt_of_le le),fun _ => ⟨ok,calls⟩⟩
  · have taken : given = ks.take n := by rw [← exactly]; exact List.prefix_iff_eq_take.mp first
    rw [← taken]
    exact ⟨fun _ => ⟨last exactly,calls⟩,fun lt => by omega⟩

/-- Gathers the keys of what it is given, and fails at its `n`-th call. -/
def Handler.failing (env : Environment) (n : Nat) (e : Error) : Handler env (Array SymbolKey) :=
  ofFunction fun m keys => (if keys.size + 1 = n then .error e else .ok (),keys.push m.header.key)

theorem Calls.of_failing {n : Nat} {e : Error} {g : Array SymbolKey}
    {r : Except Error Unit × (State × Array SymbolKey)} (calls : Calls (Handler.failing env n e) ks s g r) :
    r.2.2 = g ++ ks.toArray ∧ (g.size + ks.length < n → r.1 = .ok ()) ∧
      (g.size + ks.length = n → ks ≠ [] → r.1 = .error e) := by
  induction calls with
  | none => exact ⟨by simp,fun _ => rfl,fun _ some => (some rfl).elim⟩
  | @next _ _ _ g _ m ks _ _ _ answer rest ih =>
    have passed : ¬ g.size + 1 = n := by
      intro at_
      simp [Handler.failing,Handler.ofFunction,at_] at answer
    simp only [Handler.failing,Handler.ofFunction,if_neg passed,Prod.mk.injEq] at answer
    obtain ⟨-,rfl,rfl⟩ := answer
    obtain ⟨gathered,earlier,last⟩ := ih
    rw [Array.size_push] at earlier last
    have count : g.size + 1 + ks.length = g.size + (m.header.key :: ks).length := by
      rw [List.length_cons,Nat.add_assoc,Nat.add_comm 1]
    rw [count] at earlier last
    refine ⟨by simp [gathered],earlier,fun eq _ => last eq ?_⟩
    rintro rfl
    exact passed eq
  | @failed _ _ g m e' t _ _ answer =>
    by_cases at_ : g.size + 1 = n
    · simp only [Handler.failing,Handler.ofFunction,if_pos at_,Prod.mk.injEq,Except.error.injEq] at answer
      obtain ⟨rfl,rfl⟩ := answer
      exact ⟨by simp,fun lt => absurd at_ (Nat.ne_of_lt lt),fun _ _ => rfl⟩
    · simp [Handler.failing,Handler.ofFunction,at_] at answer

theorem Handler.failsAt_failing {n : Nat} (pos : 0 < n) (e : Error) :
    (failing env n e).FailsAt ks s #[] n e := by
  intro given r _ calls
  obtain ⟨-,earlier,last⟩ := calls.of_failing
  rw [Array.size_empty,Nat.zero_add] at earlier last
  refine ⟨earlier,fun eq => last eq ?_⟩
  rintro rfl
  exact absurd eq (Nat.ne_of_lt pos)

/-! ### Traversals of files -/

namespace Fixture

variable (x : Fixture)

/-- A traversal of a file that returns at once for some symbols, by whichever handlers it goes on. It hands over
what the full traversal hands over, in its order, but for those symbols and all that is below them. If the handler
fails at its `n`-th call, the traversal fails so too, right after the first `n` of these symbols. -/
theorem visit_pruned (config : Config) (h : Handler (x.environment config) G) (skip : SymbolKey → Bool)
    (hs : s.Sound (x.environment config) 4) {f : FileView} (hf : s.node? f.id = some f.toNode) (g : G) :
    let all := x.models.postorder f.header.key
    let kept := x.models.without skip all
    let full := (Handlers.pruned (fun _ => false) h.handle x.models).file f (x.environment config) (s,g)
    let run := (Handlers.pruned skip h.handle x.models).file f (x.environment config) (s,g)
    full = (Visitor.postorder h.handle).visit f.toNode (x.environment config) (s,g) ∧
      run = (Visitor.pruned skip h.handle).visit f.toNode (x.environment config) (s,g) ∧
      Handled h all s g full ∧ Handled h kept s g run ∧
      (∀ y, y ∈ kept ↔ y ∈ all ∧ ∀ z ∈ all, skip z = true → y ∉ x.models.postorder z) ∧ kept.Sublist all ∧
      ∀ n e, h.FailsAt kept s g n e →
        (n ≤ kept.length → run.1 = .error e ∧ Calls h (kept.take n) s g run) ∧
          (kept.length < n → run.1 = .ok () ∧ Calls h kept s g run) := by
  intro all kept full run
  have hw : (x.environment config).models.WellFormed := x.models_wellFormed
  have same : ∀ skip : SymbolKey → Bool,
      (Handlers.pruned skip h.handle x.models).file f (x.environment config) (s,g) =
        (Visitor.pruned skip h.handle).visit f.toNode (x.environment config) (s,g) := fun skip =>
    congrFun (Handlers.node_pruned (x.environment config) f.toNode) (s,g)
  have handed : ∀ skip : SymbolKey → Bool, Handled h (x.models.walk skip f.header.key) s g
      ((Handlers.pruned skip h.handle x.models).file f (x.environment config) (s,g)) := by
    intro skip
    rw [same]
    exact Visitor.visit_hands (n := f.toNode) hw hs hf s g (.refl hs)
  have pruned : Handled h kept s g run := by
    have remains : x.models.walk skip f.header.key = kept := Models.walk_eq_without hw skip _
    have given := handed skip
    rwa [remains] at given
  exact ⟨same _,same skip,handed fun _ => false,pruned,fun _ => Models.mem_without,List.filter_sublist,
    fun _ _ => pruned.of_failsAt⟩

/-- A traversal that leaves out the parameter of a function, and fails at its second call. -/
theorem visit_pruned_untyped : ∃ f s t,
    Session.allFiles (untyped.environment .standard) .initial = (.ok [f],s) ∧
    (Handlers.pruned (· == .node ⟨⟨0⟩,⟨2⟩⟩) (Handler.failing (untyped.environment .standard) 2
      (.notADeclaration ⟨⟨0⟩,⟨0⟩⟩)).handle untyped.models).file f (untyped.environment .standard) (s,#[]) =
        (.error (.notADeclaration ⟨⟨0⟩,⟨0⟩⟩),(t,#[.deferred ⟨⟨0⟩,⟨1⟩⟩,.node ⟨⟨0⟩,⟨1⟩⟩])) := by
  have hw : (untyped.environment .standard).models.WellFormed := untyped.models_wellFormed
  obtain ⟨files,s,run,went,keys,held⟩ :=
    Session.allFiles_run (Names.oracle_fits hw untyped.inferred) (State.sound_initial (untyped.environment .standard) 4)
  have listed : (untyped.environment .standard).oracle.files = [⟨⟨0⟩,⟨0⟩⟩] := by decide
  rw [listed] at keys
  have one : files.length = 1 := by simpa using congrArg List.length keys
  obtain ⟨f,rfl⟩ := List.length_eq_one_iff.mp one
  have key : f.header.key = .node ⟨⟨0⟩,⟨0⟩⟩ := (List.cons.inj keys).1
  have kept : untyped.models.without (· == .node ⟨⟨0⟩,⟨2⟩⟩) (untyped.models.postorder f.header.key) =
      [.deferred ⟨⟨0⟩,⟨1⟩⟩,.node ⟨⟨0⟩,⟨1⟩⟩,.node ⟨⟨0⟩,⟨0⟩⟩] := by
    rw [key]
    decide
  obtain ⟨-,-,-,-,-,-,fails⟩ := visit_pruned untyped .standard (Handler.failing _ 2 (.notADeclaration ⟨⟨0⟩,⟨0⟩⟩))
    (· == .node ⟨⟨0⟩,⟨2⟩⟩) went.sound (held f List.mem_cons_self) #[]
  have failed := (fails 2 (.notADeclaration ⟨⟨0⟩,⟨0⟩⟩) (Handler.failsAt_failing (by decide) _)).1
  rw [kept] at failed
  obtain ⟨error,calls⟩ := failed (by decide)
  have gathered := calls.of_failing.1
  exact ⟨f,s,_,run,Prod.ext error (Prod.ext rfl gathered)⟩

end Fixture
end SymbolGraph
