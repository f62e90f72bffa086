import SymbolGraph.Proofs.Action
import SymbolGraph.Proofs.Overriding
import SymbolGraph.Proofs.Silence

/-! The guards that a function has to pass to override another one, in the order in which they are met. What
the sources tell comes first, and is found without the oracle. Then the oracle is asked, as long as it has not
said no. -/
namespace SymbolGraph

variable {env : Environment}

/-! ### Openness -/

namespace Models

/-- No function is around a node. -/
def Outside (ms : Models) (k : NodeKey) : Prop :=
  ∀ j ∈ ms.ancestors k, ∀ t, ms.shape? j = some t → t.kind ≠ .function

/-- What makes a function open, if it is outside of functions: a modifier, an interface around it, or Java, where
functions are open unless they are final. -/
def Opens (ms : Models) (k : NodeKey) (m : Modifiers) : Prop :=
  m.contains .overriding = true ∨ m.contains .abstracted = true ∨ m.contains .opened = true ∨
    ms.ownerKind? k = some .interface ∨ ms.origin? k = some .java ∧ m.contains .final = false

/-- An error that names an ancestor of a node which is not there. -/
def Missing (ms : Models) (ks : List NodeKey) (e : Error) : Prop :=
  ∃ j ∈ ks, ms.shape? j = none ∧ e = .unknownNode j

variable {ms : Models} {k p : NodeKey}

theorem isFunction_eq_true : ms.isFunction k = true ↔ ∃ t, ms.shape? k = some t ∧ t.kind = .function := by
  cases shape : ms.shape? k with
  | none => simp [isFunction,shape]
  | some t => simp [isFunction_eq shape]

theorem isLocal_eq_false : ms.isLocal k = false ↔ ms.Outside k := by
  simp only [isLocal,List.any_eq_false,isFunction_eq_true,Outside]
  refine forall₂_congr fun j _ => ?_
  constructor
  · intro none t ht function
    exact none ⟨t,ht,function⟩
  · rintro outside ⟨t,ht,function⟩
    exact outside t ht function

theorem isOpen_function {f : FunctionShape} :
    ms.isOpen k (.function f) = true ↔ ms.Outside k ∧ ms.Opens k f.modifiers := by
  simp only [isOpen,Bool.and_eq_true,Bool.not_eq_true',isLocal_eq_false]
  refine and_congr_right fun _ => ?_
  simp [Opens,DeclaredForm.isInterface,DeclaredForm.modifiers,or_assoc]

/-- A parent is the first of the ancestors. -/
theorem mem_ancestors_of_parent? (h : ms.parent? k = some p) : p ∈ ms.ancestors k := by
  obtain ⟨a,ha,hp,same⟩ := exists_arena_of_parent? h
  have there : k.node.index < a.size := by
    obtain ⟨slot,hs,-⟩ := Option.bind_eq_some_iff.mp hp
    exact (Array.getElem?_eq_some_iff.mp hs).1
  obtain ⟨size,hsize⟩ : ∃ n, a.size = n + 1 := Nat.exists_eq_succ_of_ne_zero (Nat.ne_zero_of_lt there)
  rw [ancestors_eq ha,Arena.ancestors,hsize,Arena.ancestorsUpTo,hp,List.map_cons,same]
  exact List.mem_cons_self

theorem arena?_of_mem_ancestors {a : Arena} (ha : ms.arena? k.source = some a) (h : p ∈ ms.ancestors k) :
    ms.arena? p.source = some a := by
  rw [ancestors_eq ha] at h
  obtain ⟨n,-,rfl⟩ := List.mem_map.mp h
  exact ha

end Models

namespace Direct

variable {ks : List NodeKey}

/-- The search for a function fails only at a node that is not there. If it finds none, it has met all nodes. -/
theorem anyFunction_within (sources : ∀ k ∈ ks, ∃ a, env.models.arena? k.source = some a) :
    Within (env.models.Missing ks) env (anyFunction ks) fun v => v = ks.any env.models.isFunction ∧
      (v = false → ∀ k ∈ ks, ∃ t, env.models.shape? k = some t) := by
  induction ks with
  | nil => exact .pure ⟨rfl,fun _ => List.forall_mem_nil _⟩
  | cons k ks ih =>
    obtain ⟨⟨a,ha⟩,others⟩ := List.forall_mem_cons.mp sources
    cases shape : env.models.shape? k with
    | none =>
      have unknown : rawShape k env = .error (.unknownNode k) := by
        rw [Models.shape?_eq ha] at shape
        rw [rawShape,bind_ok (model_eq ha),shape]
        rfl
      exact .error (bind_error unknown) ⟨k,List.mem_cons_self,shape,rfl⟩
    | some t =>
      refine .after (rawShape_eq shape) ?_
      rw [List.any_cons,Models.isFunction_eq shape]
      by_cases function : t.kind = .function
      · rw [if_pos function,function]
        exact .pure ⟨rfl,fun no => by cases no⟩
      · have other : (t.kind == .function) = false := beq_eq_false_iff_ne.mpr function
        rw [if_neg function,other,Bool.false_or]
        rcases (ih others).ok_or_error with ⟨v,run,found,met⟩ | ⟨e,run,j,hj,missing⟩
        · exact .ok run ⟨found,fun no => List.forall_mem_cons.mpr ⟨⟨t,shape⟩,met no⟩⟩
        · exact .error run ⟨j,List.mem_cons_of_mem _ hj,missing⟩

end Direct

open Direct

/-- Whether a function is open is read off the models. If it cannot be told, then a node above is not there. -/
theorem Sight.isOpen_within {b : Sight FunctionShape} (hb : b.Genuine env) :
    Within (env.models.Missing (env.models.ancestors b.anchor)) env b.toDeclaration.isOpen
      fun v => v = env.models.isOpen b.anchor (.function b.shape) := by
  have hd : b.toDeclaration.Genuine env := hb.toDeclaration
  obtain ⟨a,ha,same⟩ := hd.exists_arena
  have ha : env.models.arena? b.anchor.source = some a := ha
  have origin : env.models.origin? b.anchor = some b.origin := by
    rw [Models.origin?,ha]
    exact congrArg some same.symm
  have inside : Within (env.models.Missing (env.models.ancestors b.anchor)) env b.toDeclaration.isLocal fun v =>
      v = env.models.isLocal b.anchor ∧
        (v = false → ∀ k ∈ env.models.ancestors b.anchor, ∃ t, env.models.shape? k = some t) :=
    .after (rawAncestors_eq ha) (anyFunction_within fun k hk => ⟨a,Models.arena?_of_mem_ancestors ha hk⟩)
  rw [isOpen]
  refine inside.bind fun v told => ?_
  obtain ⟨rfl,met⟩ := told
  cases outside : env.models.isLocal b.anchor with
  | true =>
    refine .pure ?_
    simp [Models.isOpen,outside]
  | false =>
    have verdict : env.models.isOpen b.anchor (.function b.shape) =
        ([.overriding,.abstracted,.opened].any b.shape.modifiers.contains ||
          env.models.ownerKind? b.anchor == some .interface ||
          (b.origin == .java && !b.shape.modifiers.contains .final)) := by
      simp [Models.isOpen,outside,origin,DeclaredForm.isInterface,DeclaredForm.modifiers]
    have owner : b.toDeclaration.parentClassKind? env = .ok (env.models.ownerKind? b.anchor) :=
      parentClassKind?_of_known hd fun p hp => met outside p (Models.mem_ancestors_of_parent? hp)
    rw [if_neg Bool.false_ne_true,verdict]
    show Within _ env (if [.overriding,.abstracted,.opened].any b.shape.modifiers.contains then _ else _) _
    cases [.overriding,.abstracted,.opened].any b.shape.modifiers.contains with
    | true => exact .pure rfl
    | false =>
      refine .after owner ?_
      by_cases interface : env.models.ownerKind? b.anchor = some .interface
      · rw [if_pos interface,interface]
        exact .pure rfl
      · rw [if_neg interface,beq_eq_false_iff_ne.mpr interface]
        exact .pure rfl

/-! ### The guards -/

namespace Oracle

/-- The declaration that the descriptor of a declaration is about, which is this declaration unless an oracle
mixes them up. -/
def described? (o : Oracle) (k : NodeKey) : NodeKey := ((o.descriptor k).map (·.declaration)).getD k

theorem described?_of_some {o : Oracle} {k : NodeKey} {d : Descriptor} (h : o.descriptor k = some d) :
    o.described? k = d.declaration := by
  rw [described?,h]
  rfl

/-- All that is asked to tell whether a function overrides another one, in order. -/
def overridingQueries (o : Oracle) (f b : NodeKey) : List Query :=
  [.visible b f,.descriptor b,.descriptor f,.compatibility (o.described? b) (o.described? f)]

/-- How the guards decide whether a function overrides another one, and after how many questions, if it is found
in some way whether the other one is open. -/
inductive Decides (o : Oracle) (opened : Except Error Bool) (f b : FunctionView) : Nat → Except Error Bool → Prop
  | unmarked (lacks : f.shape.modifiers.contains .overriding = false) : Decides o opened f b 0 (.ok false)
  | untold (marked : f.shape.modifiers.contains .overriding = true) {e : Error} (fails : opened = .error e) :
    Decides o opened f b 0 (.error e)
  | closed (marked : f.shape.modifiers.contains .overriding = true) (closed : opened = .ok false) :
    Decides o opened f b 0 (.ok false)
  | hidden (marked : f.shape.modifiers.contains .overriding = true) (opens : opened = .ok true)
    (hidden : o.visible b.anchor f.anchor = false) : Decides o opened f b 1 (.ok false)
  | undescribedBase (marked : f.shape.modifiers.contains .overriding = true) (opens : opened = .ok true)
    (seen : o.visible b.anchor f.anchor = true) (none : o.descriptor b.anchor = none) :
    Decides o opened f b 2 (.ok false)
  | undescribed (marked : f.shape.modifiers.contains .overriding = true) (opens : opened = .ok true)
    (seen : o.visible b.anchor f.anchor = true) {d : Descriptor} (base : o.descriptor b.anchor = some d)
    (none : o.descriptor f.anchor = none) : Decides o opened f b 3 (.error (.missingDescriptor f.anchor))
  | compared (marked : f.shape.modifiers.contains .overriding = true) (opens : opened = .ok true)
    (seen : o.visible b.anchor f.anchor = true) {d e : Descriptor} (base : o.descriptor b.anchor = some d)
    (own : o.descriptor f.anchor = some e) :
    Decides o opened f b 4 (.ok (o.compatibility d e = .overridable))

end Oracle

namespace Session

variable {k : NodeKey} {s : State}

theorem ask_run {A : Type} (q : Query) (answer : Oracle → A) :
    ask q answer env s = (.ok (answer env.oracle),{ s with asked := s.asked.push q }) := rfl

theorem descriptor_run {d : Descriptor} (h : env.oracle.descriptor k = some d) :
    descriptor k env s = (.ok d,{ s with asked := s.asked.push (.descriptor k) }) := by
  rw [descriptor,askDescriptor,Attempt.bind_ok (ask_run _ _),h]
  rfl

theorem descriptor_missing (h : env.oracle.descriptor k = none) :
    descriptor k env s = (.error (.missingDescriptor k),{ s with asked := s.asked.push (.descriptor k) }) := by
  rw [descriptor,askDescriptor,Attempt.bind_ok (ask_run _ _),h]
  rfl

end Session

open Session in
/-- From any state, the guards decide, and the oracle is asked no more than they need. -/
theorem View.overrides_decided (f b : FunctionView) (s : State) :
    ∃ n, env.oracle.Decides (b.toDeclaration.isOpen env s).1 f b n (f.overrides b env s).1 ∧
      (f.overrides b env s).2.asked =
        s.asked ++ ((env.oracle.overridingQueries f.anchor b.anchor).take n).toArray := by
  have silent := Silent.isOpen b.toDeclaration env s
  rw [overrides]
  cases marked : f.shape.modifiers.contains .overriding with
  | false => exact ⟨0,.unmarked marked,rfl⟩
  | true =>
    rw [if_neg (by simp)]
    rcases run : b.toDeclaration.isOpen env s with ⟨e | opened,s'⟩ <;> rw [run] at silent
    · rw [Attempt.bind_error run]
      exact ⟨0,.untold marked rfl,by simpa using silent⟩
    rw [Attempt.bind_ok run,← silent]
    cases opened with
    | false => exact ⟨0,.closed marked rfl,rfl⟩
    | true =>
      rw [if_neg (by simp),askVisible,Attempt.bind_ok (ask_run _ _)]
      cases seen : env.oracle.visible b.anchor f.anchor with
      | false => exact ⟨1,.hidden marked rfl seen,rfl⟩
      | true =>
        rw [if_neg (by simp),askDescriptor,Attempt.bind_ok (ask_run _ _)]
        cases base : env.oracle.descriptor b.anchor with
        | none => exact ⟨2,.undescribedBase marked rfl seen base,rfl⟩
        | some d =>
          cases own : env.oracle.descriptor f.anchor with
          | none =>
            refine ⟨3,?_⟩
            dsimp only
            rw [Attempt.bind_error (descriptor_missing own)]
            exact ⟨.undescribed marked rfl seen base own,rfl⟩
          | some e =>
            refine ⟨4,?_⟩
            dsimp only
            rw [Attempt.bind_ok (descriptor_run own),askCompatibility,Attempt.bind_ok (ask_run _ _)]
            refine ⟨.compared marked rfl seen base own,?_⟩
            rw [Oracle.overridingQueries,Oracle.described?_of_some base,Oracle.described?_of_some own]
            rfl

/-! ### Sessions -/

/-- Whether a function that a session has is open is read off the models, by every session. -/
theorem View.isOpen_follows {s : State} (hs : s.Sound env 4) {b : FunctionView}
    (hb : s.node? b.id = some b.toNode) :
    Follows Same env 4 s (b.toDeclaration.isOpen env s) (b.sight.toDeclaration.isOpen env) := by
  have shows : Shows s b b.sight := ⟨hb,rfl⟩
  exact Agrees.isOpen shows.toDeclaration (by decide) hs

/-- Whatever was done with a session before, the guards decide whether a function overrides another one, and the
oracle is asked no more than they need. A function that was handed out is open if no function is around it, and
if a modifier, an interface or Java opens it. It is told so without the oracle, unless a node above is not there,
and it is told the same ever after. -/
theorem State.overrides_during (env : Environment) (history : List Action) {b : FunctionView}
    (hb : b.toNode ∈ Action.obtained env .initial history) (f : FunctionView) :
    let s := during env history
    let opened := (b.toDeclaration.isOpen env s).1
    (∃ n, env.oracle.Decides opened f b n (f.overrides b env s).1 ∧ (f.overrides b env s).2.asked =
      s.asked ++ ((env.oracle.overridingQueries f.anchor b.anchor).take n).toArray) ∧
    (∀ v, opened = .ok v →
      (v = true ↔ env.models.Outside b.anchor ∧ env.models.Opens b.anchor b.shape.modifiers)) ∧
    (∀ e, opened = .error e → env.models.Missing (env.models.ancestors b.anchor) e) ∧
    (b.toDeclaration.isOpen env s).2.asked = s.asked ∧
    ∀ later, (b.toDeclaration.isOpen env (during env (history ++ later))).1 = opened := by
  intro s opened
  have sound : s.Sound env 4 := sound_during env history
  have held : s.node? b.id = some b.toNode := Action.held_obtained (sound_initial env 4) history _ hb
  have direct : opened = b.sight.toDeclaration.isOpen env := (View.isOpen_follows sound held).answer.eq
  have within := b.sight.isOpen_within (sound.symbol held)
  refine ⟨View.overrides_decided f b s,fun v told => ?_,fun e failed => ?_,Silent.isOpen _ env s,fun later => ?_⟩
  · rw [Within,← direct,told] at within
    rw [show v = _ from within]
    exact Models.isOpen_function
  · rw [Within,← direct,failed] at within
    exact within
  · have continued : s.Continues env (during env (history ++ later)) := by
      rw [during_append]
      exact continues_foldl sound later
    rw [direct]
    exact (View.isOpen_follows continued.sound (continued.grows.node held)).answer.eq

/-- An open function of an unrelated class is found to be overridden, with all of the questions. -/
theorem State.overrides_during_unrelated :
    let env := Fixture.unrelated.environment .standard
    let history : List Action := [.inquiry (.symbol (.node ⟨⟨0⟩,⟨4⟩⟩)),.inquiry (.symbol (.node ⟨⟨0⟩,⟨2⟩⟩))]
    ∃ f b : FunctionView, f.toNode ∈ Action.obtained env .initial history ∧
      b.toNode ∈ Action.obtained env .initial history ∧
      (f.overrides b env (during env history)).1 = .ok true ∧
      (f.overrides b env (during env history)).2.asked = #[.visible ⟨⟨0⟩,⟨2⟩⟩ ⟨⟨0⟩,⟨4⟩⟩,.descriptor ⟨⟨0⟩,⟨2⟩⟩,
        .descriptor ⟨⟨0⟩,⟨4⟩⟩,.compatibility ⟨⟨0⟩,⟨2⟩⟩ ⟨⟨0⟩,⟨4⟩⟩] ∧
      env.models.Outside b.anchor ∧ env.models.Opens b.anchor b.shape.modifiers := by
  intro env history
  let f : FunctionView := ⟨⟨⟨0⟩,.node ⟨⟨0⟩,⟨4⟩⟩,.kotlin,.file "K.kt" 1⟩,
    ⟨"m",.named,.ofList [.overriding],[],[],none,[],none,false,[]⟩⟩
  let b : FunctionView := ⟨⟨⟨1⟩,.node ⟨⟨0⟩,⟨2⟩⟩,.kotlin,.file "K.kt" 1⟩,
    ⟨"m",.named,.ofList [.opened],[],[],none,[],none,false,[]⟩⟩
  have handed : Action.obtained env .initial history = [f.toNode,b.toNode] := by decide +kernel
  have hf : f.toNode ∈ Action.obtained env .initial history := by
    rw [handed]
    exact List.mem_cons_self
  have hb : b.toNode ∈ Action.obtained env .initial history := by
    rw [handed]
    exact List.mem_cons_of_mem _ List.mem_cons_self
  have opened : (b.toDeclaration.isOpen env (during env history)).1 = .ok true := rfl
  obtain ⟨-,verdict,-⟩ := overrides_during env history hb f
  exact ⟨f,b,hf,hb,rfl,by decide +kernel,(verdict true opened).mp rfl⟩

end SymbolGraph
