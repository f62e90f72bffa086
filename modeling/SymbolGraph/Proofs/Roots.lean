import Mathlib.Data.Finset.Card
import SymbolGraph.Proofs.Action
import SymbolGraph.Proofs.Direct.Unasking
import SymbolGraph.Proofs.Outcome

/-! The function at the root of all that a function overrides, over any sources and any oracle. What is found is told
by the graph of overriding functions alone, which may have cycles, and not by the order in which it is searched. -/
namespace SymbolGraph

open Direct

/-! ### The graph -/

namespace Oracle

variable {o o' : Oracle} {f k : NodeKey}

/-- A function overrides another one, directly or through others. -/
def Reaches (o : Oracle) : NodeKey → NodeKey → Prop := Relation.TransGen fun f k => k ∈ o.overridden f

theorem mem_above : k ∈ o.above f ↔ o.Reaches f k := by
  rw [above,Graph.mem_explore_nil,Reaches,Relation.TransGen.head'_iff]
  rfl

theorem nodup_above : (o.above f).Nodup := o.overriddenGraph.nodup_explore true List.nodup_nil

/-- The functions above a function that override nothing, in the order of a search. -/
def rootsAbove (o : Oracle) (f : NodeKey) : List NodeKey := (o.above f).filter fun k => (o.overridden k).isEmpty

theorem mem_rootsAbove : k ∈ o.rootsAbove f ↔ o.Reaches f k ∧ o.overridden k = [] := by
  rw [rootsAbove,List.mem_filter,mem_above,List.isEmpty_iff]

theorem nodup_rootsAbove : (o.rootsAbove f).Nodup := nodup_above.filter _

/-- Two oracles describe the same declarations, and these override the same ones, in whatever order and however
often they name them. -/
def SameEdges (o o' : Oracle) : Prop :=
  ∀ k, ((o.descriptor k).isSome ↔ (o'.descriptor k).isSome) ∧ ∀ j, j ∈ o.overridden k ↔ j ∈ o'.overridden k

theorem SameEdges.reaches (h : o.SameEdges o') : o.Reaches f k ↔ o'.Reaches f k := by
  rw [Reaches,Reaches]
  simp only [(h _).2]

theorem SameEdges.rootsAbove (h : o.SameEdges o') : (o.rootsAbove f).Perm (o'.rootsAbove f) := by
  rw [List.perm_ext_iff_of_nodup nodup_rootsAbove nodup_rootsAbove]
  intro k
  rw [mem_rootsAbove,mem_rootsAbove,h.reaches,List.eq_nil_iff_forall_not_mem,List.eq_nil_iff_forall_not_mem]
  simp only [(h k).2]

end Oracle

/-! ### Without a session -/

namespace Sight

variable {env : Environment} {v : Sight FunctionShape}

/-- What a search comes to that has found these functions at the root. -/
def ofRoots (v : Sight FunctionShape) : List NodeKey → Direct (Option (Sight FunctionShape))
  | [] => return none
  | [root] => return some (← typed FunctionShape root)
  | roots => do fail (.ambiguousOverridee (← v.toDeclaration.displayName) roots.length)

theorem ofRoots_perm {roots roots' : List NodeKey} (h : roots.Perm roots') : v.ofRoots roots = v.ofRoots roots' := by
  have length := h.length_eq
  match roots, roots' with
  | [], [] => rfl
  | [_], [_] => rw [List.singleton_perm_singleton.mp h]
  | _ :: _ :: _, _ :: _ :: _ => simp only [ofRoots,length]
  | [], _ :: _ | _ :: _, [] => simp at length
  | [_], _ :: _ :: _ | _ :: _ :: _, [_] => simp at length

/-- A function that is alone at the root is found. -/
theorem ofRoots_single {r : NodeKey} {F : FunctionShape} (hF : env.models.shape? r = some (.function F)) :
    ∃ w, v.ofRoots [r] env = .ok (some w) ∧ w.key = .node r ∧ w.shape = F := by
  obtain ⟨w,run,genuine,key⟩ := (typed_within FunctionShape hF rfl).exists_ok
  have anchor : w.anchor = r := congrArg SymbolKey.anchor key
  have shape := (genuine.written (s := .function w.shape) rfl).2
  rw [anchor,hF] at shape
  exact ⟨w,bind_ok run,key,(Shape.function.inj (Option.some.inj shape)).symm⟩

/-- Several functions at the root are counted, and the function below them is named as far as it has a name. -/
theorem ofRoots_several {roots : List NodeKey} {q : Option String} (several : 1 < roots.length)
    (named : v.toDeclaration.qualifiedName env = .ok q) :
    v.ofRoots roots env = .error (.ambiguousOverridee (q.getD v.shape.name) roots.length) := by
  have shown : v.toDeclaration.displayName env = .ok (q.getD v.shape.name) := bind_ok named
  match roots, several with
  | _ :: _ :: _, _ => exact bind_ok shown

theorem findOverridee_eq (own : (env.oracle.descriptor v.anchor).isSome)
    (known : ∀ k, env.oracle.Reaches v.anchor k → (env.oracle.descriptor k).isSome) :
    v.findOverridee env = v.ofRoots (env.oracle.rootsAbove v.anchor) env := by
  have run : v.overriddenRoots env = .ok (env.oracle.rootsAbove v.anchor) :=
    overriddenRoots_eq_ok.mpr ⟨own,fun k hk => known k (Oracle.mem_above.mp hk),rfl⟩
  rw [findOverridee,bind_ok run]
  rcases env.oracle.rootsAbove v.anchor with _ | ⟨_,_ | ⟨_,_⟩⟩ <;> rfl

/-- A search that meets a function without a descriptor ends at such a function. -/
theorem findOverridee_missing (own : (env.oracle.descriptor v.anchor).isSome)
    (missing : ∃ k, env.oracle.Reaches v.anchor k ∧ env.oracle.descriptor k = none) :
    ∃ k, env.oracle.Reaches v.anchor k ∧ env.oracle.descriptor k = none ∧
      v.findOverridee env = .error (.missingDescriptor k) := by
  obtain ⟨d,hd⟩ := Option.isSome_iff_exists.mp own
  have above : env.oracle.above v.anchor = env.oracle.overriddenGraph.explore true [] d.overridden := by
    rw [Oracle.above,Oracle.overridden,hd]
  let unmet (e : Error) : Prop := ∃ k, env.oracle.Reaches v.anchor k ∧ env.oracle.descriptor k = none ∧
    e = .missingDescriptor k
  have asked : ∀ k ∈ env.oracle.above v.anchor, Within unmet env (descriptor k) fun _ => True := by
    refine fun k hk => .after (ask_eq _) (.orFail (fun _ _ => trivial) fun none => ?_)
    exact ⟨k,Oracle.mem_above.mp hk,none,rfl⟩
  have searched : Within unmet env v.overriddenRoots fun _ => True := by
    refine .after (descriptor_eq_ok.mpr hd) (.readThen ?_)
    rw [← above]
    refine (Within.filterM (Q := fun _ => True) fun k hk => ?_).weaken fun _ _ => trivial
    exact (asked k hk).map fun _ _ _ => trivial
  rcases searched.ok_or_error with ⟨roots,run,-⟩ | ⟨e,run,k,reached,none,rfl⟩
  · obtain ⟨k,reached,none⟩ := missing
    have known := (overriddenRoots_eq_ok.mp run).2.1 k (Oracle.mem_above.mpr reached)
    rw [none] at known
    cases known
  · exact ⟨k,reached,none,bind_error run⟩

/-- If all functions above a function have descriptors, then those at the root decide what is found. -/
theorem findOverridee_described (own : (env.oracle.descriptor v.anchor).isSome)
    (known : ∀ k, env.oracle.Reaches v.anchor k → (env.oracle.descriptor k).isSome) : ∃ roots : Finset NodeKey,
      (∀ k, k ∈ roots ↔ env.oracle.Reaches v.anchor k ∧ env.oracle.overridden k = []) ∧
      (roots = ∅ → v.findOverridee env = .ok none) ∧
      (∀ r F, roots = {r} → env.models.shape? r = some (.function F) →
        ∃ w, v.findOverridee env = .ok (some w) ∧ w.key = .node r ∧ w.shape = F) ∧
      ∀ q, 1 < roots.card → v.toDeclaration.qualifiedName env = .ok q →
        v.findOverridee env = .error (.ambiguousOverridee (q.getD v.shape.name) roots.card) := by
  have run := findOverridee_eq own known
  have nodup : (env.oracle.rootsAbove v.anchor).Nodup := Oracle.nodup_rootsAbove
  have card := List.toFinset_card_of_nodup nodup
  refine ⟨(env.oracle.rootsAbove v.anchor).toFinset,fun k => ?_,fun none => ?_,fun r F one hF => ?_,
    fun q more named => ?_⟩
  · rw [List.mem_toFinset,Oracle.mem_rootsAbove]
  · rw [List.toFinset_eq_empty_iff] at none
    rw [run,none]
    rfl
  · have single : env.oracle.rootsAbove v.anchor = [r] := by
      rw [← List.perm_singleton,List.perm_ext_iff_of_nodup nodup (List.nodup_singleton r)]
      intro k
      rw [← List.mem_toFinset,one,Finset.mem_singleton,List.mem_singleton]
    rw [run,single]
    exact ofRoots_single hF
  · rw [card] at more ⊢
    rw [run]
    exact ofRoots_several more named

/-- A function that overrides nothing has nothing at the root. -/
theorem findOverridee_root (own : (env.oracle.descriptor v.anchor).isSome)
    (none : env.oracle.overridden v.anchor = []) : v.findOverridee env = .ok Option.none := by
  have above : env.oracle.above v.anchor = [] := by
    rw [Oracle.above,none,Graph.explore]
  have run : v.overriddenRoots env = .ok [] := overriddenRoots_eq_ok.mpr ⟨own,by simp [above],by simp [above]⟩
  rw [findOverridee,bind_ok run]
  rfl

/-- What was found at the root has nothing at its own. -/
theorem findOverridee_again {w : Sight FunctionShape} (found : v.findOverridee env = .ok (some w)) :
    w.findOverridee env = .ok none := by
  have finds := finds_of_findOverridee found
  have listed : w.anchor ∈ ((some w).map (·.anchor)).toList := List.mem_singleton.mpr rfl
  rw [← finds.roots,List.mem_filter,List.isEmpty_iff] at listed
  exact findOverridee_root (finds.known _ listed.1) listed.2

end Sight

/-! ### Other oracles -/

namespace Sight

theorem displayName_unasking (d : Sight DeclaredForm) : Unasking d.displayName := by
  have outside : Unasking d.isLocal := (rawAncestors_unasking _).bind anyFunction_unasking
  have file : Unasking d.containingFile :=
    (rawAncestors_unasking _).bind fun _ => (Unasking.orFail _ _).bind fun _ => typed_unasking FileShape _
  have package : Unasking d.packageName := file.bind fun _ => .pure _
  have named : Unasking d.qualifiedName := by
    rw [qualifiedName]
    split
    · exact .pure none
    · refine outside.bind fun inside => ?_
      split
      · exact .pure none
      · refine (rawAncestors_unasking _).bind fun ks => ?_
        refine (Unasking.filterMapM (fun k => (rawShape_unasking k).bind fun _ => .pure _) ks).bind fun _ => ?_
        exact package.bind fun _ => .pure _
  exact named.bind fun _ => .pure _

theorem ofRoots_unasking (v : Sight FunctionShape) (roots : List NodeKey) : Unasking (v.ofRoots roots) := by
  match roots with
  | [] => exact .pure none
  | [root] => exact (typed_unasking FunctionShape root).bind fun _ => .pure _
  | _ :: _ :: _ => exact (displayName_unasking _).bind fun _ => .fail _

/-- Oracles that tell of the same edges lead to the same function, or both do not know one that they meet. -/
theorem findOverridee_sameEdges {env : Environment} {o : Oracle} (same : env.oracle.SameEdges o)
    {v : Sight FunctionShape} (own : (env.oracle.descriptor v.anchor).isSome) :
    (∃ j k, v.findOverridee env = .error (.missingDescriptor j) ∧
        v.findOverridee { env with oracle := o } = .error (.missingDescriptor k)) ∨
      v.findOverridee { env with oracle := o } = v.findOverridee env := by
  have own' : (o.descriptor v.anchor).isSome := (same v.anchor).1.mp own
  by_cases known : ∀ k, env.oracle.Reaches v.anchor k → (env.oracle.descriptor k).isSome
  · have known' : ∀ k, o.Reaches v.anchor k → (o.descriptor k).isSome :=
      fun k reached => (same k).1.mp (known k (same.reaches.mpr reached))
    right
    calc
      _ = v.ofRoots (o.rootsAbove v.anchor) { env with oracle := o } := findOverridee_eq own' known'
      _ = v.ofRoots (env.oracle.rootsAbove v.anchor) { env with oracle := o } := by
        rw [ofRoots_perm same.rootsAbove]
      _ = v.ofRoots (env.oracle.rootsAbove v.anchor) env := ofRoots_unasking v _ env o
      _ = _ := (findOverridee_eq own known).symm
  · simp only [not_forall,Option.not_isSome_iff_eq_none] at known
    obtain ⟨k,reached,none⟩ := known
    have none' : o.descriptor k = Option.none := by
      rw [← Option.not_isSome_iff_eq_none,← (same k).1,none]
      exact Bool.false_ne_true
    obtain ⟨i,-,-,run⟩ := findOverridee_missing own ⟨k,reached,none⟩
    let env' : Environment := { env with oracle := o }
    have missing' : ∃ k, env'.oracle.Reaches v.anchor k ∧ env'.oracle.descriptor k = Option.none :=
      ⟨k,same.reaches.mp reached,none'⟩
    obtain ⟨j,-,-,run'⟩ := findOverridee_missing own' missing'
    exact .inl ⟨i,j,run,run'⟩

end Sight

/-! ### In a session -/

section Session

variable {env : Environment} {s : State} {f : FunctionView}

theorem View.findOverridee_follows (hs : s.Sound env 4) (held : s.node? f.id = some f.toNode) :
    Follows (Maybe Shows) env 4 s (f.findOverridee env s) (f.sight.findOverridee env) :=
  Agrees.findOverridee ⟨held,rfl⟩ (by decide) hs

theorem Follows.sights {S : Type} [Viewed S] {rank : Nat} {r : Except Error (Option (View S)) × State}
    {d : Except Error (Option (Sight S))} (h : Follows (Maybe Shows) env rank s r d) :
    r.1.map (·.map View.sight) = d := by
  refine h.map_eq fun o o' agree => ?_
  cases agree with
  | none => rfl
  | some shows => exact congrArg some shows.2

/-- A symbol shows the same in all sessions of some sources. -/
theorem State.Sound.sight_eq {o : Oracle} {s' : State} {rank : Nat} (hs : s.Sound env rank)
    (hs' : s'.Sound { env with oracle := o } rank) {S : Type} [Viewed S] {v w : View S}
    (hv : s.node? v.id = some v.toNode) (hw : s'.node? w.id = some w.toNode)
    (key : v.header.key = w.header.key) : v.sight = w.sight := by
  have seen := hs'.symbol hw
  change Direct.symbol w.header.key _ = _ at seen
  rw [← key,symbol_unasking] at seen
  have same : v.sight.toNode = w.sight.toNode := Except.ok.inj ((hs.symbol hv).symm.trans seen)
  simpa using congrArg (Sight.as? S) same

/-- What is found at the root of all that a function overrides, in whatever state of a session. If one of the
functions above it has no descriptor, then one of these is named. Otherwise those of them that override nothing
decide. If there is none, nothing is found, if there is one, it is found, and if there are more, they are counted.
A function that was found has nothing at its root. Another oracle that tells of the same edges leads to the same. -/
theorem View.findOverridee_roots (env : Environment) (history : List Action) {f : FunctionView}
    (held : (State.during env history).node? f.id = some f.toNode)
    (own : (env.oracle.descriptor f.anchor).isSome) :
    let s := State.during env history
    let run := f.findOverridee env s
    ((∃ k, env.oracle.Reaches f.anchor k ∧ env.oracle.descriptor k = none) →
      ∃ k, env.oracle.Reaches f.anchor k ∧ env.oracle.descriptor k = none ∧ run.1 = .error (.missingDescriptor k)) ∧
    ((∀ k, env.oracle.Reaches f.anchor k → (env.oracle.descriptor k).isSome) → ∃ roots : Finset NodeKey,
      (∀ k, k ∈ roots ↔ env.oracle.Reaches f.anchor k ∧ env.oracle.overridden k = []) ∧
      (roots = ∅ → run.1 = .ok none) ∧
      (∀ r F, roots = {r} → env.models.shape? r = some (.function F) → ∃ g, run.1 = .ok (some g) ∧
        g.header.key = .node r ∧ g.shape = F ∧ run.2.node? g.id = some g.toNode) ∧
      ∀ q, 1 < roots.card → (f.toDeclaration.qualifiedName env s).1 = .ok q →
        run.1 = .error (.ambiguousOverridee (q.getD f.shape.name) roots.card)) ∧
    (∀ g (later : List Action), run.1 = .ok (some g) →
      (g.findOverridee env (later.foldl (fun s a => (a.run env s).2) run.2)).1 = .ok none) ∧
    ∀ (oracle : Oracle) (history' : List Action) (f' : FunctionView), env.oracle.SameEdges oracle →
      let env' := { env with oracle := oracle }
      let s' := State.during env' history'
      s'.node? f'.id = some f'.toNode → f.header.key = f'.header.key →
      (∃ j k, run.1 = .error (.missingDescriptor j) ∧ (f'.findOverridee env' s').1 = .error (.missingDescriptor k)) ∨
        (f'.findOverridee env' s').1.map (·.map View.sight) = run.1.map (·.map View.sight) := by
  intro s run
  have sound : s.Sound env 4 := State.sound_during env history
  have follows : Follows (Maybe Shows) env 4 s run (f.sight.findOverridee env) :=
    View.findOverridee_follows sound held
  refine ⟨fun missing => ?_,fun known => ?_,fun g later found => ?_,?_⟩
  · obtain ⟨k,reached,none,failed⟩ := Sight.findOverridee_missing (v := f.sight) own missing
    exact ⟨k,reached,none,follows.error_iff.mpr failed⟩
  · obtain ⟨roots,mem,none,one,more⟩ := Sight.findOverridee_described (v := f.sight) own known
    refine ⟨roots,mem,fun empty => ?_,fun r F single hF => ?_,fun q card named => ?_⟩
    · obtain ⟨a,ok,shows⟩ := follows.exists_answer (none empty)
      cases shows
      exact ok
    · obtain ⟨w,ok,key,shape⟩ := one r F single hF
      obtain ⟨a,ok',shows⟩ := follows.exists_answer ok
      cases shows with
      | @some g _ shows =>
        obtain ⟨there,rfl⟩ := shows
        exact ⟨g,ok',key,shape,there⟩
    · have qualified : Follows Same env 4 s _ (f.sight.toDeclaration.qualifiedName env) :=
        Agrees.qualifiedName (d := f.toDeclaration) ⟨held,rfl⟩ (by decide) sound
      obtain ⟨_,named',rfl⟩ := qualified.exists_direct named
      exact follows.error_iff.mpr (more _ card named')
  · obtain ⟨a,ok,shows⟩ := follows.exists_direct found
    cases shows with
    | some shows =>
      have after := State.continues_foldl follows.sound later
      have again := Agrees.findOverridee (after.grows.reading shows) (by decide) after.sound
      obtain ⟨a,ok',shows'⟩ := again.exists_answer (Sight.findOverridee_again ok)
      cases shows'
      exact ok'
  · intro oracle history' f' same env' s' held' key
    have sound' : s'.Sound env' 4 := State.sound_during env' history'
    have follows' := View.findOverridee_follows sound' held'
    rw [← sound.sight_eq sound' held held' key] at follows'
    rw [follows.sights,follows'.sights]
    rcases Sight.findOverridee_sameEdges same (v := f.sight) own with ⟨j,k,missing,missing'⟩ | equal
    · exact .inl ⟨j,k,follows.error_iff.mpr missing,follows'.error_iff.mpr missing'⟩
    · exact .inr equal

end Session

/-- A function of the first model, with the functions that it overrides. -/
def overridingEntry (k : Nat) (overridden : List Nat) : NodeKey × Descriptor :=
  (⟨⟨0⟩,⟨k⟩⟩,⟨⟨⟨0⟩,⟨k⟩⟩,"m",[],none,overridden.map fun j => ⟨⟨0⟩,⟨j⟩⟩⟩)

/-- Four functions. The first one overrides two others, which both override the last one. One of these overrides
the first one again. -/
def Environment.shared : Environment where
  models := ⟨[.ofSlots .kotlin (⟨none,"K.kt",1,some (.file ⟨"K.kt","d",[],[⟨1⟩,⟨2⟩,⟨3⟩,⟨4⟩]⟩)⟩ ::
    .replicate 4 ⟨some ⟨0⟩,"K.kt",2,some (.function ⟨"m",.named,.empty,[],[],none,[],none,false,[]⟩)⟩)]⟩
  oracle := .ofTables ⟨[⟨⟨0⟩,⟨0⟩⟩],[overridingEntry 1 [2,3],overridingEntry 2 [4,1],overridingEntry 3 [4],
    overridingEntry 4 []],[],.overridable,[],[]⟩
  config := .standard

/-- The last function is found for the first one, though two ways and a cycle lead there, and nothing is found for
the last one. -/
theorem View.findOverridee_roots_shared :
    let env := Environment.shared
    let s := State.during env [.inquiry (.symbol (.node ⟨⟨0⟩,⟨1⟩⟩))]
    ∃ f g : FunctionView, f.header.key = .node ⟨⟨0⟩,⟨1⟩⟩ ∧ g.header.key = .node ⟨⟨0⟩,⟨4⟩⟩ ∧
      (f.findOverridee env s).1 = .ok (some g) ∧
      (g.findOverridee env (f.findOverridee env s).2).1 = .ok none := by
  intro env s
  let F : FunctionShape := ⟨"m",.named,.empty,[],[],none,[],none,false,[]⟩
  let f : FunctionView := ⟨⟨⟨0⟩,.node ⟨⟨0⟩,⟨1⟩⟩,.kotlin,.file "K.kt" 2⟩,F⟩
  have held : s.node? f.id = some f.toNode := by decide +kernel
  have above : env.oracle.above ⟨⟨0⟩,⟨1⟩⟩ = [⟨⟨0⟩,⟨2⟩⟩,⟨⟨0⟩,⟨4⟩⟩,⟨⟨0⟩,⟨1⟩⟩,⟨⟨0⟩,⟨3⟩⟩] := by decide +kernel
  have top : env.oracle.rootsAbove ⟨⟨0⟩,⟨1⟩⟩ = [⟨⟨0⟩,⟨4⟩⟩] := by
    rw [Oracle.rootsAbove,above]
    decide
  obtain ⟨-,described,again,-⟩ := View.findOverridee_roots env _ held (by decide)
  obtain ⟨roots,mem,-,one,-⟩ := described fun k reached => by
    rw [← Oracle.mem_above] at reached
    change k ∈ env.oracle.above ⟨⟨0⟩,⟨1⟩⟩ at reached
    rw [above] at reached
    revert k
    decide
  have single : roots = {⟨⟨0⟩,⟨4⟩⟩} := by
    ext k
    rw [mem,← Oracle.mem_rootsAbove]
    change k ∈ env.oracle.rootsAbove ⟨⟨0⟩,⟨1⟩⟩ ↔ _
    simp [top]
  obtain ⟨g,found,key,-,-⟩ := one _ F single rfl
  exact ⟨f,g,rfl,key,found,again g [] found⟩

end SymbolGraph
