import SymbolGraph.Proofs.Action

/-! The identity of symbols over the life of a session. Whatever is done with a session, over any models and
any oracle, its entries, its index and the ids that it hands out agree, and what it has once is kept. -/
namespace SymbolGraph

variable {env : Environment} {s : State}

namespace State

/-- What holds of the symbols of a state. -/
structure Identity (env : Environment) (s : State) : Prop where
  /-- An entry carries its own place as its id. -/
  id_eq : ∀ (i : Nat) (e : Entry), s.entries[i]? = some e → e.node.id = ⟨i⟩
  /-- The index takes the keys of the entries to their ids, and has no other keys. -/
  index : ∀ k id, s.id? k = some id ↔ ∃ n, s.node? id = some n ∧ n.header.key = k
  /-- Every id up to the number of entries is that of one key. -/
  bijective : ∀ i, i < s.entries.size → ∃! k, s.id? k = some ⟨i⟩
  /-- The symbol of a node is as the models describe the node. -/
  written : ∀ id n k, s.node? id = some n → n.header.key = .node k →
    ∃ a t, env.models.arena? k.source = some a ∧ a.shape? k.node = some t ∧ n.shape = .written t ∧
      n.kind = t.kind ∧ n.header.origin = a.origin ∧ n.header.location = a.location k.node
  /-- A deferred symbol is a type reference that stands nowhere. -/
  deferred : ∀ id n k, s.node? id = some n → n.header.key = .deferred k →
    n.shape = .deferred ∧ n.kind = .typeReference ∧ n.header.location = .nonExisting

theorem Sound.node_of_id? (h : s.Sound env 4) {k : SymbolKey} {id : SymbolId} (hk : s.id? k = some id) :
    ∃ n, s.node? id = some n ∧ Direct.symbol k env = .ok n.sight := by
  obtain ⟨n,hn,rfl⟩ := h.indexed.mp hk
  exact ⟨n,hn,h.symbol hn⟩

theorem Sound.identity (h : s.Sound env 4) : s.Identity env where
  id_eq i e he := by
    have node : s.node? ⟨i⟩ = some e.node := by rw [node?,he]; rfl
    exact h.id_eq node
  index _ _ := h.indexed
  bijective i hi := by
    have node : s.node? ⟨i⟩ = some s.entries[i].node := by simp [node?,hi]
    refine ⟨_,h.indexed.mpr ⟨_,node,rfl⟩,fun k hk => ?_⟩
    obtain ⟨n,hn,rfl⟩ := h.indexed.mp hk
    rw [Option.some.inj (hn.symm.trans node)]
  written id n k hn key := by
    have made := h.symbol hn
    rw [key] at made
    obtain ⟨a,t,ha,ht,same⟩ := Direct.node_eq_ok.mp made
    rw [Models.shape?_eq ha] at ht
    have shape : n.shape = .written t := congrArg Sight.shape same
    exact ⟨a,t,ha,ht,shape,congrArg Form.kind shape,congrArg Sight.origin same,congrArg Sight.location same⟩
  deferred id n k hn key := by
    have made := h.symbol hn
    rw [key] at made
    obtain ⟨a,-,same⟩ := Direct.symbol_deferred_eq_ok.mp made
    have shape : n.shape = .deferred := congrArg Sight.shape same
    exact ⟨shape,congrArg Form.kind shape,congrArg Sight.location same⟩

/-- The models have the sources of the keys of a state. -/
theorem Sound.id?_eq_none_of_arena? (h : s.Sound env 4) {k : SymbolKey}
    (missing : env.models.arena? k.anchor.source = none) : s.id? k = none := by
  rw [Option.eq_none_iff_forall_ne_some]
  intro id hk
  obtain ⟨n,-,made⟩ := h.node_of_id? hk
  cases k with
  | node k =>
    obtain ⟨a,_,ha,-,-⟩ := Direct.node_eq_ok.mp made
    exact nomatch missing.symm.trans ha
  | deferred k =>
    obtain ⟨a,ha,-⟩ := Direct.symbol_deferred_eq_ok.mp made
    exact nomatch missing.symm.trans ha

/-- The models have the nodes of a state. -/
theorem Sound.id?_eq_none_of_shape? (h : s.Sound env 4) {k : NodeKey} (missing : env.models.shape? k = none) :
    s.id? (.node k) = none := by
  rw [Option.eq_none_iff_forall_ne_some]
  intro id hk
  obtain ⟨n,-,made⟩ := h.node_of_id? hk
  obtain ⟨_,t,-,ht,-⟩ := Direct.node_eq_ok.mp made
  exact nomatch missing.symm.trans ht

/-- What a state has of its symbols is in another state too, under the same ids. -/
structure Kept (s s' : State) : Prop where
  node : ∀ id n, s.node? id = some n → s'.node? id = some n
  id : ∀ k id, s.id? k = some id → s'.id? k = some id
  resolved : ∀ id a v, (cell id a).get s = .resolved v → (cell id a).get s' = .resolved v

theorem Continues.kept {s' : State} (hs : s.Sound env 4) (h : s.Continues env s') : s.Kept s' where
  node _ _ hn := h.grows.node hn
  id k id hk := by
    obtain ⟨n,hn,key⟩ := hs.indexed.mp hk
    exact h.sound.indexed.mpr ⟨n,h.grows.node hn,key⟩
  resolved _ _ _ hv := h.grows.resolved hv

/-- A failure leaves no entry for what it calls unknown, unless that is a declaration that stands nowhere. An
inquiry adds no entry for it even then. -/
structure Clean (env : Environment) (s : State) (a : Action) (s' : State) (e : Error) : Prop where
  source : ∀ i, e = .unknownSource i → ∀ k, k.anchor.source = i → s'.id? k = none
  node : ∀ k, e = .unknownNode k → s'.id? (.node k) = none ∨ env.models.Stray k
  inquiry : ∀ q k, a = .inquiry q → e = .unknownNode k → s'.id? (.node k) = s.id? (.node k)

end State

/-- The error of an action is that of what the action comes to without a session. -/
theorem Action.direct_of_run (hs : s.Sound env 4) {a : Action} {e : Error}
    (failed : (a.run env s).1 = .error e) :
    a.direct s env = .error e := (a.follows hs).error_iff.mp failed

theorem Action.stray_of_excused {a : Action} {k : NodeKey} (h : a.Excused env s k) : env.models.Stray k := by
  cases a with
  | inquiry r => exact h.1
  | symbols | names | references | process => exact h

theorem Action.founded_of_run (hs : s.Sound env 4) {a : Action} {e : Error}
    (failed : (a.run env s).1 = .error e) :
    e.Founded env (a.Excused env s) := by
  have within := a.founded hs
  rcases within.ok_or_error with ⟨u,ok,-⟩ | ⟨e',error,founded⟩
  · exact nomatch ok.symm.trans (direct_of_run hs failed)
  · have same := Except.error.inj (error.symm.trans (direct_of_run hs failed))
    rwa [same] at founded

theorem Action.clean (hs : s.Sound env 4) (a : Action) {e : Error} (failed : (a.run env s).1 = .error e) :
    State.Clean env s a (a.run env s).2 e := by
  have after := a.follows hs
  have kept := State.Continues.kept hs ⟨after.grows,after.sound⟩
  have founded := founded_of_run hs failed
  constructor
  · rintro i rfl k rfl
    exact after.sound.id?_eq_none_of_arena? founded
  · rintro k rfl
    rcases founded with missing | excused
    · exact .inl (after.sound.id?_eq_none_of_shape? missing)
    · exact .inr (stray_of_excused excused)
  · rintro q k rfl rfl
    rcases founded with missing | ⟨-,here⟩
    · rw [after.sound.id?_eq_none_of_shape? missing,hs.id?_eq_none_of_shape? missing]
    · obtain ⟨id,hk⟩ := Option.isSome_iff_exists.mp here
      rw [hk,kept.id _ _ hk]

namespace State

/-- Whatever is done with a session, its symbols have one identity each. Symbols that were handed out are one
exactly if they are of one key. What is done next keeps what is there, and if it fails, has not added what it
calls unknown. -/
theorem identity_during (env : Environment) (history : List Action) :
    (during env history).Identity env ∧
    (∀ m ∈ Action.obtained env .initial history, (during env history).node? m.id = some m ∧
      ∀ n ∈ Action.obtained env .initial history,
        (m = n ↔ m.header.key = n.header.key) ∧ (m.id = n.id ↔ m.header.key = n.header.key)) ∧
    ∀ a : Action, (during env history).Kept (a.run env (during env history)).2 ∧
      ∀ e, (a.run env (during env history)).1 = .error e →
        Clean env (during env history) a (a.run env (during env history)).2 e := by
  have sound := sound_during env history
  refine ⟨sound.identity,fun m hm => ?_,fun a => ⟨?_,fun e => a.clean sound⟩⟩
  · have held := Action.held_obtained (sound_initial env 4) history
    have hm := held m hm
    refine ⟨hm,fun n hn => ?_⟩
    have hn := held n hn
    have ids : m.header.key = n.header.key → m.id = n.id := sound.unique hm hn
    have nodes : m.id = n.id → m = n := by
      intro same
      rw [same] at hm
      exact Option.some.inj (hm.symm.trans hn)
    have keys : m = n → m.header.key = n.header.key := congrArg fun n : Node => n.header.key
    exact ⟨⟨keys,fun key => nodes (ids key)⟩,⟨fun id => keys (nodes id),ids⟩⟩
  · have after := a.follows sound
    exact Continues.kept sound ⟨after.grows,after.sound⟩

end State

/-- A class that its file lists, and that has no parent itself. -/
def Environment.stray : Environment where
  models := ⟨[.ofSlots .kotlin [⟨none,"K.kt",1,some (.file ⟨"K.kt","d",[],[⟨1⟩]⟩)⟩,
    ⟨none,"K.kt",2,some (.classLike ⟨"A",.plain,.empty,[],[],[],[]⟩)⟩]]⟩
  oracle := .syntactic [⟨⟨0⟩,⟨0⟩⟩]
  config := .standard

/-- A walk of the file reaches the class, and makes its symbol. The name of the class is then asked for, and the
class is called unknown. -/
theorem Environment.stray_added :
    State.initial.id? (.node ⟨⟨0⟩,⟨1⟩⟩) = none ∧
    ((Action.process .packageNames).run stray .initial).1 = .error (.unknownNode ⟨⟨0⟩,⟨1⟩⟩) ∧
    ((Action.process .packageNames).run stray .initial).2.id? (.node ⟨⟨0⟩,⟨1⟩⟩) = some ⟨1⟩ := by
  refine ⟨rfl,?_,?_⟩
  · decide +kernel
  · decide +kernel

end SymbolGraph
