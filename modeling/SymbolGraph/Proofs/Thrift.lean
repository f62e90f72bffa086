import SymbolGraph.Proofs.Identity
import SymbolGraph.Proofs.Memory
import SymbolGraph.Proofs.Outcome
import SymbolGraph.Proofs.Questions

/-! What has been found out is not asked again. An attribute that has been computed is read without a question from
then on, through any view of its symbol. What a written reference means is asked by its resolution only, so the
oracle answers this question once. -/
namespace SymbolGraph

variable {A B G S : Type} {env : Environment} {s s' : State}

/-! ### References -/

namespace State

/-- The oracle has told what each written reference means at most once, and the symbol of the reference remembers
what it said. -/
structure Thrifty (env : Environment) (s : State) : Prop where
  once : ∀ k t, env.oracle.reference k = some t → s.asked.count (.reference k) ≤ 1
  kept : ∀ k t, env.oracle.reference k = some t → .reference k ∈ s.asked →
    ∃ id v, s.id? (.node k) = some id ∧ (cell id .type).get s = .resolved v

theorem thrifty_initial (env : Environment) : Thrifty env .initial where
  once _ _ _ := Nat.zero_le _
  kept _ _ _ asked := absurd asked (Array.not_mem_empty _)

/-- A written reference remembers what the oracle tells of it. -/
theorem Sound.types_get? (hs : s.Sound env 4) {r : ReferenceView} {k : NodeKey} {id : TypeId} {t : ResolvedType}
    (hr : s.node? r.id = some r.toNode) (key : r.header.key = .node k)
    (cell : (cell r.id .type).get s = .resolved id) (ht : env.oracle.reference k = some t) :
    s.types.get? id = some t := by
  obtain ⟨u,direct,hu⟩ := hs.value hr cell
  have genuine : r.sight.Genuine env := hs.symbol hr
  have value : r.toNode.sight.value .type = r.sight.resolve := Sight.through_toNode _ r.sight
  rw [value] at direct
  have told := Sight.resolve_eq_ok genuine key direct
  rw [← Option.some.inj (told.symm.trans ht)]
  exact hu

/-- What a state has come to: it is thrifty, and no question about a reference is taken back. -/
structure Learns (env : Environment) (s s' : State) : Prop where
  thrifty : s'.Thrifty env
  count_le : ∀ k : NodeKey, s.asked.count (.reference k) ≤ s'.asked.count (.reference k)

theorem Learns.refl (h : s.Thrifty env) : s.Learns env s := ⟨h,fun _ => Nat.le_refl _⟩

theorem Learns.trans {s'' : State} (h : s.Learns env s') (h' : s'.Learns env s'') : s.Learns env s'' :=
  ⟨h'.thrifty,fun k => Nat.le_trans (h.count_le k) (h'.count_le k)⟩

/-- Other questions do no harm. -/
theorem Thrifty.learns (h : s.Thrifty env) (hs : s.Sound env 4) (went : s.Continues env s')
    (same : ∀ k : NodeKey, s'.asked.count (.reference k) = s.asked.count (.reference k)) : s.Learns env s' where
  thrifty.once k t ht := by
    rw [same]
    exact h.once k t ht
  thrifty.kept k t ht asked := by
    rw [← Array.count_pos_iff,same,Array.count_pos_iff] at asked
    obtain ⟨id,v,hid,hv⟩ := h.kept k t ht asked
    exact ⟨id,v,(went.kept hs).id _ _ hid,went.grows.resolved hv⟩
  count_le k := Nat.le_of_eq (same k).symm

end State

/-- A session that keeps a state thrifty. -/
def Saves (env : Environment) (s : State) (x : Session A) : Prop :=
  s.Sound env 4 → s.Thrifty env → s.Learns env (x env s).2

namespace Saves

variable {R : Reading A B} {x : Session A} {p : Direct B}

theorem of_omits (hx : Agrees R env 4 s x p) (omits : Omits x) : Saves env s x := by
  intro hs thrifty
  have after := hx hs
  exact thrifty.learns hs ⟨after.grows,after.sound⟩ fun k => omits k env s

theorem bind {C : Type} {f : A → Session C} (hx : Agrees R env 4 s x p) (saves : Saves env s x)
    (hf : ∀ s' a b, s.Grows s' → R s' a b → Saves env s' (f a)) : Saves env s (x >>= f) := by
  intro hs thrifty
  have after := hx hs
  have first := saves hs thrifty
  rcases run : x env s with ⟨e | a,s'⟩ <;> rw [run] at after first
  · rw [Attempt.bind_error run]
    exact first
  · rw [Attempt.bind_ok run]
    obtain ⟨b,-,hab⟩ := after.exists_direct rfl
    exact first.trans (hf s' a b after.grows hab after.sound first.thrifty)

theorem pure (a : A) : Saves env s (pure a) := fun _ thrifty => .refl thrifty

theorem map {C : Type} {f : A → C} (saves : Saves env s x) : Saves env s (do return f (← x)) := by
  intro hs thrifty
  have first := saves hs thrifty
  rcases run : x env s with ⟨e | a,s'⟩ <;> rw [run] at first
  · rw [Attempt.bind_error run]
    exact first
  · rw [Attempt.bind_ok run]
    exact first

theorem branch {c : Prop} [Decidable c] {y : Session A} (hx : Saves env s x) (hy : Saves env s y) :
    Saves env s (if c then x else y) := by
  split
  · exact hx
  · exact hy

section Resolution

variable {r : ReferenceView} {w : Sight ReferenceForm}

/-- What a declaration is written without is asked in another way. -/
theorem omits_of_deferred (form : r.shape = .deferred) : Omits r.resolve := by
  have asked : Omits (Session.referenced r) := by
    rw [Session.referenced,form]
    exact (Omits.descriptor r.anchor).bind fun _ => .of_silent (.orFail _ _)
  exact (Omits.memo r.id (a := .type) (asked.bind fun t => .of_silent (.internType t))).bind fun id =>
    .of_silent (.typeById id)

/-- The resolution of a written reference asks what it means, if this has not been found out. -/
theorem asked_of_written {t : TypeReferenceShape} (form : r.shape = .written t)
    (cell : (State.cell r.id .type).get s = .unresolved) :
    (r.resolve env s).2.asked = s.asked.push (.reference r.anchor) := by
  let begun := (State.cell r.id .type).set .resolving s
  have referenced : (Session.referenced r env begun).2.asked = s.asked.push (.reference r.anchor) := by
    rw [Session.referenced,form]
    exact Silent.asked_bind (fun _ => .orFail _ _) env begun
  have computed := (Silent.asked_bind Silent.internType env begun).trans referenced
  rw [View.resolve,Silent.asked_bind Silent.typeById,Session.asked_memo cell]
  exact computed

/-- The key step: a reference asks what it means only if it does not remember it, and then does. -/
theorem resolve (hr : Shows s r w) : Saves env s r.resolve := by
  have agrees : Agrees Interns env 4 s r.resolve w.resolve := .resolve hr (by decide)
  cases form : r.shape with
  | deferred => exact of_omits agrees (omits_of_deferred form)
  | written t =>
    intro hs thrifty
    have after := agrees hs
    have went : s.Continues env (r.resolve env s).2 := ⟨after.grows,after.sound⟩
    have genuine : w.Genuine env := by
      rw [← hr.2]
      exact hs.symbol hr.1
    have shape : Viewed.form w.shape = .written (.typeReference t) := by
      rw [← hr.shape,form]
      rfl
    have key : w.key = .node r.anchor := by
      rw [hr.anchor]
      exact (genuine.written shape).1
    have own : s.id? (.node r.anchor) = some r.id := by
      refine hs.indexed.mpr ⟨_,hr.1,?_⟩
      rw [← key,← hr.2]
      rfl
    cases cell : (State.cell r.id .type).get s with
    | resolving => exact absurd (hs.idle cell) (by decide)
    | resolved id =>
      obtain ⟨u,-,hu⟩ := hs.value hr.1 cell
      rw [View.resolve_run cell hu]
      exact .refl thrifty
    | unresolved =>
      have asked : (r.resolve env s).2.asked = s.asked.push (.reference r.anchor) := asked_of_written form cell
      -- Had the question been answered before, the symbol would remember the answer.
      have fresh : ∀ t, env.oracle.reference r.anchor = some t → .reference r.anchor ∉ s.asked := by
        intro t ht before
        obtain ⟨id,v,hid,hv⟩ := thrifty.kept _ t ht before
        obtain rfl := Option.some.inj (own.symm.trans hid)
        exact nomatch cell.symm.trans hv
      refine ⟨⟨fun k t ht => ?_,fun k t ht mem => ?_⟩,fun k => ?_⟩
      · rw [asked]
        by_cases own : k = r.anchor
        · subst own
          have none := Array.count_eq_zero_of_not_mem (fresh t ht)
          rw [Array.count_push_self]
          omega
        · rw [Array.count_push_of_ne (fun e => own (Query.reference.inj e).symm)]
          exact thrifty.once k t ht
      · rw [asked,Array.mem_push] at mem
        by_cases same : k = r.anchor
        · subst same
          have direct : w.resolve env = .ok t := Sight.resolve_of_reference genuine key ht
          obtain ⟨u,run,-⟩ := after.exists_answer direct
          have cell := View.resolved_of_resolve (Prod.ext run rfl) (went.grows.node hr.1)
          exact ⟨r.id,u.id,(went.kept hs).id _ _ own,cell⟩
        · obtain ⟨id,v,hid,hv⟩ := thrifty.kept k t ht (mem.resolve_right fun e => same (Query.reference.inj e))
          exact ⟨id,v,(went.kept hs).id _ _ hid,went.grows.resolved hv⟩
      · rw [asked,Array.count_push]
        exact Nat.le_add_right _ _

end Resolution

/-! ### Chains of aliases -/

theorem fail (e : Error) : Saves env s (Session.fail e : Session A) := fun _ thrifty => .refl thrifty

theorem chainFrom {chain : List InternedType} {chain' : List ResolvedType} {t : InternedType} {w : ResolvedType}
    (hc : Each Interns s chain chain') (ht : Interns s t w) (steps : Nat) :
    Saves env s (InternedType.chainFrom steps chain t) := by
  induction steps generalizing s chain chain' t w with
  | zero =>
    refine of_omits (Agrees.chainFrom (by decide) hc ht 0) ?_
    rw [InternedType.chainFrom]
    refine .of_silent ((Silent.alias? t).bind fun a => ?_)
    cases a with
    | none => exact .pure chain
    | some a => exact fun _ _ => rfl
  | succ steps ih =>
    rw [InternedType.chainFrom]
    refine bind (.alias? ht) (of_omits (.alias? ht) (.of_silent (.alias? t))) fun s₁ a _ g₁ ha => ?_
    cases ha with
    | none => exact .pure chain
    | some ha =>
      refine bind (.target ha) (of_omits (.target ha) (.of_silent (.typed _))) fun s₂ r _ g₂ hr => ?_
      refine bind (.resolve hr (by decide)) (resolve hr) fun s₃ next _ g₃ hnext => ?_
      have longer := List.rel_append (((g₁.trans g₂).trans g₃).reading hc) (.cons hnext .nil)
      refine .branch ?_ (ih longer hnext)
      exact bind (.names longer) (of_omits (.names longer) (.of_silent (.names _))) fun _ _ _ _ _ => .fail _

theorem aliasChain {t : InternedType} {w : ResolvedType} (ht : Interns s t w) : Saves env s t.aliasChain :=
  chainFrom (.cons ht .nil) ht env.config.maxAliasDepth

/-! ### Inquiries -/

theorem through [Viewed S] {n : Node} {w : Sight Form} (hn : Shows s n w) {f : View S → Session Answer}
    (hf : ∀ v w, Shows s v w → Saves env s (f v)) : Saves env s (Session.through S n f) := by
  rw [Session.through]
  cases hv : n.as? S with
  | none => exact .pure _
  | some v =>
    obtain ⟨w,hv⟩ := hn.exists_as? hv
    exact hf v w hv

theorem facet {n : Node} {w : Sight Form} (hn : Shows s n w) (f : Facet) : Saves env s (Session.facet n f) := by
  by_cases own : f = .resolve
  · subst own
    exact through hn fun _ _ hr => (resolve hr).map
  · exact of_omits (Agrees.facet hn f) (.facet n own)

theorem typeOf (t : TypeAddress) : Saves env s (Session.typeOf t) := by
  cases t with
  | meant k =>
    refine bind (.symbolOf k) (of_omits (.symbolOf k) (.symbolOf k)) fun s' n w _ hn => ?_
    cases hr : n.as? ReferenceForm with
    | none => exact .pure none
    | some r =>
      obtain ⟨w,hr⟩ := hn.exists_as? hr
      exact (resolve hr).map
  | built t => exact of_omits (Agrees.typeOf (.built t)) (.of_silent (.map (.intern t)))

theorem typeFacet {t : InternedType} {w : ResolvedType} (ht : Interns s t w) (f : TypeFacet) :
    Saves env s (Session.typeFacet t f) := by
  have silently (h : Silent (Session.typeFacet t f)) : Saves env s (Session.typeFacet t f) :=
    of_omits (Agrees.typeFacet ht f) (.of_silent h)
  cases f with
  | declaration => exact silently (Silent.declared t).map
  | arguments => exact silently (Silent.arguments t).map
  | withNullable nullable => exact silently (Silent.withNullable t nullable).map
  | shown => exact silently (Silent.shown t).map
  | isAlias => exact silently (Silent.isAlias t).map
  | aliasChain => exact (aliasChain ht).map
  | isAssignableFrom source =>
    refine bind (.typeOf source) (typeOf source) fun s' u _ g hu => ?_
    cases hu with
    | none => exact .pure _
    | some hu =>
      have agrees : Agrees Same env 4 s' (t.isAssignableFrom _) _ := .isAssignableFrom (g.reading ht) hu
      exact (of_omits agrees (.isAssignableFrom t _)).map

theorem reply {n : Node} {w : Sight Form} (hn : Shows s n w) (f : Facet) : Saves env s (Session.reply n f) := by
  intro hs thrifty
  rw [Session.reply_state]
  exact facet hn f hs thrifty

theorem typeReply {t : InternedType} {w : ResolvedType} (ht : Interns s t w) (f : TypeFacet) :
    Saves env s (Session.typeReply t f) := by
  intro hs thrifty
  rw [Session.typeReply_state]
  exact typeFacet ht f hs thrifty

theorem inquiry (r : Inquiry) : Saves env s r.serve := by
  cases r with
  | files => exact (of_omits .allFiles .allFiles).map
  | symbol k => exact (of_omits (.symbolOf k) (.symbolOf k)).map
  | symbolById id => exact (of_omits (.known id) (.of_silent (.nodeById id))).map
  | facet id f =>
    exact bind (.known id) (of_omits (.known id) (.of_silent (.nodeById id))) fun _ _ _ _ hn => reply hn f
  | intern t => exact (of_omits (.intern t) (.of_silent (.intern t))).map
  | typeById id => exact (of_omits (.knownType id) (.of_silent (.typeById id))).map
  | type id f =>
    exact bind (.knownType id) (of_omits (.knownType id) (.of_silent (.typeById id))) fun _ _ _ _ ht => typeReply ht f

/-! ### Processors -/

theorem comparedTypes {r : ReferenceView} {w : Sight ReferenceForm} (hr : Shows s r w) :
    Saves env s (Processor.comparedTypes r) := by
  have marked : Omits (Processor.isInteresting r) :=
    .readThen fun _ => .of_silent (Silent.map (Keeps.children (.asked id) r _ _))
  refine bind (.isInteresting hr (by decide)) (of_omits (.isInteresting hr (by decide)) marked) fun s' _ _ g _ => ?_
  have hr := g.reading hr
  exact .branch (bind (.resolve hr (by decide)) (resolve hr) fun _ _ _ _ ht => aliasChain ht) (.pure [])

theorem mapM {C D : Type} {Q : Reading C D} [Lasting Q] {R : Reading A B} {f : C → Session A} {g : D → Direct B}
    {cs : List C} {ds : List D} (h : Each Q s cs ds)
    (agree : ∀ s' c d, s.Grows s' → Q s' c d → Agrees R env 4 s' (f c) (g d))
    (saves : ∀ s' c d, s.Grows s' → Q s' c d → Saves env s' (f c)) : Saves env s (cs.mapM f) := by
  induction cs generalizing ds s with
  | nil => exact .pure []
  | cons c cs ih =>
    rcases h with _ | ⟨hc,h⟩
    rename_i d ds
    rw [List.mapM_cons]
    refine bind (agree s c d (.refl s) hc) (saves s c d (.refl s) hc) fun s₁ _ _ g₁ _ => .map ?_
    exact ih (g₁.reading (R := Each Q) h) (fun s' c d g => agree s' c d (g₁.trans g))
      fun s' c d g => saves s' c d (g₁.trans g)

/-- The types that marked references stand for, found before any of them are compared. -/
def comparedOnes : Session (List (List InternedType)) := do
  (← Gathering.gathered Visitor.references.visitFiles #[]).toList.mapM Processor.comparedTypes

theorem compareAliases_eq : Processor.compareAliases = (do
    let types := (← Gathering.ofSession comparedOnes).flatten
    types.forM fun i => types.forM fun j => do
      Gathering.record (← Gathering.ofSession (Processor.comparison i j))) := by
  rw [Processor.compareAliases,comparedOnes,Gathering.ofSession_bind,bind_assoc]
  simp only [Gathering.ofSession_mapM]

theorem gathered {x : Gathering G Unit} {g : G}
    (h : s.Sound env 4 → s.Thrifty env → s.Learns env (x env (s,g)).2.1) : Saves env s (Gathering.gathered x g) := by
  intro hs thrifty
  have ran := h hs thrifty
  rw [Gathering.gathered]
  rcases run : x env (s,g) with ⟨e | a,s',g'⟩ <;> rw [run] at ran <;> exact ran

theorem compareAliases (g : Array String) : Saves env s (Gathering.gathered Processor.compareAliases g) := by
  refine gathered fun hs thrifty => ?_
  have visited : Gathers Same (Listed Shows) env 4 s Visitor.references.visitFiles Direct.Visitor.references.visitFiles :=
    Visits.references.visitFiles (by decide)
  have listed : Agrees (Listed Shows) env 4 s (Gathering.gathered Visitor.references.visitFiles #[]) _ :=
    visited.gathered (g := #[]) (h := #[]) .nil
  have agrees : Agrees (Each (Each Interns)) env 4 s comparedOnes _ := listed.bind fun s' rs ws _ h =>
    .mapM (Q := Shows) h fun _ _ _ _ hr => .comparedTypes hr (by decide)
  have saves : Saves env s comparedOnes := by
    refine bind listed (of_omits listed (Gathering.Omits.gathered (Omits.references none) #[])) fun s' rs ws _ h => ?_
    exact mapM (Q := Shows) h (fun _ _ _ _ hr => .comparedTypes hr (by decide)) fun _ _ _ _ hr => comparedTypes hr
  have found := agrees hs
  have first := saves hs thrifty
  rw [compareAliases_eq]
  rcases run : comparedOnes env s with ⟨e | types,s'⟩ <;> rw [run] at found first
  · rw [Attempt.bind_error (Gathering.ofSession_run run g)]
    exact first
  · rw [Attempt.bind_ok (Gathering.ofSession_run run g)]
    obtain ⟨_,-,held⟩ := found.exists_direct rfl
    obtain ⟨grows,sound,-,-⟩ := Gathers.comparisons (List.rel_flatten held) g g found.sound rfl
    have compared := first.thrifty.learns found.sound ⟨grows,sound⟩ fun k => Omits.comparisons types.flatten k env s' g
    exact first.trans compared

theorem process (p : Processor) : Saves env s (Gathering.gathered p.process #[]) := by
  have agrees : Agrees Same env 4 s (Gathering.gathered p.process #[]) _ := (Gathers.process p).gathered rfl
  cases p with
  | packageNames =>
    refine of_omits agrees (Gathering.Omits.gathered (.readThen fun env => ?_) #[])
    exact Omits.names none env.config.noPackagePlaceholder
  | aliasComparison => exact compareAliases #[]
  | overridee => exact of_omits agrees (Gathering.Omits.gathered Omits.overridees #[])

/-- Whatever is done, a session asks only what it does not remember. -/
theorem action (a : Action) : Saves env s a.run := by
  cases a with
  | inquiry r => exact (inquiry r).map
  | symbols skip start =>
    exact of_omits (.action (.symbols skip start)) (.map (Gathering.Omits.gathered (Omits.symbols skip start) #[]))
  | names start noPackage =>
    exact of_omits (.action (.names start noPackage))
      (.map (Gathering.Omits.gathered (Omits.names start noPackage) #[]))
  | references start =>
    exact of_omits (.action (.references start)) (.map (Gathering.Omits.gathered (Omits.references start) #[]))
  | process p => exact (process p).map

end Saves

/-! ### Histories -/

namespace State

theorem Thrifty.foldl (h : s.Thrifty env) (hs : s.Sound env 4) (history : List Action) :
    s.Learns env (history.foldl (fun s a => (a.run env s).2) s) := by
  induction history generalizing s with
  | nil => exact .refl h
  | cons a rest ih =>
    have learned := Saves.action a hs h
    exact learned.trans (ih learned.thrifty (a.follows hs).sound)

theorem thrifty_during (env : Environment) (history : List Action) : (during env history).Thrifty env :=
  ((thrifty_initial env).foldl (sound_initial env 4) history).thrifty

/-- The oracle answers what a written reference means at most once, whatever is done with a session, over any
models and any oracle. Once it has, the reference is resolved without a question, through any view of its symbol and
at any time from then on, and always to the type of one id. It is the same with the function at the root of those
that a function overrides, also if there is none. -/
theorem asked_once (env : Environment) (history : List Action) :
    (∀ k t, env.oracle.reference k = some t → (during env history).asked.count (.reference k) ≤ 1) ∧
    (∀ k t, env.oracle.reference k = some t → .reference k ∈ (during env history).asked → ∃ id,
      (∀ later, (during env (history ++ later)).asked.count (.reference k) = 1) ∧
      ∀ v, (during env history).Continues env v → ∀ r : ReferenceView, v.node? r.id = some r.toNode →
        r.header.key = .node k → r.resolve env v = (.ok ⟨id,t⟩,v)) ∧
    (∀ (f : FunctionView) o s', (during env history).node? f.id = some f.toNode →
      f.findOverridee env (during env history) = (.ok o,s') →
      ∀ v, s'.Continues env v → ∀ g : FunctionView, v.node? g.id = some g.toNode → g.header.key = f.header.key →
        g.findOverridee env v = (.ok o,v)) ∧
    ∀ later, (during env history).Continues env (during env (history ++ later)) := by
  have sound := sound_during env history
  have thrifty := thrifty_during env history
  refine ⟨thrifty.once,fun k t ht asked => ?_,fun f o s' hf run v went g hg same => ?_,fun later => ?_⟩
  · obtain ⟨sid,id,hid,cell⟩ := thrifty.kept k t ht asked
    refine ⟨id,fun later => ?_,fun v went r hr key => ?_⟩
    · have before := Array.count_pos_iff.mpr asked
      have learned := (thrifty.foldl sound later).count_le k
      have once := (thrifty_during env (history ++ later)).once k t ht
      rw [during_append] at once ⊢
      omega
    · have here : v.id? (.node k) = some sid := (went.kept sound).id _ _ hid
      obtain rfl : r.id = sid := by
        have own : v.id? (.node k) = some r.id := went.sound.indexed.mpr ⟨_,hr,key⟩
        exact Option.some.inj (own.symm.trans here)
      have cell := went.grows.resolved cell
      exact View.resolve_run cell (went.sound.types_get? hr key cell ht)
  · have agrees : Agrees (Maybe Shows) env 4 (during env history) f.findOverridee f.sight.findOverridee :=
      .findOverridee ⟨hf,rfl⟩ (by decide)
    have after := agrees sound
    rw [run] at after
    have hf := after.grows.node hf
    obtain ⟨id,cell,root⟩ := View.resolved_of_findOverridee run hf
    have ids : g.id = f.id := went.sound.unique hg (went.grows.node hf) same
    exact View.findOverridee_run (by rw [ids]; exact went.grows.resolved cell) (root.mono went.grows)
  · rw [during_append]
    exact continues_foldl sound later

end State

/-- A function that overrides nothing, with its result type. -/
def Environment.referring : Environment where
  models := ⟨[.ofSlots .kotlin [⟨none,"R.kt",1,some (.file ⟨"R.kt","d",[],[⟨1⟩]⟩)⟩,
    ⟨some ⟨0⟩,"R.kt",2,some (.function ⟨"f",.named,.empty,[],[],none,[],some ⟨2⟩,true,[]⟩)⟩,
    ⟨some ⟨1⟩,"R.kt",3,some (.typeReference ⟨"T",[],[]⟩)⟩]]⟩
  oracle := .ofTables ⟨[⟨⟨0⟩,⟨0⟩⟩],[(⟨⟨0⟩,⟨1⟩⟩,⟨⟨⟨0⟩,⟨1⟩⟩,"f",[],none,[]⟩)],
    [(⟨⟨0⟩,⟨2⟩⟩,.simple ⟨⟨0⟩,⟨1⟩⟩)],.incompatible,[],[]⟩
  config := .standard

/-- The type is resolved twice and the function looked at twice, with one question for each. -/
theorem State.asked_once_referring :
    let env := Environment.referring
    let history : List Action := [.inquiry (.symbol (.node ⟨⟨0⟩,⟨2⟩⟩)),.inquiry (.facet ⟨0⟩ .resolve),
      .inquiry (.symbol (.node ⟨⟨0⟩,⟨1⟩⟩))]
    ∃ (r : ReferenceView) (f : FunctionView) (s : State), (during env history).node? r.id = some r.toNode ∧
      (during env (history ++ history)).asked.count (.reference ⟨⟨0⟩,⟨2⟩⟩) = 1 ∧
      (∃ id, r.resolve env (during env history) = (.ok ⟨id,.simple ⟨⟨0⟩,⟨1⟩⟩⟩,during env history)) ∧
      f.findOverridee env (during env history) = (.ok none,s) ∧ f.findOverridee env s = (.ok none,s) := by
  intro env history
  let r : ReferenceView := ⟨⟨⟨0⟩,.node ⟨⟨0⟩,⟨2⟩⟩,.kotlin,.file "R.kt" 3⟩,.written ⟨"T",[],[]⟩⟩
  let f : FunctionView := ⟨⟨⟨1⟩,.node ⟨⟨0⟩,⟨1⟩⟩,.kotlin,.file "R.kt" 2⟩,
    ⟨"f",.named,.empty,[],[],none,[],some ⟨2⟩,true,[]⟩⟩
  have hr : (during env history).node? r.id = some r.toNode := by decide +kernel
  have hf : (during env history).node? f.id = some f.toNode := by decide +kernel
  have all : (during env history).asked = #[.reference ⟨⟨0⟩,⟨2⟩⟩] := by decide +kernel
  have asked : .reference ⟨⟨0⟩,⟨2⟩⟩ ∈ (during env history).asked := by
    rw [all]
    exact Array.mem_singleton.mpr rfl
  have roots : f.sight.overriddenRoots env = .ok [] := by
    have above : env.oracle.overriddenGraph.explore true [] [] = [] := by rw [Graph.explore]
    show List.filterM (m := Direct) _ (env.oracle.overriddenGraph.explore true [] []) env = _
    rw [above]
    rfl
  have direct : f.sight.findOverridee env = .ok none := by
    rw [Sight.findOverridee,Direct.bind_ok roots]
    rfl
  have sound := sound_during env history
  obtain ⟨-,references,functions,-⟩ := asked_once env history
  obtain ⟨id,once,again⟩ := references ⟨⟨0⟩,⟨2⟩⟩ (.simple ⟨⟨0⟩,⟨1⟩⟩) rfl asked
  have agrees : Agrees (Maybe Shows) env 4 (during env history) f.findOverridee f.sight.findOverridee :=
    .findOverridee ⟨hf,rfl⟩ (by decide)
  have after := agrees sound
  obtain ⟨_,ok,root⟩ := after.exists_answer direct
  cases root
  rcases run : f.findOverridee env (during env history) with ⟨_,s⟩
  rw [run] at ok after
  cases ok
  have kept := functions f none s hf run s (.refl after.sound) f (after.grows.node hf) rfl
  exact ⟨r,f,s,hr,once history,⟨id,again _ (.refl sound) r hr rfl⟩,run,kept⟩

end SymbolGraph
