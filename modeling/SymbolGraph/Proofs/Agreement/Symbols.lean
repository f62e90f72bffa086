import SymbolGraph.Proofs.Agreement.Basic

/-! Making symbols, interning types and computing attributes keep a state sound. -/
namespace SymbolGraph

variable {A B : Type} {R : Reading A B} {env : Environment} {rank : Nat} {s : State}

namespace State

/-- A state is as sound as one with the same symbols, attributes and types. -/
theorem grows_asked (s : State) (f : Array Query → Array Query) :
    s.Grows { s with asked := f s.asked } := ⟨id,id,id,id⟩

theorem Sound.asked (h : s.Sound env rank) (f : Array Query → Array Query) :
    State.Sound env rank { s with asked := f s.asked } where
  id_eq := h.id_eq
  symbol := h.symbol
  indexed := h.indexed
  value e e' := by
    obtain ⟨b,hb,r⟩ := h.value e e'
    exact ⟨b,hb,(s.grows_asked f).reading r⟩
  idle := h.idle

theorem grows_add (n : Node) (s : State) : s.Grows (s.add n) where
  node := node?_add_of_some n
  type e := e
  resolved e := by rwa [get_add]
  resolving e := by rwa [get_add] at e

/-- A new symbol is the first of its key, and has no attributes yet. -/
theorem Sound.add (h : s.Sound env rank) {n : Node} (hid : n.header.id = s.nextId)
    (hn : Direct.symbol n.header.key env = .ok n.sight) (new : s.id? n.header.key = none) :
    (s.add n).Sound env rank where
  id_eq e := by
    rw [node?_add] at e
    split at e
    · next hi => cases e; rw [hid,hi]
    · exact h.id_eq e
  symbol e := by
    rw [node?_add] at e
    split at e
    · cases e; exact hn
    · exact h.symbol e
  indexed {k id} := by
    rw [id?_add,node?_add,hid]
    by_cases own : k = n.header.key
    · rw [if_pos own]
      constructor
      · intro e
        obtain rfl := Option.some.inj e
        exact ⟨n,by rw [if_pos rfl],own.symm⟩
      · rintro ⟨m,e,rfl⟩
        split at e
        · next hi => rw [hi]
        · have old : s.id? n.header.key = some id := h.indexed.mpr ⟨m,e,own⟩
          cases new.symm.trans old
    · rw [if_neg own,h.indexed]
      constructor
      · rintro ⟨m,e,rfl⟩
        have old : id ≠ s.nextId := by rintro rfl; rw [node?_nextId] at e; cases e
        exact ⟨m,by rwa [if_neg old],rfl⟩
      · rintro ⟨m,e,rfl⟩
        split at e
        · cases e; exact absurd rfl own
        · exact ⟨m,e,rfl⟩
  value {id m a v} e r := by
    rw [get_add] at r
    rw [node?_add] at e
    split at e
    · next hi =>
      -- the new symbol has its place behind all others
      subst hi
      simp [cell,nextId] at r
    · obtain ⟨b,hb,hr⟩ := h.value e r
      exact ⟨b,hb,(grows_add n s).reading hr⟩
  idle e := by rw [get_add] at e; exact h.idle e

theorem grows_intern (s : State) (t : ResolvedType) :
    s.Grows { s with types := (s.types.intern t).2 } :=
  ⟨id,fun e => TypeTable.get?_intern_of_some t e,id,id⟩

theorem Sound.intern (h : s.Sound env rank) (t : ResolvedType) :
    State.Sound env rank { s with types := (s.types.intern t).2 } where
  id_eq := h.id_eq
  symbol := h.symbol
  indexed := h.indexed
  value e e' := by
    obtain ⟨b,hb,r⟩ := h.value e e'
    exact ⟨b,hb,(s.grows_intern t).reading r⟩
  idle := h.idle

/-! ### Cells -/

theorem reading_set {id : SymbolId} {a : Attribute} {v : Lazy a.Value} [Lasting R] {x : A} {y : B}
    (h : R s x y) : R ((cell id a).set v s) x y := by
  refine Lasting.mono (s := s) ?_ ?_ h
  · intro j n e; rwa [node?_set]
  · exact fun e => e

/-- A cell is the one that is written, or is left alone. -/
theorem same_or_other (i j : SymbolId) (a b : Attribute) : (j = i ∧ b = a) ∨ (i ≠ j ∨ b ≠ a) := by
  by_cases hi : j = i
  · by_cases hb : b = a
    · exact .inl ⟨hi,hb⟩
    · exact .inr (.inr hb)
  · exact .inr (.inl (Ne.symm hi))

section Computation

variable {id : SymbolId} {a : Attribute} {n : Node}

theorem Sound.begin (h : s.Sound env rank) (hn : s.node? id = some n) (lt : a.rank < rank) :
    ((cell id a).set .resolving s).Sound env a.rank where
  id_eq e := by rw [node?_set] at e; exact h.id_eq e
  symbol e := by rw [node?_set] at e; exact h.symbol e
  indexed := by simp only [id?_set,node?_set]; exact h.indexed
  value {j m b v} e r := by
    rw [node?_set] at e
    rcases same_or_other id j a b with ⟨rfl,rfl⟩ | other
    · rw [get_set hn] at r; cases r
    · rw [get_set_other s _ other] at r
      obtain ⟨y,hy,hr⟩ := h.value e r
      exact ⟨y,hy,reading_set hr⟩
  idle {j b} r := by
    rcases same_or_other id j a b with ⟨-,rfl⟩ | other
    · exact Nat.le_refl _
    · rw [get_set_other s _ other] at r
      exact Nat.le_trans (Nat.le_of_lt lt) (h.idle r)

variable {s' : State} {v : Lazy a.Value}

theorem Grows.finish (hn : s.node? id = some n) (fresh : (cell id a).get s = .unresolved)
    (g : ((cell id a).set .resolving s).Grows s') (hv : v ≠ .resolving) :
    s.Grows ((cell id a).set v s') where
  node e := by rw [node?_set]; exact g.node (by rwa [node?_set])
  type e := g.type e
  resolved {j b w} r := by
    rcases same_or_other id j a b with ⟨rfl,rfl⟩ | other
    · rw [fresh] at r; cases r
    · rw [get_set_other s' _ other]
      exact g.resolved (by rwa [get_set_other s _ other])
  resolving {j b} r := by
    rcases same_or_other id j a b with ⟨rfl,rfl⟩ | other
    · rw [get_set (g.node (by rwa [node?_set]))] at r
      exact absurd r hv
    · rw [get_set_other s' _ other] at r
      have begun := g.resolving r
      rwa [get_set_other s _ other] at begun

/-- A computation ends with the value of its attribute, or leaves it as it was. -/
theorem Sound.finish (h : s.Sound env rank) (hn : s.node? id = some n)
    (g : ((cell id a).set .resolving s).Grows s') (h' : s'.Sound env a.rank)
    (hv : v = .unresolved ∨ ∃ x y, v = .resolved x ∧ n.sight.value a env = .ok y ∧ a.reading s' x y) :
    ((cell id a).set v s').Sound env rank where
  id_eq e := by rw [node?_set] at e; exact h'.id_eq e
  symbol e := by rw [node?_set] at e; exact h'.symbol e
  indexed := by simp only [id?_set,node?_set]; exact h'.indexed
  value {j m b w} e r := by
    rw [node?_set] at e
    rcases same_or_other id j a b with ⟨rfl,rfl⟩ | other
    · have hn' : s'.node? j = some n := g.node (by rwa [node?_set])
      obtain rfl : m = n := Option.some.inj (e.symm.trans hn')
      rw [get_set hn'] at r
      rcases hv with rfl | ⟨x,y,rfl,hy,hr⟩
      · cases r
      · cases r
        exact ⟨y,hy,reading_set hr⟩
    · rw [get_set_other s' _ other] at r
      obtain ⟨y,hy,hr⟩ := h'.value e r
      exact ⟨y,hy,reading_set hr⟩
  idle {j b} r := by
    rcases same_or_other id j a b with ⟨rfl,rfl⟩ | other
    · rw [get_set (g.node (by rwa [node?_set]))] at r
      rcases hv with rfl | ⟨x,y,rfl,-,-⟩ <;> cases r
    · rw [get_set_other s' _ other] at r
      have begun := g.resolving r
      rw [get_set_other s _ other] at begun
      exact h.idle begun

end Computation

end State

/-! ### Sources -/

/-- A session that leaves the state alone. -/
def Quiet (x : Session A) (p : Direct A) : Prop := ∀ env s, x env s = (p env,s)

namespace Quiet

variable {x : Session A} {p : Direct A}

theorem agrees (h : Quiet x p) : Agrees Same env rank s x p := fun hs => by
  rw [h env s]
  refine ⟨.refl s,hs,?_⟩
  cases p env <;> rfl

theorem pure (a : A) : Quiet (pure a) (pure a) := fun _ _ => rfl

theorem bind {f : A → Session B} {g : A → Direct B} (hx : Quiet x p) (hf : ∀ a, Quiet (f a) (g a)) :
    Quiet (x >>= f) (p >>= g) := fun env s => by
  cases hp : p env with
  | error e => rw [Attempt.bind_error ((hx env s).trans (by rw [hp])),Direct.bind_error hp]
  | ok a => rw [Attempt.bind_ok ((hx env s).trans (by rw [hp])),Direct.bind_ok hp,hf a env s]

theorem orFail (e : Error) (a : Option A) : Quiet (Session.orFail e a) (Direct.orFail e a) :=
  fun _ _ => by cases a <;> rfl

theorem model (i : SourceId) : Quiet (Session.model i) (Direct.model i) :=
  fun env s => orFail _ (env.models.arena? i) env s

theorem rawShape (k : NodeKey) : Quiet (Session.rawShape k) (Direct.rawShape k) :=
  (model _).bind fun _ => orFail _ _

theorem rawParent? (k : NodeKey) : Quiet (Session.rawParent? k) (Direct.rawParent? k) :=
  (model _).bind fun _ => pure _

theorem rawAncestors (k : NodeKey) : Quiet (Session.rawAncestors k) (Direct.rawAncestors k) :=
  (model _).bind fun _ => pure _

end Quiet

/-! ### Symbols -/

theorem Session.state_run (env : Environment) (s : State) : Session.state env s = (.ok s,s) := rfl

theorem Session.nodeById_run {id : SymbolId} {n : Node} (h : s.node? id = some n) :
    Session.nodeById id env s = (.ok n,s) := by
  rw [nodeById,Attempt.bind_ok (state_run env s),h]; rfl

theorem Session.nodeById_missing {id : SymbolId} (h : s.node? id = none) :
    Session.nodeById id env s = (.error (.unknownSymbol id),s) := by
  rw [nodeById,Attempt.bind_ok (state_run env s),h]; rfl

theorem Session.typeById_run {id : TypeId} {t : ResolvedType} (h : s.types.get? id = some t) :
    Session.typeById id env s = (.ok ⟨id,t⟩,s) := by
  refine Attempt.bind_ok (a := t) ?_
  rw [resolvedType,Attempt.bind_ok (state_run env s),h]; rfl

theorem Session.typeById_missing {id : TypeId} (h : s.types.get? id = none) :
    Session.typeById id env s = (.error (.unresolvedType (.id id)),s) := by
  refine Attempt.bind_error ?_
  rw [resolvedType,Attempt.bind_ok (state_run env s),h]; rfl

theorem State.Sound.shows {id : SymbolId} {n : Node} (h : s.Sound env rank)
    (hn : s.node? id = some n) : Shows s n n.sight :=
  ⟨by rw [View.id,h.id_eq hn]; exact hn,rfl⟩

section Views

variable {S : Type} [Viewed S] {v : View S} {w : Sight S}

namespace Shows

theorem anchor (h : Shows s v w) : v.anchor = w.anchor := by rw [← h.2]; rfl

theorem near (h : Shows s v w) (n : NodeId) : v.near n = w.near n := by rw [← h.2]; rfl

theorem shape (h : Shows s v w) : v.shape = w.shape := by rw [← h.2]; rfl

theorem toNode (h : Shows s v w) : Shows s v.toNode w.toNode := by
  obtain ⟨hn,rfl⟩ := h
  exact ⟨hn,rfl⟩

theorem identifies (h : Shows s v w) : Identifies s v.id w.toNode := ⟨_,h.toNode⟩

/-- Views of other widths show the same symbol. -/
theorem as? (T : Type) [Viewed T] (h : Shows s v w) : Maybe Shows s (v.as? T) (w.as? T) := by
  obtain ⟨hn,rfl⟩ := h
  simp only [View.as?,Sight.as?,View.sight]
  cases e : Viewed.ofForm? (S := T) (Viewed.form v.shape) with
  | none => exact .none
  | some t =>
    have form := (Viewed.ofForm?_eq_some _ _).mp e
    refine .some ⟨hn.trans ?_,rfl⟩
    simp only [View.toNode,form]

theorem exists_as? {T : Type} [Viewed T] {u : View T} (h : Shows s v w) (hu : v.as? T = some u) :
    ∃ x, Shows s u x := by
  have narrow := h.as? T
  rw [hu] at narrow
  cases hx : w.as? T with
  | none =>
    rw [hx] at narrow
    cases narrow
  | some x =>
    rw [hx] at narrow
    cases narrow with
    | some shown => exact ⟨x,shown⟩

theorem toDeclaration {S : Type} [Declares S] {v : View S} {w : Sight S} (h : Shows s v w) :
    Shows s v.toDeclaration w.toDeclaration := by
  obtain ⟨hn,rfl⟩ := h
  exact ⟨by rw [View.toNode_toDeclaration]; exact hn,rfl⟩

end Shows

end Views

namespace Agrees

theorem ask (q : Query) (answer : Oracle → A) :
    Agrees Same env rank s (Session.ask q answer) (Direct.ask answer) :=
  fun h => ⟨s.grows_asked (·.push q),h.asked (·.push q),rfl⟩

theorem descriptor (k : NodeKey) :
    Agrees Same env rank s (Session.descriptor k) (Direct.descriptor k) :=
  (ask _ _).bind fun _ _ _ _ e => by cases e; exact (Quiet.orFail _ _).agrees

/-- A symbol is found, or is made as its key says. -/
theorem symbol (k : SymbolKey) {describe : Session (Location × Form)}
    {d : Direct (Location × Form)} (hd : Quiet describe d)
    (hk : Direct.symbol k = do
      let arena ← Direct.model k.anchor.source
      let (location,form) ← d
      return ⟨k,arena.origin,location,form⟩) :
    Agrees Shows env rank s (Session.symbol k describe) (Direct.symbol k) := by
  intro h
  rw [Session.symbol]
  rw [Attempt.bind_ok (Session.state_run env s)]
  cases found : s.id? k with
  | some id =>
    obtain ⟨n,hn,rfl⟩ := h.indexed.mp found
    dsimp only
    rw [Session.nodeById_run hn,h.symbol hn]
    exact ⟨.refl s,h,h.shows hn⟩
  | none =>
    dsimp only
    have hm := Quiet.model k.anchor.source env s
    cases hmodel : Direct.model k.anchor.source env with
    | error e =>
      rw [hmodel] at hm
      rw [Attempt.bind_error hm,hk,Direct.bind_error hmodel]
      exact ⟨.refl s,h,rfl⟩
    | ok arena =>
      rw [hmodel] at hm
      have hdesc := hd env s
      cases hform : d env with
      | error e =>
        rw [hform] at hdesc
        rw [Attempt.bind_ok hm,Attempt.bind_error hdesc,hk,Direct.bind_ok hmodel,Direct.bind_error hform]
        exact ⟨.refl s,h,rfl⟩
      | ok p =>
        obtain ⟨location,form⟩ := p
        rw [hform] at hdesc
        let n : Node := ⟨⟨s.nextId,k,arena.origin,location⟩,form⟩
        have made : Direct.symbol k env = .ok n.sight := by
          rw [hk,Direct.bind_ok hmodel,Direct.bind_ok hform]; rfl
        rw [Attempt.bind_ok hm,Attempt.bind_ok hdesc,made]
        exact ⟨s.grows_add n,h.add rfl made found,State.node?_add_nextId s n,rfl⟩

theorem node (k : NodeKey) : Agrees Shows env rank s (Session.node k) (Direct.node k) := by
  refine symbol (.node k)
    (d := do return ((← Direct.model k.source).location k.node,.written (← Direct.rawShape k)))
    ((Quiet.model _).bind fun _ => (Quiet.rawShape k).bind fun _ => .pure _) ?_
  funext env
  cases hm : Direct.model k.source env with
  | error e =>
    rw [Direct.bind_error (show Direct.model (SymbolKey.node k).anchor.source env = _ from hm)]
    exact Direct.bind_error hm
  | ok arena =>
    rw [Direct.bind_ok (show Direct.model (SymbolKey.node k).anchor.source env = _ from hm)]
    cases hs : Direct.rawShape k env with
    | error e =>
      rw [Direct.bind_error ((Direct.bind_ok hm).trans (Direct.bind_error hs))]
      exact (Direct.bind_ok hm).trans (Direct.bind_error hs)
    | ok shape =>
      rw [Direct.bind_ok ((Direct.bind_ok hm).trans (Direct.bind_ok hs))]
      exact (Direct.bind_ok hm).trans (Direct.bind_ok hs)

theorem view (S : Type) [OneKind S] {n : Node} {w : Sight Form} (h : Shows s n w) :
    Agrees Shows env rank s (Session.view S n) (Direct.view S w) := by
  rw [Session.view,Direct.view]
  rw [h.anchor,show n.kind = w.shape.kind from congrArg Form.kind h.shape]
  exact orFail _ (h.as? S)

theorem typed (S : Type) [OneKind S] (k : NodeKey) :
    Agrees Shows env rank s (Session.typed S k) (Direct.typed S k) :=
  (node k).bind fun _ _ _ _ h => view S h

theorem deferredReference (owner : NodeKey) :
    Agrees Shows env rank s (Session.deferredReference owner) (Direct.deferredReference owner) := by
  have made : Agrees Shows env rank s (Session.symbol (.deferred owner) (return (.nonExisting,.deferred)))
      (Direct.symbol (.deferred owner)) :=
    symbol _ (.pure _) (by simp [Direct.symbol,SymbolKey.anchor])
  have viewed : Direct.deferredReference owner =
      (do Direct.view ReferenceForm (← Direct.symbol (.deferred owner))) := by
    simp only [Direct.symbol,Direct.deferredReference,bind_assoc,pure_bind]
    exact bind_congr fun arena =>
      (Direct.view_toNode (S := ReferenceForm) ⟨.deferred owner,arena.origin,.nonExisting,.deferred⟩).symm
  rw [viewed]
  exact made.bind fun _ _ _ _ h => view _ h

theorem nodeById {id : SymbolId} {w : Sight Form} (h : Identifies s id w) :
    Agrees Shows env rank s (Session.nodeById id) (Pure.pure w) := by
  intro hs
  obtain ⟨n,hn,rfl⟩ := h
  rw [Session.nodeById_run hn]
  exact ⟨.refl s,hs,hs.shows hn⟩

theorem typedById (S : Type) [OneKind S] {id : SymbolId} {w : Sight Form} (h : Identifies s id w) :
    Agrees Shows env rank s (Session.typedById S id) (Direct.view S w) :=
  (nodeById h).bind fun _ _ _ _ h => view S h

theorem declaration {n : Node} {w : Sight Form} (h : Shows s n w) :
    Agrees Shows env rank s (Session.declaration n) (Direct.declaration w) := by
  rw [Session.declaration,Direct.declaration]
  rw [h.anchor]
  exact orFail _ (h.as? DeclaredForm)

theorem declarationById {id : SymbolId} {w : Sight Form} (h : Identifies s id w) :
    Agrees Shows env rank s (do Session.declaration (← Session.nodeById id)) (Direct.declaration w) :=
  (nodeById h).bind fun _ _ _ _ h => declaration h

theorem allFiles : Agrees (Each Shows) env rank s Session.allFiles Direct.allFiles :=
  (ask .files _).bind fun _ a _ _ e => by
    cases e
    exact mapM (Q := Same) (List.forall₂_same.mpr fun _ _ => rfl) fun _ _ _ _ e => by
      cases e; exact typed _ _

/-! ### Types -/

theorem internType (t : ResolvedType) :
    Agrees Types env rank s (Session.internType t) (Pure.pure t) :=
  fun h => ⟨s.grows_intern t,h.intern t,s.types.get?_intern t⟩

theorem typeById {id : TypeId} {t : ResolvedType} (h : Types s id t) :
    Agrees Interns env rank s (Session.typeById id) (Pure.pure t) := by
  intro hs
  rw [Session.typeById_run h]
  exact ⟨.refl s,hs,h,rfl⟩

theorem intern (t : ResolvedType) : Agrees Interns env rank s (Session.intern t) (Pure.pure t) :=
  fun h => ⟨s.grows_intern t,h.intern t,s.types.get?_intern t,rfl⟩

/-! ### Attributes -/

/-- A remembered attribute is what it would be computed to. -/
theorem memo {S : Type} [Viewed S] {v : View S} {w : Sight S} {a : Attribute} {init : Session a.Value}
    (hv : Shows s v w) (lt : a.rank < rank)
    (hi : ∀ s, Shows s v w → Agrees a.reading env a.rank s init (w.toNode.value a)) :
    Agrees a.reading env rank s (Session.memo v.id a init) (w.toNode.value a) := by
  intro h
  obtain ⟨hn,rfl⟩ := hv
  cases cell : (State.cell v.id a).get s with
  | resolved x =>
    have run : Session.memo v.id a init env s = (.ok x,s) := Cell.getOrInit_resolved cell _ _
    obtain ⟨y,hy,hr⟩ := h.value hn cell
    rw [run,show v.sight.toNode.value a env = .ok y from hy]
    exact ⟨.refl s,h,hr⟩
  | resolving => exact absurd (h.idle cell) (Nat.not_le_of_lt lt)
  | unresolved =>
    have hn' : ((State.cell v.id a).set .resolving s).node? v.id = some v.toNode := by
      rwa [State.node?_set]
    obtain ⟨g,h',m⟩ := hi _ ⟨hn',rfl⟩ (h.begin hn lt)
    rw [Session.memo,Cell.getOrInit]
    rw [cell]
    dsimp only
    rcases hr : init env ((State.cell v.id a).set .resolving s) with ⟨e | x,s'⟩ <;> rw [hr] at g h' m <;>
      dsimp only
    · exact ⟨.finish hn cell g (fun e => by cases e),h.finish hn g h' (.inl rfl),by
        cases hd : v.sight.toNode.value a env <;> rw [hd] at m <;> exact m⟩
    · cases hd : v.sight.toNode.value a env with
      | error e => rw [hd] at m; exact m.elim
      | ok y =>
        rw [hd] at m
        exact ⟨.finish hn cell g (fun e => by cases e),h.finish hn g h' (.inr ⟨x,y,rfl,hd,m⟩),State.reading_set (R := a.reading) m⟩

end Agrees
end SymbolGraph
