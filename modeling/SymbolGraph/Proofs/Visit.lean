import SymbolGraph.Proofs.Agreement.Traversal
import SymbolGraph.Proofs.Direct.Children
import SymbolGraph.Proofs.Silence

/-! What a traversal does to a session. It hands the symbols of a walk over to a handler, one after the
other, and apart from this only finds symbols. -/
namespace SymbolGraph

variable {G A : Type} {env : Environment} {s s' s'' : State}

namespace State

/-- What a session went on to is right, and nothing is forgotten. -/
structure Continues (env : Environment) (s s' : State) : Prop where
  grows : s.Grows s'
  sound : s'.Sound env 4

/-- A session went on without a question to the oracle. -/
structure Finds (env : Environment) (s s' : State) : Prop extends s.Continues env s' where
  asked : s'.asked = s.asked

theorem Continues.refl (h : s.Sound env 4) : s.Continues env s := ⟨.refl s,h⟩

theorem Continues.trans (h : s.Continues env s') (h' : s'.Continues env s'') : s.Continues env s'' :=
  ⟨h.grows.trans h'.grows,h'.sound⟩

theorem Finds.refl (h : s.Sound env 4) : s.Finds env s := ⟨.refl h,rfl⟩

theorem Finds.trans (h : s.Finds env s') (h' : s'.Finds env s'') : s.Finds env s'' :=
  ⟨h.toContinues.trans h'.toContinues,h'.asked.trans h.asked⟩

end State

/-- What a visitor does with the symbols that it leaves. It may fail, ask anything of the session, and gather
anything, but it cannot tamper with what the session remembers. -/
structure Handler (env : Environment) (G : Type) where
  handle : Node → Gathering G Unit
  continues : ∀ {s : State} {n : Node} (g : G), s.Sound env 4 → s.node? n.id = some n →
    s.Continues env (handle n env (s,g)).2.1

theorem Handler.continues_of_run (h : Handler env G) {n : Node} {g g' : G} {r : Except Error Unit}
    (hs : s.Sound env 4) (hn : s.node? n.id = some n) (answer : h.handle n env (s,g) = (r,(s',g'))) :
    s.Continues env s' := by
  have run := h.continues g hs hn
  rwa [answer] at run

/-- A run that hands symbols over to a handler, in the order of a list of keys, and ends when the handler
fails. Apart from this it only finds symbols: it asks the oracle nothing, and it does not fail. -/
inductive Handled (h : Handler env G) : List SymbolKey → State → G → Except Error Unit × (State × G) → Prop
  | done {s s' : State} {g} : s.Finds env s' → Handled h [] s g (.ok (),(s',g))
  | next {s s' s'' : State} {g g' n ks r} : s.Finds env s' → s'.node? n.id = some n →
      h.handle n env (s',g) = (.ok (),(s'',g')) → Handled h ks s'' g' r →
      Handled h (n.header.key :: ks) s g r
  | failed {s s' : State} {g n ks e t} : s.Finds env s' → s'.node? n.id = some n →
      h.handle n env (s',g) = (.error e,t) → Handled h (n.header.key :: ks) s g (.error e,t)

namespace Handled

variable {h : Handler env G} {ks ls : List SymbolKey} {g g' : G} {r t : Except Error Unit × (State × G)}

theorem continues (run : Handled h ks s g r) : s.Continues env r.2.1 := by
  induction run with
  | done found => exact found.toContinues
  | next found held answer _ ih =>
    exact found.toContinues.trans ((h.continues_of_run found.sound held answer).trans ih)
  | failed found held answer => exact found.toContinues.trans (h.continues_of_run found.sound held answer)

theorem after (found : s.Finds env s') (run : Handled h ks s' g r) : Handled h ks s g r := by
  cases run with
  | done found' => exact .done (found.trans found')
  | next found' held answer rest => exact .next (found.trans found') held answer rest
  | failed found' held answer => exact .failed (found.trans found') held answer

theorem append (run : Handled h ks s g t) (ended : t = (.ok (),(s',g')))
    (rest : Handled h ls s' g' r) : Handled h (ks ++ ls) s g r := by
  induction run with
  | done found =>
    cases ended
    exact rest.after found
  | next found held answer _ ih => exact .next found held answer (ih ended)
  | failed found held answer => cases ended

theorem append_failed {e : Error} {u : State × G} (run : Handled h ks s g t) (ended : t = (.error e,u)) :
    Handled h (ks ++ ls) s g (.error e,u) := by
  induction run with
  | done found => cases ended
  | next found held answer _ ih => exact .next found held answer (ih ended)
  | failed found held answer =>
    cases ended
    exact .failed found held answer

end Handled

/-! ### Visits -/

/-- What is gathered is not touched by a session of its own. -/
theorem Gathering.ofSession_run {x : Session A} {r : Except Error A} (run : x env s = (r,s')) (g : G) :
    ofSession x env (s,g) = (r,(s',g)) := by
  rw [ofSession,Attempt.first,run]

theorem Gathering.ofSession_bind {B : Type} (x : Session A) (f : A → Session B) :
    ofSession (G := G) (x >>= f) = (ofSession x >>= fun a => ofSession (f a)) := by
  funext env ⟨s,g⟩
  rcases run : x env s with ⟨e | a,s'⟩
  · rw [ofSession_run (Attempt.bind_error run) g,Attempt.bind_error (ofSession_run run g)]
  · rw [Attempt.bind_ok (ofSession_run run g),ofSession,Attempt.first,Attempt.bind_ok run]
    rfl

theorem Gathering.ofSession_map {B : Type} (x : Session A) (f : A → B) :
    ofSession (G := G) (do return f (← x)) = (do return f (← ofSession x)) := ofSession_bind x _

theorem Gathering.ofSession_mapM {B : Type} (f : A → Session B) (l : List A) :
    ofSession (G := G) (l.mapM f) = l.mapM fun a => ofSession (f a) := by
  induction l with
  | nil => rfl
  | cons a l ih =>
    rw [List.mapM_cons,List.mapM_cons,ofSession_bind]
    exact bind_congr fun b => by rw [ofSession_map,ih]

/-- A session that finds symbols of given keys, now and later. -/
def Obtains (env : Environment) (s : State) (x : Session (List Node)) (ks : List SymbolKey) : Prop :=
  ∀ s', s.Continues env s' → ∃ ns s'', x env s' = (.ok ns,s'') ∧ s'.Finds env s'' ∧
    ns.map (·.header.key) = ks ∧ ∀ n ∈ ns, s''.node? n.id = some n

/-- A run that hands the symbols of given keys over to a handler, now and later. -/
def Hands (h : Handler env G) (s : State) (x : Gathering G Unit) (ks : List SymbolKey) : Prop :=
  ∀ s' g, s.Continues env s' → Handled h ks s' g (x env (s',g))

namespace Hands

variable {h : Handler env G} {x y : Gathering G Unit} {ks ls : List SymbolKey} {C : Type}

theorem pure : Hands h s (pure ()) [] := fun _ _ c => .done (.refl c.sound)

theorem readThen {f : Environment → Gathering G Unit} (hf : Hands h s (f env) ks) :
    Hands h s (do f (← MonadReader.read)) ks := hf

theorem handle {n : Node} (hn : s.node? n.id = some n) : Hands h s (h.handle n) [n.header.key] := by
  intro s' g c
  have held := c.grows.node hn
  rcases answer : h.handle n env (s',g) with ⟨e | a,t,g'⟩
  · exact .failed (.refl c.sound) held answer
  · have handled := h.continues_of_run c.sound held answer
    exact .next (.refl c.sound) held answer (.done (.refl handled.sound))

theorem seq (hx : Hands h s x ks) (hy : Hands h s y ls) : Hands h s (do x; y) (ks ++ ls) := by
  intro s' g c
  have first := hx s' g c
  rcases run : x env (s',g) with ⟨e | a,t,g'⟩ <;> rw [run] at first
  · rw [Attempt.bind_error run]
    exact first.append_failed rfl
  · rw [Attempt.bind_ok run]
    exact first.append rfl (hy t g' (c.trans first.continues))

theorem forM {f : C → Gathering G Unit} {cs : List C} {kss : List (List SymbolKey)}
    (each : List.Forall₂ (fun c ks => Hands h s (f c) ks) cs kss) : Hands h s (cs.forM f) kss.flatten := by
  induction each with
  | nil => exact .pure
  | cons first _ ih => exact first.seq ih

/-- Handles what lies below each of the symbols that a session finds. -/
theorem forM_obtained {f : Node → Gathering G Unit} {w : SymbolKey → List SymbolKey} {o : Session (List Node)}
    (ho : Obtains env s o ks)
    (hf : ∀ t n, s.Continues env t → t.node? n.id = some n → Hands h t (f n) (w n.header.key)) :
    Hands h s (do (← Gathering.ofSession o).forM f) (ks.flatMap w) := by
  intro s' g c
  obtain ⟨ns,t,run,found,rfl,held⟩ := ho s' c
  have each : List.Forall₂ (fun n ks => Hands h t (f n) ks) ns (ns.map fun n => w n.header.key) :=
    List.forall₂_map_right_iff.mpr (List.forall₂_same.mpr fun n hn =>
      hf t n (c.trans found.toContinues) (held n hn))
  rw [Attempt.bind_ok (Gathering.ofSession_run run g),List.flatMap_map]
  exact (forM each t g (.refl found.sound)).after found

end Hands

namespace Each

variable {S : Type} [Viewed S] {vs : List (View S)} {ws : List (Sight S)}

theorem keys (h : Each Shows s vs ws) : vs.map (·.header.key) = ws.map (·.key) := by
  induction h with
  | nil => rfl
  | cons hv _ ih => rw [List.map_cons,List.map_cons,ih,← hv.2]; rfl

theorem held (h : Each Shows s vs ws) : ∀ v ∈ vs, s.node? v.id = some v.toNode := by
  induction h with
  | nil => exact List.forall_mem_nil _
  | cons hv _ ih => exact List.forall_mem_cons.mpr ⟨hv.1,ih⟩

end Each

namespace Obtains

variable {x : Session (List Node)} {p : Direct (List (Sight Form))} {k : NodeKey} {ns : List (Option NodeId)}

/-- What a session finds is what is listed, if that is what it would find without its memory. -/
theorem of_agrees (agrees : ∀ s', s.Grows s' → Agrees (Each Shows) env 4 s' x p)
    (within : Direct.Within (fun _ => False) env p (Sight.Listed env k ns)) (silent : Silent x) :
    Obtains env s x (ns.map k.listed) := by
  intro s' c
  obtain ⟨grows,sound,answer⟩ := agrees s' c.grows c.sound
  obtain ⟨ws,direct,keys,-⟩ := within.exists_ok
  have asked := silent env s'
  rcases run : x env s' with ⟨e | found,t⟩ <;> rw [run] at grows sound asked <;> rw [run,direct] at answer
  · exact answer.elim
  have shown : Each Shows t found ws := answer
  exact ⟨found,t,rfl,⟨⟨grows,sound⟩,asked⟩,shown.keys.trans keys,shown.held⟩

theorem groups {xs : List (Session (List Node))} {ps : List (Direct (List (Sight Form)))}
    {nss : List (List (Option NodeId))}
    (agree : List.Forall₂ (fun x p => ∀ s', s.Grows s' → Agrees (Each Shows) env 4 s' x p) xs ps)
    (found : List.Forall₂ (fun p ns => Direct.Within (fun _ => False) env p (Sight.Listed env k ns)) ps nss)
    (silent : ∀ x ∈ xs, Silent x) : List.Forall₂ (Obtains env s) xs (nss.map (List.map k.listed)) := by
  induction agree generalizing nss with
  | nil => cases found; exact .nil
  | cons first _ ih =>
    cases found with
    | cons within rest =>
      obtain ⟨own,others⟩ := List.forall_mem_cons.mp silent
      exact .cons (of_agrees first within own) (ih rest others)

end Obtains

/-- The groups of children of a symbol are found, and are together what the models list below it. -/
theorem View.childGroups_obtained (hw : env.models.WellFormed) (hs : s.Sound env 4) {n : Node}
    (hn : s.node? n.id = some n) : ∃ groups, List.Forall₂ (Obtains env s) n.childGroups groups ∧
      groups.flatten = env.models.below n.header.key := by
  have genuine : n.sight.Genuine env := hs.symbol hn
  obtain ⟨groups,found,all⟩ : ∃ groups, List.Forall₂ (fun x ns =>
      Direct.Within (fun _ => False) env x (Sight.Listed env n.anchor ns)) n.sight.childGroups groups ∧
        groups.flatten.map n.anchor.listed = env.models.below n.header.key := Sight.childGroups_within hw genuine
  have agree : List.Forall₂ (fun x p => ∀ s', s.Grows s' → Agrees (Each Shows) env 4 s' x p)
      n.childGroups n.sight.childGroups := Agrees.childGroups (hs.shows hn) (by decide)
  refine ⟨groups.map (List.map n.anchor.listed),Obtains.groups agree found (Silent.childGroups n),?_⟩
  rw [← List.map_flatten,all]

namespace Visitor

/-- Meets every symbol once, after its children, but leaves out some symbols and what is below them. -/
def pruned (skip : SymbolKey → Bool) (leave : Node → Gathering G Unit) : Visitor G :=
  ⟨fun n => return !skip n.header.key,leave⟩

theorem pruned_none (leave : Node → Gathering G Unit) : pruned (fun _ => false) leave = postorder leave := rfl

variable {h : Handler env G} {skip : SymbolKey → Bool}

theorem visitIn_pruned (leave : Node → Gathering G Unit) (depth : Nat) (n : Node) :
    (pruned skip leave).visitIn (depth + 1) n = if skip n.header.key then pure () else (do
      n.childGroups.forM fun group => do
        (← Gathering.ofSession group).forM ((pruned skip leave).visitIn depth)
      leave n) := by
  rw [visitIn]
  show (pure (!skip n.header.key) >>= _) = _
  rw [pure_bind]
  cases skip n.header.key <;> rfl

/-- A visit hands over what a walk over the models meets. -/
theorem visitIn_hands (hw : env.models.WellFormed) (depth : Nat) (hs : s.Sound env 4) {n : Node}
    (hn : s.node? n.id = some n) : Hands h s ((pruned skip h.handle).visitIn depth n)
      (env.models.walkUpTo skip depth n.header.key) := by
  induction depth generalizing s n with
  | zero => exact .pure
  | succ depth ih =>
    rw [Models.walkUpTo,visitIn_pruned]
    split
    · exact .pure
    obtain ⟨groups,found,all⟩ := View.childGroups_obtained hw hs hn
    rw [← all,← List.flatMap_id,List.flatMap_assoc]
    have group : ∀ x ks, Obtains env s x ks → Hands h s
        (do (← Gathering.ofSession x).forM ((pruned skip h.handle).visitIn depth))
        (ks.flatMap (env.models.walkUpTo skip depth)) :=
      fun x ks hx => .forM_obtained hx fun t m c hm => ih c.sound hm
    have below := Hands.forM (List.forall₂_map_right_iff.mpr (found.imp group))
    exact below.seq (.handle hn)

theorem visit_hands (hw : env.models.WellFormed) (hs : s.Sound env 4) {n : Node} (hn : s.node? n.id = some n) :
    Hands h s ((pruned skip h.handle).visit n) (env.models.walk skip n.header.key) :=
  .readThen (visitIn_hands hw _ hs hn)

end Visitor
end SymbolGraph
