import SymbolGraph.Proofs.Agreement.Semantics
import SymbolGraph.Proofs.Direct.Traversal

/-! Traversals and processors agree with the direct ones, and so does what they gather. -/
namespace SymbolGraph

variable {A B A' B' G H : Type} {env : Environment} {rank : Nat} {s : State}

/-! ### Agreement -/

/-- What a gathering run from a state leads to. -/
structure Accrues (R : Reading A B) (Q : Reading G H) (env : Environment) (rank : Nat) (s : State)
    (r : Except Error A × (State × G)) (d : Except Error B × H) : Prop where
  grows : s.Grows r.2.1
  sound : r.2.1.Sound env rank
  gathered : Q r.2.1 r.2.2 d.2
  answer : Matches R r.2.1 r.1 d.1

/-- A session gathers from a state what a direct computation gathers, and answers as it does. -/
def Gathers (R : Reading A B) (Q : Reading G H) (env : Environment) (rank : Nat) (s : State)
    (x : Gathering G A) (p : Direct.Gathering H B) : Prop :=
  ∀ g h, s.Sound env rank → Q s g h → Accrues R Q env rank s (x env (s,g)) (p env h)

namespace Gathers

variable {R : Reading A B} {R' : Reading A' B'} {Q : Reading G H} {x : Gathering G A}
  {p : Direct.Gathering H B}

theorem pure {a : A} {b : B} (h : R s a b) : Gathers R Q env rank s (pure a) (pure b) :=
  fun _ _ hs hq => ⟨.refl s,hs,hq,h⟩

theorem bind {f : A → Gathering G A'} {k : B → Direct.Gathering H B'}
    (hx : Gathers R Q env rank s x p)
    (hf : ∀ s' a b, s.Grows s' → R s' a b → Gathers R' Q env rank s' (f a) (k b)) :
    Gathers R' Q env rank s (x >>= f) (p >>= k) := by
  intro g h hs hq
  obtain ⟨g₁,h₁,q₁,m₁⟩ := hx g h hs hq
  rcases hr : x env (s,g) with ⟨_ | a,s',g'⟩ <;> rcases hd : p env h with ⟨_ | b,h'⟩ <;>
    rw [hr] at g₁ h₁ <;> rw [hr,hd] at q₁ m₁
  · rw [Attempt.bind_error hr,Attempt.bind_error hd]
    exact ⟨g₁,h₁,q₁,m₁⟩
  · exact m₁.elim
  · exact m₁.elim
  · rw [Attempt.bind_ok hr,Attempt.bind_ok hd]
    obtain ⟨g₂,h₂,q₂,m₂⟩ := hf s' a b g₁ m₁ g' h' h₁ q₁
    exact ⟨g₁.trans g₂,h₂,q₂,m₂⟩

theorem readThen {f : Environment → Gathering G A} {k : Environment → Direct.Gathering H B}
    (h : Gathers R Q env rank s (f env) (k env)) :
    Gathers R Q env rank s (do f (← MonadReader.read)) (do k (← MonadReader.read)) := h

theorem branch {c : Prop} [Decidable c] {y : Gathering G A} {q : Direct.Gathering H B}
    (hx : Gathers R Q env rank s x p) (hy : Gathers R Q env rank s y q) :
    Gathers R Q env rank s (if c then x else y) (if c then p else q) := by
  split
  · exact hx
  · exact hy

/-- What a session does on its own leaves alone what is gathered. -/
theorem ofSession [Lasting Q] {x : Session A} {p : Direct B} (hx : Agrees R env rank s x p) :
    Gathers R Q env rank s (Gathering.ofSession x) (Direct.Gathering.ofDirect p) := by
  intro g h hs hq
  obtain ⟨g₁,h₁,m₁⟩ := hx hs
  exact ⟨g₁,h₁,g₁.reading hq,m₁⟩

theorem update {f : G → G} {k : H → H} (h : ∀ g h, s.Sound env rank → Q s g h → Q s (f g) (k h)) :
    Gathers Same Q env rank s (Gathering.update f) (Direct.Gathering.update k) :=
  fun g g' hs hq => ⟨.refl s,hs,h g g' hs hq,rfl⟩

theorem record (a : A) :
    Gathers Same Same env rank s (Gathering.record a) (Direct.Gathering.record a) :=
  update fun _ _ _ e => by cases e; rfl

/-- Loops over lists whose elements correspond from any later state. -/
theorem forM {C D : Type} {f : C → Gathering G Unit} {k : D → Direct.Gathering H Unit} {cs : List C}
    {ds : List D}
    (h : List.Forall₂ (fun c d => ∀ s', s.Grows s' → Gathers Same Q env rank s' (f c) (k d)) cs ds) :
    Gathers Same Q env rank s (cs.forM f) (ds.forM k) := by
  have later : ∀ s', s.Grows s' → Gathers Same Q env rank s' (cs.forM f) (ds.forM k) := by
    induction h with
    | nil => exact fun _ _ => .pure rfl
    | cons hcd _ ih => exact fun s' g => (hcd s' g).bind fun _ _ _ g' _ => ih _ (g.trans g')
  exact later s (.refl s)

theorem mapM [Lasting R] {C D : Type} {f : C → Gathering G A} {k : D → Direct.Gathering H B}
    {cs : List C} {ds : List D}
    (h : List.Forall₂ (fun c d => ∀ s', s.Grows s' → Gathers R Q env rank s' (f c) (k d)) cs ds) :
    Gathers (Each R) Q env rank s (cs.mapM f) (ds.mapM k) := by
  have later : ∀ s', s.Grows s' → Gathers (Each R) Q env rank s' (cs.mapM f) (ds.mapM k) := by
    induction h with
    | nil =>
      rw [List.mapM_nil,List.mapM_nil]
      exact fun _ _ => .pure .nil
    | cons hcd _ ih =>
      intro s' g
      rw [List.mapM_cons,List.mapM_cons]
      refine (hcd s' g).bind fun s₁ a b g₁ hab => (ih s₁ (g.trans g₁)).bind fun _ _ _ g₂ hs => ?_
      exact .pure (.cons (g₂.reading hab) hs)
  exact later s (.refl s)

/-- What was gathered by a run of its own stands for what was gathered directly. -/
theorem gathered {y : Gathering G Unit} {q : Direct.Gathering H Unit} {g : G} {h : H}
    (hy : Gathers Same Q env rank s y q) (hq : Q s g h) :
    Agrees Q env rank s (Gathering.gathered y g) (Direct.Gathering.gathered q h) := by
  intro hs
  obtain ⟨g₁,h₁,q₁,m₁⟩ := hy g h hs hq
  rw [Gathering.gathered,Direct.Gathering.gathered]
  rcases hr : y env (s,g) with ⟨_ | a,s',g'⟩ <;> rcases hd : q env h with ⟨_ | b,h'⟩ <;>
    rw [hr] at g₁ h₁ <;> rw [hr,hd] at q₁ m₁
  · exact ⟨g₁,h₁,m₁⟩
  · exact m₁.elim
  · exact m₁.elim
  · exact ⟨g₁,h₁,q₁⟩

end Gathers

/-! ### Traversals -/

namespace Agrees

theorem nodes {S : Type} [Viewed S] {x : Session (List (View S))} {p : Direct (List (Sight S))}
    (h : Agrees (Each Shows) env rank s x p) :
    Agrees (Each Shows) env rank s (View.nodes x) (Sight.nodes p) :=
  h.map fun _ _ _ _ h => List.forall₂_map_left_iff.mpr (List.forall₂_map_right_iff.mpr
    (h.imp fun _ _ h => h.toNode))

theorem singleNode {S : Type} [Viewed S] {x : Session (View S)} {p : Direct (Sight S)}
    (h : Agrees Shows env rank s x p) :
    Agrees (Each Shows) env rank s (View.singleNode x) (Sight.singleNode p) :=
  h.map fun _ _ _ _ h => .cons h.toNode .nil

theorem optionalNode {S : Type} [Viewed S] {x : Session (Option (View S))}
    {p : Direct (Option (Sight S))} (h : Agrees (Maybe Shows) env rank s x p) :
    Agrees (Each Shows) env rank s (View.optionalNode x) (Sight.optionalNode p) :=
  h.map fun _ _ _ _ h => by
    cases h with
    | none => exact .nil
    | some h => exact .cons h.toNode .nil

theorem childGroups {n : Node} {w : Sight Form} (h : Shows s n w) (h0 : 0 < rank) :
    List.Forall₂ (fun x p => ∀ s', s.Grows s' → Agrees (Each Shows) env rank s' x p)
      n.childGroups w.childGroups := by
  obtain ⟨hn,rfl⟩ := h
  obtain ⟨header,⟨⟨⟩⟩ | ⟨⟩⟩ := n
  case written.file t =>
    have h : Shows s (⟨header,t⟩ : FileView) _ := ⟨hn,rfl⟩
    exact .cons (fun _ g => (annotations (g.reading h) h0).nodes) <|
      .cons (fun _ g => (topLevel (g.reading h) h0).nodes) .nil
  case written.classLike t =>
    have h : Shows s (⟨header,t⟩ : ClassView) _ := ⟨hn,rfl⟩
    have d := h.toDeclaration
    exact .cons (fun _ g => (annotations (g.reading d) h0).nodes) <|
      .cons (fun _ g => (typeParameters (g.reading d) h0).nodes) <|
      .cons (fun _ g => (superTypes (g.reading h) h0).nodes) <|
      .cons (fun _ g => (declarations (g.reading d) h0).nodes) .nil
  case written.function t =>
    have h : Shows s (⟨header,t⟩ : FunctionView) _ := ⟨hn,rfl⟩
    have d := h.toDeclaration
    exact .cons (fun _ g => (annotations (g.reading d) h0).nodes) <|
      .cons (fun _ g => (typeParameters (g.reading d) h0).nodes) <|
      .cons (fun _ g => (functionReceiver? (g.reading h)).optionalNode) <|
      .cons (fun _ g => (parameters (g.reading h) h0).nodes) <|
      .cons (fun _ g => (returnType (g.reading h)).singleNode) <|
      .cons (fun _ g => (declarations (g.reading d) h0).nodes) .nil
  case written.property t =>
    have h : Shows s (⟨header,t⟩ : PropertyView) _ := ⟨hn,rfl⟩
    have d := h.toDeclaration
    exact .cons (fun _ g => (annotations (g.reading d) h0).nodes) <|
      .cons (fun _ g => (typeParameters (g.reading d) h0).nodes) <|
      .cons (fun _ g => (propertyReceiver? (g.reading h)).optionalNode) <|
      .cons (fun _ g => (propertyType (g.reading h)).singleNode) .nil
  case written.typeAlias t =>
    have h : Shows s (⟨header,t⟩ : TypeAliasView) _ := ⟨hn,rfl⟩
    have d := h.toDeclaration
    exact .cons (fun _ g => (annotations (g.reading d) h0).nodes) <|
      .cons (fun _ g => (typeParameters (g.reading d) h0).nodes) <|
      .cons (fun _ g => (target (g.reading h)).singleNode) .nil
  case written.typeParameter t =>
    have h : Shows s (⟨header,t⟩ : TypeParameterView) _ := ⟨hn,rfl⟩
    exact .cons (fun _ g => (bounds (g.reading h) h0).nodes) .nil
  case written.valueParameter t =>
    have h : Shows s (⟨header,t⟩ : ValueParameterView) _ := ⟨hn,rfl⟩
    exact .cons (fun _ g => (annotations (g.reading h) h0).nodes) <|
      .cons (fun _ g => (parameterType (g.reading h)).singleNode) .nil
  case written.typeReference t =>
    have h : Shows s (⟨header,.written t⟩ : ReferenceView) _ := ⟨hn,rfl⟩
    exact .cons (fun _ g => (annotations (g.reading h) h0).nodes) <|
      .cons (fun _ g => (typeArguments (g.reading h) h0).nodes) .nil
  case written.annotationEntry t =>
    have h : Shows s (⟨header,t⟩ : AnnotationView) _ := ⟨hn,rfl⟩
    exact .cons (fun _ g => (annotationType? (g.reading h)).optionalNode) .nil
  case deferred =>
    have h : Shows s (⟨header,.deferred⟩ : ReferenceView) _ := ⟨hn,rfl⟩
    exact .cons (fun _ g => (annotations (g.reading h) h0).nodes) <|
      .cons (fun _ g => (typeArguments (g.reading h) h0).nodes) .nil

end Agrees

/-- A visitor of a session does to symbols what a direct one does. -/
structure Visits (Q : Reading G H) (env : Environment) (rank : Nat) (v : Visitor G)
    (w : Direct.Visitor H) : Prop where
  enter : ∀ {s n m}, Shows s n m → Gathers Same Q env rank s (v.enter n) (w.enter m)
  leave : ∀ {s n m}, Shows s n m → Gathers Same Q env rank s (v.leave n) (w.leave m)

namespace Visits

variable {Q : Reading G H} {v : Visitor G} {w : Direct.Visitor H}

theorem postorder {f : Node → Gathering G Unit} {k : Sight Form → Direct.Gathering H Unit}
    (h : ∀ {s n m}, Shows s n m → Gathers Same Q env rank s (f n) (k m)) :
    Visits Q env rank (.postorder f) (.postorder k) := ⟨fun _ => .pure rfl,h⟩

theorem preorder {f : Node → Gathering G Unit} {k : Sight Form → Direct.Gathering H Unit}
    (h : ∀ {s n m}, Shows s n m → Gathers Same Q env rank s (f n) (k m)) :
    Visits Q env rank (.preorder f) (.preorder k) :=
  ⟨fun hn => (h hn).bind fun _ _ _ _ _ => .pure rfl,fun _ => .pure rfl⟩

variable [Lasting Q]

theorem visitIn (h : Visits Q env rank v w) (h0 : 0 < rank) (depth : Nat) {n : Node} {m : Sight Form}
    (hn : Shows s n m) : Gathers Same Q env rank s (v.visitIn depth n) (w.visitIn depth m) := by
  induction depth generalizing s n m with
  | zero => exact .pure rfl
  | succ depth ih =>
    refine (h.enter hn).bind fun s₁ b _ g₁ e => ?_
    cases e
    refine .branch ?_ (.pure rfl)
    have hn := g₁.reading hn
    refine (Gathers.forM ?_).bind fun _ _ _ g₂ _ => h.leave (g₂.reading hn)
    have groups : List.Forall₂ (fun x p => ∀ s', s₁.Grows s' → Agrees (Each Shows) env rank s' x p)
        n.childGroups m.childGroups := Agrees.childGroups hn h0
    refine groups.imp fun x p group s' g => ?_
    refine (Gathers.ofSession (group s' g)).bind fun s₂ ns ms g₂ hns => .forM (hns.imp fun c d hc s' g => ?_)
    exact ih (g.reading hc)

theorem visit (h : Visits Q env rank v w) (h0 : 0 < rank) {n : Node} {m : Sight Form} (hn : Shows s n m) :
    Gathers Same Q env rank s (v.visit n) (w.visit m) := .readThen (h.visitIn h0 _ hn)

theorem visitFiles (h : Visits Q env rank v w) (h0 : 0 < rank) :
    Gathers Same Q env rank s v.visitFiles w.visitFiles :=
  (Gathers.ofSession .allFiles).bind fun _ _ _ _ hfs => .forM (hfs.imp fun _ _ hf _ g =>
    h.visit h0 (Shows.toNode (g.reading hf)))

end Visits

/-- Arrays correspond element by element. -/
def Listed (R : Reading A B) : Reading (Array A) (Array B) := fun s as bs => Each R s as.toList bs.toList

instance (R : Reading A B) [Lasting R] : Lasting (Listed R) :=
  ⟨fun h h' => Lasting.mono (R := Each R) h h'⟩

theorem Listed.push {R : Reading A B} {as : Array A} {bs : Array B} {a : A} {b : B} (h : Listed R s as bs)
    (last : R s a b) : Listed R s (as.push a) (bs.push b) := by
  rw [Listed,Array.toList_push,Array.toList_push]
  exact List.rel_append h (.cons last .nil)

/-- Symbols have the same id if they have the same key. -/
theorem Shows.id_eq_iff {S T : Type} [Viewed S] [Viewed T] (hs : s.Sound env rank) {v : View S}
    {w : Sight S} {v' : View T} {w' : Sight T} (h : Shows s v w) (h' : Shows s v' w') :
    v.id = v'.id ↔ w.key = w'.key := by
  obtain ⟨hv,rfl⟩ := h
  obtain ⟨hv',rfl⟩ := h'
  constructor
  · intro e
    rw [e] at hv
    exact congrArg (·.header.key) (Option.some.inj (hv.symm.trans hv'))
  · exact hs.unique hv hv'

namespace Visits

/-- References are gathered once each, whether they are told apart by ids or by keys. -/
theorem references : Visits (Listed Shows) env rank .references .references :=
  postorder fun {s n m} h => by
    have narrow := h.as? ReferenceForm
    cases hn : n.as? ReferenceForm <;> cases hm : m.as? ReferenceForm <;> rw [hn,hm] at narrow <;>
      cases narrow
    · exact .pure rfl
    · rename_i r w hr
      refine Gathers.update fun rs ws hs hq => ?_
      have known : ∀ {vs : List ReferenceView} {us : List (Sight ReferenceForm)}, Each Shows s vs us →
          vs.any (·.id == r.id) = us.any (·.key == w.key) := by
        intro vs us hvs
        induction hvs with
        | nil => rfl
        | cons hc _ ih =>
          rw [List.any_cons,List.any_cons,ih]
          congr 1
          rw [Bool.eq_iff_iff,beq_iff_eq,beq_iff_eq]
          exact hc.id_eq_iff hs hr
      rw [← Array.any_toList,← Array.any_toList,known hq]
      split
      · exact hq
      · exact Listed.push hq hr

theorem names (noPackage : String) (h1 : 1 < rank) :
    Visits Same env rank (.names noPackage) (.names noPackage) :=
  preorder fun {s n m} h => by
    have narrow := h.as? DeclaredForm
    rw [View.asDeclaration?]
    cases hn : n.as? DeclaredForm <;> cases hm : m.as? DeclaredForm <;> rw [hn,hm] at narrow <;>
      cases narrow
    · exact .pure rfl
    · rename_i d w hd
      have named : Gathers Same Same env rank s
          (do
            let package ← Gathering.ofSession d.packageName
            Gathering.record ((if package.isEmpty then noPackage else package) ++ ":" ++ d.name))
          (do
            let package ← Direct.Gathering.ofDirect w.packageName
            Direct.Gathering.record ((if package.isEmpty then noPackage else package) ++ ":" ++ w.shape.name)) := by
        refine (Gathers.ofSession (Agrees.packageName hd h1)).bind fun _ _ _ _ e => ?_
        cases e
        rw [show d.name = w.shape.name by rw [← hd.shape]; rfl]
        exact .record _
      dsimp only
      rw [hd.shape]
      cases e : w.shape <;> first | exact .pure rfl | (rw [e] at named; exact named)

theorem overridees (h3 : 3 < rank) : Visits Same env rank Processor.overridees Direct.Visitor.overridees :=
  preorder fun {s n m} h => by
    have narrow := h.as? FunctionShape
    cases hn : n.as? FunctionShape <;> cases hm : m.as? FunctionShape <;> rw [hn,hm] at narrow <;>
      cases narrow
    · exact .pure rfl
    · rename_i f w hf
      dsimp only
      rw [hf.shape]
      refine .branch ?_ (.pure rfl)
      refine (Gathers.ofSession (Agrees.findOverridee hf h3)).bind fun s₁ _ _ g₁ ho => ?_
      cases ho with
      | none => exact .pure rfl
      | some ho =>
        have h2 := Nat.lt_of_succ_lt h3
        have hf := (g₁.reading hf).toDeclaration
        refine (Gathers.ofSession (Agrees.displayName hf h2)).bind fun s₂ _ _ g₂ e => ?_
        cases e
        have ho := (g₂.reading ho).toDeclaration
        refine (Gathers.ofSession (Agrees.displayName ho h2)).bind fun _ _ _ _ e => ?_
        cases e
        exact .record _

end Visits

/-! ### Processors -/

namespace Agrees

theorem isInteresting {r : ReferenceView} {w : Sight ReferenceForm} (hr : Shows s r w) (h0 : 0 < rank) :
    Agrees Same env rank s (Processor.isInteresting r) (Direct.isInteresting w) := by
  refine readThen (f := fun env => do
    return (← r.annotations).any fun a => env.config.isInteresting a.shape.shortName) ?_
  refine (annotations hr h0).map fun _ as bs _ h => ?_
  show as.any _ = bs.any _
  induction h with
  | nil => rfl
  | cons h _ ih => rw [List.any_cons,List.any_cons,ih,h.shape]

theorem comparedTypes {r : ReferenceView} {w : Sight ReferenceForm} (hr : Shows s r w) (h0 : 0 < rank) :
    Agrees (Each Interns) env rank s (Processor.comparedTypes r) (Direct.comparedTypes w) := by
  refine (isInteresting hr h0).bind fun s₁ _ _ g₁ e => ?_
  cases e
  refine branch ?_ (.pure .nil)
  exact (resolve (g₁.reading hr) h0).bind fun _ _ _ _ h => aliasChain h h0

theorem comparison {i j : InternedType} {t u : ResolvedType} (hi : Interns s i t) (hj : Interns s j u) :
    Agrees Same env rank s (Processor.comparison i j) (Direct.comparison t u) := by
  refine (shown hi).bind fun _ _ _ g₁ e => ?_
  cases e
  refine (shown (g₁.reading hj)).bind fun _ _ _ g₂ e => ?_
  cases e
  have g := g₁.trans g₂
  exact (isAssignableFrom (g.reading hi) (g.reading hj)).map fun _ _ _ _ e => by cases e; rfl

end Agrees

namespace Gathers

/-- All types are compared with one another. -/
theorem comparisons {ts : List InternedType} {us : List ResolvedType} (h : Each Interns s ts us) :
    Gathers Same Same env rank s
      (ts.forM fun i => ts.forM fun j => do Gathering.record (← Gathering.ofSession (Processor.comparison i j)))
      (us.forM fun i => us.forM fun j => do
        Direct.Gathering.record (← Direct.Gathering.ofDirect (Direct.comparison i j))) := by
  refine forM (h.imp fun i t hi s₁ g => forM (h.imp fun j u hj s₂ g' => ?_))
  have later := g.trans g'
  refine (ofSession (Agrees.comparison (later.reading hi) (later.reading hj))).bind fun _ _ _ _ e => ?_
  cases e
  exact .record _

theorem compareAliases (h0 : 0 < rank) :
    Gathers Same Same env rank s Processor.compareAliases Direct.compareAliases := by
  have visited : Gathers Same (Listed Shows) env rank s _ _ := Visits.references.visitFiles h0
  refine (ofSession (visited.gathered (g := #[]) (h := #[]) .nil)).bind fun s₁ rs ws _ hrs => ?_
  have types : Gathers (Each (Each Interns)) (@Same (Array String)) env rank s₁
      (rs.toList.mapM fun r => Gathering.ofSession (Processor.comparedTypes r))
      (ws.toList.mapM fun r => Direct.Gathering.ofDirect (Direct.comparedTypes r)) :=
    mapM (hrs.imp fun _ _ hr _ g => ofSession (Agrees.comparedTypes (g.reading hr) h0))
  exact types.bind fun _ _ _ _ hts => comparisons (List.rel_flatten hts)

theorem process (p : Processor) : Gathers Same Same env 4 s p.process (Direct.process p) := by
  cases p with
  | packageNames => exact .readThen ((Visits.names _ (by decide)).visitFiles (by decide))
  | aliasComparison => exact compareAliases (by decide)
  | overridee => exact (Visits.overridees (by decide)).visitFiles (by decide)

end Gathers

/-- A processor records in a session of its own what it records without one. -/
theorem Processor.run_eq (p : Processor) (env : Environment) :
    p.run env = Direct.Gathering.gathered (Direct.process p) #[] env :=
  ((Gathers.process p).gathered rfl (State.sound_initial env 4)).answer.eq

end SymbolGraph
