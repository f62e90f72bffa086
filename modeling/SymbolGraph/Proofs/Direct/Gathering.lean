import SymbolGraph.Proofs.Direct.Types

/-! What traversals over well-formed models can fail with, and that they reach the bottom of what they
traverse. -/
namespace SymbolGraph

open Direct

variable {A B G : Type} {env : Environment} {allowed : Error → Prop}

namespace Direct.Gathering

/-- A computation keeps to what may be gathered and answers as described, or fails with an error that is
allowed. -/
def Within (allowed : Error → Prop) (env : Environment) (kept : G → Prop) (x : Direct.Gathering G A)
    (post : A → Prop) : Prop :=
  ∀ g, kept g → match x env g with
    | (.ok a,g') => kept g' ∧ post a
    | (.error e,_) => allowed e

namespace Within

variable {kept : G → Prop} {x : Direct.Gathering G A} {P : A → Prop} {Q : B → Prop}

theorem pure {a : A} (h : P a) : Within allowed env kept (pure a) P := fun _ hg => ⟨hg,h⟩

theorem bind {f : A → Direct.Gathering G B} (hx : Within allowed env kept x P)
    (hf : ∀ a, P a → Within allowed env kept (f a) Q) : Within allowed env kept (x >>= f) Q := by
  intro g hg
  have first := hx g hg
  rcases e : x env g with ⟨er | a,g'⟩ <;> rw [e] at first
  · rw [Attempt.bind_error e]; exact first
  · rw [Attempt.bind_ok e]; exact hf a first.2 g' first.1

theorem readThen {f : Environment → Direct.Gathering G A} (h : Within allowed env kept (f env) P) :
    Within allowed env kept (do f (← MonadReader.read)) P := h

theorem ofDirect {y : Direct A} (hy : Direct.Within allowed env y P) :
    Within allowed env kept (ofDirect y) P := by
  intro g hg
  show match (y env,g) with | (.ok a,g') => kept g' ∧ P a | (.error e,_) => allowed e
  rcases hy.ok_or_error with ⟨a,run,h⟩ | ⟨e,run,h⟩ <;> rw [run]
  · exact ⟨hg,h⟩
  · exact h

theorem update {f : G → G} (h : ∀ g, kept g → kept (f g)) :
    Within allowed env kept (update f) fun _ => True := fun g hg => ⟨h g hg,trivial⟩

theorem forM {C : Type} {f : C → Direct.Gathering G Unit} {l : List C}
    (h : ∀ c ∈ l, Within allowed env kept (f c) fun _ => True) :
    Within allowed env kept (l.forM f) fun _ => True := by
  induction l with
  | nil => exact .pure trivial
  | cons c l ih =>
    obtain ⟨hc,hl⟩ := List.forall_mem_cons.mp h
    exact hc.bind fun _ _ => ih hl

theorem mapM {C : Type} {f : C → Direct.Gathering G A} {l : List C}
    (h : ∀ c ∈ l, Within allowed env kept (f c) fun _ => True) :
    Within allowed env kept (l.mapM f) fun _ => True := by
  induction l with
  | nil => exact .pure trivial
  | cons c l ih =>
    obtain ⟨hc,hl⟩ := List.forall_mem_cons.mp h
    rw [List.mapM_cons]
    exact hc.bind fun _ _ => (ih hl).bind fun _ _ => .pure trivial

/-- What is gathered is kept to. -/
theorem gathered {y : Direct.Gathering G Unit} {initial : G}
    (hy : Within allowed env kept y fun _ => True) (h : kept initial) :
    Direct.Within allowed env (gathered y initial) kept := by
  have run := hy initial h
  rw [Direct.Within,Direct.Gathering.gathered]
  rcases e : y env initial with ⟨er | _,g⟩ <;> rw [e] at run
  · exact run
  · exact run.1

end Within

end Direct.Gathering

/-! ### Depth -/

namespace Direct.Gathering

theorem bind_congr {x : Direct.Gathering G A} {f f' : A → Direct.Gathering G B}
    (h : ∀ a, f a env = f' a env) : (x >>= f) env = (x >>= f') env := by
  show (x env >>= fun a => f a env) = (x env >>= fun a => f' a env)
  rw [funext h]

/-- What follows a direct computation matters only for the answers that it can give. -/
theorem ofDirect_bind_congr {P : A → Prop} {x : Direct A} (hx : Direct.Within allowed env x P)
    {f f' : A → Direct.Gathering G B} (h : ∀ a, P a → f a env = f' a env) :
    (ofDirect x >>= f) env = (ofDirect x >>= f') env := by
  funext g
  rcases hx.ok_or_error with ⟨a,run,ha⟩ | ⟨e,run,-⟩
  · have answers : ofDirect x env g = (.ok a,g) := by rw [ofDirect,run]; rfl
    rw [Attempt.bind_ok answers,Attempt.bind_ok answers,h a ha]
  · have fails : ofDirect x env g = (.error e,g) := by rw [ofDirect,run]; rfl
    rw [Attempt.bind_error fails,Attempt.bind_error fails]

theorem forM_congr {C : Type} {f f' : C → Direct.Gathering G Unit} {l : List C}
    (h : ∀ c ∈ l, f c env = f' c env) : l.forM f env = l.forM f' env := by
  induction l with
  | nil => rfl
  | cons c l ih =>
    obtain ⟨hc,hl⟩ := List.forall_mem_cons.mp h
    show (f c env >>= fun _ => l.forM f env) = (f' c env >>= fun _ => l.forM f' env)
    rw [hc,ih hl]

end Direct.Gathering

namespace Direct.Visitor

/-- A visit that may go deeper than symbols nest goes to the bottom, however deep it may go. -/
theorem visitIn_eq (v : Direct.Visitor G) (hw : env.models.WellFormed) {n : Sight Form}
    (hn : n.Genuine env) {d e : Nat} (hd : env.models.room n.key < d) (he : env.models.room n.key < e) :
    v.visitIn d n env = v.visitIn e n env := by
  induction d generalizing e n with
  | zero => exact absurd hd (Nat.not_lt_zero _)
  | succ d ih =>
    obtain ⟨e,rfl⟩ : ∃ k, e = k + 1 := ⟨e - 1,by omega⟩
    have group : ∀ x ∈ n.childGroups,
        (do (← Gathering.ofDirect x).forM (v.visitIn d) : Direct.Gathering G Unit) env =
          (do (← Gathering.ofDirect x).forM (v.visitIn e) : Direct.Gathering G Unit) env := by
      intro x hx
      have children : Direct.Within (fun _ => True) env x fun ws =>
          ∀ w ∈ ws, w.Genuine env ∧ w.key ∈ env.models.below n.key := Sight.childGroups_below hw hn x hx
      refine Gathering.ofDirect_bind_congr children fun ws hws => ?_
      refine Gathering.forM_congr fun w hw' => ?_
      obtain ⟨genuine,listed⟩ := hws w hw'
      have lt := Models.room_lt hw listed
      exact ih genuine (by omega) (by omega)
    refine Gathering.bind_congr fun goOn => ?_
    cases goOn with
    | false => rfl
    | true =>
      have groups := Gathering.forM_congr group
      show (_ >>= fun _ => v.leave n env) = (_ >>= fun _ => v.leave n env)
      rw [groups]

/-- No visit of a symbol ends for its depth. -/
theorem visit_eq (v : Direct.Visitor G) (hw : env.models.WellFormed) {n : Sight Form}
    (hn : n.Genuine env) {d : Nat} (hd : env.models.size + 1 < d) : v.visit n env = v.visitIn d n env := by
  have room := env.models.room_le n.key
  exact v.visitIn_eq hw hn (by omega) (by omega)

end Direct.Visitor

/-! ### Failures -/

/-- The files of a run are found, in the order in which the oracle names them. -/
theorem Direct.allFiles_within (files : ∀ k ∈ env.oracle.files, ∃ f, env.models.shape? k = some (.file f)) :
    Within allowed env allFiles fun fs =>
      fs.map (·.key) = env.oracle.files.map .node ∧ ∀ f ∈ fs, f.Genuine env := by
  refine .after (ask_eq _) (.mapM_keys fun k hk => ?_)
  obtain ⟨f,hf⟩ := files k hk
  exact (typed_within FileShape hf rfl).weaken fun _ => And.symm

/-- What a traversal reaches is genuine. It is found, or not with an error that is allowed. -/
structure Direct.Reaches (allowed : Error → Prop) (env : Environment) : Prop where
  files : Within allowed env allFiles fun fs => ∀ f ∈ fs, f.Genuine env
  below : ∀ {n : Sight Form}, n.Genuine env → ∀ x ∈ n.childGroups,
    Within allowed env x fun ws => ∀ w ∈ ws, w.Genuine env

theorem Direct.reaches_of_fits (hw : env.models.WellFormed) (fits : env.oracle.Fits env.models) :
    Reaches allowed env where
  files := (allFiles_within fun _ => fits.file).weaken fun _ => And.right
  below hn x hx := (Sight.childGroups_below hw hn x hx).weaken fun _ hws w hw => (hws w hw).1

namespace Direct.Visitor

open Direct.Gathering (Within)

/-- What a visitor does with genuine symbols fails with nothing but what is allowed. -/
structure Within (allowed : Error → Prop) (env : Environment) (kept : G → Prop) (v : Direct.Visitor G) :
    Prop where
  enter : ∀ {n}, n.Genuine env → Gathering.Within allowed env kept (v.enter n) fun _ => True
  leave : ∀ {n}, n.Genuine env → Gathering.Within allowed env kept (v.leave n) fun _ => True

namespace Within

variable {kept : G → Prop} {v : Direct.Visitor G}

theorem postorder {f : Sight Form → Direct.Gathering G Unit}
    (h : ∀ {n}, n.Genuine env → Gathering.Within allowed env kept (f n) fun _ => True) :
    Within allowed env kept (.postorder f) := ⟨fun _ => .pure trivial,h⟩

theorem preorder {f : Sight Form → Direct.Gathering G Unit}
    (h : ∀ {n}, n.Genuine env → Gathering.Within allowed env kept (f n) fun _ => True) :
    Within allowed env kept (.preorder f) :=
  ⟨fun hn => (h hn).bind fun _ _ => .pure trivial,fun _ => .pure trivial⟩

variable (h : Within allowed env kept v) (reach : Reaches allowed env)
include h reach

theorem visitIn (depth : Nat) {n : Sight Form} (hn : n.Genuine env) :
    Gathering.Within allowed env kept (v.visitIn depth n) fun _ => True := by
  induction depth generalizing n with
  | zero => exact .pure trivial
  | succ depth ih =>
    refine (h.enter hn).bind fun goOn _ => ?_
    cases goOn with
    | false => exact .pure trivial
    | true =>
      refine (Gathering.Within.forM fun group hg => ?_).bind fun _ _ => h.leave hn
      refine (Gathering.Within.ofDirect (reach.below hn group hg)).bind fun ns hns => ?_
      exact .forM fun m hm => ih (hns m hm)

theorem visit {n : Sight Form} (hn : n.Genuine env) :
    Gathering.Within allowed env kept (v.visit n) fun _ => True := .readThen (h.visitIn reach _ hn)

theorem visitFiles : Gathering.Within allowed env kept v.visitFiles fun _ => True :=
  (Gathering.Within.ofDirect reach.files).bind fun _ hfs => .forM fun f hf => h.visit reach (hfs f hf)

end Within

end Direct.Visitor
end SymbolGraph
