import Mathlib.Data.List.Perm.Basic
import SymbolGraph.Proofs.Direct.Gathering
import SymbolGraph.Proofs.Layout.Outline

/-! Traversals that meet every symbol before those below it, and what they record. They run through a list
of keys that follows from the models alone. -/
namespace SymbolGraph

namespace Shape

/-- But for the reference that stands for a missing type, a traversal finds what a node lists. -/
theorem flatMap_visited {B : Type} (s : Shape) {f : Option NodeId → List B} (h : f none = []) :
    s.visited.flatMap f = s.children.flatMap fun c => f (some c) := by
  cases s with
  | function s =>
    cases e : s.returnType with
    | none => simp [visited,children,e,h,List.flatMap_map]
    | some c => simp [visited,children,e,List.flatMap_map]
  | property s =>
    cases e : s.typeReference with
    | none => simp [visited,children,e,h,List.flatMap_map]
    | some c => simp [visited,children,e,List.flatMap_map]
  | valueParameter s =>
    cases e : s.typeReference with
    | none => simp [visited,children,e,h,List.flatMap_map]
    | some c => simp [visited,children,e,List.flatMap_map]
  | _ => simp [visited,List.flatMap_map]

end Shape

/-- The node that a symbol stands for, if it is written. -/
def SymbolKey.node? : SymbolKey → Option NodeKey
  | .node k => some k
  | .deferred _ => none

namespace Models

def preorderUpTo (ms : Models) : Nat → SymbolKey → List SymbolKey
  | 0, _ => []
  | depth+1, k => k :: (ms.below k).flatMap (preorderUpTo ms depth)

/-- A symbol and all symbols below it, each of them before those below it. -/
def preorder (ms : Models) (k : SymbolKey) : List SymbolKey := ms.preorderUpTo (ms.size + 2) k

variable {ms : Models} {x y : SymbolKey} {k p : NodeKey}

theorem preorderUpTo_eq (hw : ms.WellFormed) {d e : Nat} (hd : ms.room x < d) (he : ms.room x < e) :
    ms.preorderUpTo d x = ms.preorderUpTo e x := by
  induction d generalizing e x with
  | zero => exact absurd hd (Nat.not_lt_zero _)
  | succ d ih =>
    obtain ⟨e,rfl⟩ : ∃ i, e = i + 1 := ⟨e - 1,by omega⟩
    have inner : (ms.below x).flatMap (ms.preorderUpTo d) = (ms.below x).flatMap (ms.preorderUpTo e) := by
      apply List.flatMap_congr
      intro y hy
      have lt := room_lt hw hy
      exact ih (by omega) (by omega)
    rw [preorderUpTo,preorderUpTo,inner]

theorem preorder_eq (hw : ms.WellFormed) (x : SymbolKey) :
    ms.preorder x = x :: (ms.below x).flatMap ms.preorder := by
  have inner : (ms.below x).flatMap (ms.preorderUpTo (ms.size + 1)) = (ms.below x).flatMap ms.preorder := by
    apply List.flatMap_congr
    intro y hy
    have lt := room_lt hw hy
    have le := ms.room_le x
    exact preorderUpTo_eq hw (by omega) (by omega)
  rw [preorder,preorderUpTo,inner]

/-- Whether symbols are met before or after those below them, the same symbols are met. -/
theorem preorder_perm (hw : ms.WellFormed) (x : SymbolKey) : (ms.preorder x).Perm (ms.postorder x) := by
  induction x using ascend hw with
  | step x ih =>
    rw [preorder_eq hw,postorder_eq hw]
    have inner : ((ms.below x).flatMap ms.preorder).Perm ((ms.below x).flatMap ms.postorder) :=
      List.Perm.flatMap_left _ ih
    exact (inner.cons x).trans (List.perm_append_singleton _ _).symm

theorem mem_preorder (hw : ms.WellFormed) : y ∈ ms.preorder x ↔ y ∈ ms.postorder x :=
  (preorder_perm hw x).mem_iff

theorem exists_shape_of_parent? (hw : ms.WellFormed) (h : ms.parent? k = some p) :
    ∃ s, ms.shape? k = some s := by
  obtain ⟨s,place,hs,listed,e⟩ := hw.parent h
  obtain ⟨-,t,ht,-⟩ := hw.child hs listed
  rw [e] at ht
  exact ⟨t,ht⟩

/-- What is met from a symbol of the models on is a symbol of the models. -/
theorem exists_shape_of_mem_preorder (hw : ms.WellFormed) (hx : ∃ s, ms.shape? x.anchor = some s)
    (h : y ∈ ms.preorder x) : ∃ s, ms.shape? y.anchor = some s := by
  induction x using ascend hw with
  | step x ih =>
    rw [preorder_eq hw] at h
    rcases List.mem_cons.mp h with rfl | h
    · exact hx
    · obtain ⟨z,hz,h⟩ := List.mem_flatMap.mp h
      refine ih z hz ?_ h
      obtain ⟨p,rfl,⟨c,rfl,parent⟩ | ⟨rfl,-⟩⟩ := (mem_below hw).mp hz
      · exact exists_shape_of_parent? hw parent
      · exact hx

theorem preorder_deferred (hw : ms.WellFormed) (k : NodeKey) :
    ms.preorder (.deferred k) = [.deferred k] := by
  rw [preorder_eq hw]
  rfl

/-- What is made of the symbols of nodes alone is made on the way down through the arena. -/
theorem filterMap_preorder {B : Type} (hw : ms.WellFormed) {i : SourceId} {a : Arena}
    {outlines : List Outline} (ha : ms.arena? i = some a) (ordered : a.SourceOrdered outlines)
    {f : SymbolKey → Option B} (deferred : ∀ k, f (.deferred k) = none) {n : NodeId}
    {s : Shape} (hs : a.shape? n = some s) :
    (ms.preorder (.node ⟨i,n⟩)).filterMap f = (a.descent n).filterMap fun m => f (.node ⟨i,m⟩) := by
  generalize e : SymbolKey.node ⟨i,n⟩ = x
  induction x using ascend hw generalizing n s with
  | step x ih =>
    subst e
    have shape : ms.shape? ⟨i,n⟩ = some s := (shape?_eq (k := ⟨i,n⟩) ha).trans hs
    have missing : (ms.preorder (NodeKey.listed ⟨i,n⟩ none)).filterMap f = [] := by
      rw [NodeKey.listed,preorder_deferred hw,List.filterMap_cons_none (deferred _)]
      rfl
    have below : (s.children.flatMap fun c => (ms.preorder (.node ⟨i,c⟩)).filterMap f) =
        s.children.flatMap fun c => (a.descent c).filterMap fun m => f (.node ⟨i,m⟩) := by
      apply List.flatMap_congr
      intro c hc
      obtain ⟨place,listed⟩ := Shape.mem_children.mp hc
      obtain ⟨-,t,ht,-⟩ := (hw.arena ha).child hs listed
      refine ih (.node ⟨i,c⟩) ?_ ht rfl
      rw [below_node shape]
      exact List.mem_map_of_mem (f := NodeKey.listed ⟨i,n⟩) (Shape.some_mem_visited.mpr hc)
    have whole : ((ms.below (.node ⟨i,n⟩)).flatMap ms.preorder).filterMap f =
        s.children.flatMap fun c => (ms.preorder (.node ⟨i,c⟩)).filterMap f := by
      rw [below_node shape,List.flatMap_map,List.filterMap_flatMap,s.flatMap_visited missing]
      rfl
    rw [preorder_eq hw,ordered.descends n s hs,List.filterMap_cons,List.filterMap_cons,whole,below,
      List.filterMap_flatMap]

/-- Nodes are numbered in the order in which they are met. -/
theorem filterMap_files {B : Type} (hw : ms.WellFormed) {i : SourceId} {a : Arena} {outlines : List Outline}
    (ha : ms.arena? i = some a) (ordered : a.SourceOrdered outlines) {f : SymbolKey → Option B}
    (deferred : ∀ k, f (.deferred k) = none) :
    ((a.files.map fun n => ⟨i,n⟩).flatMap fun k => (ms.preorder (.node k)).filterMap f) =
      (a.nodes.map fun n => ⟨i,n⟩).filterMap fun k => f (.node k) := by
  have each : ∀ n ∈ a.files, (ms.preorder (.node ⟨i,n⟩)).filterMap f =
      (a.descent n).filterMap fun m => f (.node ⟨i,m⟩) := by
    intro n hn
    have inside := ((ordered.files n).mp hn).1
    obtain ⟨s,hs⟩ := Option.isSome_iff_exists.mp ((ordered.shaped n).mpr inside)
    exact filterMap_preorder hw ha ordered deferred hs
  rw [List.flatMap_map,List.flatMap_congr each,← List.filterMap_flatMap,ordered.descent,List.filterMap_map]
  rfl

theorem nodup_keys (ms : Models) : ms.keys.Nodup := by
  have own : ∀ x ∈ ms.indexed, (x.2.nodes.map fun n => (⟨x.1,n⟩ : NodeKey)).Nodup := by
    intro x _
    have nodes : x.2.nodes.Nodup := List.nodup_range.map fun _ _ => NodeId.mk.inj
    exact nodes.map fun _ _ h => (NodeKey.mk.inj h).2
  have apart : ms.indexed.Pairwise (Function.onFun List.Disjoint fun x : SourceId × Arena =>
      x.2.nodes.map fun n => (⟨x.1,n⟩ : NodeKey)) := by
    have ids : ms.indexed.Pairwise fun x y => x.1 ≠ y.1 := by
      rw [List.pairwise_iff_getElem]
      intro i j hi hj lt
      simp only [indexed,List.getElem_mapIdx,ne_eq,SourceId.mk.injEq]
      omega
    apply ids.imp
    intro x y ne k hk hk'
    obtain ⟨_,-,rfl⟩ := List.mem_map.mp hk
    obtain ⟨_,-,same⟩ := List.mem_map.mp hk'
    exact ne (NodeKey.mk.inj same).1.symm
  exact List.nodup_flatMap.mpr ⟨own,apart⟩

end Models

namespace Direct

variable {A G : Type} {env : Environment}

/-- Every key of the models stands for a symbol. -/
theorem exists_symbol {x : SymbolKey} {s : Shape} (h : env.models.shape? x.anchor = some s) :
    ∃ n, symbol x env = .ok n ∧ n.Genuine env ∧ n.key = x := by
  cases x with
  | node k =>
    obtain ⟨n,genuine,key,-⟩ : ∃ n : Sight Form, n.Genuine env ∧ n.key = .node k ∧ n.shape = .written s :=
      exists_genuine h rfl
    refine ⟨n,?_,genuine,key⟩
    rwa [Sight.Genuine,key] at genuine
  | deferred k =>
    obtain ⟨a,ha,-⟩ := Models.exists_arena_of_shape? h
    have made : symbol (.deferred k) env = .ok ⟨.deferred k,a.origin,.nonExisting,.deferred⟩ :=
      symbol_deferred_eq_ok.mpr ⟨a,ha,rfl⟩
    exact ⟨_,made,symbol_genuine made⟩

/-! ### What is recorded -/

namespace Gathering

theorem ofDirect_bind {B : Type} {x : Direct B} {b : B} (run : x env = .ok b)
    (f : B → Gathering G A) : (ofDirect x >>= f) env = f b env := by
  funext g
  have answers : ofDirect x env g = (.ok b,g) := by rw [ofDirect,run]; rfl
  exact Attempt.bind_ok answers

/-- A computation succeeds if it records something as described, and records nothing else. -/
def Records (env : Environment) (p : Gathering (Array A) Unit) (P : List A → Prop) : Prop :=
  ∀ g g', p env g = (.ok (),g') ↔ ∃ rs, P rs ∧ g' = g ++ rs.toArray

theorem gathered_eq_ok {p : Gathering G Unit} {g g' : G} :
    gathered p g env = .ok g' ↔ p env g = (.ok (),g') := by
  rw [gathered]
  rcases p env g with ⟨e | _,h⟩
  · simp
  · simp

namespace Records

variable {p q : Gathering (Array A) Unit} {P Q : List A → Prop}

theorem pure : Records env (pure () : Gathering (Array A) Unit) (· = []) := by
  intro g g'
  constructor
  · intro h
    cases h
    exact ⟨[],rfl,by simp⟩
  · rintro ⟨_,rfl,h⟩
    have same : g' = g := by simpa using h
    rw [same]
    rfl

theorem record (a : A) : Records env (Gathering.record a) (· = [a]) := by
  intro g g'
  constructor
  · intro h
    cases h
    exact ⟨[a],rfl,by simp⟩
  · rintro ⟨_,rfl,rfl⟩
    have pushed : g ++ [a].toArray = g.push a := by simp
    rw [pushed]
    rfl

theorem congr (h : Records env p P) (same : ∀ rs, P rs ↔ Q rs) : Records env p Q := by
  intro g g'
  rw [h g g']
  simp only [same]

theorem seq (hp : Records env p P) (hq : Records env q Q) :
    Records env (do p; q) fun rs => ∃ r s, P r ∧ Q s ∧ rs = r ++ s := by
  intro g g'
  constructor
  · intro h
    rcases run : p env g with ⟨e | _,g₁⟩
    · rw [Attempt.bind_error run] at h
      cases h
    · rw [Attempt.bind_ok run] at h
      obtain ⟨r,hr,rfl⟩ := (hp g g₁).mp run
      obtain ⟨s,hs,rfl⟩ := (hq _ g').mp h
      exact ⟨r ++ s,⟨r,s,hr,hs,rfl⟩,by simp⟩
  · rintro ⟨_,⟨r,s,hr,hs,rfl⟩,rfl⟩
    rw [Attempt.bind_ok ((hp g _).mpr ⟨r,hr,rfl⟩)]
    exact (hq _ _).mpr ⟨s,hs,by simp⟩

theorem after {B : Type} {x : Direct B} {b : B} {f : B → Gathering (Array A) Unit} (run : x env = .ok b)
    (h : Records env (f b) P) : Records env (do f (← ofDirect x)) P := by
  intro g g'
  rw [ofDirect_bind run]
  exact h g g'

theorem ofDirect {B : Type} {x : Direct B} {f : B → Gathering (Array A) Unit} {P : B → List A → Prop}
    (h : ∀ b, x env = .ok b → Records env (f b) (P b)) :
    Records env (do f (← ofDirect x)) fun rs => ∃ b, x env = .ok b ∧ P b rs := by
  intro g g'
  cases run : x env with
  | error e =>
    have fails : Gathering.ofDirect x env g = (.error e,g) := by rw [Gathering.ofDirect,run]; rfl
    rw [Attempt.bind_error fails]
    constructor
    · intro h
      cases h
    · rintro ⟨_,⟨_,no,-⟩,-⟩
      cases no
  | ok b =>
    rw [after run (h b run) g g']
    constructor
    · rintro ⟨rs,hrs,rfl⟩
      exact ⟨rs,⟨b,rfl,hrs⟩,rfl⟩
    · rintro ⟨rs,⟨_,same,hrs⟩,rfl⟩
      cases same
      exact ⟨rs,hrs,rfl⟩

theorem forM {C : Type} {f : C → Gathering (Array A) Unit} {P : C → List A → Prop} {l : List C}
    (h : ∀ c ∈ l, Records env (f c) (P c)) :
    Records env (l.forM f) fun rs => ∃ rss, List.Forall₂ P l rss ∧ rs = rss.flatten := by
  induction l with
  | nil =>
    refine pure.congr fun rs => ⟨?_,?_⟩
    · rintro rfl
      exact ⟨[],.nil,rfl⟩
    · rintro ⟨_,⟨⟩,rfl⟩
      rfl
  | cons c l ih =>
    obtain ⟨hc,hl⟩ := List.forall_mem_cons.mp h
    refine (hc.seq (ih hl)).congr fun rs => ⟨?_,?_⟩
    · rintro ⟨r,_,hr,⟨rss,hrss,rfl⟩,rfl⟩
      exact ⟨r :: rss,.cons hr hrss,rfl⟩
    · rintro ⟨_,each,rfl⟩
      cases each with
      | cons hr hrss => exact ⟨_,_,hr,⟨_,hrss,rfl⟩,rfl⟩

theorem forM_eq {C : Type} {f : C → Gathering (Array A) Unit} {r : C → List A} {l : List C}
    (h : ∀ c ∈ l, Records env (f c) (· = r c)) : Records env (l.forM f) (· = l.flatMap r) := by
  refine (forM h).congr fun rs => ⟨?_,?_⟩
  · rintro ⟨rss,each,rfl⟩
    have same : rss = l.map r := by
      rw [← List.forall₂_eq_eq_eq,List.forall₂_map_right_iff]
      exact each.flip
    rw [same,List.flatMap]
  · rintro rfl
    exact ⟨l.map r,List.forall₂_map_right_iff.mpr (List.forall₂_same.mpr fun _ _ => rfl),rfl⟩

/-- What a run answers is what it records. -/
theorem gathered_eq_ok (h : Records env p P) {records : Array A} :
    gathered p #[] env = .ok records ↔ P records.toList := by
  have run := h #[] records
  simp only [Array.empty_append] at run
  rw [Gathering.gathered_eq_ok,run]
  constructor
  · rintro ⟨rs,hrs,rfl⟩
    exact hrs
  · intro hrs
    exact ⟨_,hrs,rfl⟩

end Records

end Gathering

namespace Visitor

open Direct.Gathering (ofDirect)

variable {f : Sight Form → Direct.Gathering G Unit}

/-- What is done with the symbol of a key. -/
def meet (f : Sight Form → Direct.Gathering G Unit) (x : SymbolKey) : Direct.Gathering G Unit := do
  f (← ofDirect (symbol x))

theorem meet_eq {n : Sight Form} (hn : n.Genuine env) : meet f n.key env = f n env :=
  Gathering.ofDirect_bind hn f

theorem forM_append {C : Type} {m : C → Direct.Gathering G Unit} {l l' : List C} :
    (l ++ l').forM m = (do l.forM m; l'.forM m) := List.forM_append

variable {m : SymbolKey → Direct.Gathering G Unit} {w : SymbolKey → List SymbolKey}

/-- What is done with genuine symbols is done with their keys. -/
theorem forM_genuine {T : Type} [Viewed T] {g : Sight T → Direct.Gathering G Unit}
    (each : ∀ c, c.Genuine env → g c env = (w c.key).forM m env) {ws : List (Sight T)}
    (genuine : ∀ c ∈ ws, c.Genuine env) :
    ws.forM g env = ((ws.map (·.key)).flatMap w).forM m env := by
  induction ws with
  | nil => rfl
  | cons c ws ih =>
    obtain ⟨hc,hws⟩ := List.forall_mem_cons.mp genuine
    have here := each c hc
    rw [List.map_cons,List.flatMap_cons,forM_append]
    show (g c env >>= fun _ => _) = _
    rw [here]
    exact congrArg _ (funext fun _ => ih hws)

/-- What is done with what lies below a symbol is done group by group. -/
theorem forM_groups {g : Sight Form → Direct.Gathering G Unit} {k : NodeKey}
    {xs : List (Direct (List (Sight Form)))} {groups : List (List (Option NodeId))}
    (found : List.Forall₂ (fun x ns => Direct.Within (fun _ => False) env x (Sight.Listed env k ns)) xs groups)
    (each : ∀ c, c.Genuine env → g c env = (w c.key).forM m env) :
    (xs.forM fun x => do (← ofDirect x).forM g) env =
      ((groups.flatten.map k.listed).flatMap w).forM m env := by
  induction found with
  | nil => rfl
  | @cons x ns xs groups hx _ ih =>
    obtain ⟨ws,run,keys,genuine⟩ := hx.exists_ok
    have first : (ofDirect x >>= fun ws => ws.forM g) env = ((ns.map k.listed).flatMap w).forM m env := by
      rw [Gathering.ofDirect_bind run,forM_genuine each genuine,keys]
    rw [List.flatten_cons,List.map_append,List.flatMap_append,forM_append]
    show ((ofDirect x >>= fun ws => ws.forM g) env >>= fun _ => _) = _
    rw [first]
    exact congrArg _ (funext fun _ => ih)

/-- A visit in pre-order runs through the keys below a symbol. -/
theorem visitIn_preorder (hw : env.models.WellFormed) (depth : Nat) {n : Sight Form} (hn : n.Genuine env) :
    (preorder f).visitIn depth n env = (env.models.preorderUpTo depth n.key).forM (meet f) env := by
  induction depth generalizing n with
  | zero => rfl
  | succ depth ih =>
    obtain ⟨groups,found,all⟩ := Sight.childGroups_within hw hn
    have below := forM_groups (m := meet f) found fun c hc => ih (n := c) hc
    rw [all] at below
    have entered : (preorder f).visitIn (depth + 1) n = (do
        f n
        n.childGroups.forM fun x => do (← ofDirect x).forM ((preorder f).visitIn depth)) := by
      rw [visitIn]
      simp [preorder]
    rw [entered,Models.preorderUpTo]
    show (f n env >>= fun _ => _) = (meet f n.key env >>= fun _ => _)
    rw [meet_eq hn]
    exact congrArg _ (funext fun _ => below)

/-- A visit of all files in pre-order runs through the keys of all of them. -/
theorem visitFiles_preorder (hw : env.models.WellFormed) (fits : env.oracle.Fits env.models) :
    (preorder f).visitFiles env =
      (env.oracle.files.flatMap fun k => env.models.preorder (.node k)).forM (meet f) env := by
  have found : Direct.Within (fun _ => False) env allFiles fun fs =>
      fs.map (·.key) = env.oracle.files.map .node ∧ ∀ f ∈ fs, f.Genuine env :=
    allFiles_within fun _ => fits.file
  obtain ⟨fs,run,keys,genuine⟩ := found.exists_ok
  have each : ∀ c : Sight FileShape, c.Genuine env →
      (preorder f).visit c.toNode env = (env.models.preorder c.key).forM (meet f) env :=
    fun c hc => visitIn_preorder hw _ hc.toNode
  rw [visitFiles,Gathering.ofDirect_bind run,forM_genuine each genuine,keys,List.flatMap_map]

end Visitor

end Direct
end SymbolGraph
