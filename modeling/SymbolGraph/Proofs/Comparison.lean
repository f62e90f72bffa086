import SymbolGraph.Proofs.Direct.Unasking
import SymbolGraph.Proofs.Index
import SymbolGraph.Proofs.Outcome
import SymbolGraph.Proofs.Traversal

/-! The comparison of aliases, record by record. It depends on the references that are marked and on what they and
the aliases are written with, and compares all that they stand for with one another, in their order. -/
namespace SymbolGraph

open Direct

variable {env : Environment} {s : State}

/-! ### Files -/

namespace Models

variable {ms : Models} {k : NodeKey} {t : Shape}

theorem exists_file (hw : ms.WellFormed) (hs : ms.shape? k = some t) : ∃ f ∈ ms.files, f ∈ ms.scopes k := by
  induction k using hw.climb generalizing t with
  | root k top => exact ⟨k,mem_files hs top,List.mem_cons_self⟩
  | child k p parent ih =>
    obtain ⟨t,-,ht,-⟩ := hw.parent parent
    obtain ⟨f,hf,above⟩ := ih ht
    exact ⟨f,hf,by rw [scopes_of_parent hw parent]; exact List.mem_cons_of_mem _ above⟩

theorem files_nodup (ms : Models) : ms.files.Nodup := by
  refine ms.nodup_keys.sublist (List.Sublist.flatMap_right _ fun x _ => ?_)
  exact List.filter_sublist.map _

/-- A node is met on the way through the files if it is there. -/
theorem node_mem_files_postorder (hw : ms.WellFormed) (hs : ms.shape? k = some t) :
    .node k ∈ ms.files.flatMap fun f => ms.postorder (.node f) := by
  obtain ⟨f,hf,above⟩ := exists_file hw hs
  exact List.mem_flatMap.mpr ⟨f,hf,(node_mem_postorder hw).mpr ⟨f,rfl,above⟩⟩

/-- Nothing is met twice on the way through all files. -/
theorem nodup_files_postorder (hw : ms.WellFormed) (once : ∀ k t, ms.shape? k = some t → t.children.Nodup) :
    (ms.files.flatMap fun f => ms.postorder (.node f)).Nodup := by
  refine List.nodup_flatMap.mpr ⟨fun f _ => nodup_postorder hw once _,?_⟩
  refine ms.files_nodup.pairwise_of_forall_ne fun f hf g hg ne x met met' => ne ?_
  have top {f : NodeKey} (hf : f ∈ ms.files) : ms.parent? f = none := by
    obtain ⟨_,shape⟩ := exists_of_mem_files hw hf
    exact (hw.root shape).mpr rfl
  rw [← (root_eq_iff hw (top hf)).mpr (mem_scopes_anchor hw met),
    (root_eq_iff hw (top hg)).mpr (mem_scopes_anchor hw met')]

end Models

/-! ### Marked references -/

/-- The marked references of all files, in the order in which a traversal meets them. -/
def Environment.markedReferences (env : Environment) : List NodeKey :=
  (env.oracle.files.flatMap fun k => env.models.postorder (.node k)).filterMap env.marked?

/-- The references that are compared: those that are written with an annotation of an interesting name, each once,
and those in the arguments and in the annotations of a reference before it. -/
structure Environment.Marks (env : Environment) (rs : List NodeKey) : Prop where
  nodup : rs.Nodup
  mem : ∀ r, r ∈ rs ↔ ∃ t, env.models.shape? r = some (.typeReference t) ∧ ∃ a ∈ t.annotations, ∃ e,
    env.models.shape? (r.sibling a) = some (.annotationEntry e) ∧ e.shortName ∈ env.config.interestingAnnotations
  nested : ∀ q ∈ rs, ∀ r ∈ env.models.ancestors q, r ∈ rs → [q,r].Sublist rs

theorem Environment.isMark_eq_true {k : NodeKey} : env.isMark k = true ↔ ∃ e,
    env.models.shape? k = some (.annotationEntry e) ∧ e.shortName ∈ env.config.interestingAnnotations := by
  rw [isMark]
  split
  · next e shape =>
    rw [Config.isInteresting,List.contains_iff_mem]
    constructor
    · exact fun h => ⟨e,shape,h⟩
    · rintro ⟨_,same,h⟩
      cases shape.symm.trans same
      exact h
  · next other =>
    refine ⟨fun none => absurd none Bool.false_ne_true,?_⟩
    rintro ⟨e,shape,-⟩
    exact (other e shape).elim

theorem Environment.marked?_eq_some {x : SymbolKey} {r : NodeKey} : env.marked? x = some r ↔ x = .node r ∧
    ∃ t, env.models.shape? r = some (.typeReference t) ∧ ∃ a ∈ t.annotations, env.isMark (r.sibling a) = true := by
  rw [marked?,Option.filter_eq_some_iff,SymbolKey.node?_eq_some]
  refine and_congr_right fun _ => ?_
  split
  · next t shape =>
    rw [List.any_map,List.any_eq_true]
    constructor
    · exact fun h => ⟨t,shape,h⟩
    · rintro ⟨_,same,h⟩
      cases shape.symm.trans same
      exact h
  · next other =>
    refine ⟨fun none => absurd none Bool.false_ne_true,?_⟩
    rintro ⟨t,shape,-⟩
    exact (other t shape).elim

theorem Environment.marks_of_files (hw : env.models.WellFormed) (files : env.oracle.files = env.models.files)
    (once : ∀ k t, env.models.shape? k = some t → t.children.Nodup) : env.Marks env.markedReferences where
  nodup := by
    rw [markedReferences,files]
    refine (Models.nodup_files_postorder hw once).filterMap fun x y k hx hy => ?_
    rw [(marked?_eq_some.mp hx).1,(marked?_eq_some.mp hy).1]
  mem r := by
    simp only [markedReferences,files,List.mem_filterMap,marked?_eq_some,isMark_eq_true]
    constructor
    · rintro ⟨x,-,-,marked⟩
      exact marked
    · rintro ⟨t,shape,marked⟩
      exact ⟨.node r,Models.node_mem_files_postorder hw shape,rfl,t,shape,marked⟩
  nested q hq r above hr := by
    obtain ⟨x,met,own⟩ := List.mem_filterMap.mp hq
    obtain ⟨_,-,marked⟩ := List.mem_filterMap.mp hr
    obtain ⟨rfl,-⟩ := marked?_eq_some.mp own
    obtain ⟨rfl,-⟩ := marked?_eq_some.mp marked
    obtain ⟨f,hf,met⟩ := List.mem_flatMap.mp met
    obtain ⟨_,shape⟩ := Models.exists_of_mem_files hw (files ▸ hf)
    have pair : [.node q,.node r].Sublist (env.models.postorder (.node f)) :=
      (Models.postordered hw once shape ((hw.root shape).mpr rfl)).ancestors _ met r above
    have whole : (env.models.postorder (.node f)).Sublist
        (env.oracle.files.flatMap fun k => env.models.postorder (.node k)) :=
      List.sublist_flatten_of_mem (List.mem_map_of_mem hf)
    have kept := (pair.trans whole).filterMap env.marked?
    rwa [List.filterMap_cons_some own,List.filterMap_cons_some marked,List.filterMap_nil] at kept

/-! ### Expansions -/

/-- The types that a written reference stands for, down its aliases. -/
def Session.expansion (k : NodeKey) : Session (List ResolvedType) := do
  return (← (← (← typed ReferenceForm k).resolve).aliasChain).map (·.resolved)

/-- The text of a type. -/
def Session.text (t : ResolvedType) : Session String := do (← intern t).shown

/-- What a written reference stands for, in a session of its own. -/
def Environment.expansion (env : Environment) (k : NodeKey) : Except Error (List ResolvedType) :=
  (Session.expansion k).runFresh env

def Environment.text (env : Environment) (t : ResolvedType) : Except Error String := (Session.text t).runFresh env

def Direct.expansion (k : NodeKey) : Direct (List ResolvedType) := do
  (← (← typed ReferenceForm k).resolve).aliasChain

theorem Agrees.expansion (k : NodeKey) : Agrees Same env 4 s (Session.expansion k) (Direct.expansion k) := by
  refine (typed ReferenceForm k).bind fun _ _ _ _ hr => (resolve hr (by decide)).bind fun _ _ u _ ht => ?_
  rw [← bind_pure u.aliasChain]
  refine (aliasChain ht (by decide)).map fun _ ts us _ h => ?_
  induction h with
  | nil => rfl
  | cons first _ ih => exact congrArg₂ List.cons first.2 ih

theorem Agrees.text (t : ResolvedType) : Agrees Same env 4 s (Session.text t) t.shown :=
  (intern t).bind fun _ _ _ _ h => shown h

theorem Environment.expansion_eq (env : Environment) (k : NodeKey) : env.expansion k = Direct.expansion k env :=
  (Agrees.expansion k (State.sound_initial env 4)).answer.eq

theorem Environment.text_eq (env : Environment) (t : ResolvedType) : env.text t = t.shown env :=
  (Agrees.text t (State.sound_initial env 4)).answer.eq

/-- A reference stands for the same in every session. -/
theorem Environment.expansion_of_sound (env : Environment) (hs : s.Sound env 4) (k : NodeKey) :
    (Session.expansion k env s).1 = env.expansion k :=
  (Agrees.expansion k hs).answer.eq.trans (expansion_eq env k).symm

/-- What gives nothing can be left out. -/
theorem Direct.flatten_mapM_filterMap {A B C : Type} {f : A → Direct (List C)} {p : A → Option B}
    {h : B → Direct (List C)} {as : List A}
    (each : ∀ a ∈ as, f a env = (p a).elim (.ok []) fun b => h b env) :
    (do return (← as.mapM f).flatten : Direct (List C)) env =
      (do return (← (as.filterMap p).mapM h).flatten : Direct (List C)) env := by
  induction as with
  | nil => rfl
  | cons a as ih =>
    obtain ⟨first,each⟩ := List.forall_mem_cons.mp each
    have rest := ih each
    have apart {D : Type} (g : D → Direct (List C)) (d : D) (ds : List D) :
        (do return (← (d :: ds).mapM g).flatten : Direct (List C)) =
          (do return (← g d) ++ (← (do return (← ds.mapM g).flatten : Direct (List C)))) := by
      simp
    cases own : p a with
    | none =>
      rw [own] at first
      rw [List.filterMap_cons_none own,← rest,apart,bind_ok first]
      simp
    | some b =>
      rw [own] at first
      rw [List.filterMap_cons_some own,apart,apart]
      exact bind_agree first fun us _ => bind_agree rest fun _ _ => rfl

/-! ### Runs -/

/-- What the marked references stand for, one after the other. -/
def Direct.markedTypes : Direct (List ResolvedType) := do
  return (← (← read).markedReferences.mapM expansion).flatten

theorem Direct.typed_reference {r : Sight ReferenceForm} {k : NodeKey} (hr : r.Genuine env) (key : r.key = .node k) :
    typed ReferenceForm k env = .ok r := by
  rw [Sight.Genuine,key] at hr
  have made : node k env = .ok r.toNode := hr
  rw [typed,bind_ok made]
  exact orFail_eq_ok.mpr (Sight.as?_toNode r)

/-- A session gathers what is gathered without one, and goes on. -/
theorem Processor.process_of_sound (p : Processor) (hs : s.Sound env 4) (g : Array String) :
    ∃ t, s.Continues env t ∧ p.process env (s,g) = ((Direct.process p env g).1,(t,(Direct.process p env g).2)) := by
  obtain ⟨grows,sound,gathered,answer⟩ := Gathers.process p g g hs rfl
  exact ⟨_,⟨grows,sound⟩,Prod.ext answer.eq (Prod.ext rfl gathered)⟩

section Run

variable (hw : env.models.WellFormed)
include hw

theorem Direct.comparedTypes_eq {r : Sight ReferenceForm} (hr : r.Genuine env) :
    comparedTypes r env = (env.marked? r.key).elim (.ok []) fun k => expansion k env := by
  rw [comparedTypes,bind_ok (isInteresting_eq hw hr)]
  cases marked : env.marked? r.key with
  | none => rfl
  | some k =>
    have there := typed_reference hr (Environment.marked?_eq_some.mp marked).1
    exact (bind_ok (f := fun r : Sight ReferenceForm => do (← r.resolve).aliasChain) there).symm

variable (files : ∀ k ∈ env.oracle.files, ∃ f, env.models.shape? k = some (.file f))
  (once : (env.oracle.files.flatMap fun k => env.models.postorder (.node k)).Nodup)
include files once

/-- The types that are compared are those that the marked references stand for. -/
theorem Direct.exists_references : ∃ rs, Gathering.gathered Visitor.references.visitFiles #[] env = .ok rs ∧
    (do return (← rs.toList.mapM comparedTypes).flatten : Direct (List ResolvedType)) env = markedTypes env := by
  obtain ⟨rs,gathered,references⟩ := gathered_references hw files
  refine ⟨rs,gathered,?_⟩
  have known (x : SymbolKey) : (if env.models.isReference x then env.marked? x else none) = env.marked? x := by
    cases marked : env.marked? x with
    | none => exact ite_self none
    | some k =>
      obtain ⟨rfl,t,shape,-⟩ := Environment.marked?_eq_some.mp marked
      rw [if_pos (by rw [Models.isReference,shape])]
  have marked : rs.toList.filterMap (fun r => env.marked? r.key) = env.markedReferences :=
    calc
      _ = (rs.toList.map (·.key)).filterMap env.marked? := (List.filterMap_map ..).symm
      _ = _ := by
        rw [references.ordered once,List.filterMap_filter]
        exact List.filterMap_congr fun x _ => known x
  refine (flatten_mapM_filterMap (p := fun r => env.marked? r.key) (h := expansion) fun r hr =>
    comparedTypes_eq hw (references.genuine r hr)).trans ?_
  rw [marked]
  rfl

/-- All that marked references stand for is compared, or nothing is recorded. -/
theorem Direct.process_aliasComparison (g : Array String) : process .aliasComparison env g =
    match markedTypes env with
    | .ok ts => (.ok (),g ++ (comparisons env ts).toArray)
    | .error e => (.error e,g) := by
  obtain ⟨rs,gathered,types⟩ := exists_references hw files once
  rw [process_of_gathered gathered,← types]
  cases run : rs.toList.mapM comparedTypes env with
  | error e => rw [bind_error run]
  | ok tss =>
    rw [bind_ok run]
    rfl

theorem Processor.aliasComparison_run : Processor.aliasComparison.run env =
    (markedTypes env).map fun ts => (comparisons env ts).toArray := by
  rw [Processor.run_eq,Direct.Gathering.gathered,process_aliasComparison hw files once]
  cases markedTypes env with
  | error e => rfl
  | ok ts => exact congrArg Except.ok (Array.empty_append ..)

/-- A session records what a session of its own does, or nothing at all. -/
theorem Processor.aliasComparison_process (hs : s.Sound env 4) (g : Array String) :
    let run := Processor.aliasComparison.run env
    ∃ t, s.Continues env t ∧ Processor.aliasComparison.process env (s,g) =
      (run.map fun _ => (),(t,g ++ run.toOption.getD #[])) := by
  intro run
  obtain ⟨t,went,gathered⟩ := Processor.aliasComparison.process_of_sound hs g
  refine ⟨t,went,gathered.trans ?_⟩
  have records : run = _ := aliasComparison_run hw files once
  rw [records,process_aliasComparison hw files once]
  cases markedTypes env with
  | error e => exact congrArg (fun g => (Except.error e,(t,g))) (Array.append_empty ..).symm
  | ok ts => rfl

end Run

theorem Direct.markedTypes_eq_ok {ts : List ResolvedType} : markedTypes env = .ok ts ↔ ∃ chains,
    List.Forall₂ (fun r us => env.expansion r = .ok us) env.markedReferences chains ∧ ts = chains.flatten := by
  simp only [Environment.expansion_eq,← mapM_eq_ok]
  show (env.markedReferences.mapM expansion >>= fun chains => pure chains.flatten) env = _ ↔ _
  rw [bind_eq_ok]
  exact exists_congr fun chains => and_congr_right fun _ =>
    ⟨fun made => (Except.ok.inj made).symm,fun made => congrArg Except.ok made.symm⟩

theorem Direct.markedTypes_eq_error {e : Error} : markedTypes env = .error e ↔ ∃ before r after,
    env.markedReferences = before ++ r :: after ∧ (∀ q ∈ before, ∃ us, env.expansion q = .ok us) ∧
      env.expansion r = .error e := by
  simp only [Environment.expansion_eq,← mapM_eq_error]
  show (env.markedReferences.mapM expansion >>= fun chains => pure chains.flatten) env = _ ↔ _
  rw [bind_eq_error]
  exact or_iff_left (fun ⟨_,_,no⟩ => nomatch no)

/-! ### Tables -/

/-- The full square of comparisons, row by row. -/
structure Environment.Tabulates (env : Environment) (ts : List ResolvedType) (rows : List String) : Prop where
  length : rows.length = ts.length * ts.length
  row : ∀ i j t u, ts[i]? = some t → ts[j]? = some u → ∃ a b, env.text t = .ok a ∧ env.text u = .ok b ∧
    rows[i * ts.length + j]? = some (a ++ " = " ++ b ++ " : " ++ toString (env.oracle.assignable t u))

theorem getElem?_flatMap_of_length {A B : Type} {f : A → List B} {n : Nat} (h : ∀ a, (f a).length = n)
    (as : List A) {i j : Nat} (hj : j < n) : (as.flatMap f)[i * n + j]? = as[i]?.bind fun a => (f a)[j]? := by
  induction as generalizing i with
  | nil => simp
  | cons a as ih =>
    rw [List.flatMap_cons]
    cases i with
    | zero => rw [List.getElem?_append_left (by rw [h]; omega)]; simp
    | succ i =>
      have past : (i + 1) * n + j = n + (i * n + j) := by rw [Nat.succ_mul]; omega
      rw [List.getElem?_append_right (by rw [h]; omega),h,past,Nat.add_sub_cancel_left,ih,
        List.getElem?_cons_succ]

theorem Environment.exists_comparisonText (env : Environment) (t u : ResolvedType) : ∃ a b,
    env.text t = .ok a ∧ env.text u = .ok b ∧
      comparisonText env t u = a ++ " = " ++ b ++ " : " ++ toString (env.oracle.assignable t u) := by
  have run : comparison t u env = .ok (comparisonText env t u) := comparison_eq t u
  obtain ⟨a,left,rest⟩ := bind_eq_ok.mp run
  obtain ⟨b,right,rest⟩ := bind_eq_ok.mp rest
  exact ⟨a,b,(env.text_eq t).trans left,(env.text_eq u).trans right,(Except.ok.inj rest).symm⟩

theorem Environment.tabulates_comparisons (env : Environment) (ts : List ResolvedType) :
    env.Tabulates ts (comparisons env ts) where
  length := by simp [comparisons,List.length_flatMap]
  row i j t u ht hu := by
    obtain ⟨a,b,left,right,text⟩ := env.exists_comparisonText t u
    refine ⟨a,b,left,right,?_⟩
    obtain ⟨inside,-⟩ := List.getElem?_eq_some_iff.mp hu
    rw [comparisons,getElem?_flatMap_of_length (fun _ => List.length_map _) ts inside,ht,Option.bind_some,
      List.getElem?_map,hu,Option.map_some,text]

/-- There is one table of some types. -/
theorem Environment.tabulates_iff {ts : List ResolvedType} {rows : List String} :
    env.Tabulates ts rows ↔ rows = comparisons env ts := by
  refine ⟨fun h => List.ext_getElem? fun n => ?_,fun h => h ▸ env.tabulates_comparisons ts⟩
  have whole := env.tabulates_comparisons ts
  by_cases inside : n < ts.length * ts.length
  · have some : 0 < ts.length := by
      rcases Nat.eq_zero_or_pos ts.length with none | some
      · rw [none] at inside
        cases inside
      · exact some
    have hi : n / ts.length < ts.length := Nat.div_lt_of_lt_mul inside
    have hj : n % ts.length < ts.length := Nat.mod_lt n some
    have place : n / ts.length * ts.length + n % ts.length = n := Nat.div_add_mod' n _
    obtain ⟨a,b,left,right,own⟩ := h.row _ _ _ _ (List.getElem?_eq_getElem hi) (List.getElem?_eq_getElem hj)
    obtain ⟨c,d,left',right',other⟩ := whole.row _ _ _ _ (List.getElem?_eq_getElem hi) (List.getElem?_eq_getElem hj)
    cases left.symm.trans left'
    cases right.symm.trans right'
    rw [place] at own other
    rw [own,other]
  · rw [List.getElem?_eq_none (by rw [h.length]; omega),List.getElem?_eq_none (by rw [whole.length]; omega)]

/-! ### Other oracles -/

/-- Another oracle knows the same files, compares types as well, and tells the same of marked references and of what
aliases are written with. -/
structure Environment.Concurs (env : Environment) (o : Oracle) : Prop where
  files : o.files = env.oracle.files
  assignable : o.assignable = env.oracle.assignable
  marked : ∀ r ∈ env.markedReferences, o.reference r = env.oracle.reference r
  target : ∀ d a, env.models.shape? d = some (.typeAlias a) →
    o.reference (d.sibling a.target) = env.oracle.reference (d.sibling a.target)

section Concurs

variable {o : Oracle}

theorem Sight.resolve_agree {r : Sight ReferenceForm} {k : NodeKey} (hr : r.Genuine env) (key : r.key = .node k)
    (same : o.reference k = env.oracle.reference k) : r.resolve { env with oracle := o } = r.resolve env := by
  obtain ⟨s,form⟩ := hr.exists_written key
  have anchor : r.anchor = k := congrArg SymbolKey.anchor key
  rw [resolve]
  cases shape : r.shape with
  | deferred => rw [shape] at form; cases form
  | written s =>
    rw [anchor]
    show orFail _ (o.reference k) _ = orFail _ (env.oracle.reference k) _
    rw [same]
    exact Unasking.orFail _ _ env o

theorem ResolvedType.chainFrom_agree (h : env.Concurs o) {steps : Nat} {chain : List ResolvedType}
    {t : ResolvedType} : chainFrom steps chain t { env with oracle := o } = chainFrom steps chain t env := by
  induction steps generalizing chain t with
  | zero =>
    rw [chainFrom]
    refine bind_agree (alias?_unasking t env o) fun a _ => ?_
    cases a <;> rfl
  | succ steps ih =>
    rw [chainFrom]
    refine bind_agree (alias?_unasking t env o) fun a found => ?_
    cases a with
    | none => rfl
    | some a =>
      obtain ⟨genuine,key⟩ := alias?_eq_ok ((alias?_unasking t env o).symm.trans found)
      have anchor : a.anchor = t.declaration := congrArg SymbolKey.anchor key
      have shape := (genuine.written (s := .typeAlias a.shape) rfl).2
      refine bind_agree (typed_unasking ReferenceForm _ env o) fun r there => ?_
      obtain ⟨hr,place⟩ := typed_eq_ok ((typed_unasking ReferenceForm _ env o).symm.trans there)
      refine bind_agree (Sight.resolve_agree hr place (h.target a.anchor a.shape shape)) fun next _ => ?_
      split
      · exact bind_agree (names_unasking _ env o) fun _ _ => rfl
      · exact ih

theorem Direct.expansion_agree (h : env.Concurs o) {k : NodeKey} (hk : k ∈ env.markedReferences) :
    expansion k { env with oracle := o } = expansion k env := by
  refine bind_agree (typed_unasking ReferenceForm k env o) fun r there => ?_
  obtain ⟨hr,key⟩ := typed_eq_ok ((typed_unasking ReferenceForm k env o).symm.trans there)
  exact bind_agree (Sight.resolve_agree hr key (h.marked k hk)) fun _ _ => ResolvedType.chainFrom_agree h

theorem Direct.markedTypes_agree (h : env.Concurs o) : markedTypes { env with oracle := o } = markedTypes env := by
  have same : Environment.markedReferences { env with oracle := o } = env.markedReferences := by
    rw [Environment.markedReferences,h.files]
    rfl
  show ((Environment.markedReferences { env with oracle := o }).mapM expansion >>= fun chains =>
    pure chains.flatten) { env with oracle := o } = _
  rw [same]
  exact bind_agree (mapM_agree fun k hk => expansion_agree h hk) fun _ _ => rfl

theorem Direct.comparisons_agree (same : o.assignable = env.oracle.assignable) (ts : List ResolvedType) :
    comparisons { env with oracle := o } ts = comparisons env ts := by
  have each (t u : ResolvedType) : comparisonText { env with oracle := o } t u = comparisonText env t u := by
    have run : comparison t u { env with oracle := o } = comparison t u env := by
      refine bind_agree (t.shown_unasking env o) fun _ _ => bind_agree (u.shown_unasking env o) fun _ _ => ?_
      show Except.ok (_ ++ toString (o.assignable t u)) = _
      rw [same]
      rfl
    rw [comparisonText,comparisonText,run]
  exact List.flatMap_congr fun t _ => List.map_congr_left fun u _ => each t u

end Concurs

/-! ### Fixtures -/

namespace Fixture

/-- The comparison of aliases over a fixture. It compares all that the marked references stand for with one another,
or fails with the error of the first of them that stands for nothing, and then records nothing, whatever the session
did before. What other references mean does not matter, unless an alias is written with them. -/
theorem compareAliases_table (x : Fixture) (config : Config) :
    let env := x.environment config
    let run := Processor.aliasComparison.run env
    env.Marks env.markedReferences ∧
    (∀ records, run = .ok records ↔ ∃ chains,
      List.Forall₂ (fun r us => env.expansion r = .ok us) env.markedReferences chains ∧
        env.Tabulates chains.flatten records.toList) ∧
    (∀ e, run = .error e ↔ ∃ before r after, env.markedReferences = before ++ r :: after ∧
      (∀ q ∈ before, ∃ us, env.expansion q = .ok us) ∧ env.expansion r = .error e) ∧
    (∀ s g, s.Sound env 4 → (∀ r, (Session.expansion r env s).1 = env.expansion r) ∧ ∃ t, s.Continues env t ∧
      Processor.aliasComparison.process env (s,g) = (run.map fun _ => (),(t,g ++ run.toOption.getD #[]))) ∧
    ∀ o, env.Concurs o → Processor.aliasComparison.run { env with oracle := o } = run := by
  intro env run
  have hw : env.models.WellFormed := x.models_wellFormed
  have files : env.oracle.files = env.models.files := rfl
  have once := Models.nodup_files_postorder hw x.children_nodup
  have found : ∀ k ∈ env.oracle.files, ∃ f, env.models.shape? k = some (.file f) :=
    fun _ => Models.exists_of_mem_files hw
  have whole : run = (markedTypes env).map fun ts => (comparisons env ts).toArray :=
    Processor.aliasComparison_run hw found once
  refine ⟨Environment.marks_of_files hw files x.children_nodup,fun records => ?_,fun e => ?_,
    fun s g hs => ⟨env.expansion_of_sound hs,Processor.aliasComparison_process hw found once hs g⟩,fun o h => ?_⟩
  · have rows : run = .ok records ↔ ∃ ts, markedTypes env = .ok ts ∧ records.toList = comparisons env ts := by
      rw [whole]
      cases markedTypes env with
      | error e => simp [Except.map]
      | ok ts => simp [Except.map,← Array.toList_inj,eq_comm]
    simp only [rows,markedTypes_eq_ok,Environment.tabulates_iff]
    constructor
    · rintro ⟨_,⟨chains,each,rfl⟩,made⟩
      exact ⟨chains,each,made⟩
    · rintro ⟨chains,each,made⟩
      exact ⟨_,⟨chains,each,rfl⟩,made⟩
  · rw [whole,← markedTypes_eq_error]
    cases markedTypes env <;> simp [Except.map]
  · rw [whole]
    have found' : ∀ k ∈ o.files, ∃ f, env.models.shape? k = some (.file f) := h.files ▸ found
    have once' : (o.files.flatMap fun k => env.models.postorder (.node k)).Nodup := h.files ▸ once
    have other : Processor.aliasComparison.run { env with oracle := o } = _ :=
      @Processor.aliasComparison_run { env with oracle := o } hw found' once'
    rw [other,markedTypes_agree h]
    simp only [comparisons_agree h.assignable]

/-- A property of a marked type, whose argument is marked too. -/
def twiceMarked : Fixture where
  kotlin := [⟨"K.kt","",[],[.classLike ⟨"Base",.plain,.empty,[],[],[],[],1⟩,
    .typeAlias ⟨"Alias",.empty,[],[],⟨"Base",[],[]⟩,2⟩,
    .property ⟨"x",false,.empty,[],[],none,some ⟨"Base<Alias>",[⟨"Bnno",[]⟩],[⟨"Alias",[⟨"Anno",[]⟩],[]⟩]⟩,3⟩]⟩]
  java := []
  inferred := .empty

/-- The argument comes first. -/
example : (twiceMarked.environment .standard).markedReferences = [⟨⟨0⟩,⟨8⟩⟩,⟨⟨0⟩,⟨5⟩⟩] := by decide

end Fixture
end SymbolGraph
