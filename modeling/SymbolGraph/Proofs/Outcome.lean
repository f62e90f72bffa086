import Mathlib.Data.List.Forall2
import SymbolGraph.Proofs.Preorder
import SymbolGraph.Proofs.Processor

/-! When processors succeed, and what they record then. A run over overriding functions needs to know what is at
the root of each of them, and a run over aliases the chains of all marked references. -/
namespace SymbolGraph

open Direct

variable {env : Environment}

/-! ### Overridden functions -/

theorem Direct.filterM_eq_ok {C : Type} {test : C → Direct Bool} {known : C → Prop} {kept : C → Bool}
    (h : ∀ c b, test c env = .ok b ↔ known c ∧ b = kept c) {l r : List C} :
    l.filterM test env = .ok r ↔ (∀ c ∈ l, known c) ∧ r = l.filter kept := by
  have loop : ∀ (l taken r : List C), l.filterAuxM test taken env = .ok r ↔
      (∀ c ∈ l, known c) ∧ r = (l.filter kept).reverse ++ taken := by
    intro l
    induction l with
    | nil =>
      intro taken r
      show Except.ok taken = .ok r ↔ _
      simp [eq_comm]
    | cons c l ih =>
      intro taken r
      rw [List.filterAuxM,bind_eq_ok]
      constructor
      · rintro ⟨b,run,rest⟩
        obtain ⟨hc,rfl⟩ := (h c b).mp run
        obtain ⟨hl,rfl⟩ := (ih _ _).mp rest
        refine ⟨List.forall_mem_cons.mpr ⟨hc,hl⟩,?_⟩
        rw [List.filter_cons]
        cases kept c <;> simp
      · rintro ⟨all,rfl⟩
        obtain ⟨hc,hl⟩ := List.forall_mem_cons.mp all
        refine ⟨kept c,(h c _).mpr ⟨hc,rfl⟩,(ih _ _).mpr ⟨hl,?_⟩⟩
        rw [List.filter_cons]
        cases kept c <;> simp
  rw [List.filterM,bind_eq_ok]
  constructor
  · rintro ⟨r',run,made⟩
    obtain ⟨all,rfl⟩ := (loop l [] r').mp run
    refine ⟨all,?_⟩
    cases made
    simp
  · rintro ⟨all,rfl⟩
    refine ⟨_,(loop l [] _).mpr ⟨all,rfl⟩,?_⟩
    show Except.ok _ = _
    simp

/-- The functions that a function overrides and those that these override, in the order of a search. -/
def Oracle.above (o : Oracle) (f : NodeKey) : List NodeKey := o.overriddenGraph.explore true [] (o.overridden f)

/-- A function and all functions above it are described, and of those above it nothing but what is found
overrides nothing. -/
structure Oracle.Finds (o : Oracle) (f : NodeKey) (r : Option NodeKey) : Prop where
  own : (o.descriptor f).isSome
  known : ∀ k ∈ o.above f, (o.descriptor k).isSome
  roots : (o.above f).filter (fun k => (o.overridden k).isEmpty) = r.toList

theorem Sight.overriddenRoots_eq_ok {v : Sight FunctionShape} {roots : List NodeKey} :
    v.overriddenRoots env = .ok roots ↔ (env.oracle.descriptor v.anchor).isSome ∧
      (∀ k ∈ env.oracle.above v.anchor, (env.oracle.descriptor k).isSome) ∧
      roots = (env.oracle.above v.anchor).filter fun k => (env.oracle.overridden k).isEmpty := by
  have tested : ∀ k b, (do return (← descriptor k).overridden.isEmpty : Direct Bool) env = .ok b ↔
      (env.oracle.descriptor k).isSome ∧ b = (env.oracle.overridden k).isEmpty := by
    intro k b
    rw [bind_eq_ok,Oracle.overridden,Option.isSome_iff_exists]
    constructor
    · rintro ⟨d,run,made⟩
      rw [descriptor_eq_ok.mp run]
      exact ⟨⟨d,rfl⟩,(Except.ok.inj made).symm⟩
    · rintro ⟨⟨d,hd⟩,rfl⟩
      rw [hd]
      exact ⟨d,descriptor_eq_ok.mpr hd,rfl⟩
  rw [overriddenRoots,bind_eq_ok]
  constructor
  · rintro ⟨d,run,rest⟩
    have hd := descriptor_eq_ok.mp run
    obtain ⟨known,roots⟩ := (filterM_eq_ok tested).mp rest
    rw [Oracle.above,Oracle.overridden,hd]
    exact ⟨rfl,known,roots⟩
  · rintro ⟨own,known,roots⟩
    obtain ⟨d,hd⟩ := Option.isSome_iff_exists.mp own
    rw [Oracle.above,Oracle.overridden,hd] at known roots
    exact ⟨d,descriptor_eq_ok.mpr hd,(filterM_eq_ok tested).mpr ⟨known,roots⟩⟩

/-- A function is found at the root exactly if it is the only one there. -/
theorem Sight.finds_of_findOverridee {v : Sight FunctionShape} {o : Option (Sight FunctionShape)}
    (h : v.findOverridee env = .ok o) : env.oracle.Finds v.anchor (o.map (·.anchor)) := by
  obtain ⟨roots,run,rest⟩ := bind_eq_ok.mp h
  obtain ⟨own,known,all⟩ := overriddenRoots_eq_ok.mp run
  refine ⟨own,known,all.symm.trans ?_⟩
  match roots with
  | [] =>
    cases rest
    rfl
  | [root] =>
    obtain ⟨g,typed,made⟩ := bind_eq_ok.mp rest
    obtain rfl := Except.ok.inj made
    have anchor : g.anchor = root := congrArg SymbolKey.anchor (typed_eq_ok typed).2
    rw [← anchor]
    rfl
  | _ :: _ :: _ =>
    obtain ⟨_,-,refused⟩ := bind_eq_ok.mp rest
    cases refused

theorem Sight.exists_findOverridee (fits : env.oracle.Fits env.models) {v : Sight FunctionShape} {r : Option NodeKey}
    (h : env.oracle.Finds v.anchor r) :
    ∃ o, v.findOverridee env = .ok o ∧ o.map (·.anchor) = r ∧ ∀ g ∈ o, g.Genuine env := by
  have run : v.overriddenRoots env = .ok r.toList := overriddenRoots_eq_ok.mpr ⟨h.own,h.known,h.roots.symm⟩
  rw [findOverridee,bind_ok run]
  cases r with
  | none => exact ⟨none,rfl,rfl,fun _ found => by cases found⟩
  | some root =>
    have found : root ∈ (some root).toList := List.mem_singleton.mpr rfl
    rw [← h.roots] at found
    obtain ⟨above,none⟩ := List.mem_filter.mp found
    obtain ⟨d,hd⟩ := Option.isSome_iff_exists.mp (h.known root above)
    rw [Oracle.overridden,hd] at none
    have top : env.oracle.RootOf v.anchor root := ⟨above,d,hd,List.isEmpty_iff.mp none⟩
    obtain ⟨s,hs⟩ := top.exists_shape fits
    obtain ⟨g,there,genuine,key⟩ := (typed_within FunctionShape hs rfl).exists_ok
    refine ⟨some g,?_,congrArg (fun k => some (SymbolKey.anchor k)) key,?_⟩
    · show (typed FunctionShape root >>= fun g => pure (some g)) env = _
      rw [bind_ok there]
      rfl
    · rintro _ ⟨⟩
      exact genuine

/-- The node of a symbol, if it is a function that says that it overrides something. -/
def Models.overriding? (ms : Models) (x : SymbolKey) : Option NodeKey :=
  x.node?.filter fun k => match ms.shape? k with
    | some (.function f) => f.modifiers.contains .overriding
    | _ => false

theorem Models.overriding?_eq_some {ms : Models} {x : SymbolKey} {k : NodeKey} : ms.overriding? x = some k ↔
    x = .node k ∧ ∃ f, ms.shape? k = some (.function f) ∧ f.modifiers.contains .overriding = true := by
  cases x with
  | deferred j => simp [overriding?,SymbolKey.node?]
  | node j =>
    rw [overriding?,SymbolKey.node?,Option.filter_eq_some_iff,Option.some.injEq,SymbolKey.node.injEq]
    refine and_congr_right fun same => ?_
    subst same
    split
    · next f shape => simp [shape]
    · next other => exact ⟨nofun,fun ⟨f,shape,_⟩ => (other f shape).elim⟩

/-- What is recorded of a symbol: of an overriding function, the function that is found at its root, if one is. -/
def Direct.RecordsOverridee (env : Environment) (x : SymbolKey) (rs : List String) : Prop :=
  match env.models.overriding? x with
  | none => rs = []
  | some k => ∃ r, env.oracle.Finds k r ∧
      rs = (r.map fun r => env.models.displayName k ++ " -> " ++ env.models.displayName r).toList

section Overridees

variable (hw : env.models.WellFormed) (fits : env.oracle.Fits env.models)
include hw fits

/-- Overridden functions are recorded one symbol at a time. -/
theorem Direct.Visitor.overridees_meet : ∃ f, Visitor.overridees = .preorder f ∧
    ∀ (x : SymbolKey) (s : Shape), env.models.shape? x.anchor = some s →
      Gathering.Records env (Visitor.meet f x) (RecordsOverridee env x) := by
  refine ⟨_,rfl,fun x s hs => ?_⟩
  obtain ⟨n,run,genuine,-⟩ := exists_symbol hs
  refine .after run ?_
  have other (none : env.models.overriding? x = none) :
      Gathering.Records env (pure ()) (RecordsOverridee env x) :=
    Gathering.Records.pure.congr fun rs => by rw [RecordsOverridee,none]
  cases x with
  | deferred k =>
    obtain ⟨a,-,rfl⟩ := symbol_deferred_eq_ok.mp run
    exact other rfl
  | node k =>
    obtain ⟨a,t,-,ht,rfl⟩ := node_eq_ok.mp run
    cases t with
    | function F =>
      let v : Sight FunctionShape := ⟨.node k,a.origin,a.location k.node,F⟩
      have hv : v.Genuine env := genuine
      have own : env.models.overriding? (.node k) = if F.modifiers.contains .overriding then some k else none := by
        simp [Models.overriding?,SymbolKey.node?,Option.filter,ht]
      show Gathering.Records env (if F.modifiers.contains .overriding then _ else _) _
      by_cases marked : F.modifiers.contains .overriding
      · rw [if_pos marked] at own ⊢
        refine (Gathering.Records.ofDirect (x := v.findOverridee) (P := fun o rs => rs = (o.map fun g =>
          env.models.displayName k ++ " -> " ++ env.models.displayName g.anchor).toList) fun o found => ?_).congr
          fun rs => ?_
        · have within := Sight.findOverridee_within hw fits hv
          rw [Direct.Within,found] at within
          cases o with
          | none => exact .pure
          | some g =>
            have named := Sight.displayName_eq hw hv.toDeclaration
            have named' := Sight.displayName_eq hw (within g rfl).1.toDeclaration
            exact .after named (.after named' (.record _))
        · rw [RecordsOverridee,own]
          constructor
          · rintro ⟨o,found,rfl⟩
            exact ⟨_,Sight.finds_of_findOverridee found,by rw [Option.map_map]; rfl⟩
          · rintro ⟨r,finds,rfl⟩
            obtain ⟨o,found,rfl,-⟩ := Sight.exists_findOverridee fits (v := v) finds
            exact ⟨o,found,by rw [Option.map_map]; rfl⟩
      · rw [if_neg marked] at own ⊢
        exact other own
    | _ => exact other (by simp [Models.overriding?,SymbolKey.node?,Option.filter,ht])

/-- A run succeeds exactly if for each overriding function it is known what is at its root. -/
theorem Processor.overridee_run_iff {records : Array String} : Processor.overridee.run env = .ok records ↔
    ∃ rss, List.Forall₂ (RecordsOverridee env) (env.oracle.files.flatMap fun k => env.models.preorder (.node k)) rss ∧
      records.toList = rss.flatten := by
  obtain ⟨f,made,recorded⟩ := Visitor.overridees_meet hw fits
  have each : ∀ x ∈ env.oracle.files.flatMap fun k => env.models.preorder (.node k),
      Gathering.Records env (Visitor.meet f x) (RecordsOverridee env x) := by
    intro x hx
    obtain ⟨k,hk,hx⟩ := List.mem_flatMap.mp hx
    obtain ⟨t,ht⟩ := fits.file hk
    have top : ∃ s, env.models.shape? (SymbolKey.node k).anchor = some s := ⟨_,ht⟩
    obtain ⟨s,hs⟩ := Models.exists_shape_of_mem_preorder hw top hx
    exact recorded x s hs
  have visited : Direct.process .overridee env =
      (env.oracle.files.flatMap fun k => env.models.preorder (.node k)).forM (Visitor.meet f) env := by
    rw [← Visitor.visitFiles_preorder hw fits,← made]
    rfl
  have all := Gathering.Records.forM each
  rw [Processor.run_eq]
  have runs : Gathering.Records env (Direct.process .overridee) _ := fun g g' => visited ▸ all g g'
  exact runs.gathered_eq_ok

end Overridees

/-! ### References -/

/-- A visit in post-order runs through the keys below a symbol and then that of the symbol. -/
theorem Direct.Visitor.visitIn_postorder {G : Type} {f : Sight Form → Direct.Gathering G Unit}
    (hw : env.models.WellFormed) (depth : Nat) {n : Sight Form} (hn : n.Genuine env) :
    (Visitor.postorder f).visitIn depth n env =
      (env.models.walkUpTo (fun _ => false) depth n.key).forM (Visitor.meet f) env := by
  induction depth generalizing n with
  | zero => rfl
  | succ depth ih =>
    obtain ⟨groups,found,all⟩ := Sight.childGroups_within hw hn
    have below := Visitor.forM_groups (m := Visitor.meet f) found fun c hc => ih (n := c) hc
    rw [all] at below
    have entered : (Visitor.postorder f).visitIn (depth + 1) n = (do
        n.childGroups.forM fun x => do (← Gathering.ofDirect x).forM ((Visitor.postorder f).visitIn depth)
        f n) := by
      rw [Visitor.visitIn]
      simp [Visitor.postorder]
    have own : [n.key].forM (Visitor.meet f) env = f n env := by
      show (Visitor.meet f n.key env >>= fun _ => pure ()) = f n env
      rw [Visitor.meet_eq hn]
      exact bind_pure (f n env)
    rw [entered,Models.walkUpTo,if_neg Bool.false_ne_true,Visitor.forM_append]
    show (_ >>= fun _ => f n env) = (_ >>= fun _ => [n.key].forM (Visitor.meet f) env)
    rw [below,own]

theorem Direct.Visitor.visitFiles_postorder {G : Type} {f : Sight Form → Direct.Gathering G Unit}
    (hw : env.models.WellFormed) (files : ∀ k ∈ env.oracle.files, ∃ f, env.models.shape? k = some (.file f)) :
    (Visitor.postorder f).visitFiles env =
      (env.oracle.files.flatMap fun k => env.models.postorder (.node k)).forM (Visitor.meet f) env := by
  have found : Direct.Within (fun _ => False) env allFiles fun fs =>
      fs.map (·.key) = env.oracle.files.map .node ∧ ∀ f ∈ fs, f.Genuine env := allFiles_within files
  obtain ⟨fs,run,keys,genuine⟩ := found.exists_ok
  have each : ∀ c : Sight FileShape, c.Genuine env →
      (Visitor.postorder f).visit c.toNode env = (env.models.postorder c.key).forM (Visitor.meet f) env :=
    fun c hc => visitIn_postorder hw _ hc.toNode
  rw [Visitor.visitFiles,Gathering.ofDirect_bind run,Visitor.forM_genuine each genuine,keys,List.flatMap_map]

/-- References are written, or stand for a missing type. -/
def Models.isReference (ms : Models) : SymbolKey → Bool
  | .deferred _ => true
  | .node k => match ms.shape? k with
    | some (.typeReference _) => true
    | _ => false

/-- The references among symbols, each once, and in their order if no symbol is met twice. -/
structure Direct.References (env : Environment) (xs : List SymbolKey) (rs : Array (Sight ReferenceForm)) : Prop where
  genuine : ∀ r ∈ rs.toList, r.Genuine env
  nodup : (rs.toList.map (·.key)).Nodup
  mem : ∀ x, x ∈ rs.toList.map (·.key) ↔ x ∈ xs ∧ env.models.isReference x = true
  ordered : xs.Nodup → rs.toList.map (·.key) = xs.filter env.models.isReference

theorem Sight.as?_reference {n : Sight Form} (hn : n.Genuine env) :
    (n.as? ReferenceForm).isSome = env.models.isReference n.key := by
  obtain ⟨key,origin,location,shape⟩ := n
  cases key with
  | deferred k =>
    obtain ⟨a,-,made⟩ := symbol_deferred_eq_ok.mp hn
    obtain rfl : shape = .deferred := congrArg Sight.shape made
    rfl
  | node k =>
    obtain ⟨a,t,-,ht,made⟩ := node_eq_ok.mp hn
    obtain rfl : shape = .written t := congrArg Sight.shape made
    rw [Models.isReference,ht]
    cases t <;> rfl

namespace Direct.References

variable {xs : List SymbolKey} {x : SymbolKey} {rs : Array (Sight ReferenceForm)}

theorem nil : References env [] #[] where
  genuine := nofun
  nodup := List.nodup_nil
  mem _ := by simp
  ordered _ := rfl

theorem skip (h : References env xs rs) (known : env.models.isReference x = true → x ∈ xs) :
    References env (xs ++ [x]) rs where
  genuine := h.genuine
  nodup := h.nodup
  mem y := by
    rw [h.mem,List.mem_append,List.mem_singleton]
    refine ⟨fun ⟨before,reference⟩ => ⟨.inl before,reference⟩,fun ⟨there,reference⟩ => ⟨?_,reference⟩⟩
    rcases there with before | rfl
    · exact before
    · exact known reference
  ordered once := by
    obtain ⟨once,-,apart⟩ := List.nodup_append.mp once
    have other : env.models.isReference x = false := Bool.eq_false_iff.mpr fun reference =>
      apart x (known reference) x (List.mem_singleton_self x) rfl
    rw [h.ordered once,List.filter_append,List.filter_singleton,other]
    exact (List.append_nil _).symm

theorem push {r : Sight ReferenceForm} (h : References env xs rs) (genuine : r.Genuine env)
    (reference : env.models.isReference r.key = true) (new : r.key ∉ rs.toList.map (·.key)) :
    References env (xs ++ [r.key]) (rs.push r) where
  genuine := by
    rw [Array.toList_push]
    exact List.forall_mem_append.mpr ⟨h.genuine,List.forall_mem_singleton.mpr genuine⟩
  nodup := by
    rw [Array.toList_push,List.map_append,List.nodup_append_comm]
    exact List.nodup_cons.mpr ⟨new,h.nodup⟩
  mem y := by
    rw [Array.toList_push,List.map_append,List.mem_append,h.mem,List.mem_append]
    simp only [List.map_cons,List.map_nil,List.mem_singleton]
    constructor
    · rintro (⟨before,other⟩ | rfl)
      · exact ⟨.inl before,other⟩
      · exact ⟨.inr rfl,reference⟩
    · rintro ⟨before | rfl,other⟩
      · exact .inl ⟨before,other⟩
      · exact .inr rfl
  ordered once := by
    rw [Array.toList_push,List.map_append,h.ordered (List.nodup_append.mp once).1,List.filter_append,
      List.filter_singleton,reference]
    rfl

end Direct.References

/-- References are gathered from one symbol at a time. -/
theorem Direct.Visitor.references_meet (env : Environment) : ∃ f, Visitor.references = .postorder f ∧
    ∀ (x : SymbolKey) (s : Shape), env.models.shape? x.anchor = some s →
      ∀ xs rs, References env xs rs →
        ∃ rs', Visitor.meet f x env rs = (.ok (),rs') ∧ References env (xs ++ [x]) rs' := by
  refine ⟨_,rfl,fun x s hs xs rs before => ?_⟩
  obtain ⟨n,run,genuine,key⟩ := exists_symbol hs
  have reference := Sight.as?_reference genuine
  rw [key] at reference
  rw [Visitor.meet,Gathering.ofDirect_bind run]
  cases seen : n.as? ReferenceForm with
  | none =>
    rw [seen] at reference
    exact ⟨rs,rfl,before.skip fun is => by cases reference.trans is⟩
  | some r =>
    rw [seen] at reference
    have own : r.key = x := (Sight.key_of_as? seen).trans key
    have known : (rs.any fun r' => r'.key == r.key) = true ↔ r.key ∈ rs.toList.map (·.key) := by
      rw [← Array.any_toList,List.any_eq_true,List.mem_map]
      simp only [beq_iff_eq]
    refine ⟨if rs.any fun r' => r'.key == r.key then rs else rs.push r,rfl,?_⟩
    by_cases old : r.key ∈ rs.toList.map (·.key)
    · rw [if_pos (known.mpr old)]
      exact before.skip fun _ => own ▸ ((before.mem _).mp old).1
    · rw [if_neg (fun there => old (known.mp there)),← own]
      exact before.push (genuine.narrow seen) (own ▸ reference.symm) old

/-- All references below the files are gathered. -/
theorem Direct.gathered_references (hw : env.models.WellFormed)
    (files : ∀ k ∈ env.oracle.files, ∃ f, env.models.shape? k = some (.file f)) :
    ∃ rs, Gathering.gathered Visitor.references.visitFiles #[] env = .ok rs ∧
      References env (env.oracle.files.flatMap fun k => env.models.postorder (.node k)) rs := by
  obtain ⟨f,made,met⟩ := Visitor.references_meet env
  have each : ∀ (xs done : List SymbolKey) (rs : Array (Sight ReferenceForm)), References env done rs →
      (∀ x ∈ xs, ∃ s, env.models.shape? x.anchor = some s) →
      ∃ rs', xs.forM (Visitor.meet f) env rs = (.ok (),rs') ∧ References env (done ++ xs) rs' := by
    intro xs
    induction xs with
    | nil => exact fun done rs h _ => ⟨rs,rfl,by rwa [List.append_nil]⟩
    | cons x xs ih =>
      intro done rs h there
      obtain ⟨⟨s,hs⟩,there⟩ := List.forall_mem_cons.mp there
      obtain ⟨rs₁,first,h₁⟩ := met x s hs done rs h
      obtain ⟨rs₂,rest,h₂⟩ := ih _ rs₁ h₁ there
      refine ⟨rs₂,?_,by rwa [List.append_assoc] at h₂⟩
      show (Visitor.meet f x >>= fun _ => xs.forM (Visitor.meet f)) env rs = _
      rw [Attempt.bind_ok first,rest]
  obtain ⟨rs,run,all⟩ := each _ [] #[] .nil fun x hx => by
    obtain ⟨k,hk,hx⟩ := List.mem_flatMap.mp hx
    obtain ⟨t,ht⟩ := files k hk
    exact Models.exists_shape_of_mem_preorder hw (x := .node k) ⟨_,ht⟩ ((Models.mem_preorder hw).mpr hx)
  refine ⟨rs,Gathering.gathered_eq_ok.mpr ?_,all⟩
  rw [made,Visitor.visitFiles_postorder hw files,run]

/-! ### Aliases -/

theorem SymbolKey.node?_eq_some {x : SymbolKey} {k : NodeKey} : x.node? = some k ↔ x = .node k := by
  cases x <;> simp [node?]

theorem Sight.resolve_of_reference {r : Sight ReferenceForm} {k : NodeKey} {t : ResolvedType}
    (hr : r.Genuine env) (key : r.key = .node k) (h : env.oracle.reference k = some t) : r.resolve env = .ok t := by
  obtain ⟨s,form⟩ := hr.exists_written key
  have anchor : r.anchor = k := congrArg SymbolKey.anchor key
  rw [resolve]
  cases e : r.shape with
  | deferred => rw [e] at form; cases form
  | written s =>
    rw [anchor]
    exact orFail_eq_ok.mpr h

namespace ResolvedType

variable {t : ResolvedType} {chain us : List ResolvedType} {steps : Nat}

/-- What a type is built from is seen as a declaration, by its name. -/
theorem exists_declared (h : env.models.Declares t.declaration) : ∃ d, t.declared env = .ok d ∧
    d.anchor = t.declaration ∧ (env.models.shape? t.declaration).bind Shape.declaredName? = some d.shape.name := by
  have found : Within (fun _ => False) env t.declared fun d => d.Genuine env := declared_within h
  obtain ⟨d,run,genuine⟩ := found.exists_ok
  obtain ⟨w,hw,seen⟩ := bind_eq_ok.mp run
  have key : d.key = .node t.declaration :=
    (Sight.key_of_as? (orFail_eq_ok.mp seen)).trans (symbol_genuine (k := .node t.declaration) hw).2
  have anchor : d.anchor = t.declaration := congrArg SymbolKey.anchor key
  obtain ⟨s,form,-,name⟩ := d.shape.exists_shape
  refine ⟨d,run,anchor,?_⟩
  rw [← anchor,(genuine.written form).2,Option.bind_some,name]

theorem headName_eq (h : env.models.Declares t.declaration) :
    t.headName env = .ok (((env.models.shape? t.declaration).bind Shape.declaredName?).getD "") := by
  obtain ⟨d,run,-,name⟩ := exists_declared h
  rw [name]
  exact rescue_ok (bind_ok run)

theorem alias?_cases (h : env.models.Declares t.declaration) :
    t.alias? env = .ok none ∨ ∃ v, t.alias? env = .ok (some v) ∧ v.Genuine env ∧ v.anchor = t.declaration ∧
      env.models.shape? t.declaration = some (.typeAlias v.shape) := by
  have found : Within (fun _ => False) env t.alias? fun a => ∀ v ∈ a, v.Genuine env := alias?_within h
  obtain ⟨a,run,genuine⟩ := found.exists_ok
  cases a with
  | none => exact .inl run
  | some v =>
    have anchor : v.anchor = t.declaration := congrArg SymbolKey.anchor (alias?_eq_ok run).2
    have shape := ((genuine v rfl).written (s := .typeAlias v.shape) rfl).2
    rw [anchor] at shape
    exact .inr ⟨v,run,genuine v rfl,anchor,shape⟩

/-- The chain of a type that is built from no alias is at its end. -/
theorem chainFrom_stop (h : env.models.Declares t.declaration)
    (last : ∀ a, env.models.shape? t.declaration ≠ some (.typeAlias a)) :
    chainFrom steps chain t env = .ok chain := by
  obtain run | ⟨v,-,-,-,shape⟩ := alias?_cases h
  · rw [chainFrom,bind_ok run]
    rfl
  · exact absurd shape (last v.shape)

section Step

variable {a : TypeAliasShape} {next : ResolvedType}
  (shape : env.models.shape? t.declaration = some (.typeAlias a))

include shape

theorem exists_alias : ∃ v, t.alias? env = .ok (some v) ∧ v.anchor = t.declaration ∧ v.shape = a := by
  obtain none | ⟨v,run,-,anchor,own⟩ := alias?_cases ⟨_,shape,rfl⟩
  · exact absurd shape (alias?_eq_none none a)
  · exact ⟨v,run,anchor,(Shape.typeAlias.inj (Option.some.inj (shape.symm.trans own))).symm⟩

/-- A chain has no more steps than are left. -/
theorem chainFrom_exceeded : chainFrom 0 chain t env = .error (.aliasDepthExceeded env.config.maxAliasDepth) := by
  obtain ⟨v,run,-⟩ := exists_alias shape
  rw [chainFrom,bind_ok run]
  rfl

variable (target : ∃ r, env.models.shape? (t.declaration.sibling a.target) = some (.typeReference r))
  (meant : env.oracle.reference (t.declaration.sibling a.target) = some next)

include target meant

theorem exists_target : ∃ v r, t.alias? env = .ok (some v) ∧ v.target env = .ok r ∧ r.resolve env = .ok next := by
  obtain ⟨v,run,anchor,rfl⟩ := exists_alias shape
  obtain ⟨_,hr⟩ := target
  have found : Within (fun _ => False) env (typed ReferenceForm (t.declaration.sibling v.shape.target)) fun r =>
      r.Genuine env ∧ r.key = .node (t.declaration.sibling v.shape.target) := typed_within ReferenceForm hr rfl
  obtain ⟨r,there,genuine,key⟩ := found.exists_ok
  refine ⟨v,r,run,?_,Sight.resolve_of_reference genuine key meant⟩
  rw [Sight.target,Sight.near,anchor]
  exact there

/-- The chain of a type that is built from an alias goes on with what the alias stands for. -/
theorem chainFrom_step (new : next.declaration ∉ chain.map (·.declaration)) :
    chainFrom (steps+1) chain t env = chainFrom steps (chain ++ [next]) next env := by
  obtain ⟨v,r,run,there,resolved⟩ := exists_target shape target meant
  have unmet : (chain.any fun u => u.declaration == next.declaration) = false := by
    rw [List.any_eq_false]
    exact fun u hu same => new (List.mem_map.mpr ⟨u,hu,beq_iff_eq.mp same⟩)
  rw [chainFrom,bind_ok run]
  show (v.target >>= fun r => r.resolve >>= fun next => _) env = _
  rw [bind_ok there,bind_ok resolved,unmet]
  rfl

/-- A chain that comes back to a declaration is refused. -/
theorem chainFrom_cycle (met : next.declaration ∈ chain.map (·.declaration)) {ns : List String}
    (named : names (chain ++ [next]) env = .ok ns) : chainFrom (steps+1) chain t env = .error (.aliasCycle ns) := by
  obtain ⟨v,r,run,there,resolved⟩ := exists_target shape target meant
  have again : (chain.any fun u => u.declaration == next.declaration) = true := by
    obtain ⟨u,hu,same⟩ := List.mem_map.mp met
    exact List.any_eq_true.mpr ⟨u,hu,beq_iff_eq.mpr same⟩
  rw [chainFrom,bind_ok run]
  show (v.target >>= fun r => r.resolve >>= fun next => _) env = _
  rw [bind_ok there,bind_ok resolved,again]
  show (names (chain ++ [next]) >>= fun ns => _) env = _
  rw [bind_ok named]
  rfl

end Step

/-- What is true of all that references mean is true of what they add to a chain. -/
theorem chainFrom_forall {P : ResolvedType → Prop} (meant : ∀ k t, env.oracle.reference k = some t → P t)
    (hc : ∀ u ∈ chain, P u) (h : chainFrom steps chain t env = .ok us) : ∀ u ∈ us, P u := by
  revert hc
  refine chainFrom_induction (fun _ _ _ hc => hc) ?_ h
  intro _ chain t a u _ next _ later hc
  exact later (List.forall_mem_append.mpr ⟨hc,List.forall_mem_singleton.mpr (meant _ _ next)⟩)

end ResolvedType

/-- Whether a node is an annotation that marks a reference for comparison. -/
def Environment.isMark (env : Environment) (k : NodeKey) : Bool :=
  match env.models.shape? k with
  | some (.annotationEntry a) => env.config.isInteresting a.shortName
  | _ => false

/-- The node of a symbol, if it is a written reference that is marked for comparison. -/
def Environment.marked? (env : Environment) (x : SymbolKey) : Option NodeKey :=
  x.node?.filter fun k => match env.models.shape? k with
    | some (.typeReference t) => (t.annotations.map k.sibling).any env.isMark
    | _ => false

/-- The types that a symbol gives to a comparison: of a marked reference, the chain of what it means. -/
def Direct.Compares (env : Environment) (x : SymbolKey) (us : List ResolvedType) : Prop :=
  match env.marked? x with
  | none => us = []
  | some k => ∃ t, env.oracle.reference k = some t ∧ t.aliasChain env = .ok us

section Aliases

variable (hw : env.models.WellFormed) {r : Sight ReferenceForm} {us : List ResolvedType}

include hw

theorem Direct.isInteresting_eq (hr : r.Genuine env) : isInteresting r env = .ok (env.marked? r.key).isSome := by
  obtain ⟨as,found,keys,genuine⟩ := (Sight.annotations_within hw hr).exists_ok
  have marks : ∀ a ∈ as, env.config.isInteresting a.shape.shortName = (a.key.node?.any env.isMark) := by
    intro a ha
    obtain ⟨key,shape⟩ := (genuine a ha).written (s := .annotationEntry a.shape) rfl
    rw [key,SymbolKey.node?,Option.any_some,Environment.isMark,shape]
  have listed : as.map (fun a => env.config.isInteresting a.shape.shortName) =
      ((Annotated.annotations r.shape).map r.anchor.sibling).map env.isMark :=
    calc
      _ = (as.map (·.key)).map fun x => x.node?.any env.isMark := by
        rw [List.map_map]
        exact List.map_congr_left marks
      _ = _ := by
        rw [keys,List.map_map,List.map_map,List.map_map]
        rfl
  have run : isInteresting r env = .ok ((as.map fun a => env.config.isInteresting a.shape.shortName).any id) := by
    show (r.annotations >>= _) env = _
    rw [bind_ok found,List.any_map]
    rfl
  rw [run,listed,List.any_map]
  obtain ⟨key,origin,location,shape⟩ := r
  cases key with
  | deferred k =>
    obtain ⟨a,-,made⟩ := symbol_deferred_eq_ok.mp hr
    have form : Viewed.form shape = .deferred := congrArg Sight.shape made
    cases shape with
    | deferred => rfl
    | written t => cases form
  | node k =>
    obtain ⟨a,s,-,hs,made⟩ := node_eq_ok.mp hr
    have form : Viewed.form shape = .written s := congrArg Sight.shape made
    cases shape with
    | deferred => cases form
    | written t =>
      cases form
      rw [Environment.marked?,SymbolKey.node?,Option.isSome_filter,Option.any_some,hs]
      rfl

theorem Direct.comparedTypes_eq_ok (hr : r.Genuine env) :
    comparedTypes r env = .ok us ↔ Compares env r.key us := by
  rw [comparedTypes,bind_ok (isInteresting_eq hw hr),Compares]
  cases marked : env.marked? r.key with
  | none =>
    show Except.ok [] = Except.ok us ↔ _
    simp [eq_comm]
  | some k =>
    have key : r.key = .node k := SymbolKey.node?_eq_some.mp (Option.filter_eq_some_iff.mp marked).1
    show (r.resolve >>= fun t => t.aliasChain) env = _ ↔ _
    rw [bind_eq_ok]
    refine exists_congr fun t => and_congr_left fun _ => ?_
    exact ⟨Sight.resolve_eq_ok hr key,Sight.resolve_of_reference hr key⟩

end Aliases

theorem Direct.mapM_eq_ok {A B : Type} {f : A → Direct B} {as : List A} {bs : List B} :
    as.mapM f env = .ok bs ↔ List.Forall₂ (fun a b => f a env = .ok b) as bs := by
  induction as generalizing bs with
  | nil =>
    rw [List.forall₂_nil_left_iff]
    show Except.ok [] = Except.ok bs ↔ _
    simp [eq_comm]
  | cons a as ih =>
    rw [List.mapM_cons,bind_eq_ok,List.forall₂_cons_left_iff]
    refine exists_congr fun b => ?_
    simp only [bind_eq_ok,ih]
    constructor
    · rintro ⟨first,bs',rest,made⟩
      exact ⟨bs',first,rest,(Except.ok.inj made).symm⟩
    · rintro ⟨bs',first,rest,rfl⟩
      exact ⟨first,bs',rest,rfl⟩

/-- A list fails with the error of its first element that fails. -/
theorem Direct.mapM_eq_error {A B : Type} {f : A → Direct B} {as : List A} {e : Error} :
    as.mapM f env = .error e ↔ ∃ before a after, as = before ++ a :: after ∧
      (∀ c ∈ before, ∃ b, f c env = .ok b) ∧ f a env = .error e := by
  induction as with
  | nil =>
    refine ⟨nofun,?_⟩
    rintro ⟨before,_,_,split,-⟩
    simp at split
  | cons a as ih =>
    rw [List.mapM_cons,bind_eq_error]
    simp only [bind_eq_error,ih]
    constructor
    · rintro (first | ⟨b,first,⟨before,c,after,rfl,fine,failed⟩ | ⟨_,-,no⟩⟩)
      · exact ⟨[],a,as,rfl,nofun,first⟩
      · exact ⟨a :: before,c,after,rfl,List.forall_mem_cons.mpr ⟨⟨b,first⟩,fine⟩,failed⟩
      · cases no
    · rintro ⟨_ | ⟨d,before⟩,c,after,split,fine,failed⟩
      · obtain ⟨rfl,rfl⟩ := List.cons.inj split
        exact .inl failed
      · obtain ⟨rfl,rfl⟩ := List.cons.inj split
        obtain ⟨⟨b,first⟩,fine⟩ := List.forall_mem_cons.mp fine
        exact .inr ⟨b,first,.inl ⟨before,c,after,rfl,fine,failed⟩⟩

theorem Direct.Gathering.mapM_ofDirect {A B G : Type} (f : A → Direct B) (as : List A) :
    (as.mapM fun a => ofDirect (f a) : Direct.Gathering G (List B)) env = ofDirect (as.mapM f) env := by
  induction as with
  | nil => rfl
  | cons a as ih =>
    funext g
    rw [List.mapM_cons,List.mapM_cons]
    cases first : f a env with
    | error e =>
      have fails : (ofDirect (f a) : Direct.Gathering G B) env g = (.error e,g) := by rw [ofDirect,first]; rfl
      rw [Attempt.bind_error fails,ofDirect,bind_error first]
      rfl
    | ok b =>
      rw [ofDirect_bind first,ofDirect,bind_ok first]
      cases rest : as.mapM f env with
      | error e =>
        have fails : (as.mapM fun a => ofDirect (f a) : Direct.Gathering G (List B)) env g = (.error e,g) := by
          rw [ih,ofDirect,rest]
          rfl
        rw [Attempt.bind_error fails,bind_error rest]
        rfl
      | ok bs =>
        have found : (as.mapM fun a => ofDirect (f a) : Direct.Gathering G (List B)) env g = (.ok bs,g) := by
          rw [ih,ofDirect,rest]
          rfl
        rw [Attempt.bind_ok found,bind_ok rest]
        rfl

/-- The text of a comparison, which never fails. -/
def Direct.comparisonText (env : Environment) (i j : ResolvedType) : String :=
  match comparison i j env with
  | .ok text => text
  | .error _ => ""

theorem Direct.comparison_eq (i j : ResolvedType) : comparison i j env = .ok (comparisonText env i j) := by
  have found : Within (fun _ => False) env (comparison i j) fun _ => True := comparison_within i j
  obtain ⟨text,run,-⟩ := found.exists_ok
  rw [comparisonText,run]

/-- All types are compared with one another. -/
def Direct.comparisons (env : Environment) (ts : List ResolvedType) : List String :=
  ts.flatMap fun i => ts.map (comparisonText env i)

theorem Direct.records_comparisons (env : Environment) (ts : List ResolvedType) : Gathering.Records env
    (ts.forM fun i => ts.forM fun j => do Gathering.record (← Gathering.ofDirect (comparison i j)))
    (· = comparisons env ts) := by
  refine Gathering.Records.forM_eq fun i _ => ?_
  rw [List.map_eq_flatMap]
  exact Gathering.Records.forM_eq fun j _ => .after (comparison_eq i j) (.record _)

/-- What the gathered references stand for is compared, or nothing is recorded. -/
theorem Direct.process_of_gathered {rs : Array (Sight ReferenceForm)}
    (gathered : Gathering.gathered Visitor.references.visitFiles #[] env = .ok rs) (g : Array String) :
    process .aliasComparison env g = match rs.toList.mapM comparedTypes env with
      | .ok tss => (.ok (),g ++ (comparisons env tss.flatten).toArray)
      | .error e => (.error e,g) := by
  show (Gathering.ofDirect (Gathering.gathered Visitor.references.visitFiles #[]) >>= _) env g = _
  rw [Gathering.ofDirect_bind gathered]
  show ((rs.toList.mapM fun r => Gathering.ofDirect (comparedTypes r)) env >>= fun tss => _) g = _
  rw [Gathering.mapM_ofDirect]
  cases run : rs.toList.mapM comparedTypes env with
  | error e =>
    have fails : Gathering.ofDirect (G := Array String) (rs.toList.mapM comparedTypes) env g = (.error e,g) := by
      rw [Gathering.ofDirect,run]
      rfl
    exact Attempt.bind_error fails
  | ok tss =>
    show (Gathering.ofDirect (rs.toList.mapM comparedTypes) >>= _) env g = _
    rw [Gathering.ofDirect_bind run]
    exact (records_comparisons env tss.flatten g _).mpr ⟨_,rfl,rfl⟩

/-- A run succeeds exactly if the chains of all marked references are found. -/
theorem Processor.aliasComparison_run_iff (hw : env.models.WellFormed) (fits : env.oracle.Fits env.models) :
    ∃ xs : List SymbolKey, xs.Nodup ∧
      (∀ x, x ∈ xs ↔ x ∈ (env.oracle.files.flatMap fun k => env.models.preorder (.node k)) ∧
        env.models.isReference x = true) ∧
      ∀ records, Processor.aliasComparison.run env = .ok records ↔
        ∃ uss, List.Forall₂ (Compares env) xs uss ∧ records.toList = comparisons env uss.flatten := by
  obtain ⟨rs,gathered,references⟩ := gathered_references hw fun _ => fits.file
  have mem (x : SymbolKey) := references.mem x
  simp only [List.mem_flatMap,← Models.mem_preorder hw] at mem
  refine ⟨rs.toList.map (·.key),references.nodup,fun x => by rw [mem,List.mem_flatMap],fun records => ?_⟩
  have compared : Processor.aliasComparison.run env = .ok records ↔
      ∃ uss, rs.toList.mapM Direct.comparedTypes env = .ok uss ∧ records.toList = comparisons env uss.flatten := by
    rw [Processor.run_eq,Direct.Gathering.gathered,process_of_gathered gathered]
    cases rs.toList.mapM Direct.comparedTypes env with
    | error e => simp
    | ok uss => simp [← Array.toList_inj,eq_comm]
  refine compared.trans (exists_congr fun uss => and_congr_left fun _ => ?_)
  rw [mapM_eq_ok,List.forall₂_map_left_iff]
  constructor
  · intro each
    exact ((List.forall₂_and_left ..).mpr ⟨references.genuine,each⟩).imp fun _ _ both =>
      (comparedTypes_eq_ok hw both.1).mp both.2
  · intro each
    exact ((List.forall₂_and_left ..).mpr ⟨references.genuine,each⟩).imp fun _ _ both =>
      (comparedTypes_eq_ok hw both.1).mpr both.2

end SymbolGraph
