import SymbolGraph.Proofs.Outcome
import SymbolGraph.Proofs.PackageNames
import SymbolGraph.Proofs.References
import SymbolGraph.Proofs.Renaming.Unambiguous

/-! Runs over sources whose nodes have other numbers. A processor succeeds on both or on neither, and records the
same, only in another order. No record speaks of a number. -/
namespace SymbolGraph

open Direct

namespace Models

variable {ρ : Renaming} {ms ms' : Models} (h : ms.Renames ρ ms') {k : NodeKey}

include h

theorem Renames.declaresType (declares : ms.DeclaresType k) : ms'.DeclaresType (ρ.key k) := by
  obtain ⟨s,hs,kind⟩ := declares
  refine ⟨s.rename (ρ k.source),?_,by rwa [Shape.kind_rename]⟩
  rw [h.shape?,hs]
  rfl

theorem Renames.packagedName? (noPackage : String) (x : SymbolKey) :
    ms'.packagedName? noPackage (ρ.symbol x) = ms.packagedName? noPackage x := by
  cases x with
  | deferred k => rfl
  | node k =>
    rw [Renaming.symbol,Models.packagedName?,Models.packagedName?,h.packageOf,h.shape?]
    cases ms.shape? k with
    | none => rfl
    | some s => cases s <;> rfl

theorem Renames.overriding? (x : SymbolKey) : ms'.overriding? (ρ.symbol x) = (ms.overriding? x).map ρ.key := by
  rw [Models.overriding?,Models.overriding?,ρ.node?_symbol,Option.filter_map]
  refine congrArg (fun p => (Option.filter p _).map ρ.key) (funext fun k => ?_)
  rw [Function.comp_apply,h.shape?]
  cases ms.shape? k with
  | none => rfl
  | some s => cases s <;> rfl

theorem Renames.isReference (x : SymbolKey) : ms'.isReference (ρ.symbol x) = ms.isReference x := by
  cases x with
  | deferred k => rfl
  | node k =>
    rw [Renaming.symbol,Models.isReference,Models.isReference,h.shape?]
    cases ms.shape? k with
    | none => rfl
    | some s => cases s <;> rfl

end Models

theorem Oracle.Renames.overridden {ρ : Renaming} {o o' : Oracle} (h : o.Renames ρ o') (k : NodeKey) :
    o'.overridden (ρ.key k) = (o.overridden k).map ρ.key := by
  rw [Oracle.overridden,Oracle.overridden,h.descriptor]
  cases o.descriptor k <;> rfl

theorem Oracle.Renames.finds {ρ : Renaming} {o o' : Oracle} (h : o.Renames ρ o') {k : NodeKey} {r : Option NodeKey}
    (found : o.Finds k r) : o'.Finds (ρ.key k) (r.map ρ.key) := by
  have known (j : NodeKey) : (o'.descriptor (ρ.key j)).isSome = (o.descriptor j).isSome := by
    rw [h.descriptor,Option.isSome_map]
  have above : o'.above (ρ.key k) = (o.above k).map ρ.key := by
    rw [Oracle.above,h.overridden]
    exact Graph.explore_map ρ.key_injective h.overridden true [] (o.overridden k)
  refine ⟨(known k).trans found.own,?_,?_⟩
  · rw [above]
    intro j' met
    obtain ⟨j,hj,rfl⟩ := List.mem_map.mp met
    exact (known j).trans (found.known j hj)
  · have root : (fun j => (o'.overridden j).isEmpty) ∘ ρ.key = fun j => (o.overridden j).isEmpty := by
      funext j
      rw [Function.comp_apply,h.overridden,List.isEmpty_map]
    rw [above,List.filter_map,root,found.roots]
    cases r <;> rfl

/-- The same surroundings under other numbers. -/
structure Environment.Renames (ρ : Renaming) (env env' : Environment) : Prop where
  models : env.models.Renames ρ env'.models
  oracle : env.oracle.Renames ρ env'.oracle
  config : env'.config = env.config

namespace Environment.Renames

variable {ρ : Renaming} {env env' : Environment}

/-! ### Texts of types -/

mutual
/-- The text of a type does not depend on numbers. -/
theorem shown (h : env.Renames ρ env') : (t : ResolvedType) → env.models.Builds t →
    (t.rename ρ.key).shown env' = t.shown env
  | ⟨declaration,arguments,nullable⟩, builds => by
    have head : ResolvedType.headName ⟨ρ.key declaration,renameArguments ρ.key arguments,nullable⟩ env' =
        ResolvedType.headName ⟨declaration,arguments,nullable⟩ env := by
      have declares : env.models.DeclaresType declaration := builds.declaresType
      refine (ResolvedType.headName_eq (h.models.declaresType declares).declares).trans ?_
      rw [ResolvedType.headName_eq declares.declares,h.models.declaredName?]
    have texts := h.shownArguments arguments fun u hu => builds u (List.mem_cons_of_mem _ hu)
    rw [ResolvedType.rename,ResolvedType.shown,ResolvedType.shown]
    show (ResolvedType.headName _ env' >>= fun name => ResolvedType.shownArguments _ env' >>= fun texts => _) =
      ResolvedType.headName _ env >>= fun name => ResolvedType.shownArguments _ env >>= fun texts => _
    rw [head,texts]
    rfl
theorem shownOption (h : env.Renames ρ env') (v : Variance) : (t : Option ResolvedType) →
    (∀ u ∈ optionalParts t, env.models.DeclaresType u.declaration) →
    ResolvedType.shownOption v (renameOption ρ.key t) env' = ResolvedType.shownOption v t env
  | none, _ => rfl
  | some t, builds => by
    rw [renameOption,ResolvedType.shownOption,ResolvedType.shownOption]
    exact congrArg (· >>= fun text => pure (v.label ++ text)) (h.shown t builds)
theorem shownArgument (h : env.Renames ρ env') : (a : TypeArgument) →
    (∀ u ∈ a.parts, env.models.DeclaresType u.declaration) →
    ResolvedType.shownArgument (a.rename ρ.key) env' = ResolvedType.shownArgument a env
  | ⟨v,t⟩, builds => by
    rw [TypeArgument.rename,ResolvedType.shownArgument,ResolvedType.shownArgument]
    exact h.shownOption v t builds
theorem shownArguments (h : env.Renames ρ env') : (as : List TypeArgument) →
    (∀ u ∈ argumentParts as, env.models.DeclaresType u.declaration) →
    ResolvedType.shownArguments (renameArguments ρ.key as) env' = ResolvedType.shownArguments as env
  | [], _ => rfl
  | a :: as, builds => by
    rw [argumentParts,List.forall_mem_append] at builds
    rw [renameArguments,ResolvedType.shownArguments,ResolvedType.shownArguments]
    show (ResolvedType.shownArgument _ env' >>= fun text => ResolvedType.shownArguments _ env' >>= fun texts => _) =
      ResolvedType.shownArgument _ env >>= fun text => ResolvedType.shownArguments _ env >>= fun texts => _
    rw [h.shownArgument a builds.1,h.shownArguments as builds.2]
    rfl
end

variable (h : env.Renames ρ env')
include h

theorem comparisonText {i j : ResolvedType} (hi : env.models.Builds i) (hj : env.models.Builds j) :
    comparisonText env' (i.rename ρ.key) (j.rename ρ.key) = comparisonText env i j := by
  have same : comparison (i.rename ρ.key) (j.rename ρ.key) env' = comparison i j env := by
    show ((i.rename ρ.key).shown env' >>= fun left => (j.rename ρ.key).shown env' >>= fun right =>
        Except.ok (left ++ " = " ++ right ++ " : " ++ toString (env'.oracle.assignable _ _))) = _
    rw [h.shown i hi,h.shown j hj,h.oracle.assignable]
    rfl
  rw [Direct.comparisonText,Direct.comparisonText,same]

theorem chainFrom (hw' : env'.models.WellFormed) (fits : env.oracle.Fits env.models) {steps : Nat}
    {chain us : List ResolvedType} {t : ResolvedType} (declares : env.models.DeclaresType t.declaration)
    (run : ResolvedType.chainFrom steps chain t env = .ok us) :
    ResolvedType.chainFrom steps (chain.map (·.rename ρ.key)) (t.rename ρ.key) env' =
      .ok (us.map (·.rename ρ.key)) := by
  revert declares
  refine ResolvedType.chainFrom_induction ?_ ?_ run
  · intro steps t last declares
    refine ResolvedType.chainFrom_stop ?_ fun a shape => ?_
    · rw [t.rename_declaration]
      exact (h.models.declaresType declares).declares
    · rw [t.rename_declaration,h.models.shape?] at shape
      obtain ⟨s,hs,made⟩ := Option.map_eq_some_iff.mp shape
      cases s <;> cases made
      exact last _ hs
  · intro left chain t a u shape meant new later declares
    have shape' : env'.models.shape? (t.rename ρ.key).declaration =
        some ((Shape.typeAlias a).rename (ρ t.declaration.source)) := by
      rw [t.rename_declaration,h.models.shape?,shape]
      rfl
    have meant' : env'.oracle.reference ((t.rename ρ.key).declaration.sibling (ρ t.declaration.source a.target)) =
        some (u.rename ρ.key) := by
      rw [t.rename_declaration,← ρ.key_sibling,h.oracle.reference,meant]
      rfl
    have new' : (u.rename ρ.key).declaration ∉ (chain.map (·.rename ρ.key)).map (·.declaration) := by
      rw [List.map_map,u.rename_declaration]
      intro met
      obtain ⟨v,hv,same⟩ := List.mem_map.mp met
      rw [Function.comp_apply,v.rename_declaration,ρ.key_inj] at same
      exact new (List.mem_map.mpr ⟨v,hv,same⟩)
    rw [ResolvedType.chainFrom_step shape' (hw'.aliasTarget shape') meant' new',← later (fits.reference meant),List.map_append]
    rfl

/-! ### What is recorded of a symbol -/

theorem recordsOverridee {x : SymbolKey} {rs : List String} (records : RecordsOverridee env x rs) :
    RecordsOverridee env' (ρ.symbol x) rs := by
  rw [RecordsOverridee] at records ⊢
  rw [h.models.overriding?]
  cases own : env.models.overriding? x with
  | none =>
    rw [own] at records
    exact records
  | some k =>
    rw [own] at records
    obtain ⟨r,found,rfl⟩ := records
    refine ⟨r.map ρ.key,h.oracle.finds found,?_⟩
    cases r with
    | none => rfl
    | some r =>
      show [_ ++ " -> " ++ _] = [env'.models.displayName (ρ.key k) ++ " -> " ++ env'.models.displayName (ρ.key r)]
      rw [h.models.displayName,h.models.displayName]

theorem isMark (k : NodeKey) : env'.isMark (ρ.key k) = env.isMark k := by
  rw [Environment.isMark,Environment.isMark,h.models.shape?,h.config]
  cases env.models.shape? k with
  | none => rfl
  | some s => cases s <;> rfl

theorem marked? (x : SymbolKey) : env'.marked? (ρ.symbol x) = (env.marked? x).map ρ.key := by
  have marks : env'.isMark ∘ ρ.key = env.isMark := funext h.isMark
  rw [Environment.marked?,Environment.marked?,ρ.node?_symbol,Option.filter_map]
  refine congrArg (fun p => (Option.filter p _).map ρ.key) (funext fun k => ?_)
  rw [Function.comp_apply,h.models.shape?]
  cases env.models.shape? k with
  | none => rfl
  | some s =>
    cases s with
    | typeReference s =>
      show ((s.annotations.map (ρ k.source)).map (ρ.key k).sibling).any env'.isMark = _
      rw [ρ.map_sibling,List.any_map,marks]
    | _ => rfl

theorem compares (hw' : env'.models.WellFormed) (fits : env.oracle.Fits env.models) {x : SymbolKey}
    {us : List ResolvedType} (compared : Compares env x us) :
    Compares env' (ρ.symbol x) (us.map (·.rename ρ.key)) := by
  rw [Compares] at compared ⊢
  rw [h.marked?]
  cases own : env.marked? x with
  | none =>
    rw [own] at compared
    rw [compared]
    rfl
  | some k =>
    rw [own] at compared
    obtain ⟨t,meant,run⟩ := compared
    refine ⟨t.rename ρ.key,by rw [h.oracle.reference,meant]; rfl,?_⟩
    have chain := h.chainFrom hw' fits (fits.reference meant) run
    rwa [← h.config] at chain

end Environment.Renames

/-! ### Runs -/

/-- Relations that are kept member by member are kept under another order. -/
theorem exists_forall₂_of_perm {A B A' B' : Type} {R : A → B → Prop} {R' : A' → B' → Prop} {f : A → A'} {g : B → B'}
    {xs : List A} {ys : List B} {xs' : List A'} (all : List.Forall₂ R xs ys) (same : xs'.Perm (xs.map f))
    (kept : ∀ x y, R x y → R' (f x) (g y)) : ∃ ys', List.Forall₂ R' xs' ys' ∧ ys'.Perm (ys.map g) := by
  have mapped : List.Forall₂ R' (xs.map f) (ys.map g) :=
    List.forall₂_map_left_iff.mpr (List.forall₂_map_right_iff.mpr (all.imp kept))
  exact List.perm_comp_forall₂ same mapped

theorem Direct.builds_of_compares {env : Environment} (builds : env.oracle.Builds env.models) {x : SymbolKey}
    {us : List ResolvedType} (compared : Compares env x us) : ∀ u ∈ us, env.models.Builds u := by
  rw [Compares] at compared
  split at compared
  · subst compared
    exact List.forall_mem_nil _
  · obtain ⟨t,meant,run⟩ := compared
    exact ResolvedType.chainFrom_forall builds (List.forall_mem_singleton.mpr (builds _ t meant)) run

theorem Environment.Renames.comparisons {ρ : Renaming} {env env' : Environment} (h : env.Renames ρ env')
    {ts ts' : List ResolvedType} (same : ts'.Perm (ts.map (·.rename ρ.key)))
    (builds : ∀ t ∈ ts, env.models.Builds t) : (Direct.comparisons env' ts').Perm (Direct.comparisons env ts) := by
  have ordered : (Direct.comparisons env' ts').Perm (Direct.comparisons env' (ts.map (·.rename ρ.key))) :=
    same.flatMap fun i _ => same.map _
  refine ordered.trans (.of_eq ?_)
  rw [Direct.comparisons,Direct.comparisons,List.flatMap_map]
  refine List.flatMap_congr fun i hi => ?_
  rw [List.map_map]
  exact List.map_congr_left fun j hj => h.comparisonText (builds i hi) (builds j hj)

section Runs

variable {ρ : Renaming} {env env' : Environment} (h : env.Renames ρ env')
  (hw : env.models.WellFormed) (fits : env.oracle.Fits env.models)
  (hw' : env'.models.WellFormed) (fits' : env'.oracle.Fits env'.models) {records : Array String}
include h hw fits hw' fits'

theorem Processor.packageNames_renames (run : Processor.packageNames.run env = .ok records) :
    ∃ records', Processor.packageNames.run env' = .ok records' ∧ records'.toList.Perm records.toList := by
  have named : (env'.models.packagedName? env'.config.noPackagePlaceholder) ∘ ρ.symbol =
      env.models.packagedName? env.config.noPackagePlaceholder := by
    rw [h.config]
    exact funext (h.models.packagedName? _)
  rw [Processor.packageNames_run hw fits] at run
  obtain rfl := Except.ok.inj run
  refine ⟨_,Processor.packageNames_run hw' fits',?_⟩
  have all := (h.models.preorder_files h.oracle.files).filterMap
    (env'.models.packagedName? env'.config.noPackagePlaceholder)
  rw [List.filterMap_map,named,List.filterMap_flatMap,List.filterMap_flatMap] at all
  exact all

theorem Processor.overridee_renames (run : Processor.overridee.run env = .ok records) :
    ∃ records', Processor.overridee.run env' = .ok records' ∧ records'.toList.Perm records.toList := by
  obtain ⟨rss,each,all⟩ := (Processor.overridee_run_iff hw fits).mp run
  have met := h.models.preorder_files h.oracle.files
  have kept : ∀ x rs, RecordsOverridee env x rs → RecordsOverridee env' (ρ.symbol x) (id rs) :=
    fun _ _ => h.recordsOverridee
  obtain ⟨rss',each',same⟩ := exists_forall₂_of_perm each met kept
  rw [List.map_id] at same
  refine ⟨rss'.flatten.toArray,(Processor.overridee_run_iff hw' fits').mpr ⟨rss',each',rfl⟩,?_⟩
  rw [all]
  exact same.flatten

theorem Processor.aliasComparison_renames (builds : env.oracle.Builds env.models)
    (run : Processor.aliasComparison.run env = .ok records) :
    ∃ records', Processor.aliasComparison.run env' = .ok records' ∧ records'.toList.Perm records.toList := by
  obtain ⟨xs,nodup,mem,runs⟩ := Processor.aliasComparison_run_iff hw fits
  obtain ⟨xs',nodup',mem',runs'⟩ := Processor.aliasComparison_run_iff hw' fits'
  obtain ⟨uss,each,all⟩ := (runs records).mp run
  have references : xs'.Perm (xs.map ρ.symbol) := by
    refine (List.perm_ext_iff_of_nodup nodup' (nodup.map ρ.symbol_injective)).mpr fun x' => ?_
    obtain ⟨x,rfl⟩ := ρ.symbol_surjective x'
    rw [mem',(h.models.preorder_files h.oracle.files).mem_iff,h.models.isReference,
      List.mem_map_of_injective ρ.symbol_injective,List.mem_map_of_injective ρ.symbol_injective,mem]
  obtain ⟨uss',each',same⟩ := exists_forall₂_of_perm each references fun _ _ => h.compares hw' fits
  have types : uss'.flatten.Perm (uss.flatten.map (·.rename ρ.key)) := by
    rw [List.map_flatten]
    exact same.flatten
  have built : ∀ t ∈ uss.flatten, env.models.Builds t := by
    intro t ht
    obtain ⟨us,hus,ht⟩ := List.mem_flatten.mp ht
    obtain ⟨x,-,compared⟩ := exists_of_forall₂ each hus
    exact builds_of_compares builds compared t ht
  refine ⟨(comparisons env' uss'.flatten).toArray,(runs' _).mpr ⟨uss',each',rfl⟩,?_⟩
  rw [all]
  exact h.comparisons types built

/-- A run that succeeds succeeds under other numbers too, and with the same records. -/
theorem Processor.run_renames (builds : env.oracle.Builds env.models) (p : Processor)
    (run : p.run env = .ok records) :
    ∃ records', p.run env' = .ok records' ∧ records'.toList.Perm records.toList := by
  cases p with
  | packageNames => exact packageNames_renames h hw fits hw' fits' run
  | aliasComparison => exact aliasComparison_renames h hw fits hw' fits' builds run
  | overridee => exact overridee_renames h hw fits hw' fits' run

end Runs

namespace Fixture

theorem run_renames {x y : Fixture} {ρ : Renaming} (h : x.models.Renames ρ y.models)
    (inferred : y.inferred = x.inferred) (unambiguous : x.models.Unambiguous) (config : Config) (p : Processor) {records : Array String}
    (run : p.run (x.environment config) = .ok records) :
    ∃ records', p.run (y.environment config) = .ok records' ∧ records'.toList.Perm records.toList := by
  have named := Fixture.names_renames h inferred unambiguous
  have renames : (x.environment config).Renames ρ (y.environment config) := ⟨h,named.oracle,rfl⟩
  exact p.run_renames renames x.models_wellFormed (Names.oracle_fits x.models_wellFormed x.inferred)
    y.models_wellFormed (Names.oracle_fits y.models_wellFormed y.inferred)
    (Names.oracle_builds x.models x.inferred) run

/-- Where no text is the simple or qualified name of two types outside of functions, the order of the files decides
nothing: a processor fails for both orders, or succeeds for both with the same records, each as often. -/
theorem run_perm (x y : Fixture) (kotlin : x.kotlin.Perm y.kotlin) (java : x.java.Perm y.java)
    (inferred : y.inferred = x.inferred) (unambiguous : x.models.Unambiguous) (config : Config) (p : Processor) :
    ((∃ e, p.run (x.environment config) = .error e) ∧ ∃ e, p.run (y.environment config) = .error e) ∨
    ∃ rs rs', p.run (x.environment config) = .ok rs ∧ p.run (y.environment config) = .ok rs' ∧
      rs.toList.Perm rs'.toList := by
  obtain ⟨ρ,there⟩ := exists_renames kotlin java
  obtain ⟨σ,back⟩ := exists_renames kotlin.symm java.symm
  cases run : p.run (x.environment config) with
  | ok rs =>
    obtain ⟨rs',run',same⟩ := run_renames there inferred unambiguous config p run
    exact .inr ⟨rs,rs',rfl,run',same.symm⟩
  | error e =>
    -- If the other order succeeded, so would this one, which is a permutation of it in turn.
    refine .inl ⟨⟨e,rfl⟩,?_⟩
    cases run' : p.run (y.environment config) with
    | error e' => exact ⟨e',rfl⟩
    | ok rs' =>
      obtain ⟨rs,other,-⟩ := run_renames back inferred.symm (there.unambiguous unambiguous) config p run'
      cases run.symm.trans other

/-- The same files in the opposite order. -/
def reversed (x : Fixture) : Fixture := { x with kotlin := x.kotlin.reverse, java := x.java.reverse }

/-- A class in one file, and an alias of it and a class below the alias in another one. -/
def twoFiles : Fixture where
  kotlin := [⟨"A.kt","a",[],[.classLike ⟨"A",.plain,.empty,[],[],[],[memberNamed "m" .opened],1⟩]⟩,
    ⟨"B.kt","b",[],[.typeAlias ⟨"B",.empty,[],[],⟨"A",[],[]⟩,1⟩,
      .classLike ⟨"C",.plain,.empty,[],[],[⟨"B",[⟨"Anno",[]⟩],[]⟩],[memberNamed "m" .overriding],2⟩]⟩]
  java := []
  inferred := .empty

theorem run_perm_twoFiles :
    twoFiles.kotlin.Perm twoFiles.reversed.kotlin ∧ twoFiles.java.Perm twoFiles.reversed.java ∧
    twoFiles.reversed.inferred = twoFiles.inferred ∧ twoFiles.models.Unambiguous ∧
    ∃ rs, Processor.aliasComparison.run (twoFiles.reversed.environment .standard) = .ok rs ∧
      rs.toList.Perm ["B = B : true","B = A : true","A = B : true","A = A : true"] := by
  have kotlin : twoFiles.kotlin.Perm twoFiles.reversed.kotlin := (List.reverse_perm _).symm
  have java : twoFiles.java.Perm twoFiles.reversed.java := (List.reverse_perm _).symm
  have unambiguous : twoFiles.models.Unambiguous := by decide +kernel
  have run : Processor.aliasComparison.run (twoFiles.environment .standard) =
      .ok #["B = B : true","B = A : true","A = B : true","A = A : true"] := by
    rw [Processor.run_eq]
    decide +kernel
  refine ⟨kotlin,java,rfl,unambiguous,?_⟩
  obtain ⟨⟨e,fails⟩,-⟩ | ⟨rs,rs',first,second,same⟩ :=
    run_perm twoFiles twoFiles.reversed kotlin java rfl unambiguous .standard .aliasComparison
  · cases run.symm.trans fails
  · obtain rfl := Except.ok.inj (run.symm.trans first)
    exact ⟨rs',second,same.symm⟩

/-- Two classes of one name, and a class that mentions it. -/
def namesakes : Fixture where
  kotlin := [⟨"A.kt","a",[],[.classLike ⟨"A",.plain,.empty,[],[],[],[memberNamed "m" .opened],1⟩]⟩,
    ⟨"B.kt","b",[],[.classLike ⟨"A",.plain,.empty,[],[],[],[memberNamed "m" .opened],1⟩]⟩,
    ⟨"C.kt","c",[],[.classLike ⟨"C",.plain,.empty,[],[],[⟨"A",[],[]⟩],[memberNamed "m" .overriding],1⟩]⟩]
  java := []
  inferred := .empty

/-- An ambiguous name means the first class that has it. -/
example : ¬namesakes.models.Unambiguous ∧
    Processor.overridee.run (namesakes.environment .standard) = .ok #["c.C.m -> a.A.m"] ∧
    Processor.overridee.run (namesakes.reversed.environment .standard) = .ok #["c.C.m -> b.A.m"] := by
  rw [Processor.run_eq,Processor.run_eq]
  exact ⟨by decide +kernel,by decide +kernel,by decide +kernel⟩

end Fixture

end SymbolGraph
