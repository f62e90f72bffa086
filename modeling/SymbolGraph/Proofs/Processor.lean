import SymbolGraph.Fixture
import SymbolGraph.Proofs.Agreement.Traversal
import SymbolGraph.Proofs.Direct.Gathering
import SymbolGraph.Proofs.Overriding
import SymbolGraph.Proofs.Search

/-! What the processors can fail with over fixtures: with what is wrong in the sources, each in its own
way, but never with a contradiction between sources, oracle and session. -/
namespace SymbolGraph

open Direct

/-- What is wrong with the overriding functions of the sources. -/
def Error.isOfOverriding : Error → Bool
  | .missingDescriptor _ | .ambiguousOverridee _ _ => true
  | _ => false

/-- What can only be if sources, oracle and session contradict one another. -/
def Error.isContradiction : Error → Bool
  | .unknownNode _ | .unknownSource _ | .unknownSymbol _ | .unexpectedKind _ _ _ | .notADeclaration _
  | .notATypeDeclaration _ | .reentrantResolution _ => true
  | _ => false

def Processor.mayFail : Processor → Error → Bool
  | .packageNames => fun _ => false
  | .aliasComparison => Error.isOfTypes
  | .overridee => Error.isOfOverriding

theorem Processor.not_isContradiction {p : Processor} {e : Error} (h : p.mayFail e = true) :
    e.isContradiction = false := by
  cases p <;> cases e <;> first | rfl | cases h

section Fails

variable {env : Environment} {allowed : Error → Prop} (hw : env.models.WellFormed)
  (fits : env.oracle.Fits env.models)

/-! ### Overriding -/

/-- A function is found from another one through functions that are overridden, and overrides none. -/
def Oracle.RootOf (o : Oracle) (f k : NodeKey) : Prop :=
  k ∈ o.overriddenGraph.explore true [] (o.overridden f) ∧ ∃ d, o.descriptor k = some d ∧ d.overridden = []

theorem Direct.descriptor_within (k : NodeKey) :
    Within (·.isOfOverriding) env (descriptor k) fun d => env.oracle.descriptor k = some d := by
  refine .after (ask_eq _) ?_
  exact .orFail (fun _ h => h) fun _ => rfl

include fits in
theorem Oracle.RootOf.exists_shape {f k : NodeKey} (h : env.oracle.RootOf f k) :
    ∃ s, env.models.shape? k = some (.function s) :=
  env.oracle.overriddenGraph.forall_mem_explore true (fun _ _ _ hj => fits.overridden hj) [] _ nofun
    (fun _ hj => fits.overridden hj) k h.1

namespace Sight

theorem overriddenRoots_within (f : Sight FunctionShape) :
    Within (·.isOfOverriding) env f.overriddenRoots fun roots => ∀ k ∈ roots, env.oracle.RootOf f.anchor k := by
  refine (descriptor_within f.anchor).bind fun d hd => ?_
  refine .readThen (f := fun env => (env.oracle.overriddenGraph.explore true [] d.overridden).filterM
    fun k => return (← descriptor k).overridden.isEmpty) ?_
  have own : env.oracle.overridden f.anchor = d.overridden := by rw [Oracle.overridden,hd]
  refine (Within.filterM fun k _ => ?_).weaken fun roots hr k hk => ⟨own ▸ (hr k hk).1,(hr k hk).2⟩
  exact (descriptor_within k).map fun e he none => ⟨e,he,List.isEmpty_iff.mp none⟩

include hw fits in
theorem findOverridee_within {f : Sight FunctionShape} (hf : f.Genuine env) :
    Within (·.isOfOverriding) env f.findOverridee fun o =>
      ∀ g ∈ o, g.Genuine env ∧ env.oracle.RootOf f.anchor g.anchor := by
  refine (overriddenRoots_within f).bind fun roots hr => ?_
  match roots with
  | [] => exact .pure nofun
  | [root] =>
    have above := hr root List.mem_cons_self
    obtain ⟨s,hs⟩ := above.exists_shape fits
    refine (typed_within FunctionShape hs rfl).map fun g ⟨genuine,key⟩ h e => ?_
    obtain rfl := Option.some.inj e
    have anchor : g.anchor = root := congrArg SymbolKey.anchor key
    exact ⟨genuine,by rwa [anchor]⟩
  | _ :: _ :: _ =>
    exact .after (displayName_eq hw hf.toDeclaration) (.fail rfl)

end Sight

/-! ### Aliases -/

namespace Direct

include hw in
/-- Only written references are marked for comparison. -/
theorem isInteresting_within {r : Sight ReferenceForm} (hr : r.Genuine env) :
    Within allowed env (isInteresting r) fun marked => marked = true → ∃ k, r.key = .node k := by
  refine .readThen (f := fun env => do
    return (← r.annotations).any fun a => env.config.isInteresting a.shape.shortName) ?_
  cases e : r.shape with
  | written t =>
    have form : Viewed.form r.shape = .written (.typeReference t) := by rw [e]; rfl
    exact (Sight.annotations_within hw hr).map fun _ _ _ => ⟨_,(hr.written form).1⟩
  | deferred =>
    have none : r.annotations env = .ok [] := by
      rw [Sight.annotations,e]; rfl
    exact .after none (.pure nofun)

include hw fits

theorem comparedTypes_within {r : Sight ReferenceForm} (hr : r.Genuine env) :
    Within (·.isOfTypes) env (comparedTypes r) fun _ => True := by
  refine (isInteresting_within hw hr).bind fun marked key => ?_
  cases marked with
  | false => exact .pure trivial
  | true =>
    obtain ⟨k,hk⟩ := key rfl
    refine (Sight.resolve_within fits hr hk).bind fun t ht => ?_
    exact (ResolvedType.aliasChain_within hw fits ht).weaken fun _ _ => trivial

omit hw fits in
theorem comparison_within (i j : ResolvedType) : Within allowed env (comparison i j) fun _ => True :=
  (ResolvedType.shown_within i).bind fun _ _ => (ResolvedType.shown_within j).bind fun _ _ =>
    .after (ask_eq _) (.pure trivial)

end Direct

/-! ### Processors -/

namespace Direct.Visitor.Within

theorem names (noPackage : String)
    (h : ∀ {d : Sight DeclaredForm}, d.Genuine env → Direct.Within allowed env d.packageName fun _ => True) :
    Visitor.Within allowed env (fun _ => True) (Direct.Visitor.names noPackage) := by
  refine preorder fun {n} hn => ?_
  cases e : n.as? DeclaredForm with
  | none => exact .pure trivial
  | some d =>
    have named : Gathering.Within allowed env (fun _ => True)
        (do
          let package ← Gathering.ofDirect d.packageName
          Gathering.record ((if package.isEmpty then noPackage else package) ++ ":" ++ d.shape.name))
        fun _ => True :=
      (Gathering.Within.ofDirect (h (hn.narrow e))).bind fun _ _ => .update fun _ _ => trivial
    dsimp only
    cases e : d.shape <;> first | exact .pure trivial | (rw [e] at named; exact named)

/-- The references that are gathered are genuine. -/
theorem references : Visitor.Within allowed env (fun rs => ∀ r ∈ rs.toList, r.Genuine env)
    Direct.Visitor.references := by
  refine postorder fun {n} hn => ?_
  cases e : n.as? ReferenceForm with
  | none => exact .pure trivial
  | some r =>
    refine .update fun rs hrs => ?_
    split
    · exact hrs
    · rw [Array.toList_push]
      exact List.forall_mem_append.mpr ⟨hrs,List.forall_mem_singleton.mpr (hn.narrow e)⟩

theorem overridees
    (found : ∀ {f : Sight FunctionShape}, f.Genuine env →
      Direct.Within allowed env f.findOverridee fun o => ∀ g ∈ o, g.Genuine env)
    (displayed : ∀ {d : Sight DeclaredForm}, d.Genuine env → Direct.Within allowed env d.displayName fun _ => True) :
    Visitor.Within allowed env (fun _ => True) Direct.Visitor.overridees := by
  refine preorder fun {n} hn => ?_
  cases e : n.as? FunctionShape with
  | none => exact .pure trivial
  | some f =>
    have hf := hn.narrow e
    dsimp only
    split
    · refine (Gathering.Within.ofDirect (found hf)).bind fun o ho => ?_
      cases o with
      | none => exact .pure trivial
      | some g =>
        refine (Gathering.Within.ofDirect (displayed hf.toDeclaration)).bind fun _ _ => ?_
        exact (Gathering.Within.ofDirect (displayed (ho g rfl).toDeclaration)).bind fun _ _ =>
          .update fun _ _ => trivial
    · exact .pure trivial

end Direct.Visitor.Within

namespace Direct

theorem compareAliases_within (reach : Reaches allowed env)
    (compared : ∀ {r : Sight ReferenceForm}, r.Genuine env → Within allowed env (comparedTypes r) fun _ => True) :
    Gathering.Within allowed env (fun _ => True) compareAliases fun _ => True := by
  have gathered : Within allowed env (Gathering.gathered Visitor.references.visitFiles #[])
      fun rs => ∀ r ∈ rs.toList, r.Genuine env :=
    (Visitor.Within.references.visitFiles reach).gathered nofun
  refine (Gathering.Within.ofDirect gathered).bind fun rs hrs => ?_
  refine (Gathering.Within.mapM fun r hr => .ofDirect (compared (hrs r hr))).bind fun ts _ => ?_
  exact .forM fun i _ => .forM fun j _ => (Gathering.Within.ofDirect (comparison_within i j)).bind
    fun _ _ => .update fun _ _ => trivial

include hw fits in
theorem process_within (p : Processor) :
    Gathering.Within (p.mayFail ·) env (fun _ => True) (process p) fun _ => True := by
  cases p with
  | packageNames =>
    have named : Visitor.Within (Processor.packageNames.mayFail ·) env (fun _ => True) (.names _) :=
      .names env.config.noPackagePlaceholder fun hd => .done (Sight.packageName_eq hw hd)
    exact .readThen (named.visitFiles (reaches_of_fits hw fits))
  | aliasComparison => exact compareAliases_within (reaches_of_fits hw fits) (comparedTypes_within hw fits)
  | overridee =>
    have found := Visitor.Within.overridees
      (fun hf => (Sight.findOverridee_within hw fits hf).weaken fun o ho g hg => (ho g hg).1)
      (fun hd => .done (Sight.displayName_eq hw hd))
    exact found.visitFiles (reaches_of_fits hw fits)

end Direct

include hw fits in
/-- A processor records something, or fails with one of its own errors. -/
theorem Processor.run_of_fits (p : Processor) :
    (∃ records, p.run env = .ok records) ∨ ∃ e, p.run env = .error e ∧ p.mayFail e = true := by
  have run : Within (p.mayFail ·) env (Direct.Gathering.gathered (Direct.process p) #[]) fun _ => True :=
    (process_within hw fits p).gathered trivial
  rw [p.run_eq env]
  exact run.ok_or_error.imp_left fun ⟨records,e,_⟩ => ⟨records,e⟩

end Fails

/-- Over a fixture names are always gathered, aliases are compared unless a type is wrong, and overridden
functions are found unless a function is. Nothing contradicts itself. -/
theorem Fixture.run_processor (x : Fixture) (config : Config) :
    (∃ records, Processor.packageNames.run (x.environment config) = .ok records) ∧
    ∀ p : Processor, (∃ records, p.run (x.environment config) = .ok records) ∨
      ∃ e, p.run (x.environment config) = .error e ∧ p.mayFail e = true ∧ e.isContradiction = false := by
  have hw : (x.environment config).models.WellFormed := x.models_wellFormed
  have run := Processor.run_of_fits hw (Names.oracle_fits hw x.inferred)
  constructor
  · rcases run .packageNames with ok | ⟨_,_,fails⟩
    · exact ok
    · cases fails
  · intro p
    rcases run p with ok | ⟨e,he,fails⟩
    · exact .inl ok
    · exact .inr ⟨e,he,fails,Processor.not_isContradiction fails⟩

end SymbolGraph
