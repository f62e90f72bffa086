import SymbolGraph.Proofs.Agreement.Traversal
import SymbolGraph.Proofs.Outline
import SymbolGraph.Proofs.Overriding
import SymbolGraph.Proofs.Preorder

/-! The names that are gathered from the files of a fixture. They can be read off the outlines of the files,
with nothing flattened, numbered or remembered. -/
namespace SymbolGraph

/-- A name under its package. A package without a name has one to stand for it. -/
def packaged (noPackage package name : String) : String :=
  (if package.isEmpty then noPackage else package) ++ ":" ++ name

namespace Outline

/-- The classes, functions and properties of a file in the order of the source, under their package. -/
def names (noPackage : String) (o : Outline) : List String :=
  (o.declarations.filter (·.kind != .typeAlias)).map fun d => packaged noPackage o.package d.name

end Outline

/-- The name of a class, function or property. -/
def Shape.gathered? : Shape → Option String
  | .classLike s => some s.name
  | .function s => some s.name
  | .property s => some s.name
  | _ => none

namespace Models

/-- What is gathered from a symbol: the name of a class, function or property under its package. -/
def packagedName? (ms : Models) (noPackage : String) : SymbolKey → Option String
  | .node k => ((ms.shape? k).bind Shape.gathered?).map (packaged noPackage (ms.packageOf k))
  | .deferred _ => none

end Models

open Direct

section Records

variable {env : Environment} (hw : env.models.WellFormed)
include hw

/-- Names are gathered from one symbol at a time, each before those below it. -/
theorem Direct.Visitor.names_records (noPackage : String) : ∃ f, Visitor.names noPackage = .preorder f ∧
    ∀ (x : SymbolKey) (s : Shape), env.models.shape? x.anchor = some s →
      Gathering.Records env (Visitor.meet f x) (· = (env.models.packagedName? noPackage x).toList) := by
  refine ⟨_,rfl,fun x s hs => ?_⟩
  obtain ⟨n,run,genuine,key⟩ := exists_symbol hs
  refine .after run ?_
  cases x with
  | deferred k =>
    obtain ⟨a,-,rfl⟩ := symbol_deferred_eq_ok.mp run
    exact .pure
  | node k =>
    obtain ⟨a,t,-,ht,rfl⟩ := node_eq_ok.mp run
    have named : ∀ d : DeclaredForm, Viewed.form d = .written t →
        Gathering.Records env (do
          let package ← Gathering.ofDirect (⟨.node k,a.origin,a.location k.node,d⟩ : Sight DeclaredForm).packageName
          Gathering.record ((if package.isEmpty then noPackage else package) ++ ":" ++ d.name))
          (· = [packaged noPackage (env.models.packageOf k) d.name]) := by
      intro d form
      have hd : (⟨.node k,a.origin,a.location k.node,d⟩ : Sight DeclaredForm).Genuine env := by
        rw [Sight.Genuine,Sight.toNode,form]
        exact run
      exact .after (Sight.packageName_eq hw hd) (.record _)
    rw [Models.packagedName?,ht]
    cases t with
    | classLike t => exact named (.classLike t) rfl
    | function t => exact named (.function t) rfl
    | property t => exact named (.property t) rfl
    | _ => exact .pure

/-- All names of the files are gathered, file by file. -/
theorem Processor.packageNames_run (fits : env.oracle.Fits env.models) :
    Processor.packageNames.run env = .ok (env.oracle.files.flatMap fun k =>
      (env.models.preorder (.node k)).filterMap
        (env.models.packagedName? env.config.noPackagePlaceholder)).toArray := by
  obtain ⟨f,named,recorded⟩ := Visitor.names_records hw env.config.noPackagePlaceholder
  have each : ∀ x ∈ env.oracle.files.flatMap fun k => env.models.preorder (.node k),
      Gathering.Records env (Visitor.meet f x)
        (· = (env.models.packagedName? env.config.noPackagePlaceholder x).toList) := by
    intro x hx
    obtain ⟨k,hk,hx⟩ := List.mem_flatMap.mp hx
    obtain ⟨t,ht⟩ := fits.file hk
    have top : ∃ s, env.models.shape? (SymbolKey.node k).anchor = some s := ⟨_,ht⟩
    obtain ⟨s,hs⟩ := Models.exists_shape_of_mem_preorder hw top hx
    exact recorded x s hs
  have visited : Direct.process .packageNames env =
      (env.oracle.files.flatMap fun k => env.models.preorder (.node k)).forM (Visitor.meet f) env := by
    rw [← Visitor.visitFiles_preorder hw fits,← named]
    rfl
  have all : Gathering.Records env (Direct.process .packageNames)
      (· = (env.oracle.files.flatMap fun k => env.models.preorder (.node k)).flatMap fun x =>
        (env.models.packagedName? env.config.noPackagePlaceholder x).toList) := by
    intro g g'
    rw [visited]
    exact Gathering.Records.forM_eq each g g'
  simp only [List.flatMap_assoc,← List.filterMap_eq_flatMap_toList] at all
  rw [Processor.run_eq]
  exact all.gathered_eq_ok.mpr rfl

end Records

namespace Models

variable {ms : Models} {i : SourceId} {a : Arena} {outlines : List Outline} {n m : NodeId}

theorem mem_preorder_of_mem_descent (hw : ms.WellFormed) (ha : ms.arena? i = some a)
    (ordered : a.SourceOrdered outlines) {s : Shape} (hs : a.shape? n = some s) (h : m ∈ a.descent n) :
    .node ⟨i,m⟩ ∈ ms.preorder (.node ⟨i,n⟩) := by
  have nodes := filterMap_preorder hw ha ordered (f := SymbolKey.node?) (fun _ => rfl) hs
  have mem : ⟨i,m⟩ ∈ (ms.preorder (.node ⟨i,n⟩)).filterMap SymbolKey.node? := by
    rw [nodes]
    exact List.mem_filterMap.mpr ⟨m,h,rfl⟩
  obtain ⟨x,hx,found⟩ := List.mem_filterMap.mp mem
  cases x with
  | node k =>
    obtain rfl := Option.some.inj found
    exact hx
  | deferred k => cases found

/-- What is gathered from a node is its name, unless it declares a type alias or nothing. -/
theorem packagedName?_eq (ha : ms.arena? i = some a) {s : Shape} (hs : a.shape? m = some s)
    (noPackage : String) : ms.packagedName? noPackage (.node ⟨i,m⟩) = (a.declared? m).bind fun d =>
      if d.kind != .typeAlias then some (packaged noPackage (ms.packageOf ⟨i,m⟩) d.name) else none := by
  have shape : ms.shape? ⟨i,m⟩ = some s := (shape?_eq (k := ⟨i,m⟩) ha).trans hs
  obtain ⟨slot,there,-⟩ := Option.bind_eq_some_iff.mp hs
  have location : a.location m = .file slot.path slot.line := by rw [Arena.location,there]
  rw [packagedName?,shape,Arena.declared?,hs,location]
  cases s <;> rfl

/-- What is gathered from a file can be read off its outline. -/
theorem packagedNames_file (hw : ms.WellFormed) (ha : ms.arena? i = some a)
    (ordered : a.SourceOrdered outlines) {o : Outline} (file : a.Unfolds n o) (noPackage : String) :
    (ms.preorder (.node ⟨i,n⟩)).filterMap (ms.packagedName? noPackage) = o.names noPackage := by
  obtain ⟨s,hs,-,package⟩ := file.shape
  have top : ms.shape? ⟨i,n⟩ = some (.file s) := (shape?_eq (k := ⟨i,n⟩) ha).trans hs
  have root : ms.parent? ⟨i,n⟩ = none := (hw.root top).mpr rfl
  have each : ∀ m ∈ a.descent n, ms.packagedName? noPackage (.node ⟨i,m⟩) =
      (a.declared? m).bind fun d =>
        if d.kind != .typeAlias then some (packaged noPackage o.package d.name) else none := by
    intro m hm
    have met := mem_preorder_of_mem_descent hw ha ordered hs hm
    obtain ⟨_,same,above⟩ := (node_mem_postorder hw).mp ((mem_preorder hw).mp met)
    obtain rfl := SymbolKey.node.inj same
    have packageOf : ms.packageOf ⟨i,m⟩ = o.package := by
      rw [packageOf,(root_eq_iff hw root).mpr above,top]
      exact package
    obtain ⟨t,ht⟩ := exists_shape_of_mem_preorder hw (x := .node ⟨i,n⟩) ⟨_,top⟩ met
    have shape : a.shape? m = some t := (shape?_eq (k := ⟨i,m⟩) ha).symm.trans ht
    rw [packagedName?_eq ha shape,packageOf]
  rw [filterMap_preorder hw ha ordered (fun _ => rfl) hs,List.filterMap_congr each,
    ← List.filterMap_filterMap,file.declarations,Outline.names,← List.filterMap_eq_map,List.filterMap_filter]
  rfl

theorem packagedNames_files (hw : ms.WellFormed) (ha : ms.arena? i = some a)
    (ordered : a.SourceOrdered outlines) (noPackage : String) :
    ((a.files.map fun n => ⟨i,n⟩).flatMap fun k =>
      (ms.preorder (.node k)).filterMap (ms.packagedName? noPackage)) = outlines.flatMap (·.names noPackage) := by
  have each : ∀ n o, a.Unfolds n o →
      (ms.preorder (.node ⟨i,n⟩)).filterMap (ms.packagedName? noPackage) = o.names noPackage :=
    fun _ _ file => packagedNames_file hw ha ordered file noPackage
  have files := ordered.unfolds
  clear ordered
  rw [List.flatMap_map]
  generalize a.files = ns at files ⊢
  induction files with
  | nil => rfl
  | cons file _ ih => rw [List.flatMap_cons,List.flatMap_cons,each _ _ file,ih]

end Models

/-- The names that are gathered from a fixture are those that its syntax trees show: the classes, functions
and properties of the Kotlin files and then of the Java files, each file in the order of the source. -/
theorem Fixture.run_packageNames (x : Fixture) (config : Config) :
    Processor.packageNames.run (x.environment config) =
      .ok ((x.kotlin.map (·.outline) ++ x.java.map (·.outline)).flatMap
        (·.names config.noPackagePlaceholder)).toArray := by
  have hw : (x.environment config).models.WellFormed := x.models_wellFormed
  have kotlin := Models.packagedNames_files (i := ⟨0⟩) hw rfl (flatten_sourceOrdered.1 x.kotlin)
    config.noPackagePlaceholder
  have java := Models.packagedNames_files (i := ⟨1⟩) hw rfl (flatten_sourceOrdered.2 x.java)
    config.noPackagePlaceholder
  have files : (x.environment config).oracle.files = _ := x.files_eq
  rw [Processor.packageNames_run hw (Names.oracle_fits hw x.inferred),files,List.flatMap_append,
    List.flatMap_append,← kotlin,← java]
  rfl

end SymbolGraph
