import SymbolGraph.Fixture
import SymbolGraph.Proofs.Index
import SymbolGraph.Proofs.Preorder
import SymbolGraph.Proofs.Renaming.Arena

/-! Sources whose nodes have other numbers. What the models tell of a node they tell of it under its new number,
only that files may come in another order. -/
namespace SymbolGraph

/-- New numbers for the nodes of each source. -/
abbrev Renaming := SourceId → NodeId ≃ NodeId

namespace Renaming

variable (ρ : Renaming)

def key (k : NodeKey) : NodeKey := ⟨k.source,ρ k.source k.node⟩

def symbol : SymbolKey → SymbolKey
  | .node k => .node (ρ.key k)
  | .deferred k => .deferred (ρ.key k)

theorem key_injective : Function.Injective ρ.key := by
  rintro ⟨i,n⟩ ⟨j,m⟩ same
  obtain ⟨source,node⟩ := NodeKey.mk.inj same
  cases source
  exact congrArg (NodeKey.mk i) ((ρ i).injective node)

@[simp] theorem key_inj {k l : NodeKey} : ρ.key k = ρ.key l ↔ k = l := ρ.key_injective.eq_iff

theorem key_surjective : Function.Surjective ρ.key := fun k =>
  ⟨⟨k.source,(ρ k.source).symm k.node⟩,congrArg (NodeKey.mk k.source) ((ρ k.source).apply_symm_apply k.node)⟩

theorem node?_symbol (x : SymbolKey) : (ρ.symbol x).node? = x.node?.map ρ.key := by cases x <;> rfl

theorem symbol_injective : Function.Injective ρ.symbol := by
  rintro (k | k) (l | l) same
  · exact congrArg SymbolKey.node (ρ.key_injective (SymbolKey.node.inj same))
  · cases same
  · cases same
  · exact congrArg SymbolKey.deferred (ρ.key_injective (SymbolKey.deferred.inj same))

theorem symbol_surjective : Function.Surjective ρ.symbol := by
  rintro (k | k) <;> obtain ⟨k,rfl⟩ := ρ.key_surjective k
  · exact ⟨.node k,rfl⟩
  · exact ⟨.deferred k,rfl⟩

theorem key_sibling (k : NodeKey) (n : NodeId) : ρ.key (k.sibling n) = (ρ.key k).sibling (ρ k.source n) := rfl

theorem map_sibling (k : NodeKey) (ns : List NodeId) :
    (ns.map (ρ k.source)).map (ρ.key k).sibling = (ns.map k.sibling).map ρ.key := by
  rw [List.map_map,List.map_map]
  rfl

theorem symbol_listed (k : NodeKey) (n : Option NodeId) :
    (ρ.key k).listed (n.map (ρ k.source)) = ρ.symbol (k.listed n) := by
  cases n <;> rfl

end Renaming

def Named.rename (ρ : Renaming) (d : Named) : Named := { d with key := ρ.key d.key }

theorem Shape.visited_rename (f : NodeId → NodeId) (s : Shape) :
    (s.rename f).visited = s.visited.map (Option.map f) := by
  cases s <;> simp [rename,FunctionShape.rename,visited,children,Function.comp_def,Option.toList_map]

namespace Models

/-- The same sources with new numbers. The files may be in another order. -/
structure Renames (ρ : Renaming) (ms ms' : Models) : Prop where
  size : ms'.size = ms.size
  shape? : ∀ k, ms'.shape? (ρ.key k) = (ms.shape? k).map (Shape.rename (ρ k.source))
  parent? : ∀ k, ms'.parent? (ρ.key k) = (ms.parent? k).map ρ.key
  ancestors : ∀ k, ms'.ancestors (ρ.key k) = (ms.ancestors k).map ρ.key
  files : ms'.files.Perm (ms.files.map ρ.key)

namespace Renames

variable {ρ : Renaming} {ms ms' : Models} (h : ms.Renames ρ ms') (k : NodeKey)
include h

theorem scopes : ms'.scopes (ρ.key k) = (ms.scopes k).map ρ.key := by
  rw [Models.scopes,Models.scopes,h.ancestors,List.map_cons]

theorem root : ms'.root (ρ.key k) = ρ.key (ms.root k) := by
  rw [Models.root,Models.root,h.ancestors,List.getLastD_eq_getLast?,List.getLastD_eq_getLast?,List.getLast?_map]
  cases (ms.ancestors k).getLast? <;> rfl

theorem packageOf : ms'.packageOf (ρ.key k) = ms.packageOf k := by
  rw [Models.packageOf,Models.packageOf,h.root,h.shape?]
  cases ms.shape? (ms.root k) with
  | none => rfl
  | some s => cases s <;> rfl

theorem isFunction : ms'.isFunction (ρ.key k) = ms.isFunction k := by
  rw [Models.isFunction,Models.isFunction,h.shape?]
  cases ms.shape? k with
  | none => rfl
  | some s => cases s <;> rfl

theorem isLocal : ms'.isLocal (ρ.key k) = ms.isLocal k := by
  have same : ms'.isFunction ∘ ρ.key = ms.isFunction := funext h.isFunction
  rw [Models.isLocal,Models.isLocal,h.ancestors,List.any_map,same]

theorem declaredName? : (ms'.shape? (ρ.key k)).bind Shape.declaredName? = (ms.shape? k).bind Shape.declaredName? := by
  rw [h.shape?]
  cases ms.shape? k <;> simp

theorem qualifiedName? : ms'.qualifiedName? (ρ.key k) = ms.qualifiedName? k := by
  have outer : (ms'.ancestors (ρ.key k)).filterMap (fun j => (ms'.shape? j).bind Shape.declaredName?) =
      (ms.ancestors k).filterMap fun j => (ms.shape? j).bind Shape.declaredName? := by
    rw [h.ancestors,List.filterMap_map]
    exact congrArg (List.filterMap · _) (funext h.declaredName?)
  rw [Models.qualifiedName?,Models.qualifiedName?,outer,h.packageOf,h.isLocal,h.shape?]
  cases ms.shape? k <;> simp

theorem displayName : ms'.displayName (ρ.key k) = ms.displayName k := by
  rw [Models.displayName,Models.displayName,h.qualifiedName?,h.declaredName?]

/-! ### The index of names -/

theorem namedIn (depth : Nat) (scope : String) :
    ms'.namedIn depth scope (ρ.key k) = (ms.namedIn depth scope k).map (Named.rename ρ) := by
  induction depth generalizing scope k with
  | zero => rfl
  | succ depth ih =>
    rw [Models.namedIn,Models.namedIn,h.shape?]
    cases ms.shape? k with
    | none => rfl
    | some s =>
      cases s with
      | classLike c =>
        show _ :: List.flatMap _ (c.declarations.map (ρ k.source)) = List.map _ (_ :: List.flatMap _ _)
        rw [List.map_cons,List.flatMap_map,List.map_flatMap]
        congr 1
        exact List.flatMap_congr fun d _ => ih (k.sibling d) _
      | _ => rfl

theorem namedInFile : ms'.namedInFile (ρ.key k) = (ms.namedInFile k).map (Named.rename ρ) := by
  rw [Models.namedInFile,Models.namedInFile,h.shape?,h.size]
  cases ms.shape? k with
  | none => rfl
  | some s =>
    cases s with
    | file f =>
      show List.flatMap _ (f.declarations.map (ρ k.source)) = List.map _ (List.flatMap _ _)
      rw [List.flatMap_map,List.map_flatMap]
      exact List.flatMap_congr fun d _ => h.namedIn (k.sibling d) _ _
    | _ => rfl

theorem named : ms'.named.Perm (ms.named.map (Named.rename ρ)) := by
  have all : (ms'.files.flatMap ms'.namedInFile).Perm ((ms.files.map ρ.key).flatMap ms'.namedInFile) :=
    h.files.flatMap_right _
  rw [List.flatMap_map,List.flatMap_congr fun k _ => h.namedInFile k,← List.map_flatMap] at all
  exact all

theorem scopeName : ms'.scopeName (ρ.key k) = ms.scopeName k := by
  rw [Models.scopeName,Models.scopeName,h.ancestors,List.foldr_map]
  congr 1
  funext j scope
  rw [h.shape?]
  cases ms.shape? j with
  | none => rfl
  | some s => cases s <;> rfl

theorem indexedName? : ms'.indexedName? (ρ.key k) = ms.indexedName? k := by
  rw [Models.indexedName?,Models.indexedName?,h.scopeName,h.isLocal,h.shape?]
  cases ms.shape? k <;> simp

/-! ### Traversals -/

theorem below (x : SymbolKey) : ms'.below (ρ.symbol x) = (ms.below x).map ρ.symbol := by
  cases x with
  | deferred k => rfl
  | node k =>
    rw [Renaming.symbol,Models.below,Models.below,h.shape?]
    cases ms.shape? k with
    | none => rfl
    | some s =>
      show (s.rename _).visited.map _ = (s.visited.map _).map _
      rw [s.visited_rename,List.map_map,List.map_map]
      exact List.map_congr_left fun n _ => ρ.symbol_listed k n

theorem preorder (x : SymbolKey) : ms'.preorder (ρ.symbol x) = (ms.preorder x).map ρ.symbol := by
  rw [Models.preorder,Models.preorder,h.size]
  generalize ms.size + 2 = depth
  induction depth generalizing x with
  | zero => rfl
  | succ depth ih =>
    rw [preorderUpTo,preorderUpTo,h.below,List.map_cons,List.flatMap_map,List.map_flatMap,
      List.flatMap_congr fun y _ => ih y]

/-- A traversal of files meets the same symbols under their new numbers, file by file. -/
theorem preorder_files {files files' : List NodeKey} (same : files'.Perm (files.map ρ.key)) :
    (files'.flatMap fun k => ms'.preorder (.node k)).Perm
      ((files.flatMap fun k => ms.preorder (.node k)).map ρ.symbol) := by
  have all : (files'.flatMap fun k => ms'.preorder (.node k)).Perm
      ((files.map ρ.key).flatMap fun k => ms'.preorder (.node k)) := same.flatMap_right _
  have each : ∀ k ∈ files, ms'.preorder (.node (ρ.key k)) = (ms.preorder (.node k)).map ρ.symbol :=
    fun k _ => h.preorder (.node k)
  rw [List.flatMap_map,List.flatMap_congr each,← List.map_flatMap] at all
  exact all

end Renames

/-- Two sources are renamed one by one. -/
theorem Renames.pair {f g : NodeId ≃ NodeId} {a b a' b' : Arena} (first : a.Renames f a') (second : b.Renames g b') :
    Models.Renames (fun i => if i = ⟨0⟩ then f else g) ⟨[a,b]⟩ ⟨[a',b']⟩ where
  size := by
    show a'.size + (b'.size + 0) = a.size + (b.size + 0)
    rw [first.size,second.size]
  shape? k := by
    obtain ⟨⟨_ | _ | i⟩,n⟩ := k
    · exact first.shape? n
    · exact second.shape? n
    · rfl
  parent? k := by
    obtain ⟨⟨_ | _ | i⟩,n⟩ := k
    · show (a'.parent? (f n)).bind _ = ((a.parent? n).bind _).map _
      rw [first.parent?]
      cases a.parent? n <;> rfl
    · show (b'.parent? (g n)).bind _ = ((b.parent? n).bind _).map _
      rw [second.parent?]
      cases b.parent? n <;> rfl
    · rfl
  ancestors k := by
    obtain ⟨⟨_ | _ | i⟩,n⟩ := k
    · show (a'.ancestors (f n)).map _ = ((a.ancestors n).map _).map _
      rw [first.ancestors,List.map_map,List.map_map]
      rfl
    · show (b'.ancestors (g n)).map _ = ((b.ancestors n).map _).map _
      rw [second.ancestors,List.map_map,List.map_map]
      rfl
    · rfl
  files := by
    have first := first.files.map fun n => (⟨⟨0⟩,n⟩ : NodeKey)
    have second := second.files.map fun n => (⟨⟨1⟩,n⟩ : NodeKey)
    have all := first.append second
    simpa [Models.files,Models.indexed,Function.comp_def,Renaming.key] using all

end Models

/-- Fixtures that hold the same files in another order have the same nodes under other numbers. -/
theorem Fixture.exists_renames {x y : Fixture} (kotlin : x.kotlin.Perm y.kotlin) (java : x.java.Perm y.java) :
    ∃ ρ, x.models.Renames ρ y.models := by
  obtain ⟨f,first⟩ := Layout.exists_relocates (fun file _ => Kotlin.File.moves file) kotlin 0
  obtain ⟨g,second⟩ := Layout.exists_relocates (fun file _ => Java.File.moves file) java 0
  exact ⟨_,.pair (first.renames .kotlin) (second.renames .java)⟩

end SymbolGraph
