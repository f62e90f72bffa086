import SymbolGraph.Proofs.Direct.Children
import SymbolGraph.Proofs.Members
import SymbolGraph.Proofs.Names

/-! The index of names. It goes down from the files and puts the names of classes in front of what they hold. It
reaches the declarations that stand outside of functions, each under the name that is read off going up. -/
namespace SymbolGraph
namespace Models

variable {ms : Models} {k p : NodeKey} {s : Shape} {d : Named}

/-- What the name of a node is qualified by: the package and the classes around the node. -/
def scopeName (ms : Models) (k : NodeKey) : String :=
  (ms.ancestors k).foldr (fun j scope => match ms.shape? j with
    | some (.file f) => f.package
    | some s => s.declaredName?.elim scope (qualify scope)
    | none => scope) ""

/-- Declarations have a name in the index, unless they stand inside a function. Type parameters have none. -/
def indexedName? (ms : Models) (k : NodeKey) : Option String := do
  let s ← ms.shape? k
  let name ← s.declaredName?
  if s.kind = .typeParameter ∨ ms.isLocal k then none else return qualify (ms.scopeName k) name

section WellFormed

variable (hw : ms.WellFormed)
include hw

theorem scopeName_of_file {f : FileShape} (parent : ms.parent? k = some p) (hp : ms.shape? p = some (.file f)) :
    ms.scopeName k = f.package := by
  rw [scopeName,hw.ancestors_of_parent parent,List.foldr_cons,hp]

theorem scopeName_of_class {c : ClassShape} (parent : ms.parent? k = some p)
    (hp : ms.shape? p = some (.classLike c)) : ms.scopeName k = qualify (ms.scopeName p) c.name := by
  rw [scopeName,hw.ancestors_of_parent parent,List.foldr_cons,hp]
  rfl

theorem isLocal_of_parent (parent : ms.parent? k = some p) : ms.isLocal k = (ms.isFunction p || ms.isLocal p) := by
  rw [isLocal,hw.ancestors_of_parent parent,List.any_cons,isLocal]

/-- A declaration outside of functions, other than a type parameter, is listed by a file or by a class. -/
theorem exists_owner {name : String} (hs : ms.shape? k = some s) (declared : s.declaredName? = some name)
    (kind : s.kind ≠ .typeParameter) (outside : ms.isLocal k = false) : ∃ p, ms.parent? k = some p ∧
      ((∃ f, ms.shape? p = some (.file f) ∧ k.node ∈ f.declarations) ∨
        ∃ c, ms.shape? p = some (.classLike c) ∧ k.node ∈ c.declarations ∧ ms.isLocal p = false) := by
  have declares : s.kind.isDeclaration = true := by
    rw [← s.declaredName?_isSome,declared]
    rfl
  obtain ⟨p,parent⟩ := hw.exists_parent hs (by rintro e; rw [e] at declares; cases declares)
  refine ⟨p,parent,?_⟩
  rw [isLocal_of_parent hw parent,Bool.or_eq_false_iff] at outside
  obtain ⟨t,place,ht,listed,e⟩ := hw.parent parent
  obtain ⟨-,s',hs',admitted⟩ := hw.child ht listed
  have key : p.sibling k.node = k := by
    rw [e]
    rfl
  rw [key] at hs'
  obtain rfl := Option.some.inj (hs.symm.trans hs')
  obtain rfl : place = .declaration := by
    rcases Place.declares_of_admits admitted declares with rfl | rfl
    · rfl
    · exact absurd (Place.kind_of_admits rfl admitted) kind
  cases t with
  | file f => exact .inl ⟨f,ht,by simpa [Shape.places] using listed⟩
  | classLike c => exact .inr ⟨c,ht,by simpa [Shape.places] using listed,outside.2⟩
  | function f =>
    rw [isFunction_eq ht] at outside
    cases outside.1
  | _ => simp [Shape.places] at listed

end WellFormed

/-! ### Down -/

/-- What the index has of a declaration. -/
structure Indexes (ms : Models) (d : Named) : Prop where
  shape : ∃ s, ms.shape? d.key = some s ∧ s.kind = d.kind ∧ s.declaredName? = some d.simple ∧ s.kind ≠ .typeParameter
  outside : ms.isLocal d.key = false
  qualified : d.qualified = qualify (ms.scopeName d.key) d.simple

theorem indexes_of_mem_namedIn (hw : ms.WellFormed) {depth : Nat} {scope : String} (hs : ms.shape? k = some s)
    (admitted : Place.declaration.admits s.kind) (outside : ms.isLocal k = false) (own : scope = ms.scopeName k)
    (h : d ∈ ms.namedIn depth scope k) : ms.Indexes d := by
  induction depth generalizing k s scope with
  | zero => cases h
  | succ depth ih =>
    rw [namedIn,hs] at h
    dsimp only at h
    cases declared : s.declaredName? with
    | none => rw [declared] at h; cases h
    | some name =>
      rw [declared] at h
      rcases List.mem_cons.mp h with rfl | h
      · exact ⟨⟨s,hs,rfl,declared,by rintro e; rw [e] at admitted; cases admitted⟩,outside,by rw [own]⟩
      · cases s with
        | classLike c =>
          obtain ⟨n,hn,h⟩ := List.mem_flatMap.mp h
          obtain rfl : c.name = name := Option.some.inj declared
          have listed : (n,Place.declaration) ∈ (Shape.classLike c).places := by simp [Shape.places,hn]
          obtain ⟨parent,t,ht,admitted'⟩ := hw.child hs listed
          refine ih ht admitted' ?_ ?_ h
          · rw [isLocal_of_parent hw parent,isFunction_eq hs,outside]
            rfl
          · rw [scopeName_of_class hw parent hs,own]
        | _ => cases h

theorem indexes_of_mem_named (hw : ms.WellFormed) (h : d ∈ ms.named) : ms.Indexes d := by
  obtain ⟨file,-,h⟩ := List.mem_flatMap.mp h
  rw [namedInFile] at h
  split at h
  · next f hf =>
    obtain ⟨n,hn,h⟩ := List.mem_flatMap.mp h
    have listed : (n,Place.declaration) ∈ (Shape.file f).places := by simp [Shape.places,hn]
    obtain ⟨parent,t,ht,admitted⟩ := hw.child hf listed
    have top : ms.parent? file = none := (hw.root hf).mpr rfl
    refine indexes_of_mem_namedIn hw ht admitted ?_ (scopeName_of_file hw parent hf).symm h
    rw [isLocal_of_parent hw parent,isFunction_eq hf,isLocal,ancestors_of_root top]
    rfl
  · cases h

/-! ### Up -/

theorem mem_files (hs : ms.shape? k = some s) (top : ms.parent? k = none) : k ∈ ms.files := by
  obtain ⟨a,ha,hn⟩ := exists_arena_of_shape? hs
  rw [parent?_eq ha,Option.map_eq_none_iff] at top
  obtain ⟨inside,e⟩ := List.getElem?_eq_some_iff.mp ha
  have source : (k.source,a) ∈ ms.indexed := List.mem_mapIdx.mpr ⟨k.source.index,inside,by rw [← e]⟩
  have node : k.node ∈ a.nodes :=
    List.mem_map.mpr ⟨k.node.index,List.mem_range.mpr (Arena.lt_size_of_shape? hn),rfl⟩
  exact List.mem_flatMap.mpr ⟨_,source,List.mem_map.mpr
    ⟨k.node,List.mem_filter.mpr ⟨node,Option.isNone_iff_eq_none.mpr top⟩,rfl⟩⟩

/-- The index comes to every declaration outside of functions, with depth left for all nodes behind it. -/
theorem exists_depth (hw : ms.WellFormed) {name : String} (hs : ms.shape? k = some s)
    (declared : s.declaredName? = some name) (kind : s.kind ≠ .typeParameter) (outside : ms.isLocal k = false) :
    ∃ depth, ms.size < depth + k.node.index ∧ ms.namedIn depth (ms.scopeName k) k ⊆ ms.named := by
  induction k using hw.climb generalizing s name with
  | root k top =>
    obtain ⟨p,parent,-⟩ := exists_owner hw hs declared kind outside
    rw [top] at parent
    cases parent
  | child k q parent ih =>
    obtain ⟨p,parent',owner⟩ := exists_owner hw hs declared kind outside
    obtain rfl := Option.some.inj (parent.symm.trans parent')
    have lt := hw.index_lt parent
    have key : q.sibling k.node = k := by
      obtain ⟨-,-,-,-,e⟩ := hw.parent parent
      rw [e]
      rfl
    rcases owner with ⟨f,hf,listed⟩ | ⟨c,hc,listed,outer⟩
    · refine ⟨ms.size,by omega,fun d hd => ?_⟩
      have top : ms.parent? q = none := (hw.root hf).mpr rfl
      refine List.mem_flatMap.mpr ⟨q,mem_files hf top,?_⟩
      rw [namedInFile,hf]
      refine List.mem_flatMap.mpr ⟨k.node,listed,?_⟩
      rwa [key,← scopeName_of_file hw parent hf]
    · obtain ⟨depth,room,sub⟩ := ih hc rfl (by rintro ⟨⟩) outer
      have inside := index_lt_size hc
      obtain ⟨depth,rfl⟩ : ∃ left, depth = left + 1 := Nat.exists_eq_succ_of_ne_zero (by omega)
      refine ⟨depth,by omega,fun d hd => sub ?_⟩
      rw [namedIn,hc]
      refine List.mem_cons_of_mem _ (List.mem_flatMap.mpr ⟨k.node,listed,?_⟩)
      rwa [key,← scopeName_of_class hw parent hc]

theorem exists_named (hw : ms.WellFormed) {name : String} (hs : ms.shape? k = some s)
    (declared : s.declaredName? = some name) (kind : s.kind ≠ .typeParameter) (outside : ms.isLocal k = false) :
    ⟨k,name,qualify (ms.scopeName k) name,s.kind⟩ ∈ ms.named := by
  obtain ⟨depth,room,sub⟩ := exists_depth hw hs declared kind outside
  have inside := index_lt_size hs
  obtain ⟨depth,rfl⟩ : ∃ left, depth = left + 1 := Nat.exists_eq_succ_of_ne_zero (by omega)
  refine sub ?_
  rw [namedIn,hs]
  dsimp only
  rw [declared]
  exact List.mem_cons_self

/-- The index has the declarations that have a name in it, each under this name. -/
theorem exists_mem_named_iff (hw : ms.WellFormed) {q : String} :
    (∃ d ∈ ms.named, d.key = k ∧ d.qualified = q) ↔ ms.indexedName? k = some q := by
  constructor
  · rintro ⟨d,hd,rfl,rfl⟩
    obtain ⟨⟨s,hs,-,declared,kind⟩,outside,qualified⟩ := indexes_of_mem_named hw hd
    rw [indexedName?,hs,Option.bind_eq_bind,Option.bind_some,declared,Option.bind_eq_bind,Option.bind_some,
      if_neg (by simp [kind,outside]),qualified]
    rfl
  · intro h
    obtain ⟨s,hs,h⟩ := Option.bind_eq_some_iff.mp h
    obtain ⟨name,declared,h⟩ := Option.bind_eq_some_iff.mp h
    split at h
    · cases h
    · next reached =>
      obtain ⟨kind,outside⟩ := not_or.mp reached
      obtain rfl := Option.some.inj h
      exact ⟨_,exists_named hw hs declared kind (Bool.eq_false_iff.mpr outside),rfl,rfl⟩

/-! ### One name -/

end Models

theorem intercalate_eq_empty {sep a : String} {as : List String} (h : sep.intercalate (a :: as) = "") : a = "" := by
  cases as with
  | nil => rwa [String.intercalate_singleton] at h
  | cons b as =>
    rw [String.intercalate_cons_cons,String.append_eq_empty_iff,String.append_eq_empty_iff] at h
    exact h.1.1

theorem intercalate_concat {sep a name : String} {as : List String} :
    sep.intercalate (a :: as ++ [name]) = sep.intercalate (a :: as) ++ sep ++ name := by
  induction as generalizing a with
  | nil =>
    rw [List.singleton_append,String.intercalate_cons_cons,String.intercalate_singleton,
      String.intercalate_singleton]
  | cons b as ih =>
    rw [List.cons_append,List.cons_append,String.intercalate_cons_cons,← List.cons_append,ih,
      String.intercalate_cons_cons]
    simp only [String.append_assoc]

/-- Names are joined in the same way one by one, if none of them is empty. -/
theorem qualify_intercalate {names : List String} (nonempty : ∀ n ∈ names, n ≠ "") (name : String) :
    qualify (".".intercalate names) name = ".".intercalate (names ++ [name]) := by
  cases names with
  | nil => rfl
  | cons a as =>
    have inside : (".".intercalate (a :: as)).isEmpty = false := by
      rw [Bool.eq_false_iff]
      intro empty
      exact nonempty a List.mem_cons_self (intercalate_eq_empty (String.isEmpty_iff.mp empty))
    rw [qualify,inside,if_neg Bool.false_ne_true,intercalate_concat]

namespace Models

variable {ms : Models} {k p : NodeKey} {s : Shape}

/-- The names around a node, from the package down. The root package has none. -/
def outerNames (ms : Models) (k : NodeKey) : List String :=
  let outer := (ms.ancestors k).filterMap fun j => (ms.shape? j).bind Shape.declaredName?
  if (ms.packageOf k).isEmpty then outer.reverse else ms.packageOf k :: outer.reverse

theorem qualifiedName?_eq (hs : ms.shape? k = some s) {name : String} (declared : s.declaredName? = some name) :
    ms.qualifiedName? k = if s.kind = .typeParameter ∨ ms.isLocal k then none
      else some (".".intercalate (ms.outerNames k ++ [name])) := by
  rw [qualifiedName?,hs,Option.bind_eq_bind,Option.bind_some,declared]
  rfl

/-- What has a qualified name is declared outside of functions, and is no type parameter. -/
theorem exists_of_qualifiedName? {q : String} (h : ms.qualifiedName? k = some q) :
    ∃ s, ms.shape? k = some s ∧ s.kind.isDeclaration = true ∧ s.kind ≠ .typeParameter ∧ ms.isLocal k = false := by
  obtain ⟨s,hs,h⟩ := Option.bind_eq_some_iff.mp h
  obtain ⟨name,declared,h⟩ := Option.bind_eq_some_iff.mp h
  split at h
  · cases h
  · next reached =>
    obtain ⟨kind,outside⟩ := not_or.mp reached
    refine ⟨s,hs,?_,kind,Bool.eq_false_iff.mpr outside⟩
    rw [← s.declaredName?_isSome,declared]
    rfl

theorem scopeName_eq (hw : ms.WellFormed) (named : ∀ k c, ms.shape? k = some (.classLike c) → c.name ≠ "")
    {name : String} (hs : ms.shape? k = some s) (declared : s.declaredName? = some name)
    (kind : s.kind ≠ .typeParameter) (outside : ms.isLocal k = false) :
    ms.scopeName k = ".".intercalate (ms.outerNames k) ∧ ∀ n ∈ ms.outerNames k, n ≠ "" := by
  induction k using hw.climb generalizing s name with
  | root k top =>
    obtain ⟨p,parent,-⟩ := exists_owner hw hs declared kind outside
    rw [top] at parent
    cases parent
  | child k q parent ih =>
    obtain ⟨p,parent',owner⟩ := exists_owner hw hs declared kind outside
    obtain rfl := Option.some.inj (parent.symm.trans parent')
    rcases owner with ⟨f,hf,-⟩ | ⟨c,hc,-,outer⟩
    · have top : ms.parent? q = none := (hw.root hf).mpr rfl
      have package : ms.packageOf k = f.package := by
        rw [packageOf,root_of_parent hw parent,root,ancestors_of_root top,List.getLastD_nil,hf]
      have names : ms.outerNames k = if f.package.isEmpty then [] else [f.package] := by
        rw [outerNames,package,hw.ancestors_of_parent parent,ancestors_of_root top,List.filterMap_cons,hf]
        rfl
      rw [scopeName_of_file hw parent hf,names]
      split
      · next empty =>
        rw [String.intercalate_nil]
        exact ⟨String.isEmpty_iff.mp empty,List.forall_mem_nil _⟩
      · next nonempty =>
        rw [String.intercalate_singleton]
        exact ⟨rfl,List.forall_mem_singleton.mpr fun e => nonempty (String.isEmpty_iff.mpr e)⟩
    · obtain ⟨scope,nonempty⟩ := ih hc rfl (by rintro ⟨⟩) outer
      have names : ms.outerNames k = ms.outerNames q ++ [c.name] := by
        have package : ms.packageOf k = ms.packageOf q := by rw [packageOf,root_of_parent hw parent,packageOf]
        rw [outerNames,outerNames,package,hw.ancestors_of_parent parent,List.filterMap_cons,hc]
        simp only [Option.bind_some,Shape.declaredName?,List.reverse_cons]
        split
        · rfl
        · rw [List.cons_append]
      rw [scopeName_of_class hw parent hc,scope,names]
      refine ⟨qualify_intercalate nonempty c.name,?_⟩
      exact List.forall_mem_append.mpr ⟨nonempty,List.forall_mem_singleton.mpr (named q c hc)⟩

/-- Where no class is nameless, names in the index are qualified names. -/
theorem indexedName?_eq (hw : ms.WellFormed) (named : ∀ k c, ms.shape? k = some (.classLike c) → c.name ≠ "")
    (k : NodeKey) : ms.indexedName? k = ms.qualifiedName? k := by
  cases hs : ms.shape? k with
  | none => rw [indexedName?,qualifiedName?,hs]; rfl
  | some s =>
    cases declared : s.declaredName? with
    | none =>
      rw [indexedName?,qualifiedName?,hs,Option.bind_eq_bind,Option.bind_eq_bind,Option.bind_some,Option.bind_some,
        declared]
      rfl
    | some name =>
      rw [qualifiedName?_eq hs declared,indexedName?,hs,Option.bind_eq_bind,Option.bind_some,declared,
        Option.bind_eq_bind,Option.bind_some]
      split
      · rfl
      · next reached =>
        obtain ⟨kind,outside⟩ := not_or.mp reached
        obtain ⟨scope,nonempty⟩ := scopeName_eq hw named hs declared kind (Bool.eq_false_iff.mpr outside)
        rw [scope,qualify_intercalate nonempty]
        rfl

end Models

namespace Names

variable {ms : Models} {inferred : TextMap} {k : NodeKey}

/-- An inferred type goes to the declaration of its name in the index. -/
theorem inferredText?_eq (hw : ms.WellFormed) (k : NodeKey) :
    (ofModels ms inferred).inferredText? k = (ms.indexedName? k).bind inferred.get? := by
  have found {text : String} (h : (ofModels ms inferred).inferredText? k = some text) :
      (ms.indexedName? k).bind inferred.get? = some text := by
    obtain ⟨d,hd,h⟩ := List.exists_of_findSome?_eq_some h
    split at h
    · next key => rwa [(Models.exists_mem_named_iff hw).mp ⟨d,List.mem_reverse.mp hd,key,rfl⟩]
    · cases h
  cases told : (ofModels ms inferred).inferredText? k with
  | some text => exact (found told).symm
  | none =>
    rw [eq_comm,Option.bind_eq_none_iff]
    intro q hq
    obtain ⟨d,hd,key,rfl⟩ := (Models.exists_mem_named_iff hw).mpr hq
    have untold := List.findSome?_eq_none_iff.mp told d (List.mem_reverse.mpr hd)
    rwa [if_pos key] at untold

end Names
end SymbolGraph
