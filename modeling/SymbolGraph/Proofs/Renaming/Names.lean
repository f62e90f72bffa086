import SymbolGraph.Proofs.Renaming.Models

/-! What names mean where nodes have other numbers. If a name finds the same types, under their new numbers, then
an oracle that answers from names answers alike, whatever the order of the files. -/
namespace SymbolGraph

/-! ### Types -/

mutual
def ResolvedType.rename (f : NodeKey → NodeKey) : ResolvedType → ResolvedType
  | ⟨declaration,arguments,nullable⟩ => ⟨f declaration,renameArguments f arguments,nullable⟩
def renameOption (f : NodeKey → NodeKey) : Option ResolvedType → Option ResolvedType
  | none => none
  | some t => some (t.rename f)
def TypeArgument.rename (f : NodeKey → NodeKey) : TypeArgument → TypeArgument
  | ⟨variance,type⟩ => ⟨variance,renameOption f type⟩
def renameArguments (f : NodeKey → NodeKey) : List TypeArgument → List TypeArgument
  | [] => []
  | a :: as => a.rename f :: renameArguments f as
end

section Types

variable {f : NodeKey → NodeKey}

theorem renameArguments_eq (as : List TypeArgument) : renameArguments f as = as.map (TypeArgument.rename f) := by
  induction as with
  | nil => rfl
  | cons a as ih => rw [renameArguments,ih,List.map_cons]

@[simp] theorem ResolvedType.rename_declaration (t : ResolvedType) :
    (t.rename f).declaration = f t.declaration := by cases t; rfl

@[simp] theorem ResolvedType.rename_nullable (t : ResolvedType) : (t.rename f).nullable = t.nullable := by
  cases t; rfl

@[simp] theorem ResolvedType.rename_arguments (t : ResolvedType) :
    (t.rename f).arguments = renameArguments f t.arguments := by cases t; rfl

theorem ResolvedType.rename_withNullable (t : ResolvedType) (b : Bool) :
    (t.withNullable b).rename f = (t.rename f).withNullable b := by cases t; rfl

mutual
theorem ResolvedType.rename_injective (injective : Function.Injective f) :
    (t u : ResolvedType) → t.rename f = u.rename f → t = u
  | ⟨d,as,b⟩, ⟨e,bs,c⟩, h => by
    obtain ⟨declaration,arguments,nullable⟩ := ResolvedType.mk.inj h
    rw [injective declaration,renameArguments_injective injective as bs arguments,nullable]
theorem renameOption_injective (injective : Function.Injective f) :
    (t u : Option ResolvedType) → renameOption f t = renameOption f u → t = u
  | none, none, _ => rfl
  | some t, some u, h => congrArg some (ResolvedType.rename_injective injective t u (Option.some.inj h))
theorem TypeArgument.rename_injective (injective : Function.Injective f) :
    (a b : TypeArgument) → a.rename f = b.rename f → a = b
  | ⟨v,t⟩, ⟨w,u⟩, h => by
    obtain ⟨variance,type⟩ := TypeArgument.mk.inj h
    rw [variance,renameOption_injective injective t u type]
theorem renameArguments_injective (injective : Function.Injective f) :
    (as bs : List TypeArgument) → renameArguments f as = renameArguments f bs → as = bs
  | [], [], _ => rfl
  | a :: as, b :: bs, h => by
    obtain ⟨head,tail⟩ := List.cons.inj h
    rw [TypeArgument.rename_injective injective a b head,renameArguments_injective injective as bs tail]
end

end Types

def Descriptor.rename (f : NodeKey → NodeKey) (d : Descriptor) : Descriptor where
  declaration := f d.declaration
  name := d.name
  parameters := d.parameters.map (ResolvedType.rename f)
  returnType := d.returnType.map (ResolvedType.rename f)
  overridden := d.overridden.map f

/-! ### Searches -/

theorem bind_map_eq {A B C D : Type} {o : Option A} {o' : Option C} {f : A → Option B} {g : C → Option D}
    {p : A → C} {q : B → D} (first : o' = o.map p) (rest : ∀ a, g (p a) = (f a).map q) :
    (o' >>= g) = (o >>= f).map q := by
  subst first
  cases o with
  | none => rfl
  | some a => exact rest a

theorem mapM_map_eq {A B C D : Type} {f : A → Option B} {g : C → Option D} {p : A → C} {q : B → D} {l : List A}
    (h : ∀ a ∈ l, g (p a) = (f a).map q) : (l.map p).mapM g = (l.mapM f).map (List.map q) := by
  induction l with
  | nil => rfl
  | cons a l ih =>
    obtain ⟨ha,hl⟩ := List.forall_mem_cons.mp h
    rw [List.map_cons,List.mapM_cons,List.mapM_cons,ha,ih hl]
    cases f a with
    | none => rfl
    | some b => cases l.mapM f <;> rfl

/-- A search of a graph whose places have other names visits the same places in the same order. -/
theorem Graph.explore_map {K L : Type} [DecidableEq K] [DecidableEq L] {g : Graph K} {g' : Graph L} {f : K → L}
    (injective : Function.Injective f) (next : ∀ k, g'.next (f k) = (g.next k).map f) (deep : Bool)
    (visited pending : List K) :
    g'.explore deep (visited.map f) (pending.map f) = (g.explore deep visited pending).map f := by
  induction visited, pending using Graph.explore.induct g deep with
  | case1 visited => rw [List.map_nil,explore,explore]
  | case2 visited k rest known ih =>
    rw [List.map_cons,explore,explore,if_pos known,if_pos (List.mem_map_of_mem known)]
    exact ih
  | case3 visited k rest new ih =>
    rw [List.map_cons,explore,explore,if_neg new,if_neg (by rwa [List.mem_map_of_injective injective])]
    refine Eq.trans ?_ ih
    cases deep <;> simp [next]

/-! ### Names -/

namespace Names

/-- What two indexes of names tell alike of sources under other numbers. -/
structure Renames (ρ : Renaming) (n n' : Names) : Prop where
  models : n.models.Renames ρ n'.models
  types : ∀ name, n'.types name = (n.types name).map ρ.key
  inferredText? : ∀ k, n'.inferredText? (ρ.key k) = n.inferredText? k

namespace Renames

variable {ρ : Renaming} {n n' : Names} (h : n.Renames ρ n') (k : NodeKey)
include h

theorem typeParameter? (name : String) :
    n'.typeParameter? name (ρ.key k) = (n.typeParameter? name k).map ρ.key := by
  rw [Names.typeParameter?,Names.typeParameter?,h.models.shape?]
  cases n.models.shape? k with
  | none => rfl
  | some s =>
    show ((s.rename _).typeParameters.map (ρ.key k).sibling).find? _ = Option.map _ (List.find? _ _)
    rw [s.typeParameters_rename,ρ.map_sibling,List.find?_map]
    refine congrArg (fun p => (List.find? p _).map ρ.key) (funext fun p => ?_)
    rw [Function.comp_apply,h.models.shape?]
    cases n.models.shape? p with
    | none => rfl
    | some s => cases s <;> rfl

theorem resolveName? (name : String) :
    n'.resolveName? name (ρ.key k) = (n.resolveName? name k).map ρ.key := by
  have parameters : (n'.models.scopes (ρ.key k)).findSome? (n'.typeParameter? name) =
      ((n.models.scopes k).findSome? (n.typeParameter? name)).map ρ.key := by
    rw [h.models.scopes,List.findSome?_map,List.map_findSome?]
    exact congrArg (List.findSome? · _) (funext fun j => h.typeParameter? j name)
  have near : (n'.types name).find? (fun j => n'.models.packageOf j == n'.models.packageOf (ρ.key k)) =
      ((n.types name).find? fun j => n.models.packageOf j == n.models.packageOf k).map ρ.key := by
    rw [h.types,List.find?_map]
    refine congrArg (fun p => (List.find? p _).map ρ.key) (funext fun j => ?_)
    rw [Function.comp_apply,h.models.packageOf,h.models.packageOf]
  rw [Names.resolveName?,Names.resolveName?,parameters,near,h.types,List.head?_map]
  simp only [Option.orElse_eq_orElse,Option.orElse_eq_or,Option.map_or]
  split <;> rfl

/-! #### References -/

theorem argumentIn {depth : Nat}
    (inner : ∀ j, n'.referenceIn depth (ρ.key j) = (n.referenceIn depth j).map (ResolvedType.rename ρ.key)) :
    n'.argumentIn depth (ρ.key k) = (n.argumentIn depth k).map (TypeArgument.rename ρ.key) := by
  rw [Names.argumentIn,Names.argumentIn,h.models.shape?]
  cases n.models.shape? k with
  | none => rfl
  | some s =>
    cases s with
    | typeReference s =>
      refine bind_map_eq Option.map_id_apply.symm fun text => ?_
      rw [id_eq]
      split
      · rfl
      · exact bind_map_eq (inner k) fun _ => rfl
    | _ => rfl

theorem referenceIn (depth : Nat) :
    n'.referenceIn depth (ρ.key k) = (n.referenceIn depth k).map (ResolvedType.rename ρ.key) := by
  induction depth generalizing k with
  | zero =>
    rw [Names.referenceIn,Names.referenceIn]
    rfl
  | succ depth ih =>
    rw [Names.referenceIn,Names.referenceIn,h.models.shape?]
    cases n.models.shape? k with
    | none => rfl
    | some s =>
      cases s with
      | typeReference s =>
        refine bind_map_eq Option.map_id_apply.symm fun text => ?_
        rw [id_eq]
        split
        · rfl
        · refine bind_map_eq (h.resolveName? k text.name) fun d => ?_
          refine bind_map_eq (mapM_map_eq fun a _ => h.argumentIn (k.sibling a) ih) fun as => ?_
          simp [ResolvedType.rename,renameArguments_eq]
      | _ => rfl

theorem reference? : n'.reference? (ρ.key k) = (n.reference? k).map (ResolvedType.rename ρ.key) := by
  rw [Names.reference?,Names.reference?,h.models.size,h.referenceIn]

theorem inferred? : n'.inferred? (ρ.key k) = (n.inferred? k).map (ResolvedType.rename ρ.key) := by
  rw [Names.inferred?,Names.inferred?,h.inferredText?]
  refine bind_map_eq Option.map_id_apply.symm fun text => ?_
  refine bind_map_eq Option.map_id_apply.symm fun text => ?_
  exact bind_map_eq (h.resolveName? k text.name) fun _ => rfl

theorem typeOf? (written : Option NodeId) : n'.typeOf? (ρ.key k) (written.map (ρ k.source)) =
    (n.typeOf? k written).map (ResolvedType.rename ρ.key) := by
  cases written with
  | none => exact h.inferred? k
  | some r => exact h.reference? (k.sibling r)

/-! #### Aliases -/

theorem aliasTarget? : n'.aliasTarget? (ρ.key k) = (n.aliasTarget? k).map (ResolvedType.rename ρ.key) := by
  rw [Names.aliasTarget?,Names.aliasTarget?,h.models.shape?]
  cases n.models.shape? k with
  | none => rfl
  | some s =>
    cases s with
    | typeAlias a => exact h.reference? (k.sibling a.target)
    | _ => rfl

theorem expandIn (steps : Nat) (seen : List NodeKey) (t : ResolvedType) :
    n'.expandIn steps (seen.map ρ.key) (t.rename ρ.key) = (n.expandIn steps seen t).rename ρ.key := by
  induction steps generalizing seen t with
  | zero => rfl
  | succ steps ih =>
    rw [Names.expandIn,Names.expandIn,t.rename_declaration,h.aliasTarget?]
    by_cases known : t.declaration ∈ seen
    · rw [if_pos known,if_pos (List.mem_map_of_mem known)]
    · rw [if_neg known,if_neg (by rwa [List.mem_map_of_injective ρ.key_injective])]
      cases n.aliasTarget? t.declaration with
      | none => rfl
      | some target =>
        have next := ih (t.declaration :: seen) (target.withNullable (t.nullable || target.nullable))
        rw [ResolvedType.rename_withNullable,List.map_cons] at next
        rw [← next]
        simp

theorem expand (t : ResolvedType) : n'.expand (t.rename ρ.key) = (n.expand t).rename ρ.key := h.expandIn _ [] t

/-! #### Super classes -/

theorem superClasses : n'.superClasses (ρ.key k) = (n.superClasses k).map ρ.key := by
  rw [Names.superClasses,Names.superClasses,h.models.shape?]
  cases n.models.shape? k with
  | none => rfl
  | some s =>
    cases s with
    | classLike c =>
      show (c.superTypes.map (ρ k.source)).filterMap _ = (c.superTypes.filterMap _).map _
      rw [List.filterMap_map,List.map_filterMap]
      refine List.filterMap_congr fun r _ => ?_
      rw [Function.comp_apply,← ρ.key_sibling,h.reference?,Option.map_map,Option.map_map]
      congr 1
      funext t
      simp [h.expand]
    | _ => rfl

theorem assignable (t u : ResolvedType) :
    n'.assignable (t.rename ρ.key) (u.rename ρ.key) = n.assignable t u := by
  have reach : n'.superGraph.reach (ρ.key (n.expand u).declaration) =
      (n.superGraph.reach (n.expand u).declaration).map ρ.key :=
    Graph.explore_map ρ.key_injective h.superClasses false [] [(n.expand u).declaration]
  have arguments : renameArguments ρ.key (n.expand t).arguments = renameArguments ρ.key (n.expand u).arguments ↔
      (n.expand t).arguments = (n.expand u).arguments :=
    ⟨renameArguments_injective ρ.key_injective _ _,congrArg _⟩
  simp [Names.assignable,h.expand,reach,List.mem_map_of_injective ρ.key_injective,arguments]

/-! #### Overridden functions -/

theorem matching? (name : String) (arity : Nat) :
    n'.matching? name arity (ρ.key k) = (n.matching? name arity k).map ρ.key := by
  rw [Names.matching?,Names.matching?,h.models.shape?]
  cases n.models.shape? k with
  | none => rfl
  | some s =>
    cases s with
    | classLike c =>
      show ((c.declarations.map (ρ k.source)).map (ρ.key k).sibling).find? _ = Option.map _ (List.find? _ _)
      rw [ρ.map_sibling,List.find?_map]
      refine congrArg (fun p => (List.find? p _).map ρ.key) (funext fun d => ?_)
      rw [Function.comp_apply,h.models.shape?]
      cases n.models.shape? d with
      | none => rfl
      | some s => cases s <;> simp [Shape.rename,FunctionShape.rename]
    | _ => rfl

theorem overriddenBy (name : String) (arity : Nat) :
    n'.overriddenBy (ρ.key k) name arity = (n.overriddenBy k name arity).map ρ.key := by
  have next : ∀ j, (n'.superGraphAbove name arity).next (ρ.key j) =
      ((n.superGraphAbove name arity).next j).map ρ.key := by
    intro j
    simp only [superGraphAbove,h.matching?,h.superClasses,Option.isSome_map]
    split <;> rfl
  rw [Names.overriddenBy,Names.overriddenBy,h.models.parent?]
  cases n.models.parent? k with
  | none => rfl
  | some owner =>
    have visited := Graph.explore_map ρ.key_injective next false [owner] (n.superClasses owner)
    rw [← h.superClasses] at visited
    show (List.drop 1 (Graph.explore _ _ [ρ.key owner] _)).filterMap _ = (List.filterMap _ _).map _
    rw [show [ρ.key owner] = [owner].map ρ.key from rfl,visited,← List.map_drop,List.filterMap_map,
      List.map_filterMap]
    exact List.filterMap_congr fun j _ => h.matching? j name arity

/-! #### Descriptors -/

theorem parameterType? : n'.parameterType? (ρ.key k) = (n.parameterType? k).map (ResolvedType.rename ρ.key) := by
  rw [Names.parameterType?,Names.parameterType?,h.models.shape?]
  cases n.models.shape? k with
  | none => rfl
  | some s =>
    cases s with
    | valueParameter p => exact h.typeOf? k p.typeReference
    | _ => rfl

theorem returnType? (f : FunctionShape) : n'.returnType? (ρ.key k) (f.rename (ρ k.source)) =
    (n.returnType? k f).map (ResolvedType.rename ρ.key) := by
  have typed := h.typeOf? k f.returnType
  rw [Names.returnType?,Names.returnType?,h.models.parent?]
  simp only [FunctionShape.rename,Option.map_eq_none_iff,typed]
  split
  · cases n.models.parent? k <;> rfl
  · rfl

theorem functionDescriptor? (f : FunctionShape) : n'.functionDescriptor? (ρ.key k) (f.rename (ρ k.source)) =
    (n.functionDescriptor? k f).map (Descriptor.rename ρ.key) := by
  have overridden := h.overriddenBy k f.name f.parameters.length
  rw [Names.functionDescriptor?,Names.functionDescriptor?,h.returnType?]
  refine bind_map_eq (mapM_map_eq fun p _ => h.parameterType? (k.sibling p)) fun ts => ?_
  simp only [FunctionShape.rename,List.length_map,overridden]
  split <;> rfl

theorem descriptor? : n'.descriptor? (ρ.key k) = (n.descriptor? k).map (Descriptor.rename ρ.key) := by
  rw [Names.descriptor?,Names.descriptor?,h.models.shape?]
  cases n.models.shape? k with
  | none => rfl
  | some s =>
    cases s with
    | function f => exact h.functionDescriptor? k f
    | property p => exact congrArg (fun t => some (Descriptor.mk _ p.name [] t [])) (h.typeOf? k p.typeReference)
    | valueParameter p =>
      exact congrArg (fun t => some (Descriptor.mk _ (p.name.getD "") [] t [])) (h.typeOf? k p.typeReference)
    | _ => rfl

end Renames

end Names

/-! ### Oracles -/

/-- What two oracles answer alike to what a run asks, whatever the numbers of the nodes. -/
structure Oracle.Renames (ρ : Renaming) (o o' : Oracle) : Prop where
  files : o'.files.Perm (o.files.map ρ.key)
  descriptor : ∀ k, o'.descriptor (ρ.key k) = (o.descriptor k).map (Descriptor.rename ρ.key)
  reference : ∀ k, o'.reference (ρ.key k) = (o.reference k).map (ResolvedType.rename ρ.key)
  assignable : ∀ t u, o'.assignable (t.rename ρ.key) (u.rename ρ.key) = o.assignable t u

theorem Names.Renames.oracle {ρ : Renaming} {n n' : Names} (h : n.Renames ρ n') : n.oracle.Renames ρ n'.oracle where
  files := h.models.files
  descriptor := h.descriptor?
  reference := h.reference?
  assignable := h.assignable

end SymbolGraph
