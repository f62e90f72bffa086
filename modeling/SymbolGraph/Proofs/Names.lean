import SymbolGraph.Names.Hierarchy
import SymbolGraph.Proofs.Models

/-! What the oracle of names tells fits the sources: files are files, types are built from declarations
of types, and functions override functions. -/
namespace SymbolGraph

namespace Models

/-- Whether a type can be built from a node: a class, a type alias or a type parameter. -/
def DeclaresType (ms : Models) (k : NodeKey) : Prop :=
  ∃ s, ms.shape? k = some s ∧ s.kind ∈ [.classLike,.typeAlias,.typeParameter]

/-- Whether a node is a declaration. -/
def Declares (ms : Models) (k : NodeKey) : Prop := ∃ s, ms.shape? k = some s ∧ s.kind.isDeclaration = true

theorem DeclaresType.declares {ms : Models} {k : NodeKey} (h : ms.DeclaresType k) : ms.Declares k := by
  obtain ⟨s,hs,kind⟩ := h
  refine ⟨s,hs,?_⟩
  revert kind
  cases s <;> simp [Shape.kind,NodeKind.isDeclaration]

theorem exists_of_mem_files {ms : Models} (h : ms.WellFormed) {k : NodeKey} (hk : k ∈ ms.files) :
    ∃ f, ms.shape? k = some (.file f) := by
  obtain ⟨⟨i,a⟩,ha,hk⟩ := List.mem_flatMap.mp hk
  obtain ⟨n,hn,rfl⟩ := List.mem_map.mp hk
  obtain ⟨hn,root⟩ := List.mem_filter.mp hn
  obtain ⟨j,hj,rfl⟩ := List.mem_map.mp hn
  obtain ⟨i,hi,e⟩ := List.mem_mapIdx.mp ha
  cases e
  have found : ms.arena? ⟨i⟩ = some ms.toList[i] := List.getElem?_eq_getElem hi
  have well := h.arena found
  obtain ⟨s,hs⟩ := well.shaped ⟨j⟩ (List.mem_range.mp hj)
  have kind := (well.root hs).mp (Option.isNone_iff_eq_none.mp root)
  cases s with
  | file f => exact ⟨f,(shape?_eq (k := ⟨⟨i⟩,⟨j⟩⟩) found).trans hs⟩
  | _ => cases kind

/-- Named declarations have the kind that is noted of them. -/
theorem shape?_of_mem_namedIn {ms : Models} {depth : Nat} {scope : String} {k : NodeKey} {d : Named}
    (h : d ∈ ms.namedIn depth scope k) : ∃ s, ms.shape? d.key = some s ∧ s.kind = d.kind := by
  induction depth generalizing scope k with
  | zero => cases h
  | succ depth ih =>
    rw [namedIn] at h
    cases hs : ms.shape? k with
    | none => rw [hs] at h; cases h
    | some s =>
      rw [hs] at h
      dsimp only at h
      cases hn : s.declaredName? with
      | none => rw [hn] at h; cases h
      | some name =>
        rw [hn] at h
        rcases List.mem_cons.mp h with rfl | h
        · exact ⟨s,hs,rfl⟩
        · cases s with
          | classLike c =>
            obtain ⟨c,-,h⟩ := List.mem_flatMap.mp h
            exact ih h
          | _ => cases h

theorem shape?_of_mem_named {ms : Models} {d : Named} (h : d ∈ ms.named) :
    ∃ s, ms.shape? d.key = some s ∧ s.kind = d.kind := by
  obtain ⟨file,-,h⟩ := List.mem_flatMap.mp h
  rw [namedInFile] at h
  split at h
  · obtain ⟨c,-,h⟩ := List.mem_flatMap.mp h
    exact shape?_of_mem_namedIn h
  · cases h

end Models

/-- What an oracle tells fits the sources. -/
structure Oracle.Fits (o : Oracle) (ms : Models) : Prop where
  file : ∀ {k}, k ∈ o.files → ∃ f, ms.shape? k = some (.file f)
  reference : ∀ {k t}, o.reference k = some t → ms.DeclaresType t.declaration
  overridden : ∀ {k j}, j ∈ o.overridden k → ∃ f, ms.shape? j = some (.function f)

namespace Names

variable {ms : Models} {inferred : TextMap} {k d : NodeKey} {name : String}

theorem declaresType_of_mem_types (h : k ∈ (ofModels ms inferred).types name) : ms.DeclaresType k := by
  obtain ⟨d,hd,rfl⟩ := List.mem_map.mp h
  obtain ⟨hd,hp⟩ := List.mem_filter.mp hd
  obtain ⟨s,hs,kind⟩ := Models.shape?_of_mem_named hd
  refine ⟨s,hs,?_⟩
  rw [kind]
  have isType := (Bool.and_eq_true_iff.mp hp).1
  rcases Bool.or_eq_true_iff.mp isType with e | e <;> rw [beq_iff_eq.mp e] <;> decide

theorem declaresType_of_typeParameter? {n : Names} (h : n.typeParameter? name k = some d) :
    n.models.DeclaresType d := by
  obtain ⟨s,-,found⟩ := Option.bind_eq_some_iff.mp h
  have isParameter := List.find?_some found
  cases hd : n.models.shape? d with
  | none => simp [hd] at isParameter
  | some t =>
    refine ⟨t,hd,?_⟩
    cases t <;> simp [hd] at isParameter
    simp [Shape.kind]

theorem declaresType_of_resolveName? (h : (ofModels ms inferred).resolveName? name k = some d) :
    ms.DeclaresType d := by
  simp only [resolveName?,Option.orElse_eq_orElse,Option.orElse_eq_or,Option.or_eq_some_iff] at h
  rcases h with parameter | ⟨-,near | ⟨-,first⟩⟩
  · split at parameter
    · cases parameter
    · obtain ⟨scope,-,found⟩ := List.exists_of_findSome?_eq_some parameter
      exact declaresType_of_typeParameter? found
  · exact declaresType_of_mem_types (List.mem_of_find?_eq_some near)
  · exact declaresType_of_mem_types (List.mem_of_head? first)

theorem declaresType_of_referenceIn {depth : Nat} {t : ResolvedType}
    (h : (ofModels ms inferred).referenceIn depth k = some t) : ms.DeclaresType t.declaration := by
  cases depth with
  | zero => rw [referenceIn] at h; cases h
  | succ depth =>
    rw [referenceIn] at h
    split at h
    · obtain ⟨text,-,h⟩ := Option.bind_eq_some_iff.mp h
      split at h
      · cases h
      · obtain ⟨d,hd,h⟩ := Option.bind_eq_some_iff.mp h
        obtain ⟨arguments,-,h⟩ := Option.bind_eq_some_iff.mp h
        obtain rfl := Option.some.inj h
        exact declaresType_of_resolveName? hd
    · cases h

theorem function_of_matching? {n : Names} {arity : Nat} {c : NodeKey}
    (h : n.matching? name arity c = some k) : ∃ f, n.models.shape? k = some (.function f) := by
  rw [matching?] at h
  split at h
  · have isFunction := List.find?_some h
    split at isFunction
    · next f hf => exact ⟨f,hf⟩
    · cases isFunction
  · cases h

theorem function_of_mem_overriddenBy {n : Names} {arity : Nat} {j : NodeKey}
    (h : j ∈ n.overriddenBy k name arity) : ∃ f, n.models.shape? j = some (.function f) := by
  rw [overriddenBy] at h
  split at h
  · cases h
  · obtain ⟨c,-,found⟩ := List.mem_filterMap.mp h
    exact function_of_matching? found

/-- Only functions that say so override others. -/
theorem mem_overridden {n : Names} {j : NodeKey} (h : j ∈ n.oracle.overridden k) :
    ∃ f, n.models.shape? k = some (.function f) ∧ f.modifiers.contains .overriding = true ∧
      j ∈ n.overriddenBy k f.name f.parameters.length := by
  rw [Oracle.overridden] at h
  cases hd : n.oracle.descriptor k with
  | none => rw [hd] at h; cases h
  | some d =>
    rw [hd] at h
    change n.descriptor? k = some d at hd
    rw [descriptor?] at hd
    split at hd
    case h_2 f hf =>
      obtain ⟨parameters,-,made⟩ := Option.bind_eq_some_iff.mp hd
      obtain rfl := Option.some.inj made
      dsimp only at h
      split at h
      · next own => exact ⟨f,hf,own,h⟩
      · cases h
    all_goals cases hd; try cases h

theorem function_of_mem_overridden {n : Names} {j : NodeKey} (h : j ∈ n.oracle.overridden k) :
    ∃ f, n.models.shape? j = some (.function f) := by
  obtain ⟨f,-,-,found⟩ := mem_overridden h
  exact function_of_mem_overriddenBy found

/-- The oracle of names fits the sources that it was made of. -/
theorem oracle_fits (h : ms.WellFormed) (inferred : TextMap) : (ofModels ms inferred).oracle.Fits ms where
  file := Models.exists_of_mem_files h
  reference := declaresType_of_referenceIn
  overridden := function_of_mem_overridden

end Names
end SymbolGraph
