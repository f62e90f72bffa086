import SymbolGraph.Proofs.Overriding
import SymbolGraph.Proofs.Renaming.Names

/-! Sources in which no name stands for two types. There the order of the files decides nothing: what a name finds
is found under any order. -/
namespace SymbolGraph
namespace Models

variable {ms ms' : Models} {k : NodeKey} {name : String}

/-- The simple and the qualified name of a class or type alias outside of functions. The qualified name is the one
in the index, which is that of a session wherever no class is nameless. -/
def typeNames (ms : Models) (k : NodeKey) : List String :=
  match ms.shape? k with
  | some s =>
    if (s.kind = .classLike ∨ s.kind = .typeAlias) ∧ ms.isLocal k = false then
      s.declaredName?.toList ++ (ms.indexedName? k).toList
    else []
  | none => []

/-- No text is a name of two types. -/
def Unambiguous (ms : Models) : Prop :=
  ∀ name k l, name ∈ ms.typeNames k → name ∈ ms.typeNames l → k = l

theorem mem_keys_of_mem_typeNames (h : name ∈ ms.typeNames k) : k ∈ ms.keys := by
  rw [typeNames] at h
  split at h
  · exact mem_keys ‹_›
  · cases h

instance (ms : Models) : Decidable ms.Unambiguous :=
  decidable_of_iff (∀ k ∈ ms.keys, ∀ name ∈ ms.typeNames k, ∀ l ∈ ms.keys, name ∈ ms.typeNames l → k = l)
    ⟨fun h name k l hk hl => h k (mem_keys_of_mem_typeNames hk) name hk l (mem_keys_of_mem_typeNames hl) hl,
      fun h k _ name hk l _ hl => h name k l hk hl⟩

/-- What is found under a name has this name. -/
theorem mem_typeNames_of_mem_types (hw : ms.WellFormed) {inferred : TextMap}
    (h : k ∈ (Names.ofModels ms inferred).types name) : name ∈ ms.typeNames k := by
  obtain ⟨d,hd,rfl⟩ := List.mem_map.mp h
  obtain ⟨hd,found⟩ := List.mem_filter.mp hd
  obtain ⟨isType,answers⟩ := Bool.and_eq_true_iff.mp found
  obtain ⟨⟨s,hs,kind,declared,-⟩,outside,-⟩ := indexes_of_mem_named hw hd
  have type : s.kind = .classLike ∨ s.kind = .typeAlias := by simpa [Named.isType,kind] using isType
  rw [typeNames,hs]
  show name ∈ if _ then _ else _
  rw [if_pos ⟨type,outside⟩,List.mem_append,Option.mem_toList,Option.mem_toList]
  rcases Bool.or_eq_true_iff.mp answers with simple | qualified
  · exact .inl (declared.trans (congrArg some (beq_iff_eq.mp simple)))
  · exact .inr ((exists_mem_named_iff hw).mp ⟨d,hd,rfl,beq_iff_eq.mp qualified⟩)

variable {ρ : Renaming} (h : ms.Renames ρ ms')
include h

theorem Renames.typeNames (k : NodeKey) : ms'.typeNames (ρ.key k) = ms.typeNames k := by
  rw [Models.typeNames,Models.typeNames,h.shape?,h.isLocal,h.indexedName?]
  cases ms.shape? k <;> simp

theorem Renames.unambiguous (unambiguous : ms.Unambiguous) : ms'.Unambiguous := by
  intro name k l hk hl
  obtain ⟨k,rfl⟩ := ρ.key_surjective k
  obtain ⟨l,rfl⟩ := ρ.key_surjective l
  rw [h.typeNames] at hk hl
  exact congrArg ρ.key (unambiguous name k l hk hl)

/-- A name that is not ambiguous finds the same type, as often as the index has it. -/
theorem Renames.types (hw : ms.WellFormed) (unambiguous : ms.Unambiguous) (inferred : TextMap) (name : String) :
    (Names.ofModels ms' inferred).types name = ((Names.ofModels ms inferred).types name).map ρ.key := by
  have same : ((Names.ofModels ms' inferred).types name).Perm
      (((Names.ofModels ms inferred).types name).map ρ.key) := by
    have all := (h.named.filter fun d => d.isType && d.answersTo name).map (·.key)
    rw [List.filter_map,List.map_map] at all
    rw [Names.types,Names.types,List.map_map]
    exact all
  -- All that is found is one type, and a permutation of copies of it changes nothing.
  cases found : (Names.ofModels ms inferred).types name with
  | nil =>
    rw [found] at same
    exact same.eq_nil
  | cons k ks =>
    have own : k ∈ (Names.ofModels ms inferred).types name := found ▸ List.mem_cons_self
    have once : ∀ l ∈ ((Names.ofModels ms inferred).types name).map ρ.key, l = ρ.key k := by
      intro l hl
      obtain ⟨j,hj,rfl⟩ := List.mem_map.mp hl
      have named := mem_typeNames_of_mem_types hw hj
      exact congrArg ρ.key (unambiguous name j k named (mem_typeNames_of_mem_types hw own))
    rw [← found]
    rw [List.eq_replicate_of_mem once] at same ⊢
    exact List.perm_replicate.mp same

end Models

/-- Where names are not ambiguous, fixtures of the same files tell alike what names mean. -/
theorem Fixture.names_renames {x y : Fixture} {ρ : Renaming} (h : x.models.Renames ρ y.models)
    (inferred : y.inferred = x.inferred) (unambiguous : x.models.Unambiguous) : x.names.Renames ρ y.names where
  models := h
  types name := by
    rw [Fixture.names,inferred]
    exact h.types x.models_wellFormed unambiguous x.inferred name
  inferredText? k := by
    rw [Fixture.names,Fixture.names,inferred,Names.inferredText?_eq y.models_wellFormed,
      Names.inferredText?_eq x.models_wellFormed,h.indexedName?]

end SymbolGraph
