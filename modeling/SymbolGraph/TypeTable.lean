import SymbolGraph.Type

/-! The types of a run in the order in which they were met. A type is known by its position, and equal
types have one position. -/
namespace SymbolGraph

structure TypeTable where
  entries : Array ResolvedType
  nodup : entries.toList.Nodup

namespace TypeTable

def empty : TypeTable := ⟨#[],by simp⟩

instance : Inhabited TypeTable := ⟨empty⟩

def size (t : TypeTable) : Nat := t.entries.size

def get? (t : TypeTable) (id : TypeId) : Option ResolvedType := t.entries[id.index]?

/-- The id of a type, which is appended if it is new. -/
def intern (t : TypeTable) (type : ResolvedType) : TypeId × TypeTable :=
  match h : t.entries.findIdx? (· = type) with
  | some i => (⟨i⟩,t)
  | none => (⟨t.entries.size⟩,⟨t.entries.push type,by
      have new : type ∉ t.entries.toList := by
        simp only [Array.findIdx?_eq_none_iff,decide_eq_false_iff_not] at h
        exact fun m => h type (by simpa using m) rfl
      rw [Array.toList_push,List.nodup_append]
      exact ⟨t.nodup,by simp,by rintro a ha b hb rfl; simp_all⟩⟩)

@[simp] theorem size_empty : empty.size = 0 := rfl

@[simp] theorem get?_empty (id : TypeId) : empty.get? id = none := rfl

/-- The id that a type gets is the id of that type. -/
@[simp] theorem get?_intern (t : TypeTable) (type : ResolvedType) :
    (t.intern type).2.get? (t.intern type).1 = some type := by
  unfold intern
  split
  · rename_i i h
    obtain ⟨hi,e,_⟩ := Array.findIdx?_eq_some_iff_getElem.mp h
    simpa [get?,hi] using e
  · simp [get?]

/-- Ids that were given out keep their types. -/
theorem get?_intern_of_some {t : TypeTable} {id : TypeId} {u : ResolvedType} (type : ResolvedType)
    (h : t.get? id = some u) : (t.intern type).2.get? id = some u := by
  obtain ⟨hi,e⟩ := Array.getElem?_eq_some_iff.mp h
  unfold intern
  split
  · exact h
  · simp [get?,Array.getElem?_push,Nat.ne_of_lt hi,hi,e]

theorem get?_injective {t : TypeTable} {i j : TypeId} {u : ResolvedType} (hi : t.get? i = some u)
    (hj : t.get? j = some u) : i = j := by
  obtain ⟨hi,ei⟩ := Array.getElem?_eq_some_iff.mp hi
  obtain ⟨hj,ej⟩ := Array.getElem?_eq_some_iff.mp hj
  have hi' : i.index < t.entries.toList.length := by simpa using hi
  have hj' : j.index < t.entries.toList.length := by simpa using hj
  have e : t.entries.toList[i.index] = t.entries.toList[j.index] := by simp [ei,ej]
  have := (List.getElem_inj t.nodup).mp e
  cases i; cases j; simp_all

section Interning

variable {t : TypeTable} {id : TypeId} {u : ResolvedType}

theorem isSome_get? : (t.get? id).isSome ↔ id.index < t.size := by simp [get?,size]

theorem exists_get? (h : u ∈ t.entries.toList) : ∃ id, t.get? id = some u := by
  obtain ⟨i,hi⟩ := List.getElem?_of_mem h
  exact ⟨⟨i⟩,by simpa [get?] using hi⟩

theorem mem_of_get? (h : t.get? id = some u) : u ∈ t.entries.toList := by
  have found : t.entries.toList[id.index]? = some u := by simpa [get?] using h
  exact List.mem_of_getElem? found

/-- A type that is there keeps its id, and the table stays as it is. -/
theorem intern_of_some (h : t.get? id = some u) : t.intern u = (id,t) := by
  have same := get?_intern t u
  have there := mem_of_get? h
  unfold intern at same ⊢
  split at same
  · rw [get?_injective h same]
  · rename_i none
    have new : u ∉ t.entries.toList := by
      simp only [Array.findIdx?_eq_none_iff,decide_eq_false_iff_not] at none
      exact fun m => none u (by simpa using m) rfl
    exact (new there).elim

/-- A new type gets the id that follows on those given so far. -/
theorem intern_of_new (h : u ∉ t.entries.toList) :
    (t.intern u).1 = ⟨t.size⟩ ∧ (t.intern u).2.entries = t.entries.push u := by
  unfold intern
  split
  · rename_i i found
    obtain ⟨hi,e,-⟩ := Array.findIdx?_eq_some_iff_getElem.mp found
    have e : t.entries[i] = u := by simpa using e
    exact (h (by simp [← e])).elim
  · exact ⟨rfl,rfl⟩

end Interning

end TypeTable
end SymbolGraph
