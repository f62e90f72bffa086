/-! Maps from texts to texts, sorted by key. The order is that of the characters. -/
namespace SymbolGraph
namespace Text

def insertEntry (k v : String) : List (String × String) → List (String × String)
  | [] => [(k,v)]
  | (k',v') :: r =>
    if k < k' then (k,v) :: (k',v') :: r
    else if k = k' then (k,v) :: r
    else (k',v') :: insertEntry k v r

theorem mem_insertEntry {k v : String} {l : List (String × String)} {e : String × String}
    (h : e ∈ insertEntry k v l) : e = (k,v) ∨ e ∈ l := by
  induction l with
  | nil => simpa [insertEntry] using h
  | cons a l ih =>
    simp only [insertEntry] at h
    split at h
    · simpa using h
    split at h
    · rcases List.mem_cons.mp h with h | h
      · exact .inl h
      · exact .inr (List.mem_cons_of_mem _ h)
    · rcases List.mem_cons.mp h with h | h
      · exact .inr (h ▸ List.mem_cons_self)
      · exact (ih h).imp id (List.mem_cons_of_mem _)

theorem pairwise_insertEntry (k v : String) {l : List (String × String)}
    (h : l.Pairwise fun a b => a.1 < b.1) : (insertEntry k v l).Pairwise fun a b => a.1 < b.1 := by
  induction l with
  | nil => simp [insertEntry]
  | cons a l ih =>
    have hl := List.pairwise_cons.mp h
    simp only [insertEntry]
    split
    · rename_i lt
      refine List.pairwise_cons.mpr ⟨fun e he => ?_,h⟩
      rcases List.mem_cons.mp he with rfl | he
      · exact lt
      · exact String.lt_trans lt (hl.1 e he)
    split
    · rename_i e
      exact List.pairwise_cons.mpr ⟨fun x hx => e ▸ hl.1 x hx,hl.2⟩
    · rename_i lt ne
      refine List.pairwise_cons.mpr ⟨fun e he => ?_,ih hl.2⟩
      rcases mem_insertEntry he with rfl | he
      · exact Std.lt_of_le_of_ne (String.not_lt.mp lt) (Ne.symm ne)
      · exact hl.1 e he

end Text

/-- A map from texts to texts. -/
structure TextMap where
  entries : List (String × String)
  sorted : entries.Pairwise fun a b => a.1 < b.1
  deriving DecidableEq

namespace TextMap

def empty : TextMap := ⟨[],.nil⟩

/-- Writes over what the key was mapped to before. -/
def insert (m : TextMap) (k v : String) : TextMap :=
  ⟨Text.insertEntry k v m.entries,Text.pairwise_insertEntry k v m.sorted⟩

/-- Of several values for one key the last counts. -/
def ofList (l : List (String × String)) : TextMap := l.foldl (fun m (k,v) => m.insert k v) empty

def get? (m : TextMap) (k : String) : Option String := m.entries.lookup k

end TextMap
end SymbolGraph
