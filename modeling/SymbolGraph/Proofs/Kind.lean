import SymbolGraph.Kind
import SymbolGraph.Location
import SymbolGraph.Proofs.Json.Decode

/-! The words of nodes and their lines are read back. -/
namespace SymbolGraph

open Json

theorem filter_contains_of_sublist {A : Type} [BEq A] [LawfulBEq A] {l all : List A} (h : l.Sublist all)
    (nodup : all.Nodup) : all.filter l.contains = l := by
  induction h with
  | slnil => rfl
  | @cons l all a h ih =>
    rw [List.nodup_cons] at nodup
    have absent : a ∉ l := fun m => nodup.1 (h.subset m)
    rw [List.filter_cons_of_neg (by simpa using absent),ih nodup.2]
  | @cons_cons l all a h ih =>
    rw [List.nodup_cons] at nodup
    rw [List.filter_cons_of_pos (by simp)]
    congr 1
    rw [← ih nodup.2]
    refine List.filter_congr fun b hb => ?_
    have other : b ≠ a := by rintro rfl; exact nodup.1 hb
    simp [other,hb]

namespace Modifiers

theorem ofList_toList (s : Modifiers) : ofList s.toList = s := by
  obtain ⟨l,h⟩ := s
  simp only [ofList,mk.injEq]
  exact filter_contains_of_sublist h (by decide)

theorem lookup_word (m : Modifier) : (wordTable Modifier.all Modifier.word).lookup m.word = some m := by
  cases m <;> decide

def wordsDraft (s : Modifiers) : Draft := .list (fun m => .text m.word) s.toList

theorem wordsDraft_toJson (s : Modifiers) : s.wordsDraft.toJson = s.toJson := by
  simp [wordsDraft,Draft.list,Draft.toJson_array,toJson,Json.list,Draft.text,Draft.toJson,Function.comp_def]

theorem distinct_toJson (s : Modifiers) : s.toJson.Distinct := by
  simp [toJson,Json.list]

theorem reads (s : Modifiers) (m : Mode) : Reads decoder m (.plain s.toJson) s := by
  have words : Reads decoder m s.wordsDraft (ofList s.toList) :=
    .map ofList (.list fun _ w _ => .word (lookup_word w))
  rw [ofList_toList] at words
  rw [← wordsDraft_toJson]
  exact words.settled (by rw [wordsDraft_toJson]; exact s.distinct_toJson)

theorem field_reads (s : Modifiers) (m : Mode) : field.Reads m [s.draft] s := .defaulted (s.reads m)

end Modifiers

@[simp] theorem Modifiers.draft_fst (s : Modifiers) : s.draft.1 = "modifiers" := rfl

@[simp] theorem Modifiers.distinct (s : Modifiers) : s.draft.2.2.toJson.Distinct := s.distinct_toJson

@[simp] theorem lineDraft_fst (line : Nat) : (lineDraft line).1 = "line" := rfl

@[simp] theorem lineDraft_value (line : Nat) : (lineDraft line).2.2 = .nat line := rfl

theorem lineField_reads (line : Nat) (m : Mode) : lineField.Reads m [lineDraft line] line :=
  .defaulted (.nat line)

theorem Variance.lookup_word (v : Variance) : (wordTable all word).lookup v.word = some v := by
  cases v <;> decide

theorem ClassKind.lookup_word (k : ClassKind) : (wordTable all word).lookup k.word = some k := by
  cases k <;> decide

end SymbolGraph
