import SymbolGraph.Fixture
import SymbolGraph.Proofs.Java.Codec
import SymbolGraph.Proofs.Kotlin.Codec

/-! Fixtures are read back from their texts, unless a class of Java has a member class that is written with
its own kind. -/
namespace SymbolGraph

open Json

namespace TextMap

theorem insertEntry_of_forall_lt {k v : String} {l : List (String × String)} (h : ∀ e ∈ l, e.1 < k) :
    Text.insertEntry k v l = l ++ [(k,v)] := by
  induction l with
  | nil => rfl
  | cons e l ih =>
    have lt : e.1 < k := h e List.mem_cons_self
    have notLt : ¬k < e.1 := fun h => String.lt_irrefl _ (String.lt_trans lt h)
    have ne : k ≠ e.1 := by rintro rfl; exact notLt lt
    rw [Text.insertEntry,if_neg notLt,if_neg ne,ih fun e he => h e (List.mem_cons_of_mem _ he)]
    rfl

/-- Entries in order are appended. -/
theorem entries_foldl (l : List (String × String)) (m : TextMap)
    (h : (m.entries ++ l).Pairwise fun a b => a.1 < b.1) :
    (l.foldl (fun m (k,v) => m.insert k v) m).entries = m.entries ++ l := by
  induction l generalizing m with
  | nil => simp
  | cons e l ih =>
    obtain ⟨k,v⟩ := e
    have last : ∀ e ∈ m.entries, e.1 < k := fun e he =>
      (List.pairwise_append.mp h).2.2 e he (k,v) List.mem_cons_self
    have entries : (m.insert k v).entries = m.entries ++ [(k,v)] := insertEntry_of_forall_lt last
    rw [List.foldl_cons,ih _ (by rw [entries]; simpa using h),entries]
    simp

theorem ofList_entries (m : TextMap) : ofList m.entries = m := by
  have entries : (ofList m.entries).entries = m.entries :=
    entries_foldl m.entries empty (by simpa [empty] using m.sorted)
  obtain ⟨l,h⟩ := m
  cases e : ofList l
  rw [e] at entries
  simpa using entries

theorem keys_nodup (m : TextMap) : (m.entries.map (·.1)).Nodup := by
  rw [List.Nodup,List.pairwise_map]
  refine m.sorted.imp fun {a b} lt same => ?_
  rw [same] at lt
  exact String.lt_irrefl _ lt

theorem distinct_toJson (m : TextMap) : m.toJson.Distinct := by
  refine distinct_object.mpr ⟨?_,fun e he => ?_⟩
  · simpa [Function.comp_def] using m.keys_nodup
  · obtain ⟨p,-,rfl⟩ := List.mem_map.mp he
    rfl

theorem mapM_memberDocs (m : Mode) (l : List (String × String)) :
    (memberDocs (l.map fun (k,v) => (k,Json.text v))).mapM (fun (k,d) =>
      match k with
      | none => .error .malformed
      | some k => (Decoder.text m.inner d).map (k,·)) = (.ok l : Except Fault _) := by
  induction l with
  | nil => rfl
  | cons e l ih =>
    simp only [List.map_cons,memberDocs,List.mapM_cons,ih]
    rfl

theorem reads (n : TextMap) (m : Mode) : Reads (.map ofList (.pairs .text)) m (.plain n.toJson) n := by
  refine .plain n.distinct_toJson fun fits => ?_
  have room := (fits_object.mp fits).1
  have pairs : Decoder.pairs Decoder.text m n.toJson.toDoc = .ok n.entries := by
    have items := mapM_memberDocs m n.entries
    simp only [Decoder.pairs,toJson,toDoc,Mode.enter_of_pos room]
    exact (congrArg (fun r : Except Fault _ => r >>= fun ps => pure ps) items).trans rfl
  rw [Decoder.map,pairs]
  exact congrArg Except.ok n.ofList_entries

end TextMap

namespace Fixture

theorem reads (f : Fixture) (m : Mode) : Reads decoder m f.draft f :=
  .object (by decide) fun _ => (((Fields.Reads.listed fun _ k _ => k.reads _).map mk).seq
    (.listed fun _ j _ => j.reads _)).seq (.defaulted (f.inferred.reads _))

/-- The fixture is written without any key twice. -/
theorem distinct_iff (f : Fixture) :
    f.toJson.Distinct ↔ ∀ file ∈ f.java, ∀ c ∈ file.classes, ¬c.HasMemberClass := by
  have inferred := f.inferred.distinct_toJson
  simp [toJson,draft,inferred]

/-- A fixture is read back from its text, whatever is left out of what may be left out, unless some object
gives a key twice. When nothing is left out, this is so exactly if a class of Java has a member class,
whose own kind is written beside the tag of members. -/
theorem decode_render (f : Fixture) :
    (∀ v, f.draft.Writes v → v.Fits 127 →
      ∀ g, decoder.decode v.render = .ok g ↔ v.Distinct ∧ g = f) ∧
    (f.toJson.Fits 127 → (decoder.decode f.toJson.render = .ok f ↔
      ∀ file ∈ f.java, ∀ c ∈ file.classes, ¬c.HasMemberClass)) := by
  have partly : ∀ v, f.draft.Writes v → v.Fits 127 →
      ∀ g, decoder.decode v.render = .ok g ↔ v.Distinct ∧ g = f :=
    fun _ written fits => (f.reads .whole).decode written fits
  refine ⟨partly,fun fits => ?_⟩
  rw [partly f.toJson (Draft.writes_toJson f.draft) fits,← distinct_iff]
  simp

/-- A fixture of one class of Java. -/
def ofMembers (members : List Java.Member) : Fixture where
  kotlin := []
  java := [⟨"A.java","",[⟨"A",.plain,.empty,[],[],[],[],members,1⟩]⟩]
  inferred := .empty

def interfaceMember : Java.Member := .classLike ⟨"B",.interface,.empty,[],[],[],[],[],2⟩

theorem decode_render_interfaceMember :
    decoder.decode (ofMembers []).toJson.render = .ok (ofMembers []) ∧
      decoder.decode (ofMembers [interfaceMember]).toJson.render ≠ .ok (ofMembers [interfaceMember]) := by
  constructor
  · refine ((decode_render (ofMembers [])).2 (by decide)).mpr fun file hf c hc => ?_
    obtain rfl := List.mem_singleton.mp hf
    obtain rfl := List.mem_singleton.mp hc
    rintro ⟨_,member⟩
    cases member
  · intro read
    have none := ((decode_render (ofMembers [interfaceMember])).2 (by decide)).mp read
    exact none _ (List.mem_singleton.mpr rfl) _ (List.mem_singleton.mpr rfl) ⟨_,List.mem_singleton.mpr rfl⟩

end Fixture

end SymbolGraph
