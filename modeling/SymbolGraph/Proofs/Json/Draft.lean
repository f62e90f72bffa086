import SymbolGraph.Json.Draft

/-! What may be written of a draft, and what of it can be read: it must fit the room that a reader has,
and no object may give a key twice. -/
namespace SymbolGraph
namespace Json

mutual
/-- Whether no more than `room` arrays and objects are open at once, and numbers take 32 bits. -/
def fits : Nat → Json → Bool
  | _, .int n => 0 ≤ n && n < 0x100000000
  | 0, .array _ | 0, .object _ => false
  | room+1, .array vs => itemsFit room vs
  | room+1, .object ms => membersFit room ms
  | _, .null | _, .bool _ | _, .text _ => true
def itemsFit : Nat → List Json → Bool
  | _, [] => true
  | room, v :: vs => v.fits room && itemsFit room vs
def membersFit : Nat → List (String × Json) → Bool
  | _, [] => true
  | room, (_,v) :: ms => v.fits room && membersFit room ms
end

def Fits (room : Nat) (v : Json) : Prop := v.fits room = true

instance (room : Nat) (v : Json) : Decidable (v.Fits room) := inferInstanceAs (Decidable (_ = true))

mutual
def distinct : Json → Bool
  | .array vs => itemsDistinct vs
  | .object ms => (ms.map (·.1)).Nodup && membersDistinct ms
  | .null | .bool _ | .int _ | .text _ => true
def itemsDistinct : List Json → Bool
  | [] => true
  | v :: vs => v.distinct && itemsDistinct vs
def membersDistinct : List (String × Json) → Bool
  | [] => true
  | (_,v) :: ms => v.distinct && membersDistinct ms
end

/-- No object gives a key twice. -/
def Distinct (v : Json) : Prop := v.distinct = true

instance (v : Json) : Decidable v.Distinct := inferInstanceAs (Decidable (_ = true))

section Members

variable {room : Nat} {vs : List Json} {ms : List (String × Json)}

theorem itemsFit_iff : itemsFit room vs ↔ ∀ v ∈ vs, v.Fits room := by
  induction vs <;> simp_all [itemsFit,Fits]

theorem membersFit_iff : membersFit room ms ↔ ∀ e ∈ ms, e.2.Fits room := by
  induction ms <;> simp_all [membersFit,Fits]

theorem fits_int {n : Int} : (int n).Fits room ↔ 0 ≤ n ∧ n < 0x100000000 := by
  cases room <;> simp [Fits,fits]

theorem fits_array : (array vs).Fits room ↔ 0 < room ∧ ∀ v ∈ vs, v.Fits (room - 1) := by
  rw [← itemsFit_iff]
  cases room <;> simp [Fits,fits]

theorem fits_object : (object ms).Fits room ↔ 0 < room ∧ ∀ e ∈ ms, e.2.Fits (room - 1) := by
  rw [← membersFit_iff]
  cases room <;> simp [Fits,fits]

@[simp] theorem distinct_text (s : String) : (text s).Distinct := rfl
@[simp] theorem distinct_bool (b : Bool) : (bool b).Distinct := rfl
@[simp] theorem distinct_nat (n : Nat) : (nat n).Distinct := rfl
@[simp] theorem distinct_null : null.Distinct := rfl

@[simp] theorem distinct_array : (array vs).Distinct ↔ ∀ v ∈ vs, v.Distinct := by
  induction vs <;> simp_all [Distinct,distinct,itemsDistinct]

@[simp] theorem distinct_object :
    (object ms).Distinct ↔ (ms.map (·.1)).Nodup ∧ ∀ e ∈ ms, e.2.Distinct := by
  have members : membersDistinct ms ↔ ∀ e ∈ ms, e.2.Distinct := by
    induction ms <;> simp_all [membersDistinct,Distinct]
  rw [Distinct,distinct,Bool.and_eq_true,decide_eq_true_iff,members]

end Members

namespace Draft

mutual
/-- Whether a value is what is written of a draft, but for members that may be left out. -/
def Writes : Draft → Json → Prop
  | .plain v, w => w = v
  | .array ds, w => ∃ vs, w = .array vs ∧ WritesItems ds vs
  | .object ms, w => ∃ ws, w = .object ws ∧ WritesMembers ms ws
def WritesItems : List Draft → List Json → Prop
  | [], vs => vs = []
  | d :: ds, vs => ∃ v vs', vs = v :: vs' ∧ d.Writes v ∧ WritesItems ds vs'
def WritesMembers : List Member → List (String × Json) → Prop
  | [], ws => ws = []
  | (k,omissible,d) :: ms, ws =>
    (omissible = true ∧ WritesMembers ms ws) ∨
      ∃ v ws', ws = (k,v) :: ws' ∧ d.Writes v ∧ WritesMembers ms ws'
end

mutual
/-- Nothing need be left out. -/
theorem writes_toJson : ∀ d : Draft, d.Writes d.toJson
  | .plain _ => rfl
  | .array ds => ⟨_,rfl,writes_items ds⟩
  | .object ms => ⟨_,rfl,writes_members ms⟩
theorem writes_items : ∀ ds : List Draft, WritesItems ds (itemsToJson ds)
  | [] => rfl
  | d :: ds => ⟨_,_,rfl,writes_toJson d,writes_items ds⟩
theorem writes_members : ∀ ms : List Member, WritesMembers ms (membersToJson ms)
  | [] => rfl
  | (_,_,d) :: ms => .inr ⟨_,_,rfl,writes_toJson d,writes_members ms⟩
end

theorem toJson_array (ds : List Draft) : (array ds).toJson = .array (ds.map toJson) := by
  have items : itemsToJson ds = ds.map toJson := by induction ds <;> simp_all [itemsToJson]
  rw [toJson,items]

theorem toJson_object (ms : List Member) :
    (object ms).toJson = .object (ms.map fun e => (e.1,e.2.2.toJson)) := by
  have members : membersToJson ms = ms.map fun e => (e.1,e.2.2.toJson) := by
    induction ms <;> simp_all [membersToJson]
  rw [toJson,members]

section Members

variable {A : Type} {write : A → Draft} {name : String} {d : Draft}

@[simp] theorem Member.required_fst : (Member.required name d).1 = name := rfl
@[simp] theorem Member.required_value : (Member.required name d).2.2 = d := rfl
@[simp] theorem Member.missable_fst {o : Option A} : (Member.missable name write o).1 = name := rfl
@[simp] theorem Member.missable_value {o : Option A} :
    (Member.missable name write o).2.2 = option write o := rfl
@[simp] theorem Member.listed_fst {l : List A} : (Member.listed name write l).1 = name := rfl
@[simp] theorem Member.listed_value {l : List A} : (Member.listed name write l).2.2 = list write l := rfl

variable [DecidableEq A] {standard value : A}

@[simp] theorem Member.defaulted_fst : (Member.defaulted name write standard value).1 = name := rfl
@[simp] theorem Member.defaulted_value :
    (Member.defaulted name write standard value).2.2 = write value := rfl

end Members

/-! ### Keys -/

section Distinct

variable {A : Type} {write : A → Draft}

@[simp] theorem distinct_toJson_plain {v : Json} : (plain v).toJson.Distinct ↔ v.Distinct := Iff.rfl

@[simp] theorem distinct_toJson_text (s : String) : (text s).toJson.Distinct := rfl

@[simp] theorem distinct_toJson_bool (b : Bool) : (bool b).toJson.Distinct := rfl

@[simp] theorem distinct_toJson_nat (n : Nat) : (nat n).toJson.Distinct := rfl

@[simp] theorem distinct_toJson_object {ms : List Member} : (object ms).toJson.Distinct ↔
    (ms.map (·.1)).Nodup ∧ ∀ e ∈ ms, e.2.2.toJson.Distinct := by
  rw [toJson_object,distinct_object,List.map_map,List.forall_mem_map]
  rfl

@[simp] theorem distinct_toJson_list {l : List A} :
    (list write l).toJson.Distinct ↔ ∀ a ∈ l, (write a).toJson.Distinct := by
  simp [list,toJson_array]

@[simp] theorem distinct_toJson_option {o : Option A} :
    (option write o).toJson.Distinct ↔ ∀ a ∈ o, (write a).toJson.Distinct := by
  cases o <;> simp [option]

end Distinct

/-- The keys written are among those of the draft, in their order. -/
theorem keys_sublist {ms : List Member} {ws : List (String × Json)} (h : WritesMembers ms ws) :
    (ws.map (·.1)).Sublist (ms.map (·.1)) := by
  induction ms generalizing ws with
  | nil => obtain rfl : ws = [] := h; exact .slnil
  | cons m ms ih =>
    obtain ⟨k,o,d⟩ := m
    rcases h with ⟨-,h⟩ | ⟨v,ws',rfl,-,h⟩
    · exact .cons _ (ih h)
    · exact .cons_cons _ (ih h)

/-- A member is written, or is left out. -/
theorem written_or_omitted {ms : List Member} {ws : List (String × Json)} (h : WritesMembers ms ws)
    (nodup : (ms.map (·.1)).Nodup) {k : String} {o : Bool} {d : Draft} (mem : (k,o,d) ∈ ms) :
    (∃ v, (k,v) ∈ ws ∧ d.Writes v) ∨ (o = true ∧ k ∉ ws.map (·.1)) := by
  induction ms generalizing ws with
  | nil => cases mem
  | cons m ms ih =>
    obtain ⟨l,p,e⟩ := m
    rw [List.map_cons,List.nodup_cons] at nodup
    rcases h with ⟨ho,h⟩ | ⟨v,ws',rfl,hv,h⟩
    · rcases List.mem_cons.mp mem with same | mem
      · cases same
        exact .inr ⟨ho,fun w => nodup.1 ((keys_sublist h).subset w)⟩
      · exact ih h nodup.2 mem
    · rcases List.mem_cons.mp mem with same | later
      · cases same
        exact .inl ⟨v,List.mem_cons_self,hv⟩
      · refine (ih h nodup.2 later).imp (fun ⟨v,hv⟩ => ⟨v,List.mem_cons_of_mem _ hv.1,hv.2⟩) fun ⟨ho,hk⟩ => ?_
        have other : k ≠ l := by
          rintro rfl
          exact nodup.1 (List.mem_map.mpr ⟨_,later,rfl⟩)
        exact ⟨ho,by simpa [other] using hk⟩

end Draft
end Json
end SymbolGraph
