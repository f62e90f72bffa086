import SymbolGraph.Json.Decode
import SymbolGraph.Proofs.Json.Draft
import SymbolGraph.Proofs.Json.Text

/-! Decoders read what is written of a draft. A decoder that reads a draft as a value answers with the
value exactly if no object of what is written gives a key twice, and with a fault otherwise. -/
namespace SymbolGraph
namespace Json

variable {A B E : Type}

/-- A result is a value if a condition holds, and a fault if not. -/
def Settles (r : Except E A) (good : Prop) (a : A) : Prop := ∀ x, r = .ok x ↔ good ∧ x = a

namespace Settles

variable {r : Except E A} {good good' : Prop} {a : A}

theorem ok (h : good) : Settles (.ok a : Except E A) good a := fun x => by
  simp [h,eq_comm]

theorem error (e : E) (h : ¬good) : Settles (.error e) good a := fun x => by simp [h]

theorem congr (h : Settles r good a) (iff : good ↔ good') : Settles r good' a := fun x => by
  rw [h x,iff]

theorem map (f : A → B) (h : Settles r good a) : Settles (r.map f) good (f a) := by
  cases r with
  | error e => exact .error e fun g => by cases (h a).mpr ⟨g,rfl⟩
  | ok b =>
    obtain ⟨g,rfl⟩ := (h b).mp rfl
    exact .ok g

theorem mapError {F : Type} (f : E → F) (h : Settles r good a) : Settles (r.mapError f) good a := by
  cases r with
  | error e => exact .error _ fun g => by cases (h a).mpr ⟨g,rfl⟩
  | ok b =>
    obtain ⟨g,rfl⟩ := (h b).mp rfl
    exact .ok g

theorem bind {f : A → Except E B} {b : B} (h : Settles r good a) (hf : Settles (f a) good' b) :
    Settles (r >>= f) (good ∧ good') b := by
  cases r with
  | error e => exact .error e fun g => by cases (h a).mpr ⟨g.1,rfl⟩
  | ok c =>
    obtain ⟨g,rfl⟩ := (h c).mp rfl
    exact hf.congr ⟨fun g' => ⟨g,g'⟩,And.right⟩

theorem ap {f : Verdict (A → B)} {x : Verdict A} {g : A → B} {a : A} (hf : Settles f good g)
    (hx : Settles x good' a) : Settles (Verdict.ap f x) (good ∧ good') (g a) := by
  cases f with
  | error e =>
    have bad : ¬good := fun h => by cases (hf g).mpr ⟨h,rfl⟩
    cases x <;> exact .error _ fun h => bad h.1
  | ok g =>
    obtain ⟨hg,rfl⟩ := (hf g).mp rfl
    cases x with
    | error e => exact .error _ fun h => by cases (hx a).mpr ⟨h.2,rfl⟩
    | ok a =>
      obtain ⟨ha,rfl⟩ := (hx a).mp rfl
      exact .ok ⟨hg,ha⟩

end Settles

/-- The mode inside an array or object. -/
def Mode.inner (m : Mode) : Mode := { m with room := m.room - 1 }

theorem Mode.enter_of_pos {m : Mode} (h : 0 < m.room) : m.enter = .ok m.inner := by
  have room : m.room ≠ 0 := by omega
  simp [enter,inner,room]

/-- In a mode, a decoder takes what is written of a draft for a value. -/
def Reads (dec : Decoder A) (m : Mode) (d : Draft) (a : A) : Prop :=
  ∀ v, d.Writes v → v.Fits m.room → Settles (dec m v.toDoc) v.Distinct a

theorem decimal_toDigits (n : Nat) : Number.decimal (Nat.toDigits 10 n) = n := by
  conv_rhs => rw [← Nat.ofDigitChars_ten_toDigits (n := n)]
  simp [Number.decimal,Nat.ofDigitChars,Number.digitValue,Nat.mul_comm]

theorem nat?_ofInt (n : Nat) : (Number.ofInt n).nat? = some n := by
  have written : Number.ofInt n = ⟨false,Nat.toDigits 10 n,none,none⟩ := by simp [Number.ofInt]
  rw [written,Number.nat?,decimal_toDigits]

theorem tooLarge_ofInt {n : Int} (h : 0 ≤ n ∧ n < 0x100000000) : (Number.ofInt n).tooLarge = false := by
  have small : n.natAbs < Number.bound64 := by rw [Number.bound64]; omega
  simp [Number.ofInt,Number.tooLarge,decimal_toDigits,small]

mutual
theorem readFault?_of_fits : ∀ (v : Json) (room : Nat), v.Fits room → v.toDoc.readFault? room = none
  | .null, _, _ | .bool _, _, _ | .text _, _, _ => rfl
  | .int n, room, h => by
    simp [toDoc,Doc.readFault?,tooLarge_ofInt (fits_int.mp h)]
  | .array vs, room, h => by
    rw [fits_array] at h
    simp [toDoc,Doc.readFault?,Nat.ne_of_gt h.1,readItems?_of_fit vs (room - 1) h.2,Close.readFault?]
  | .object ms, room, h => by
    rw [fits_object] at h
    simp [toDoc,Doc.readFault?,Nat.ne_of_gt h.1,readMembers?_of_fit ms (room - 1) h.2,Close.readFault?]
theorem readItems?_of_fit : ∀ (vs : List Json) (room : Nat), (∀ v ∈ vs, v.Fits room) →
    Doc.readItems? room (itemDocs vs) = none
  | [], _, _ => rfl
  | v :: vs, room, h => by
    have first := readFault?_of_fits v room (h v List.mem_cons_self)
    have later := readItems?_of_fit vs room fun v hv => h v (List.mem_cons_of_mem _ hv)
    simp [itemDocs,Doc.readItems?,first,later]
theorem readMembers?_of_fit : ∀ (ms : List (String × Json)) (room : Nat), (∀ e ∈ ms, e.2.Fits room) →
    Doc.readMembers? room (memberDocs ms) = none
  | [], _, _ => rfl
  | (k,v) :: ms, room, h => by
    have first := readFault?_of_fits v room (h (k,v) List.mem_cons_self)
    have later := readMembers?_of_fit ms room fun e he => h e (List.mem_cons_of_mem _ he)
    simp [memberDocs,Doc.readMembers?,first,later]
end

namespace Reads

variable {dec : Decoder A} {m : Mode} {d : Draft} {a : A}

/-- A text that holds what is written of a draft is read as the value. -/
theorem decode (h : Reads dec .whole d a) {v : Json} (hw : d.Writes v) (hv : v.Fits 127) :
    Settles (dec.decode v.render) v.Distinct a := by
  have alone : dec.decode v.render = dec .whole v.toDoc := by
    rw [Decoder.decode,ofString_render]
    dsimp only
    cases dec .whole v.toDoc <;> rfl
  rw [alone]
  exact h v hw hv

theorem plain {v : Json} (hv : v.Distinct) (h : v.Fits m.room → dec m v.toDoc = .ok a) :
    Reads dec m (.plain v) a := by
  rintro _ rfl fits
  rw [h fits]
  exact .ok hv

theorem text (s : String) : Reads Decoder.text m (.text s) s := plain rfl fun _ => rfl

theorem bool (b : Bool) : Reads Decoder.bool m (.bool b) b := plain rfl fun _ => rfl

theorem nat (n : Nat) : Reads Decoder.word32 m (.nat n) n := by
  refine plain rfl fun fits => ?_
  have small : n < 0x100000000 := Int.ofNat_lt.mp (fits_int.mp fits).2
  simp [Decoder.word32,Decoder.natBelow,Json.nat,toDoc,nat?_ofInt,small]

theorem map (f : A → B) (h : Reads dec m d a) : Reads (.map f dec) m d (f a) :=
  fun v hw hv => (h v hw hv).map f

/-- A word of an enumeration. -/
theorem word {words : List (String × A)} {s : String} (h : words.lookup s = some a) :
    Reads (.word words) m (.text s) a :=
  plain rfl fun _ => by simp [Decoder.word,Decoder.alternative,toDoc,h]

theorem nullable {write : A → Draft} (null : ∀ a, write a ≠ .plain .null) {o : Option A}
    (h : ∀ a, o = some a → Reads dec m (write a) a) :
    Reads (.nullable dec) m (.option write o) o := by
  cases o with
  | none => exact plain rfl fun _ => rfl
  | some a =>
    intro v hw hv
    have read := (h a rfl v hw hv).map some
    cases v with
    | null =>
      have written : (write a).Writes .null := hw
      cases hd : write a <;> rw [hd] at written
      · cases written; exact absurd hd (null a)
      · obtain ⟨_,e,_⟩ := written; cases e
      · obtain ⟨_,e,_⟩ := written; cases e
    | bool | int | text | array | object => exact read

theorem list {write : A → Draft} {l : List A}
    (h : 0 < m.room → ∀ a ∈ l, Reads dec m.inner (write a) a) :
    Reads (.list dec) m (.list write l) l := by
  rintro _ ⟨vs,rfl,hw⟩ hv
  rw [fits_array] at hv
  have items : Settles ((itemDocs vs).mapM (dec m.inner)) (∀ v ∈ vs, v.Distinct) l := by
    have all := h hv.1
    have fits := hv.2
    clear h hv
    induction l generalizing vs with
    | nil =>
      obtain rfl : vs = [] := hw
      exact .ok nofun
    | cons a l ih =>
      obtain ⟨v,vs,rfl,hv,hw⟩ := hw
      have first := all a List.mem_cons_self v hv (fits v List.mem_cons_self)
      have later := ih vs hw (fun a ha => all a (List.mem_cons_of_mem _ ha))
        fun v hv => fits v (List.mem_cons_of_mem _ hv)
      rw [itemDocs,List.mapM_cons]
      have done : Settles (pure (a :: l) : Except Fault (List A)) True (a :: l) := .ok trivial
      refine (first.bind (later.bind done)).congr ?_
      simp
  have run : Decoder.list dec m (array vs).toDoc = (itemDocs vs).mapM (dec m.inner) := by
    simp only [Decoder.list,toDoc,Mode.enter_of_pos hv.1,Close.readFault?,Mode.fault?]
    exact bind_pure ((itemDocs vs).mapM (dec m.inner))
  rw [run]
  exact items.congr distinct_array.symm

/-- What is always written in full is read as well. -/
theorem settled (h : Reads dec m d a) (hd : d.toJson.Distinct) : Reads dec m (.plain d.toJson) a :=
  plain hd fun fits => (h _ (Draft.writes_toJson d) fits a).mpr ⟨hd,rfl⟩

end Reads

@[simp] theorem Draft.text_ne_null (s : String) : Draft.text s ≠ .plain .null := by simp [Draft.text]

/-! ### Objects -/

/-- What is written of the members of a draft, inside an object. -/
structure Written (m : Mode) (ms : List Draft.Member) (ws : List (String × Json)) : Prop where
  writes : Draft.WritesMembers ms ws
  nodup : (ms.map (·.1)).Nodup
  fits : ∀ e ∈ ws, e.2.Fits m.room

/-- The members of an object at their places. -/
def placed (ws : List (String × Json)) : List (Nat × Member) := (memberDocs ws).mapIdx fun i e => (i,e)

section Placed

variable {ws : List (String × Json)} {k : String}

theorem memberDocs_eq (ws : List (String × Json)) : memberDocs ws = ws.map fun e => (some e.1,e.2.toDoc) := by
  induction ws <;> simp_all [memberDocs]

theorem mem_placed {i : Nat} {k? : Option String} {d : Doc} :
    (i,k?,d) ∈ placed ws ↔ ∃ e, ws[i]? = some e ∧ k? = some e.1 ∧ d = e.2.toDoc := by
  simp only [placed,memberDocs_eq,List.mem_mapIdx,List.length_map,List.getElem_map,Prod.mk.injEq,
    List.getElem?_eq_some_iff]
  constructor
  · rintro ⟨j,hj,rfl,rfl,rfl⟩; exact ⟨_,⟨hj,rfl⟩,rfl,rfl⟩
  · rintro ⟨e,⟨hi,rfl⟩,rfl,rfl⟩; exact ⟨i,hi,rfl,rfl,rfl⟩

theorem value_unique (nodup : (ws.map (·.1)).Nodup) {v w : Json} (hv : (k,v) ∈ ws) (hw : (k,w) ∈ ws) :
    v = w := by
  induction ws with
  | nil => cases hv
  | cons e ws ih =>
    rw [List.map_cons,List.nodup_cons] at nodup
    have later {v : Json} (h : (k,v) ∈ ws) : e.1 ≠ k := fun same =>
      nodup.1 (same ▸ List.mem_map.mpr ⟨_,h,rfl⟩)
    rcases List.mem_cons.mp hv with rfl | hv <;> rcases List.mem_cons.mp hw with same | hw
    · exact (Prod.mk.inj same).2.symm
    · exact absurd rfl (later hw)
    · exact absurd (Prod.mk.inj same).1.symm (later hv)
    · exact ih nodup.2 hv hw

theorem member?_placed_of_mem (nodup : (ws.map (·.1)).Nodup) {v : Json} (mem : (k,v) ∈ ws) :
    ∃ i, Fields.member? k (placed ws) = some (i,v.toDoc) := by
  rw [Fields.member?]
  generalize found : List.find? _ (placed ws) = entry
  cases entry with
  | none =>
    obtain ⟨i,hi⟩ := List.mem_iff_getElem?.mp mem
    have here : (i,some k,v.toDoc) ∈ placed ws := mem_placed.mpr ⟨_,hi,rfl,rfl⟩
    simpa using List.find?_eq_none.mp found _ here
  | some p =>
    obtain ⟨i,l,d⟩ := p
    obtain ⟨⟨l',w⟩,hi,rfl,rfl⟩ := mem_placed.mp (List.mem_of_find?_eq_some found)
    obtain rfl : l' = k := by simpa using List.find?_some found
    rw [value_unique nodup mem (List.mem_of_getElem? hi)]
    exact ⟨i,rfl⟩

theorem member?_placed_of_not_mem (h : k ∉ ws.map (·.1)) : Fields.member? k (placed ws) = none := by
  simp only [Fields.member?,Option.map_eq_none_iff,List.find?_eq_none]
  rintro ⟨i,l,d⟩ mem
  obtain ⟨e,hi,rfl,rfl⟩ := mem_placed.mp mem
  have other : e.1 ≠ k := fun same => h (List.mem_map.mpr ⟨e,List.mem_of_getElem? hi,same⟩)
  simpa using other

/-- The frame of an object is right if its keys are different and known. -/
theorem frameFault?_ok {names seen : List String} {ms : List (Nat × Member)} {keys : List String}
    (hk : ms.map (·.2.1) = keys.map some) (nodup : keys.Nodup) (known : ∀ k ∈ keys, k ∈ names)
    (new : ∀ k ∈ keys, k ∉ seen) (count : Nat) :
    Fields.frameFault? names seen .closed ms count = .ok () := by
  induction ms generalizing seen keys with
  | nil => rfl
  | cons e ms ih =>
    obtain ⟨i,l,d⟩ := e
    cases keys with
    | nil => cases hk
    | cons k keys =>
      obtain ⟨rfl,later⟩ := List.cons.inj hk
      rw [List.nodup_cons] at nodup
      have here : names.contains k = true := by simpa using known k List.mem_cons_self
      have first : seen.contains k = false := by simpa using new k List.mem_cons_self
      simp only [Fields.frameFault?,here,first,if_true,Bool.false_eq_true,if_false]
      refine ih later nodup.2 (fun k hk => known k (List.mem_cons_of_mem _ hk)) fun l hl => ?_
      have other : l ≠ k := fun same => nodup.1 (same ▸ hl)
      simpa [other] using new l (List.mem_cons_of_mem _ hl)

theorem keys_placed (ws : List (String × Json)) : (placed ws).map (·.2.1) = (ws.map (·.1)).map some := by
  apply List.ext_getElem <;> simp [placed,memberDocs_eq]

end Placed

namespace Fields

/-- Fields take members of a draft for a value, wherever the members stand in an object. -/
structure Reads (fs : Fields A) (m : Mode) (ms : List Draft.Member) (a : A) : Prop where
  names : fs.names = ms.map (·.1)
  read : ∀ {all ws}, Written m all ws → ms ⊆ all → ∀ count,
    Settles (fs.ofMembers m (placed ws) count) (∀ e ∈ ws, e.1 ∈ fs.names → e.2.Distinct) a

namespace Reads

variable {m : Mode} {ms ns : List Draft.Member}

theorem pure (a : A) : (Fields.pure a).Reads m [] a := ⟨rfl,fun _ _ _ => .ok nofun⟩

theorem ap {f : Fields (A → B)} {x : Fields A} {g : A → B} {a : A} (hf : f.Reads m ms g)
    (hx : x.Reads m ns a) : (Fields.ap f x).Reads m (ms ++ ns) (g a) where
  names := by rw [Fields.ap,hf.names,hx.names,List.map_append]
  read w sub count := by
    have first := hf.read w (fun _ h => sub (List.mem_append_left _ h)) count
    have later := hx.read w (fun _ h => sub (List.mem_append_right _ h)) count
    refine (first.ap later).congr ?_
    simp only [Fields.ap,List.mem_append,or_imp,imp_and,forall_and]

theorem map {x : Fields A} {a : A} (f : A → B) (hx : x.Reads m ns a) : (f <$> x).Reads m ns (f a) :=
  (pure f).ap hx

theorem seq {f : Fields (A → B)} {x : Fields A} {g : A → B} {a : A} (hf : f.Reads m ms g)
    (hx : x.Reads m ns a) : (f <*> x).Reads m (ms ++ ns) (g a) := hf.ap hx

theorem field {dec : Decoder A} {name : String} {o : Bool} {d : Draft} {a : A} {absent : Option A}
    (short : Option A) (h : Json.Reads dec m d a) (ha : o = true → absent = some a) :
    (Fields.field name dec absent short).Reads m [(name,o,d)] a where
  names := rfl
  read {all ws} w sub count := by
    have nodup : (ws.map (·.1)).Nodup := w.nodup.sublist (Draft.keys_sublist w.writes)
    have mem : (name,o,d) ∈ all := sub (List.mem_singleton.mpr rfl)
    have same {v : Json} (mem : (name,v) ∈ ws) :
        (∀ e ∈ ws, e.1 ∈ [name] → e.2.Distinct) ↔ v.Distinct := by
      simp only [List.mem_singleton]
      refine ⟨fun h => h _ mem rfl,fun h e he name => ?_⟩
      obtain ⟨l,w⟩ := e
      obtain rfl : l = _ := name
      rwa [value_unique nodup he mem]
    rcases Draft.written_or_omitted w.writes w.nodup mem with ⟨v,hv,hw⟩ | ⟨ho,hk⟩
    · obtain ⟨i,found⟩ := member?_placed_of_mem nodup hv
      refine Settles.congr ?_ (same hv).symm
      simp only [Fields.field,found]
      exact (h v hw (w.fits _ hv)).mapError _
    · simp only [Fields.field,member?_placed_of_not_mem hk,ha ho]
      refine .ok fun e he name => absurd (List.mem_map.mpr ⟨e,he,?_⟩) hk
      simpa using name

theorem required {dec : Decoder A} {name : String} {d : Draft} {a : A} (h : Json.Reads dec m d a) :
    (Fields.required name dec).Reads m [.required name d] a := field none h nofun

theorem defaulted [DecidableEq A] {dec : Decoder A} {name : String} {write : A → Draft}
    {standard a : A} (h : Json.Reads dec m (write a) a) :
    (Fields.defaulted name dec standard).Reads m [.defaulted name write standard a] a :=
  field _ h fun e => by rw [of_decide_eq_true e]

theorem listed {dec : Decoder A} {name : String} {write : A → Draft} {l : List A}
    (h : 0 < m.room → ∀ a ∈ l, Json.Reads dec m.inner (write a) a) :
    (Fields.listed name dec).Reads m [.listed name write l] l :=
  field _ (.list h) fun e => by rw [List.isEmpty_iff.mp e]

theorem missable {dec : Decoder A} {name : String} {write : A → Draft} {o : Option A}
    (null : ∀ a, write a ≠ .plain .null) (h : ∀ a, o = some a → Json.Reads dec m (write a) a) :
    (Fields.missable name dec).Reads m [.missable name write o] o :=
  field _ (.nullable null h) fun e => by rw [Option.isNone_iff_eq_none.mp e]

end Reads

end Fields

/-- An object is read by its fields, in the order in which they are declared. -/
theorem Reads.object {fs : Fields A} {m : Mode} {ms : List Draft.Member} {a : A}
    (nodup : fs.names.Nodup) (h : 0 < m.room → fs.Reads m.inner ms a) :
    Reads fs.decoder m (.object ms) a := by
  rintro _ ⟨ws,rfl,hw⟩ hv
  rw [fits_object] at hv
  have fields := h hv.1
  rw [fields.names] at nodup
  have keys : (ws.map (·.1)).Nodup := nodup.sublist (Draft.keys_sublist hw)
  have known : ∀ e ∈ ws, e.1 ∈ fs.names := fun e he => by
    rw [fields.names]
    exact (Draft.keys_sublist hw).subset (List.mem_map.mpr ⟨e,he,rfl⟩)
  have frame : Fields.frameFault? fs.names [] .closed (placed ws) ws.length = .ok () :=
    frameFault?_ok (keys_placed ws) keys (by simpa using known) (by simp) _
  have run : fs.decoder m (Json.object ws).toDoc =
      (Verdict.ap ((fs.ofMembers m.inner (placed ws) ws.length).map fun a (_ : Unit) => a) (.ok ())).mapError (·.2) := by
    have length : (memberDocs ws).length = ws.length := by simp [memberDocs_eq]
    simp only [Fields.decoder,toDoc,Mode.enter_of_pos hv.1,length]
    rw [← frame]
    rfl
  rw [run]
  have read := fields.read ⟨hw,nodup,hv.2⟩ (fun _ h => h) ws.length
  refine (((read.map _).ap (.ok trivial)).mapError _).congr ?_
  simp only [and_true,distinct_object,keys,true_and]
  exact forall₂_congr fun e he => by simp [known e he]

/-! ### Tagged objects -/

theorem tagMembers_memberDocs (tag : String) (records : List (String × Decoder A)) {m : Mode}
    (dec : Decoder A) (taken : List Member) {ws : List (String × Json)} (fits : ∀ e ∈ ws, e.2.Fits m.room) :
    Settles (Decoder.tagMembers tag records m .closed (some dec) taken (memberDocs ws))
      (tag ∉ ws.map (·.1)) (dec,taken.reverse ++ memberDocs ws) := by
  induction ws generalizing taken with
  | nil =>
    rw [memberDocs,List.append_nil]
    exact .ok (by simp)
  | cons e ws ih =>
    obtain ⟨k,v⟩ := e
    by_cases same : k = tag
    · simp only [memberDocs,Decoder.tagMembers,same,if_true]
      exact .error _ (by simp)
    · have later := ih ((some k,v.toDoc) :: taken) fun e he => fits e (List.mem_cons_of_mem _ he)
      have run : Decoder.tagMembers tag records m .closed (some dec) taken (memberDocs ((k,v) :: ws)) =
          Decoder.tagMembers tag records m .closed (some dec) ((some k,v.toDoc) :: taken) (memberDocs ws) := by
        simp only [memberDocs,Decoder.tagMembers,same,if_false,readFault?_of_fits v _ (fits _ List.mem_cons_self)]
        cases m.buffered <;> rfl
      rw [run]
      refine (by simpa [memberDocs] using later : Settles _ _ _).congr ?_
      simp [Ne.symm same]

/-- An object that tells its alternative by a first member is read as the alternative, unless it tells
twice. -/
theorem Reads.tagged {tag word : String} {records : List (String × Decoder A)} {dec : Decoder A}
    {m : Mode} {ms : List Draft.Member} {a : A} (found : records.lookup word = some dec)
    (h : 0 < m.room → Reads dec { m with buffered := true } (.object ms) a) :
    Reads (.tagged tag records) m (.object (Draft.Member.required tag (.text word) :: ms)) a := by
  rintro _ ⟨_,rfl,⟨no,-⟩ | ⟨_,ws,rfl,rfl,hw⟩⟩ hv
  · cases no
  have fits := hv
  rw [fits_object] at hv
  have rest : (Json.object ws).Fits m.room :=
    fits_object.mpr ⟨hv.1,fun e he => hv.2 e (List.mem_cons_of_mem _ he)⟩
  have members := tagMembers_memberDocs tag records dec [] (m := m.inner) fun e he =>
    hv.2 e (List.mem_cons_of_mem _ he)
  have read := h hv.1 _ ⟨ws,rfl,hw⟩ rest
  have run : Decoder.tagged tag records m (Json.object ((tag,.text word) :: ws)).toDoc =
      (do
        let p ← Decoder.tagMembers tag records m.inner .closed (some dec) [] (memberDocs ws)
        p.1 { m with buffered := true } (.object p.2 .closed)) := by
    simp only [Decoder.tagged,toDoc,memberDocs,Mode.enter_of_pos hv.1,Decoder.tagMembers,if_true,
      Decoder.tagValue,found]
    rfl
  have outer : (Json.object ((tag,.text word) :: ws)).Distinct ↔
      tag ∉ ws.map (·.1) ∧ (Json.object ws).Distinct := by
    simp [and_assoc]
  rw [run]
  exact (members.bind read).congr outer.symm

end Json
end SymbolGraph
