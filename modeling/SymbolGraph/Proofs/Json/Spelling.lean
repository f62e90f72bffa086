import SymbolGraph.Proofs.Json.Decode

/-! The ways to spell a value. Members may stand in any order, and other ones among them, and some may be left out.
Decoders that understand a value read it from all of its spellings. -/
namespace SymbolGraph
namespace Json

variable {A B : Type}

/-- What may be left out of the spelling of a value, and where nothing may be added. -/
structure Leeway where
  /-- The members that may be left out. -/
  omits : String → Json → Prop
  /-- The keys of objects that take no further members. -/
  full : List (List String)

/-- No key of these is given twice. -/
def Once (keys : List String) (es : List Member) : Prop :=
  es.Pairwise fun e f => ∀ k ∈ keys, e.1 = some k → f.1 ≠ some k

namespace Leeway

mutual
/-- Whether a tree spells a value. An array of words is a set of them. -/
def Spells (L : Leeway) : Json → Doc → Prop
  | .null, d => d = .null
  | .bool b, d => d = .bool b
  | .int n, d => d = .number (.ofInt n)
  | .text s, d => d = .text (some s)
  | .array vs, d => ∃ ds, d = .array ds .closed ∧
    ((∀ v ∈ vs, ∃ s, v = .text s) ∧ (∀ d, d ∈ ds ↔ d ∈ itemDocs vs) ∨ L.SpellsItems vs ds)
  | .object ws, d => ∃ es, d = .object es .closed ∧ Once (ws.map (·.1)) es ∧
    (ws.map (·.1) ∈ L.full → es.length = ws.length) ∧ L.SpellsMembers ws es
def SpellsItems (L : Leeway) : List Json → List Doc → Prop
  | [], ds => ds = []
  | v :: vs, ds => ∃ d ds', ds = d :: ds' ∧ L.Spells v d ∧ L.SpellsItems vs ds'
/-- Members are spelled somewhere among other ones, or left out. -/
def SpellsMembers (L : Leeway) : List (String × Json) → List Member → Prop
  | [], _ => True
  | (k,v) :: ws, es => ((∃ d, (some k,d) ∈ es ∧ L.Spells v d) ∨ (L.omits k v ∧ some k ∉ es.map (·.1))) ∧
    L.SpellsMembers ws es
end

variable {L : Leeway} {vs : List Json} {ws : List (String × Json)} {es : List Member}

theorem spellsMembers_iff : L.SpellsMembers ws es ↔ ∀ e ∈ ws,
    (∃ d, (some e.1,d) ∈ es ∧ L.Spells e.2 d) ∨ (L.omits e.1 e.2 ∧ some e.1 ∉ es.map (·.1)) := by
  induction ws with
  | nil => simp [SpellsMembers]
  | cons e ws ih => rw [SpellsMembers,ih,List.forall_mem_cons]

/-- What is not null is not spelled null, and does not break off. -/
theorem Spells.shown {v : Json} {d : Doc} (h : L.Spells v d) (notNull : v ≠ .null) :
    d ≠ .null ∧ ∀ b, d ≠ .broken b := by
  cases v with
  | null => exact absurd rfl notNull
  | bool | int | text =>
    obtain rfl := h
    exact ⟨nofun,nofun⟩
  | array | object =>
    obtain ⟨_,rfl,-⟩ := h
    exact ⟨nofun,nofun⟩

mutual
/-- What is written of a value spells it. -/
theorem spells_toDoc (L : Leeway) : ∀ v : Json, v.Distinct → L.Spells v v.toDoc
  | .null, _ | .bool _, _ | .int _, _ | .text _, _ => rfl
  | .array vs, h => ⟨_,rfl,.inr (spellsItems_itemDocs L vs (distinct_array.mp h))⟩
  | .object ws, h => by
    obtain ⟨nodup,all⟩ := distinct_object.mp h
    refine ⟨_,rfl,?_,fun _ => by simp [memberDocs_eq],spellsMembers_memberDocs L ws _ (fun _ h => h) all⟩
    rw [memberDocs_eq,Once,List.pairwise_map]
    refine (List.pairwise_map.mp nodup).imp fun {e f} apart k _ same same' => apart ?_
    exact (Option.some.inj same).trans (Option.some.inj same').symm
theorem spellsItems_itemDocs (L : Leeway) : ∀ vs : List Json, (∀ v ∈ vs, v.Distinct) → L.SpellsItems vs (itemDocs vs)
  | [], _ => rfl
  | v :: vs, h => ⟨_,_,rfl,spells_toDoc L v (h v List.mem_cons_self),
    spellsItems_itemDocs L vs fun v hv => h v (List.mem_cons_of_mem _ hv)⟩
theorem spellsMembers_memberDocs (L : Leeway) : ∀ ws all : List (String × Json), ws ⊆ all →
    (∀ e ∈ ws, e.2.Distinct) → L.SpellsMembers ws (memberDocs all)
  | [], _, _, _ => trivial
  | (k,v) :: ws, all, sub, h => by
    have here : (some k,v.toDoc) ∈ memberDocs all := by
      rw [memberDocs_eq]
      exact List.mem_map.mpr ⟨(k,v),sub List.mem_cons_self,rfl⟩
    exact ⟨.inl ⟨_,here,spells_toDoc L v (h (k,v) List.mem_cons_self)⟩,spellsMembers_memberDocs L ws all
      (fun _ he => sub (List.mem_cons_of_mem _ he)) fun e he => h e (List.mem_cons_of_mem _ he)⟩
end

end Leeway

/-! ### Trees without faults -/

theorem Close.readFault?_eq_none {c : Close} : c.readFault? = none ↔ c = .closed := by
  cases c <;> simp [readFault?]

namespace Doc

variable {room : Nat} {ds : List Doc} {es : List Member} {c : Close}

theorem readItems?_eq_none : readItems? room ds = none ↔ ∀ d ∈ ds, d.readFault? room = none := by
  induction ds with
  | nil => simp [readItems?]
  | cons d ds ih => simp [readItems?,ih]

theorem readMembers?_eq_none :
    readMembers? room es = none ↔ ∀ e ∈ es, (∃ k, e.1 = some k) ∧ e.2.readFault? room = none := by
  induction es with
  | nil => simp [readMembers?]
  | cons e es ih =>
    obtain ⟨k | k,d⟩ := e <;> simp [readMembers?,ih]

theorem readFault?_array : (array ds c).readFault? room = none ↔
    0 < room ∧ c = .closed ∧ ∀ d ∈ ds, d.readFault? (room - 1) = none := by
  by_cases none : room = 0
  · simp [readFault?,none]
  · simp [readFault?,none,Close.readFault?_eq_none,readItems?_eq_none,Nat.pos_iff_ne_zero,and_comm]

theorem readFault?_object : (object es c).readFault? room = none ↔
    0 < room ∧ c = .closed ∧ ∀ e ∈ es, (∃ k, e.1 = some k) ∧ e.2.readFault? (room - 1) = none := by
  by_cases none : room = 0
  · simp [readFault?,none]
  · simp [readFault?,none,Close.readFault?_eq_none,readMembers?_eq_none,Nat.pos_iff_ne_zero,and_comm]

mutual
/-- What can be taken in can be skipped. -/
theorem skipFault?_of_readFault? : ∀ (d : Doc) (room : Nat), d.readFault? room = none → d.skipFault? = none
  | .null, _, _ | .bool _, _, _ | .number _, _, _ | .text _, _, _ => rfl
  | .broken b, _, h => nomatch h
  | .array ds c, room, h => by
    obtain ⟨-,rfl,read⟩ := readFault?_array.mp h
    simp [skipFault?,skipItems?_of_readFault? ds (room - 1) read,Close.skipFault?]
  | .object es c, room, h => by
    obtain ⟨-,rfl,read⟩ := readFault?_object.mp h
    simp [skipFault?,skipMembers?_of_readFault? es (room - 1) fun e he => (read e he).2,Close.skipFault?]
theorem skipItems?_of_readFault? : ∀ (ds : List Doc) (room : Nat), (∀ d ∈ ds, d.readFault? room = none) →
    skipItems? ds = none
  | [], _, _ => rfl
  | d :: ds, room, h => by
    simp [skipItems?,skipFault?_of_readFault? d room (h d List.mem_cons_self),
      skipItems?_of_readFault? ds room fun d hd => h d (List.mem_cons_of_mem _ hd)]
theorem skipMembers?_of_readFault? : ∀ (es : List Member) (room : Nat), (∀ e ∈ es, e.2.readFault? room = none) →
    skipMembers? es = none
  | [], _, _ => rfl
  | (k,d) :: es, room, h => by
    simp [skipMembers?,skipFault?_of_readFault? d room (h (k,d) List.mem_cons_self),
      skipMembers?_of_readFault? es room fun e he => h e (List.mem_cons_of_mem _ he)]
end

end Doc

/-! ### Members -/

section Members

variable {keys names seen : List String} {ms : List (Nat × Member)} {k : String} {d : Doc}

/-- A known member is found wherever it stands. -/
theorem member?_of_once (once : Once keys (ms.map (·.2))) (known : k ∈ keys) (mem : (some k,d) ∈ ms.map (·.2)) :
    ∃ i, Fields.member? k ms = some (i,d) := by
  induction ms with
  | nil => cases mem
  | cons e ms ih =>
    obtain ⟨i,l,d'⟩ := e
    obtain ⟨first,once⟩ := List.pairwise_cons.mp once
    by_cases here : l = some k
    · rcases List.mem_cons.mp mem with same | later
      · cases same
        exact ⟨i,by simp [Fields.member?]⟩
      · exact absurd rfl (first _ later k known here)
    · rcases List.mem_cons.mp mem with same | later
      · exact absurd (congrArg Prod.fst same).symm here
      · obtain ⟨j,found⟩ := ih once later
        refine ⟨j,?_⟩
        simpa [Fields.member?,List.find?_cons,here] using found

theorem member?_of_absent (absent : some k ∉ (ms.map (·.2)).map (·.1)) : Fields.member? k ms = none := by
  rw [Fields.member?,Option.map_eq_none_iff,List.find?_eq_none]
  intro e he here
  refine absent (List.mem_map.mpr ⟨e.2,List.mem_map.mpr ⟨e,he,rfl⟩,?_⟩)
  simpa using here

/-- The frame of an object is right if no known key is given twice and what is unknown can be skipped. -/
theorem frameFault?_of_once (once : Once names (ms.map (·.2))) (new : ∀ k ∈ seen, some k ∉ (ms.map (·.2)).map (·.1))
    (skipped : ∀ e ∈ ms, (∃ k, e.2.1 = some k) ∧ e.2.2.skipFault? = none) (count : Nat) :
    Fields.frameFault? names seen .closed ms count = .ok () := by
  induction ms generalizing seen with
  | nil => rfl
  | cons e ms ih =>
    obtain ⟨i,l,d⟩ := e
    obtain ⟨⟨⟨k,rfl⟩,skip⟩,rest⟩ := List.forall_mem_cons.mp skipped
    obtain ⟨first,once⟩ := List.pairwise_cons.mp once
    have later : ∀ k ∈ seen, some k ∉ (ms.map (·.2)).map (·.1) := fun k hk mem => new k hk (List.mem_cons_of_mem _ mem)
    rw [Fields.frameFault?]
    by_cases known : k ∈ names
    · have unseen : k ∉ seen := fun hk => new k hk List.mem_cons_self
      rw [if_pos (List.contains_iff_mem.mpr known),if_neg (by simpa using unseen)]
      refine ih once (List.forall_mem_cons.mpr ⟨fun mem => ?_,later⟩) rest
      obtain ⟨f,hf,same⟩ := List.mem_map.mp mem
      exact first f hf k known rfl same
    · rw [if_neg (by simpa using known),skip]
      exact ih once later rest

end Members

/-! ### Decoders -/

/-- A decoder reads a value, which is not null, from all of its spellings, if it has room for them. -/
structure Understands (L : Leeway) (dec : Decoder A) (m : Mode) (v : Json) (a : A) : Prop where
  notNull : v ≠ .null
  read : v.Fits m.room → ∀ d, L.Spells v d → d.readFault? m.room = none → dec m d = .ok a

namespace Understands

variable {L : Leeway} {dec : Decoder A} {m : Mode} {v : Json} {a : A}

/-- A text that spells a value is read as the value. -/
theorem decode (h : Understands L dec .whole v a) (fits : v.Fits 127) {s : String} {d : Doc}
    (tree : Doc.ofString s = (d,false)) (spells : L.Spells v d) (whole : d.readFault? 127 = none) :
    dec.decode s = .ok a := by
  rw [Decoder.decode,tree]
  dsimp only
  rw [h.read fits d spells whole]
  rfl

theorem text (s : String) : Understands L Decoder.text m (.text s) s where
  notNull := nofun
  read := by
    rintro - _ rfl -
    rfl

theorem bool (b : Bool) : Understands L Decoder.bool m (.bool b) b where
  notNull := nofun
  read := by
    rintro - _ rfl -
    rfl

theorem natBelow {bound n : Nat} (small : n < bound) : Understands L (Decoder.natBelow bound) m (.nat n) n where
  notNull := nofun
  read := by
    rintro - _ rfl -
    simp [Decoder.natBelow,nat?_ofInt,small]

theorem nat (n : Nat) : Understands L Decoder.word32 m (.nat n) n where
  notNull := nofun
  read fits := by
    have small : n < 0x100000000 := Int.ofNat_lt.mp (fits_int.mp fits).2
    have read : Understands L Decoder.word32 m (.nat n) n := natBelow small
    exact read.read fits

theorem map (f : A → B) (h : Understands L dec m v a) : Understands L (.map f dec) m v (f a) where
  notNull := h.notNull
  read fits d spells read := by rw [Decoder.map,h.read fits d spells read]; rfl

/-- A word of an enumeration. -/
theorem word {words : List (String × A)} {records : List (String × Decoder A)} {s : String}
    (h : words.lookup s = some a) : Understands L (.alternative words records) m (.text s) a where
  notNull := nofun
  read := by
    rintro - _ rfl -
    simp [Decoder.alternative,h]

/-- An alternative with fields behind its word. -/
theorem record {words : List (String × A)} {records : List (String × Decoder A)} {k : String}
    (other : words.lookup k = none) (found : records.lookup k = some dec) (full : [k] ∈ L.full)
    (never : ¬L.omits k v) (h : Understands L dec m.inner v a) :
    Understands L (.alternative words records) m (.object [(k,v)]) a where
  notNull := nofun
  read := by
    rintro fits _ ⟨es,rfl,-,alone,⟨spelled | ⟨omitted,-⟩,-⟩⟩ whole
    · obtain ⟨d,mem,spells⟩ := spelled
      obtain ⟨room,-,read⟩ := Doc.readFault?_object.mp whole
      obtain ⟨e,rfl⟩ := List.length_eq_one_iff.mp (alone full)
      obtain rfl := List.mem_singleton.mp mem
      have inner := h.read ((fits_object.mp fits).2 _ List.mem_cons_self) d spells (read _ List.mem_cons_self).2
      have alone : (m.inner.buffered && !([] : List Member).isEmpty) = false := by simp
      simp only [Decoder.alternative,Mode.enter_of_pos room,other,found]
      show (if (m.inner.buffered && !([] : List Member).isEmpty) = true then _ else _) = _
      rw [alone,if_neg Bool.false_ne_true,inner]
      rfl
    · exact absurd omitted never

/-- A list whose items are no words is read item by item. -/
theorem list {write : A → Json} {l : List A} (values : ∀ a ∈ l, ∀ s, write a ≠ .text s)
    (h : 0 < m.room → ∀ a ∈ l, Understands L dec m.inner (write a) a) :
    Understands L (.list dec) m (.list write l) l where
  notNull := nofun
  read := by
    rintro fits _ ⟨ds,rfl,spells⟩ whole
    obtain ⟨room,-,read⟩ := Doc.readFault?_array.mp whole
    have fit : ∀ v ∈ l.map write, v.Fits m.inner.room := (fits_array.mp fits).2
    have items : L.SpellsItems (l.map write) ds := by
      rcases spells with ⟨words,same⟩ | items
      · cases l with
        | nil => exact List.eq_nil_iff_forall_not_mem.mpr fun d hd => nomatch (same d).mp hd
        | cons a l =>
          obtain ⟨s,word⟩ := words (write a) List.mem_cons_self
          exact absurd word (values a List.mem_cons_self s)
      · exact items
    have all : ds.mapM (dec m.inner) = .ok l := by
      have understood := h room
      clear h values spells whole fits
      induction l generalizing ds with
      | nil =>
        obtain rfl : ds = [] := items
        rfl
      | cons a l ih =>
        obtain ⟨d,ds,rfl,first,later⟩ := items
        obtain ⟨readable,rest⟩ := List.forall_mem_cons.mp read
        obtain ⟨this,others⟩ := List.forall_mem_cons.mp understood
        obtain ⟨own,fit⟩ := List.forall_mem_cons.mp fit
        rw [List.mapM_cons,this.read own d first readable,ih ds rest fit later others]
        rfl
    simp only [Decoder.list,Mode.enter_of_pos room,Close.readFault?,Mode.fault?]
    exact (congrArg (· >>= pure) all).trans rfl

end Understands

/-! ### Objects -/

/-- The members of an object spell those of a value, and can be taken in. -/
structure Spelled (L : Leeway) (m : Mode) (all : List (String × Json)) (ms : List (Nat × Member)) : Prop where
  once : Once (all.map (·.1)) (ms.map (·.2))
  members : L.SpellsMembers all (ms.map (·.2))
  read : ∀ e ∈ ms, e.2.2.readFault? m.room = none
  fits : ∀ e ∈ all, e.2.Fits m.room

namespace Fields

/-- Fields read members of a value from all of its spellings. -/
structure Understands (L : Leeway) (fs : Fields A) (m : Mode) (ws : List (String × Json)) (a : A) : Prop where
  names : fs.names = ws.map (·.1)
  read : ∀ {all ms}, Spelled L m all ms → ws ⊆ all → ∀ count, fs.ofMembers m ms count = .ok a

namespace Understands

variable {L : Leeway} {m : Mode} {ws us : List (String × Json)}

theorem pure (a : A) : (Fields.pure a).Understands L m [] a := ⟨rfl,fun _ _ _ => rfl⟩

theorem ap {f : Fields (A → B)} {x : Fields A} {g : A → B} {a : A} (hf : f.Understands L m ws g)
    (hx : x.Understands L m us a) : (Fields.ap f x).Understands L m (ws ++ us) (g a) where
  names := by rw [Fields.ap,hf.names,hx.names,List.map_append]
  read spelled sub count := by
    have first := hf.read spelled (fun _ h => sub (List.mem_append_left _ h)) count
    have later := hx.read spelled (fun _ h => sub (List.mem_append_right _ h)) count
    simp only [Fields.ap,first,later]
    rfl

theorem map {x : Fields A} {a : A} (f : A → B) (hx : x.Understands L m us a) :
    (f <$> x).Understands L m us (f a) := (pure f).ap hx

theorem seq {f : Fields (A → B)} {x : Fields A} {g : A → B} {a : A} (hf : f.Understands L m ws g)
    (hx : x.Understands L m us a) : (f <*> x).Understands L m (ws ++ us) (g a) := hf.ap hx

theorem field {dec : Decoder A} {name : String} {v : Json} {a : A} {absent : Option A} (short : Option A)
    (h : v.Fits m.room → ∀ d, L.Spells v d → d.readFault? m.room = none → dec m d = .ok a)
    (ha : L.omits name v → absent = some a) :
    (Fields.field name dec absent short).Understands L m [(name,v)] a where
  names := rfl
  read {all ms} spelled sub count := by
    have mem : (name,v) ∈ all := sub (List.mem_singleton.mpr rfl)
    have known : name ∈ all.map (·.1) := List.mem_map.mpr ⟨_,mem,rfl⟩
    rcases Leeway.spellsMembers_iff.mp spelled.members _ mem with ⟨d,hd,spells⟩ | ⟨omitted,absent⟩
    · obtain ⟨i,found⟩ := member?_of_once spelled.once known hd
      obtain ⟨e,he,same⟩ := List.mem_map.mp hd
      have readable : d.readFault? m.room = none := by
        have read := spelled.read e he
        rwa [same] at read
      simp only [Fields.field,found,h (spelled.fits _ mem) d spells readable]
      rfl
    · simp only [Fields.field,member?_of_absent absent,ha omitted]

theorem required {dec : Decoder A} {name : String} {v : Json} {a : A} (h : Json.Understands L dec m v a)
    (never : ¬L.omits name v) : (Fields.required name dec).Understands L m [(name,v)] a :=
  field none h.read fun omitted => absurd omitted never

theorem optional {dec : Decoder A} {name : String} {write : A → Json} {o : Option A}
    (h : ∀ a, o = some a → Json.Understands L dec m (write a) a)
    (never : ∀ v, L.omits name v → v = .null) :
    (Fields.optional name dec).Understands L m [(name,.option write o)] o := by
  refine field none (fun fits d spells read => ?_) fun omitted => ?_
  · cases o with
    | none =>
      obtain rfl := spells
      rfl
    | some a =>
      obtain ⟨notNull,unbroken⟩ := spells.shown (h a rfl).notNull
      have run : Decoder.nullable dec m d = (dec m d).map some := by
        cases d with
        | null => exact absurd rfl notNull
        | broken b => exact absurd rfl (unbroken b)
        | _ => rfl
      rw [run,(h a rfl).read fits d spells read]
      rfl
  · cases o with
    | none => rfl
    | some a => exact absurd (never _ omitted) (h a rfl).notNull

theorem defaulted {dec : Decoder A} {name : String} {v : Json} {standard a : A}
    (h : Json.Understands L dec m v a) (ha : L.omits name v → a = standard) :
    (Fields.defaulted name dec standard).Understands L m [(name,v)] a :=
  field _ h.read fun omitted => by rw [ha omitted]

end Understands

end Fields

namespace Understands

variable {L : Leeway} {m : Mode} {ws : List (String × Json)} {a : A}

/-- An object is read by its fields. -/
theorem object {fs : Fields A} (h : 0 < m.room → fs.Understands L m.inner ws a) :
    Understands L fs.decoder m (.object ws) a where
  notNull := nofun
  read := by
    rintro fits _ ⟨es,rfl,once,-,members⟩ whole
    obtain ⟨room,-,read⟩ := Doc.readFault?_object.mp whole
    have fields := h room
    let ms : List (Nat × Member) := es.mapIdx fun i e => (i,e)
    have places : ms.map (·.2) = es := by
      apply List.ext_getElem <;> simp [ms]
    have inside : ∀ e ∈ ms, e.2 ∈ es := fun e he => places ▸ List.mem_map.mpr ⟨e,he,rfl⟩
    have spelled : Spelled L m.inner ws ms := by
      refine ⟨?_,?_,fun e he => (read e.2 (inside e he)).2,(fits_object.mp fits).2⟩
      · rwa [places]
      · rwa [places]
    have frame : Fields.frameFault? fs.names [] .closed ms es.length = .ok () := by
      refine frameFault?_of_once ?_ (List.forall_mem_nil _) (fun e he => ?_) _
      · rw [fields.names]
        exact spelled.once
      · obtain ⟨key,readable⟩ := read e.2 (inside e he)
        exact ⟨key,Doc.skipFault?_of_readFault? _ _ readable⟩
    simp only [Fields.decoder,Mode.enter_of_pos room]
    show (Verdict.ap ((fs.ofMembers m.inner ms es.length).map fun a (_ : Unit) => a)
      (Fields.frameFault? fs.names [] .closed ms es.length)).mapError (·.2) = _
    rw [frame,fields.read spelled (fun _ h => h)]
    rfl

end Understands

/-! ### Tagged objects -/

section Tagged

variable {L : Leeway} {m : Mode} {tag word : String} {records : List (String × Decoder A)} {dec : Decoder A}
  {es before after : List Member} {ws : List (String × Json)} {a : A}

/-- Once the tag is met, the other members are taken in. -/
theorem tagMembers_rest (others : ∀ e ∈ es, (∃ k, e.1 = some k) ∧ e.1 ≠ some tag)
    (read : ∀ e ∈ es, e.2.readFault? m.room = none) (taken : List Member) :
    Decoder.tagMembers tag records m .closed (some dec) taken es = .ok (dec,taken.reverse ++ es) := by
  induction es generalizing taken with
  | nil =>
    rw [List.append_nil]
    rfl
  | cons e es ih =>
    obtain ⟨k?,d⟩ := e
    obtain ⟨⟨⟨k,rfl⟩,other⟩,behind⟩ := List.forall_mem_cons.mp others
    obtain ⟨readable,rest⟩ := List.forall_mem_cons.mp read
    have later := ih behind rest ((some k,d) :: taken)
    rw [List.reverse_cons,List.append_assoc] at later
    have apart : k ≠ tag := fun same => other (congrArg some same)
    rw [Decoder.tagMembers,if_neg apart,readable]
    cases m.buffered <;> exact later

/-- The tag is found behind other members. -/
theorem tagMembers_found (found : records.lookup word = some dec)
    (others : ∀ e ∈ before ++ after, (∃ k, e.1 = some k) ∧ e.1 ≠ some tag)
    (read : ∀ e ∈ before ++ after, e.2.readFault? m.room = none) (taken : List Member) :
    Decoder.tagMembers tag records m .closed none taken (before ++ (some tag,.text (some word)) :: after) =
      .ok (dec,taken.reverse ++ (before ++ after)) := by
  induction before generalizing taken with
  | nil =>
    have tagged : Decoder.tagValue records m (.text (some word)) = .ok dec := by simp [Decoder.tagValue,found]
    rw [List.nil_append,Decoder.tagMembers,if_pos rfl,tagged]
    exact tagMembers_rest others read taken
  | cons e before ih =>
    obtain ⟨k?,d⟩ := e
    obtain ⟨⟨⟨k,rfl⟩,other⟩,behind⟩ := List.forall_mem_cons.mp others
    obtain ⟨readable,rest⟩ := List.forall_mem_cons.mp read
    have later := ih behind rest ((some k,d) :: taken)
    rw [List.reverse_cons,List.append_assoc] at later
    have apart : k ≠ tag := fun same => other (congrArg some same)
    rw [List.cons_append,Decoder.tagMembers,if_neg apart,readable]
    cases m.buffered <;> exact later

theorem Once.mono {keys keys' : List String} {es es' : List Member} (once : Once keys es) (known : keys' ⊆ keys)
    (part : es'.Sublist es) : Once keys' es' :=
  (once.sublist part).imp fun apart k hk => apart k (known hk)

/-- A member that is not among those spelled may be taken out. -/
theorem Leeway.SpellsMembers.without {k : String} {d : Doc}
    (members : L.SpellsMembers ws (before ++ (some k,d) :: after)) (apart : k ∉ ws.map (·.1)) :
    L.SpellsMembers ws (before ++ after) := by
  have part : (before ++ after).Sublist (before ++ (some k,d) :: after) :=
    .append (.refl _) (List.sublist_cons_self _ _)
  refine Leeway.spellsMembers_iff.mpr fun e he => ?_
  have other : e.1 ≠ k := fun same => apart (same ▸ List.mem_map.mpr ⟨e,he,rfl⟩)
  rcases Leeway.spellsMembers_iff.mp members e he with ⟨d',hd,spells⟩ | ⟨omitted,absent⟩
  · exact .inl ⟨d',by simpa [other] using hd,spells⟩
  · exact .inr ⟨omitted,fun mem => absent ((part.map (·.1)).subset mem)⟩

/-- An object that tells its alternative somewhere among its members is read as the alternative. -/
theorem Understands.tagged (found : records.lookup word = some dec) (never : ¬L.omits tag (.text word))
    (apart : tag ∉ ws.map (·.1)) (free : ws.map (·.1) ∉ L.full)
    (h : Understands L dec { m with buffered := true } (.object ws) a) :
    Understands L (.tagged tag records) m (.object ((tag,.text word) :: ws)) a where
  notNull := nofun
  read := by
    rintro fits _ ⟨es,rfl,once,-,⟨tagged | ⟨omitted,-⟩,members⟩⟩ whole
    · obtain ⟨_,mem,rfl⟩ := tagged
      obtain ⟨room,-,read⟩ := Doc.readFault?_object.mp whole
      obtain ⟨before,after,rfl⟩ := List.append_of_mem mem
      have part : (before ++ after).Sublist (before ++ (some tag,.text (some word)) :: after) :=
        .append (.refl _) (List.sublist_cons_self _ _)
      have others : ∀ e ∈ before ++ after, (∃ k, e.1 = some k) ∧ e.1 ≠ some tag := by
        intro e he
        refine ⟨(read e (part.subset he)).1,fun same => ?_⟩
        obtain ⟨-,behind,between⟩ := List.pairwise_append.mp once
        rcases List.mem_append.mp he with front | back
        · exact between e front _ List.mem_cons_self tag List.mem_cons_self same rfl
        · exact (List.pairwise_cons.mp behind).1 e back tag List.mem_cons_self rfl same
      have readable : ∀ e ∈ before ++ after, e.2.readFault? m.inner.room = none := fun e he =>
        (read e (part.subset he)).2
      have rest : L.Spells (.object ws) (.object (before ++ after) .closed) :=
        ⟨_,rfl,once.mono (List.subset_cons_self _ _) part,fun full => absurd full free,
          Leeway.SpellsMembers.without members apart⟩
      simp only [Decoder.tagged,Mode.enter_of_pos room]
      show (Decoder.tagMembers tag records m.inner .closed none [] _ >>= _) = _
      rw [tagMembers_found found others readable]
      have fit : (Json.object ws).Fits m.room := fits_object.mpr
        ⟨room,fun e he => (fits_object.mp fits).2 e (List.mem_cons_of_mem _ he)⟩
      refine h.read fit _ rest (Doc.readFault?_object.mpr ⟨room,rfl,fun e he => ?_⟩)
      exact read e (part.subset he)
    · exact absurd omitted never

end Tagged

/-! ### Texts -/

/-- A decoder reads a value back from its encoding, and reads it from every text that spells the encoding. -/
structure RoundTrips (L : Leeway) (dec : Decoder A) (v : Json) (a : A) : Prop where
  back : dec.decode v.render = .ok a
  spelled : ∀ s d, Doc.ofString s = (d,false) → d.readFault? 127 = none → L.Spells v d → dec.decode s = .ok a

theorem Understands.roundTrips {L : Leeway} {dec : Decoder A} {v : Json} {a : A} (h : Understands L dec .whole v a)
    (fits : v.Fits 127) (distinct : v.Distinct) : RoundTrips L dec v a where
  back := h.decode fits (ofString_render v) (L.spells_toDoc v distinct) (readFault?_of_fits v 127 fits)
  spelled _ _ tree whole spells := h.decode fits tree spells whole

end Json
end SymbolGraph
