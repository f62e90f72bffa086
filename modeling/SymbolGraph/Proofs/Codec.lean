import SymbolGraph.Proofs.Json.Spelling
import SymbolGraph.Proofs.Kind
import SymbolGraph.Proofs.References
import SymbolGraph.Shape.Codec

/-! Shapes, locations, types and descriptors are read back from what is written of them, and from all other ways to
spell it. -/
namespace SymbolGraph

open Json

/-! ### Shapes -/

/-- Members that are null may be left out of shapes and locations. A function that is a literal tells so by the one
key of an object. -/
def Json.Leeway.shapes : Leeway := ⟨fun _ v => v = .null,[["literal"]]⟩

namespace Json

variable {A : Type} {dec : Decoder A} {m : Mode} {name : String} {v : Json} {a : A}

theorem Fields.Understands.shown (h : Json.Understands .shapes dec m v a) :
    (Fields.required name dec).Understands .shapes m [(name,v)] a := .required h h.notNull

theorem Fields.Understands.maybe {write : A → Json} {o : Option A}
    (h : ∀ a, o = some a → Json.Understands .shapes dec m (write a) a) :
    (Fields.optional name dec).Understands .shapes m [(name,.option write o)] o := .optional h fun _ => id

/-- An array of words holds these and no other ones, in any order and number. -/
theorem Leeway.Spells.words {L : Leeway} {ss : List String} {d : Doc} (h : L.Spells (.array (ss.map .text)) d) :
    ∃ ds, d = .array ds .closed ∧ ∀ d, d ∈ ds ↔ ∃ s ∈ ss, d = .text (some s) := by
  obtain ⟨ds,rfl,spells⟩ := h
  have texts : ∀ d, d ∈ itemDocs (ss.map .text) ↔ ∃ s ∈ ss, d = .text (some s) := by
    intro d
    clear spells
    induction ss <;> simp_all [itemDocs,toDoc]
  refine ⟨ds,rfl,?_⟩
  rcases spells with ⟨-,same⟩ | items
  · exact fun d => (same d).trans (texts d)
  · have written : ds = itemDocs (ss.map .text) := by
      clear texts
      induction ss generalizing ds with
      | nil => exact items
      | cons s ss ih =>
        obtain ⟨d,ds,rfl,rfl,items⟩ := items
        rw [ih ds items]
        rfl
    rw [written]
    exact texts

theorem mapM_words {words : List (String × A)} {word : A → String} (known : ∀ a, words.lookup (word a) = some a)
    {ds : List Doc} {l : List A} (from_ : ∀ d ∈ ds, ∃ a ∈ l, d = .text (some (word a))) :
    ∃ l', ds.mapM (Decoder.word words m) = .ok l' ∧ ds = l'.map fun a => .text (some (word a)) := by
  induction ds with
  | nil => exact ⟨[],rfl,rfl⟩
  | cons d ds ih =>
    obtain ⟨⟨a,-,rfl⟩,rest⟩ := List.forall_mem_cons.mp from_
    obtain ⟨l',read,rfl⟩ := ih rest
    refine ⟨a :: l',?_,rfl⟩
    have first : Decoder.word words m (.text (some (word a))) = .ok a := by
      simp [Decoder.word,Decoder.alternative,known]
    rw [List.mapM_cons,first,read]
    rfl

end Json

theorem Modifier.word_injective : Function.Injective Modifier.word := by
  intro a b same
  have found := Modifiers.lookup_word a
  rw [same,Modifiers.lookup_word b] at found
  exact (Option.some.inj found).symm

/-- Modifiers are written in order, each of them once, and read in any order and number. -/
theorem Modifiers.understood {L : Leeway} (s : Modifiers) (m : Mode) : Understands L decoder m s.toJson s where
  notNull := nofun
  read := by
    intro _ d spells whole
    have words : s.toJson = .array ((s.toList.map Modifier.word).map .text) := by
      rw [toJson,Json.list,List.map_map]
      rfl
    rw [words] at spells
    obtain ⟨ds,rfl,same⟩ := spells.words
    obtain ⟨room,-,-⟩ := Doc.readFault?_array.mp whole
    obtain ⟨l,read,rfl⟩ := mapM_words (m := m.inner) lookup_word fun d hd => by simpa using (same d).mp hd
    have mem : ∀ a, a ∈ l ↔ a ∈ s.toList := by
      intro a
      have here := same (.text (some a.word))
      simpa [Modifier.word_injective.eq_iff] using here
    have set : ofList l = s := by
      rw [← ofList_toList s,ofList,ofList,mk.injEq]
      refine List.filter_congr fun a _ => ?_
      rw [List.contains_eq_mem,List.contains_eq_mem,decide_eq_decide.mpr (mem a)]
    have run : Decoder.list Modifier.decoder m (.array (l.map fun a => .text (some a.word)) .closed) = .ok l := by
      simp only [Decoder.list,Mode.enter_of_pos room,Close.readFault?,Mode.fault?]
      exact (congrArg (· >>= pure) read).trans rfl
    rw [decoder,Decoder.map,run,← set]
    rfl

theorem NodeId.understood {L : Leeway} (n : NodeId) (m : Mode) : Understands L decoder m n.toJson n := .map _ (.nat _)

theorem idsToJson_understood {L : Leeway} (ids : List NodeId) (m : Mode) :
    Understands L idsDecoder m (idsToJson ids) ids :=
  .list (fun _ _ _ => nofun) fun _ n _ => n.understood _

namespace Json.Fields.Understands

variable {m : Mode} {name : String}

theorem string (s : String) : (Fields.required name .text).Understands .shapes m [(name,.text s)] s := .shown (.text s)

theorem flag (b : Bool) : (Fields.required name .bool).Understands .shapes m [(name,.bool b)] b := .shown (.bool b)

theorem string? (o : Option String) : (Fields.optional name .text).Understands .shapes m [(name,.option .text o)] o :=
  .maybe fun s _ => .text s

theorem ids (ids : List NodeId) : (Fields.required name idsDecoder).Understands .shapes m [(name,idsToJson ids)] ids :=
  .shown (idsToJson_understood ids m)

theorem id? (o : Option NodeId) : (Fields.optional name NodeId.decoder).Understands .shapes m [(name,idToJson o)] o :=
  .maybe fun n _ => n.understood m

theorem modifiers (s : Modifiers) :
    (Fields.required name Modifiers.decoder).Understands .shapes m [(name,s.toJson)] s := .shown (s.understood m)

end Json.Fields.Understands

open Json.Fields.Understands

theorem FunctionForm.understood (f : FunctionForm) (m : Mode) : Understands .shapes decoder m f.toJson f := by
  cases f with
  | named => exact .word rfl
  | constructor => exact .word rfl
  | literal fun? => exact .record rfl rfl List.mem_cons_self nofun (.object fun _ => (flag fun?).map literal)

theorem ParameterFlags.understood (f : ParameterFlags) (m : Mode) : Understands .shapes decoder m f.toJson f :=
  .object fun _ => ((((((flag _).map mk).seq (flag _)).seq (flag _)).seq (flag _)).seq (flag _)).seq (flag _)

theorem AnnotationArgument.understood (a : AnnotationArgument) (m : Mode) : Understands .shapes decoder m a.toJson a :=
  .object fun _ => ((string? _).map mk).seq (string _)

namespace Shape

/-- The tag is none of the fields. -/
theorem kind_not_mem_fieldsToJson (s : Shape) : "kind" ∉ s.fieldsToJson.map (·.1) := by
  cases s <;> simp [fieldsToJson]

theorem fieldsToJson_not_full (s : Shape) : s.fieldsToJson.map (·.1) ∉ Leeway.shapes.full := by
  cases s <;> simp [fieldsToJson,Leeway.shapes]

theorem understood (s : Shape) (m : Mode) : Understands .shapes decoder m s.toJson s := by
  have tagged : ∀ dec, Understands .shapes dec { m with buffered := true } (.object s.fieldsToJson) s →
      [("file",fileDecoder),("class",classDecoder),("function",functionDecoder),("property",propertyDecoder),
        ("type_alias",typeAliasDecoder),("type_parameter",typeParameterDecoder),
        ("value_parameter",valueParameterDecoder),("type_reference",typeReferenceDecoder),
        ("annotation",annotationDecoder)].lookup s.kind.word = some dec →
      Understands .shapes decoder m s.toJson s :=
    fun dec fields found => .tagged found nofun s.kind_not_mem_fieldsToJson s.fieldsToJson_not_full fields
  cases s with
  | file s =>
    refine tagged fileDecoder (.map _ (.object fun _ => ?_)) rfl
    exact ((((string _).map FileShape.mk).seq (string _)).seq (ids _)).seq (ids _)
  | classLike s =>
    refine tagged classDecoder (.map _ (.object fun _ => ?_)) rfl
    exact (((((((string _).map ClassShape.mk).seq (.shown (.word s.classKind.lookup_word))).seq (modifiers _)).seq
      (ids _)).seq (ids _)).seq (ids _)).seq (ids _)
  | function s =>
    refine tagged functionDecoder (.map _ (.object fun _ => ?_)) rfl
    exact ((((((((((string _).map FunctionShape.mk).seq (.shown (s.form.understood _))).seq (modifiers _)).seq
      (ids _)).seq (ids _)).seq (id? _)).seq (ids _)).seq (id? _)).seq (flag _)).seq (ids _)
  | property s =>
    refine tagged propertyDecoder (.map _ (.object fun _ => ?_)) rfl
    exact (((((((string _).map PropertyShape.mk).seq (modifiers _)).seq (ids _)).seq (ids _)).seq (id? _)).seq
      (id? _)).seq (flag _)
  | typeAlias s =>
    refine tagged typeAliasDecoder (.map _ (.object fun _ => ?_)) rfl
    exact (((((string _).map TypeAliasShape.mk).seq (modifiers _)).seq (ids _)).seq (ids _)).seq
      (.shown (s.target.understood _))
  | typeParameter s =>
    refine tagged typeParameterDecoder (.map _ (.object fun _ => ?_)) rfl
    exact ((((string _).map TypeParameterShape.mk).seq (.shown (.word s.variance.lookup_word))).seq (flag _)).seq (ids _)
  | valueParameter s =>
    refine tagged valueParameterDecoder (.map _ (.object fun _ => ?_)) rfl
    exact ((((string? _).map ValueParameterShape.mk).seq (ids _)).seq (id? _)).seq (.shown (s.flags.understood _))
  | typeReference s =>
    refine tagged typeReferenceDecoder (.map _ (.object fun _ => ?_)) rfl
    exact (((string _).map TypeReferenceShape.mk).seq (ids _)).seq (ids _)
  | annotationEntry s =>
    refine tagged annotationDecoder (.map _ (.object fun _ => ?_)) rfl
    exact (((string _).map AnnotationShape.mk).seq (id? _)).seq
      (.shown (.list (fun _ _ _ => nofun) fun _ a _ => a.understood _))

end Shape

/-! ### Locations -/

theorem Location.understood (l : Location) (m : Mode) : Understands .shapes decoder m l.toJson l := by
  cases l with
  | file path line =>
    refine .tagged rfl nofun (by simp) (by simp [Leeway.shapes]) (.object fun _ => ?_)
    exact ((string path).map file).seq (.shown (.nat line))
  | nonExisting =>
    refine .tagged rfl nofun (by decide) (by decide) ⟨nofun,?_⟩
    rintro - _ ⟨es,rfl,-⟩ -
    rfl

/-! ### Types -/

/-- The members of a type that say what their absence would say, and members that are null, may be left out. -/
def Json.Leeway.types : Leeway where
  omits k v := v = .null ∨ k = "arguments" ∧ v = .array [] ∨ k = "nullable" ∧ v = .bool false
  full := []

theorem Json.Fields.Understands.kept {A : Type} {dec : Decoder A} {m : Mode} {name : String} {v : Json} {a : A}
    (h : Json.Understands .types dec m v a) (kept : name ∉ ["arguments","nullable"]) :
    (Fields.required name dec).Understands .types m [(name,v)] a := by
  refine .required h fun omitted => h.notNull ?_
  simp only [List.mem_cons,List.not_mem_nil,or_false,not_or] at kept
  simpa [Leeway.types,kept] using omitted

theorem NodeKey.understood (k : NodeKey) (small : k.source.index < 0x10000) (m : Mode) :
    Understands .types decoder m k.toJson k :=
  .object fun _ => ((Fields.Understands.kept (.map _ (.natBelow small)) (by decide)).map mk).seq
    (.kept (k.node.understood _) (by decide))

theorem typeArgumentsToJson_eq (as : List TypeArgument) : typeArgumentsToJson as = as.map TypeArgument.toJson := by
  induction as <;> simp_all [typeArgumentsToJson]

theorem TypeArgument.toJson_eq (a : TypeArgument) : a.toJson =
    .object [("variance",.text a.variance.word),("ty",.option ResolvedType.toJson a.type)] := by
  obtain ⟨variance,_ | t⟩ := a <;> rfl

/-- An argument is read by its fields, if its type is. -/
theorem TypeArgument.fields_understood {dec : Decoder ResolvedType} {m : Mode} {a : TypeArgument}
    (h : ∀ t, a.type = some t → Understands .types dec m t.toJson t) :
    (TypeArgument.mk <$> Fields.required "variance" Variance.decoder <*> .optional "ty" dec).Understands .types m
      [("variance",.text a.variance.word),("ty",.option ResolvedType.toJson a.type)] a := by
  have variance : (Fields.required "variance" Variance.decoder).Understands .types m
      [("variance",.text a.variance.word)] a.variance := .kept (.word a.variance.lookup_word) (by decide)
  have type : (Fields.optional "ty" dec).Understands .types m [("ty",.option ResolvedType.toJson a.type)] a.type :=
    .optional h fun v omitted => by simpa [Leeway.types] using omitted
  obtain ⟨_,_⟩ := a
  exact (variance.map mk).seq type

namespace ResolvedType

/-- All sources that a type refers to have numbers of 16 bits. -/
def Sourced (t : ResolvedType) : Prop := ∀ u ∈ t.parts, u.declaration.source.index < 0x10000

theorem toJson_eq (t : ResolvedType) : t.toJson = .object [("declaration",t.declaration.toJson),
    ("arguments",.list TypeArgument.toJson t.arguments),("nullable",.bool t.nullable)] := by
  obtain ⟨declaration,arguments,nullable⟩ := t
  rw [toJson,typeArgumentsToJson_eq]
  rfl

/-- Types nest less deeply than the text that holds them. -/
theorem decoderIn_understood {k : Nat} {m : Mode} (h : m.room < k) {t : ResolvedType} (sourced : t.Sourced) :
    Understands .types (decoderIn k) m t.toJson t := by
  induction k generalizing m t with
  | zero => exact absurd h (Nat.not_lt_zero _)
  | succ k ih =>
    rw [toJson_eq]
    refine .object fun room => ?_
    have own : t.declaration.source.index < 0x10000 := sourced t (mem_parts.mpr (.inl rfl))
    have declaration : (Fields.required "declaration" NodeKey.decoder).Understands .types m.inner
        [("declaration",t.declaration.toJson)] t.declaration := .kept (NodeKey.understood _ own _) (by decide)
    have arguments : (Fields.listed "arguments" (Fields.decoder (TypeArgument.mk
        <$> .required "variance" Variance.decoder <*> .optional "ty" (decoderIn k)))).Understands .types m.inner
        [("arguments",.list TypeArgument.toJson t.arguments)] t.arguments := by
      refine .defaulted (.list (fun a _ s word => ?_) fun _ a ha => ?_) fun omitted => ?_
      · rw [TypeArgument.toJson_eq] at word
        cases word
      · rw [TypeArgument.toJson_eq]
        refine .object fun _ => TypeArgument.fields_understood fun u hu => ih ?_ fun v hv => ?_
        · simp only [Mode.inner]
          omega
        · exact sourced v (mem_parts.mpr (.inr ⟨a,ha,u,hu,hv⟩))
      · simpa [Leeway.types,Json.list] using omitted
    have nullable : (Fields.defaulted "nullable" Decoder.bool false).Understands .types m.inner
        [("nullable",.bool t.nullable)] t.nullable :=
      .defaulted (.bool _) fun omitted => by simpa [Leeway.types] using omitted
    obtain ⟨_,_,_⟩ := t
    exact ((declaration.map mk).seq arguments).seq nullable

theorem understood {t : ResolvedType} (sourced : t.Sourced) (m : Mode) : Understands .types decoder m t.toJson t := by
  have read := decoderIn_understood (Nat.lt_succ_self m.room) sourced
  exact ⟨read.notNull,read.read⟩

theorem toJson_ne_text (t : ResolvedType) (s : String) : t.toJson ≠ .text s := by
  rw [toJson_eq]
  exact nofun

end ResolvedType

/-- All sources that a descriptor refers to have numbers of 16 bits. -/
structure Descriptor.Sourced (d : Descriptor) : Prop where
  declaration : d.declaration.source.index < 0x10000
  parameters : ∀ t ∈ d.parameters, t.Sourced
  returnType : ∀ t ∈ d.returnType, t.Sourced
  overridden : ∀ k ∈ d.overridden, k.source.index < 0x10000

theorem Descriptor.understood {d : Descriptor} (sourced : d.Sourced) (m : Mode) :
    Understands .types decoder m d.toJson d := by
  refine .object fun _ => ?_
  have declaration : (Fields.required "declaration" NodeKey.decoder).Understands .types m.inner
      [("declaration",d.declaration.toJson)] d.declaration :=
    .kept (NodeKey.understood _ sourced.declaration _) (by decide)
  have name : (Fields.required "name" .text).Understands .types m.inner [("name",.text d.name)] d.name :=
    .kept (.text _) (by decide)
  have parameters : (Fields.required "parameters" (.list ResolvedType.decoder)).Understands .types m.inner
      [("parameters",.list ResolvedType.toJson d.parameters)] d.parameters :=
    .kept (.list (fun t _ => t.toJson_ne_text) fun _ t ht => ResolvedType.understood (sourced.parameters t ht) _)
      (by decide)
  have returnType : (Fields.optional "return_type" ResolvedType.decoder).Understands .types m.inner
      [("return_type",.option ResolvedType.toJson d.returnType)] d.returnType :=
    .optional (fun t ht => ResolvedType.understood (sourced.returnType t ht) _)
      fun v omitted => by simpa [Leeway.types] using omitted
  have overridden : (Fields.required "overridden" (.list NodeKey.decoder)).Understands .types m.inner
      [("overridden",.list NodeKey.toJson d.overridden)] d.overridden :=
    .kept (.list (fun _ _ _ => nofun) fun _ k hk => k.understood (sourced.overridden k hk) _) (by decide)
  exact ((((declaration.map mk).seq name).seq parameters).seq returnType).seq overridden

/-! ### Texts -/

theorem NodeId.distinct_toJson (n : NodeId) : n.toJson.Distinct := rfl

theorem distinct_option {A : Type} {write : A → Json} (h : ∀ a, (write a).Distinct) :
    ∀ o, (Json.option write o).Distinct
  | none => rfl
  | some a => h a

theorem distinct_list {A : Type} {write : A → Json} (h : ∀ a, (write a).Distinct) (l : List A) :
    (Json.list write l).Distinct := distinct_array.mpr (List.forall_mem_map.mpr fun a _ => h a)

theorem FunctionForm.distinct_toJson (f : FunctionForm) : f.toJson.Distinct := by
  cases f <;> simp [toJson]

theorem Shape.distinct_toJson (s : Shape) : s.toJson.Distinct := by
  have texts (o : Option String) : (Json.option .text o).Distinct := distinct_option distinct_text o
  have id (o : Option NodeId) : (idToJson o).Distinct := distinct_option NodeId.distinct_toJson o
  have ids (l : List NodeId) : (idsToJson l).Distinct := distinct_list NodeId.distinct_toJson l
  have arguments (l : List AnnotationArgument) : (Json.list AnnotationArgument.toJson l).Distinct :=
    distinct_list (fun a => by simp [AnnotationArgument.toJson,texts]) l
  cases s <;> simp [toJson,fieldsToJson,texts,id,ids,arguments,NodeId.distinct_toJson,Modifiers.distinct_toJson,
    FunctionForm.distinct_toJson,ParameterFlags.toJson]

theorem Location.distinct_toJson (l : Location) : l.toJson.Distinct := by
  cases l <;> simp [toJson]

theorem NodeKey.distinct_toJson (k : NodeKey) : k.toJson.Distinct := by
  simp [toJson,SourceId.toJson,NodeId.toJson]

mutual
theorem ResolvedType.distinct_toJson : ∀ t : ResolvedType, t.toJson.Distinct
  | ⟨declaration,arguments,nullable⟩ => by
    simpa [ResolvedType.toJson,NodeKey.distinct_toJson] using distinct_typeArgumentsToJson arguments
theorem distinct_resolvedOptionToJson : ∀ o : Option ResolvedType, (resolvedOptionToJson o).Distinct
  | none => rfl
  | some t => t.distinct_toJson
theorem TypeArgument.distinct_toJson : ∀ a : TypeArgument, a.toJson.Distinct
  | ⟨variance,type⟩ => by simpa [TypeArgument.toJson] using distinct_resolvedOptionToJson type
theorem distinct_typeArgumentsToJson : ∀ as : List TypeArgument, ∀ v ∈ typeArgumentsToJson as, v.Distinct
  | [] => List.forall_mem_nil _
  | a :: as => List.forall_mem_cons.mpr ⟨a.distinct_toJson,distinct_typeArgumentsToJson as⟩
end

theorem Descriptor.distinct_toJson (d : Descriptor) : d.toJson.Distinct := by
  have parameters := distinct_list ResolvedType.distinct_toJson d.parameters
  have returnType := distinct_option ResolvedType.distinct_toJson d.returnType
  have overridden := distinct_list NodeKey.distinct_toJson d.overridden
  simp [toJson,NodeKey.distinct_toJson,parameters,returnType,overridden]

/-- Shapes, locations, types and descriptors whose numbers are as wide as they may be, and that do not nest too
deeply, are read back from what is written of them. So they are from every text that gives the members in another
order or leaves out those that say nothing, adds unknown ones, or lists modifiers in any order and number. Modifiers
are written in order, each of them once. -/
theorem codecs_roundTrip :
    (∀ s : Shape, s.toJson.Fits 127 → RoundTrips .shapes Shape.decoder s.toJson s) ∧
    (∀ l : Location, l.toJson.Fits 127 → RoundTrips .shapes Location.decoder l.toJson l) ∧
    (∀ t : ResolvedType, t.Sourced → t.toJson.Fits 127 → RoundTrips .types ResolvedType.decoder t.toJson t) ∧
    (∀ d : Descriptor, d.Sourced → d.toJson.Fits 127 → RoundTrips .types Descriptor.decoder d.toJson d) ∧
    ∀ s : Modifiers, ∃ l : List Modifier, s.toJson = .list (fun m => .text m.word) l ∧ l.Sublist Modifier.all ∧
      l.Nodup ∧ ∀ m, m ∈ l ↔ s.contains m = true := by
  refine ⟨fun s fits => (s.understood _).roundTrips fits s.distinct_toJson,
    fun l fits => (l.understood _).roundTrips fits l.distinct_toJson,
    fun t sourced fits => (ResolvedType.understood sourced _).roundTrips fits t.distinct_toJson,
    fun d sourced fits => (Descriptor.understood sourced _).roundTrips fits d.distinct_toJson,fun s => ?_⟩
  have nodup : Modifier.all.Nodup := by decide
  exact ⟨s.toList,rfl,s.sublist,nodup.sublist s.sublist,fun m => by simp [Modifiers.contains]⟩

/-- A type alias with two modifiers. -/
def internalAlias : Shape := .typeAlias ⟨"T",.ofList [.internalAccess,.expect],[],[],⟨2⟩⟩

/-- The type alias with its tag behind other members, a modifier twice and a member that is unknown. -/
def internalAliasText : String :=
  "\x7b\"target\":2,\"modifiers\":[\"expect\",\"internal\",\"expect\"],\"x\":[\x7b\x7d],\"annotations\":[]," ++
    "\"name\":\"T\",\"kind\":\"type_alias\",\"type_parameters\":[]\x7d"

def internalAliasTree : Doc := .object [(some "target",.number (.ofInt 2)),
  (some "modifiers",.array [.text (some "expect"),.text (some "internal"),.text (some "expect")] .closed),
  (some "x",.array [.object [] .closed] .closed),(some "annotations",.array [] .closed),(some "name",.text (some "T")),
  (some "kind",.text (some "type_alias")),(some "type_parameters",.array [] .closed)] .closed

theorem internalAlias_spelled : Leeway.shapes.Spells internalAlias.toJson internalAliasTree := by
  have modifiers : (Modifiers.ofList [.internalAccess,.expect]).toJson = .array [.text "internal",.text "expect"] := by
    rfl
  refine ⟨_,rfl,?_,?_,?_⟩
  · simp [Once,internalAlias,Shape.fieldsToJson]
  · simp [internalAlias,Shape.fieldsToJson,Leeway.shapes]
  · simp only [internalAlias,Shape.fieldsToJson,modifiers]
    simp [Leeway.SpellsMembers,Leeway.Spells,Shape.kind,NodeKind.word,idsToJson,Json.list,itemDocs,toDoc,NodeId.toJson,
      Json.nat]

/-- The type alias is read, and a type that is written as its declaration alone. -/
theorem codecs_roundTrip_internalAlias :
    Shape.decoder.decode internalAliasText = .ok internalAlias ∧
    ResolvedType.decoder.decode "\x7b\"declaration\":\x7b\"node\":1,\"source\":0\x7d\x7d" = .ok (.simple ⟨⟨0⟩,⟨1⟩⟩) := by
  obtain ⟨shapes,-,types,-⟩ := codecs_roundTrip
  constructor
  · exact (shapes internalAlias (by decide)).spelled internalAliasText internalAliasTree (by cbv) (by decide)
      internalAlias_spelled
  · have sourced : (ResolvedType.simple ⟨⟨0⟩,⟨1⟩⟩).Sourced := by
      simp [ResolvedType.Sourced,ResolvedType.simple,ResolvedType.parts,argumentParts]
    refine (types (.simple ⟨⟨0⟩,⟨1⟩⟩) sourced (by decide)).spelled _ (.object [(some "declaration",
      .object [(some "node",.number (.ofInt 1)),(some "source",.number (.ofInt 0))] .closed)] .closed) (by cbv)
      (by decide) ?_
    refine ⟨_,rfl,?_,?_,?_⟩
    · simp [Once]
    · simp [Leeway.types]
    · simp [Leeway.SpellsMembers,Leeway.Spells,Leeway.types,typeArgumentsToJson,NodeKey.toJson,Once]
      exact ⟨rfl,rfl⟩

end SymbolGraph
