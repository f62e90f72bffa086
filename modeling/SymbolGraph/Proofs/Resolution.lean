import SymbolGraph.Proofs.Overridee
import SymbolGraph.Proofs.QualifiedName
import SymbolGraph.Proofs.Renaming.Unambiguous

/-! What a name means. A type parameter hides everything farther out. Other names are those of types outside of
functions, and the index has these in the order in which a traversal meets them. -/
namespace SymbolGraph

theorem eq_filter_of_sublist {A : Type} {l m : List A} {p : A → Bool} (sub : l.Sublist m) (nodup : m.Nodup)
    (mem : ∀ a ∈ m, a ∈ l ↔ p a = true) : l = m.filter p := by
  have own : l.filter p = l := List.filter_eq_self.mpr fun a ha => (mem a (sub.subset ha)).mp ha
  have below : l.Sublist (m.filter p) := own ▸ sub.filter p
  refine below.eq_of_length_le (List.subperm_of_subset (nodup.filter p) fun a ha => ?_).length_le
  obtain ⟨ha,hp⟩ := List.mem_filter.mp ha
  exact (mem a ha).mpr hp

namespace Models

variable {ms : Models} {k d p : NodeKey} {name : String}

/-- The types of a name in the order in which a traversal meets them, file by file. -/
def typesNamed (ms : Models) (name : String) : List NodeKey :=
  ms.files.flatMap fun f => (ms.preorder (.node f)).filterMap fun x => x.node?.filter (name ∈ ms.typeNames ·)

def IsParameter (ms : Models) (name : String) (k : NodeKey) : Prop :=
  ∃ t, ms.shape? k = some (.typeParameter t) ∧ t.name = name

def DeclaresParameter (ms : Models) (name : String) (d : NodeKey) : Prop :=
  ∃ s, ms.shape? d = some s ∧ ∃ c ∈ s.typeParameters, ms.IsParameter name (d.sibling c)

/-- The first type parameter of a name among those that a node declares. -/
def FirstParameter (ms : Models) (name : String) (d p : NodeKey) : Prop :=
  ∃ s before c after, ms.shape? d = some s ∧ s.typeParameters = before ++ c :: after ∧ p = d.sibling c ∧
    ms.IsParameter name p ∧ ∀ b ∈ before, ¬ms.IsParameter name (d.sibling b)

/-- Whether a name is one of a type parameter where it is mentioned. Names with dots never are. -/
def Bound (ms : Models) (name : String) (k : NodeKey) : Prop :=
  '.' ∉ name.toList ∧ ∃ d ∈ ms.scopes k, ms.DeclaresParameter name d

/-- What a name means where it is mentioned. -/
inductive Means (ms : Models) (name : String) (k : NodeKey) : Option NodeKey → Prop
  | parameter {inner outer : List NodeKey} {d p : NodeKey} (dotless : '.' ∉ name.toList)
    (scopes : ms.scopes k = inner ++ d :: outer) (nearest : ∀ e ∈ inner, ¬ms.DeclaresParameter name e)
    (first : ms.FirstParameter name d p) : Means ms name k (some p)
  | samePackage {before after : List NodeKey} {r : NodeKey} (free : ¬ms.Bound name k)
    (types : ms.typesNamed name = before ++ r :: after) (own : ms.packageOf r = ms.packageOf k)
    (first : ∀ b ∈ before, ms.packageOf b ≠ ms.packageOf k) : Means ms name k (some r)
  | elsewhere {after : List NodeKey} {r : NodeKey} (free : ¬ms.Bound name k)
    (types : ms.typesNamed name = r :: after) (apart : ∀ b ∈ r :: after, ms.packageOf b ≠ ms.packageOf k) :
    Means ms name k (some r)
  | unknown (free : ¬ms.Bound name k) (types : ms.typesNamed name = []) : Means ms name k none

/-! ### The order of the index -/

section Order

variable {i : SourceId} {a : Arena} {outlines : List Outline}

/-- What comes of some of the children of a node, each in order, is in order. -/
theorem flatMap_sublist {cs ds : List NodeId} (sub : cs.Sublist ds) {f : NodeId → List Named}
    (each : ∀ c ∈ cs, ((f c).map (·.key)).Sublist ((a.descent c).map (⟨i,·⟩))) :
    ((cs.flatMap f).map (·.key)).Sublist ((ds.flatMap a.descent).map (⟨i,·⟩)) := by
  rw [List.map_flatMap,List.map_flatMap]
  exact (List.Sublist.flatMap_right cs each).trans (sub.flatMap _)

/-- On its way down the index meets nodes in their order, and leaves some out. -/
theorem namedIn_sublist (ha : ms.arena? i = some a) (ordered : a.SourceOrdered outlines) (depth : Nat)
    (scope : String) {n : NodeId} {s : Shape} (hs : a.shape? n = some s) :
    ((ms.namedIn depth scope ⟨i,n⟩).map (·.key)).Sublist ((a.descent n).map (⟨i,·⟩)) := by
  induction depth generalizing scope n s with
  | zero => exact List.nil_sublist _
  | succ depth ih =>
    have shape : ms.shape? ⟨i,n⟩ = some s := (shape?_eq (k := ⟨i,n⟩) ha).trans hs
    rw [namedIn,shape]
    dsimp only
    cases declared : s.declaredName? with
    | none => exact List.nil_sublist _
    | some name =>
      rw [ordered.descends n s hs,List.map_cons,List.map_cons]
      refine List.Sublist.cons_cons _ ?_
      cases s with
      | classLike c =>
        refine flatMap_sublist (List.sublist_append_right _ _) fun m hm => ?_
        obtain ⟨t,ht,-⟩ := ordered.admitted n _ hs m .declaration (by simp [Shape.places,hm])
        exact ih _ ht
      | _ => exact List.nil_sublist _

theorem namedInFile_sublist (ha : ms.arena? i = some a) (ordered : a.SourceOrdered outlines) {n : NodeId}
    {s : Shape} (hs : a.shape? n = some s) :
    ((ms.namedInFile ⟨i,n⟩).map (·.key)).Sublist ((a.descent n).map (⟨i,·⟩)) := by
  have shape : ms.shape? ⟨i,n⟩ = some s := (shape?_eq (k := ⟨i,n⟩) ha).trans hs
  rw [namedInFile,shape]
  cases s with
  | file f =>
    rw [ordered.descends n _ hs,List.map_cons]
    refine List.Sublist.cons _ (flatMap_sublist (List.sublist_append_right _ _) fun m hm => ?_)
    obtain ⟨t,ht,-⟩ := ordered.admitted n _ hs m .declaration (by simp [Shape.places,hm])
    exact namedIn_sublist ha ordered _ _ ht
  | _ => exact List.nil_sublist _

theorem named_files_sublist (ms : Models) (ha : ms.arena? i = some a) (ordered : a.SourceOrdered outlines) :
    (((a.files.map (⟨i,·⟩)).flatMap ms.namedInFile).map (·.key)).Sublist (a.nodes.map (⟨i,·⟩)) := by
  rw [← ordered.descent,List.map_flatMap,List.map_flatMap,List.flatMap_map]
  refine List.Sublist.flatMap_right _ fun n hn => ?_
  obtain ⟨s,hs⟩ := Option.isSome_iff_exists.mp ((ordered.shaped n).mpr ((ordered.files n).mp hn).1)
  exact namedInFile_sublist ha ordered hs

end Order

theorem lt_of_mem_ancestors (hw : ms.WellFormed) (h : d ∈ ms.ancestors k) :
    d.source = k.source ∧ d.node.index < k.node.index := by
  induction k using hw.climb with
  | root k top =>
    rw [ancestors_of_root top] at h
    cases h
  | child k q parent ih =>
    have lt := hw.index_lt parent
    obtain ⟨-,-,-,-,e⟩ := hw.parent parent
    have source : q.source = k.source := by rw [e]; rfl
    rw [hw.ancestors_of_parent parent] at h
    rcases List.mem_cons.mp h with rfl | h
    · exact ⟨source,lt⟩
    · exact ⟨(ih h).1.trans source,(ih h).2.trans lt⟩

/-- The sources have their order, and no node stands before what is around it. -/
theorem pairwise_keys (hw : ms.WellFormed) :
    ms.keys.Pairwise fun k l => k.source.index ≤ l.source.index ∧ l ∉ ms.ancestors k := by
  refine List.pairwise_flatMap.mpr ⟨fun (i,a) _ => ?_,?_⟩
  · have nodes : a.nodes.Pairwise fun n m => n.index < m.index :=
      List.pairwise_map.mpr (List.pairwise_lt_range.imp fun lt => lt)
    refine List.pairwise_map.mpr (nodes.imp fun lt => ⟨Nat.le_refl _,fun above => ?_⟩)
    exact absurd (lt_of_mem_ancestors hw above).2 (Nat.not_lt.mpr (Nat.le_of_lt lt))
  · have sources : ms.indexed.Pairwise fun x y => x.1.index < y.1.index := by
      rw [List.pairwise_iff_getElem]
      intro i j hi hj lt
      simpa only [indexed,List.getElem_mapIdx] using lt
    refine sources.imp fun {x y} lt k hk l hl => ?_
    obtain ⟨_,-,rfl⟩ := List.mem_map.mp hk
    obtain ⟨_,-,rfl⟩ := List.mem_map.mp hl
    refine ⟨Nat.le_of_lt lt,fun above => ?_⟩
    have same : y.1 = x.1 := (lt_of_mem_ancestors hw above).1
    rw [same] at lt
    exact Nat.lt_irrefl _ lt

theorem mem_typeNames : name ∈ ms.typeNames k ↔ ∃ s, ms.shape? k = some s ∧
    (s.kind = .classLike ∨ s.kind = .typeAlias) ∧ ms.isLocal k = false ∧
      (s.declaredName? = some name ∨ ms.indexedName? k = some name) := by
  rw [typeNames]
  cases ms.shape? k with
  | none => simp
  | some s =>
    by_cases type : (s.kind = .classLike ∨ s.kind = .typeAlias) ∧ ms.isLocal k = false
    · simp [type]
    · simp only [if_neg type,List.not_mem_nil,Option.some.injEq,exists_eq_left',false_iff]
      rintro ⟨kind,outside,-⟩
      exact type ⟨kind,outside⟩

/-- The index finds every type by its names. -/
theorem mem_types (hw : ms.WellFormed) (inferred : TextMap) :
    k ∈ (Names.ofModels ms inferred).types name ↔ name ∈ ms.typeNames k := by
  refine ⟨mem_typeNames_of_mem_types hw,fun h => ?_⟩
  obtain ⟨s,hs,type,outside,answers⟩ := mem_typeNames.mp h
  have declares : s.kind.isDeclaration = true := by rcases type with e | e <;> rw [e] <;> rfl
  have kind : s.kind ≠ .typeParameter := by rcases type with e | e <;> rw [e] <;> nofun
  obtain ⟨simple,declared⟩ := Option.isSome_iff_exists.mp (s.declaredName?_isSome.trans declares)
  have known := exists_named hw hs declared kind outside
  refine List.mem_map.mpr ⟨_,List.mem_filter.mpr ⟨known,Bool.and_eq_true_iff.mpr ⟨?_,?_⟩⟩,rfl⟩
  · simpa [Named.isType] using type
  · rcases answers with own | own
    · simp [Named.answersTo,Option.some.inj (declared.symm.trans own)]
    · have indexed := (exists_mem_named_iff hw).mp ⟨_,known,rfl,rfl⟩
      exact Bool.or_eq_true_iff.mpr (.inr (beq_iff_eq.mpr (Option.some.inj (indexed.symm.trans own))))

end Models

/-! ### Meaning -/

namespace Names

variable {n : Names} {k d p : NodeKey} {r : Option NodeKey} {name : String}

/-- The type parameter that a name means where it is mentioned. -/
def parameter? (n : Names) (name : String) (k : NodeKey) : Option NodeKey :=
  if name.toList.contains '.' then none else (n.models.scopes k).findSome? (n.typeParameter? name)

theorem resolveName?_eq (n : Names) (name : String) (k : NodeKey) : n.resolveName? name k =
    (n.parameter? name k).or (((n.types name).find? fun r => n.models.packageOf r == n.models.packageOf k).or
      (n.types name).head?) := by
  simp only [resolveName?,parameter?,Option.orElse_eq_orElse,Option.orElse_eq_or]

theorem isParameter_iff : (match n.models.shape? p with
    | some (.typeParameter t) => t.name == name
    | _ => false) = true ↔ n.models.IsParameter name p := by
  rw [Models.IsParameter]
  split
  · next t ht => simp [ht]
  · next other =>
    simp only [Bool.false_eq_true,false_iff]
    rintro ⟨t,ht,-⟩
    exact other t ht

theorem typeParameter?_eq_some_iff : n.typeParameter? name d = some p ↔ n.models.FirstParameter name d p := by
  rw [typeParameter?,Models.FirstParameter,Option.bind_eq_bind,Option.bind_eq_some_iff]
  simp only [List.find?_eq_some_iff_append,Bool.not_eq_true']
  constructor
  · rintro ⟨s,hs,own,before,after,listed,first⟩
    obtain ⟨cs,_,e,rfl,e'⟩ := List.map_eq_append_iff.mp listed
    obtain ⟨c,cs',rfl,rfl,rfl⟩ := List.map_eq_cons_iff.mp e'
    refine ⟨s,cs,c,cs',hs,e,rfl,isParameter_iff.mp own,fun b hb isParameter => ?_⟩
    exact Bool.eq_false_iff.mp (first _ (List.mem_map_of_mem hb)) (isParameter_iff.mpr isParameter)
  · rintro ⟨s,before,c,after,hs,e,rfl,own,first⟩
    refine ⟨s,hs,isParameter_iff.mpr own,before.map d.sibling,after.map d.sibling,by rw [e]; simp,fun q hq => ?_⟩
    obtain ⟨b,hb,rfl⟩ := List.mem_map.mp hq
    exact Bool.eq_false_iff.mpr fun isParameter => first b hb (isParameter_iff.mp isParameter)

theorem typeParameter?_eq_none_iff : n.typeParameter? name d = none ↔ ¬n.models.DeclaresParameter name d := by
  rw [typeParameter?,Models.DeclaresParameter,Option.bind_eq_bind,Option.bind_eq_none_iff]
  simp only [List.find?_eq_none,List.forall_mem_map]
  constructor
  · rintro none ⟨s,hs,c,hc,own⟩
    exact none s hs c hc (isParameter_iff.mpr own)
  · intro undeclared s hs c hc own
    exact undeclared ⟨s,hs,c,hc,isParameter_iff.mp own⟩

theorem parameter?_eq_some_iff : n.parameter? name k = some p ↔ '.' ∉ name.toList ∧
    ∃ inner d outer, n.models.scopes k = inner ++ d :: outer ∧ n.models.FirstParameter name d p ∧
      ∀ e ∈ inner, ¬n.models.DeclaresParameter name e := by
  rw [parameter?]
  by_cases dot : '.' ∈ name.toList
  · simp [dot]
  · simp [dot,List.findSome?_eq_some_iff,typeParameter?_eq_some_iff,typeParameter?_eq_none_iff]

theorem parameter?_eq_none_iff : n.parameter? name k = none ↔ ¬n.models.Bound name k := by
  rw [parameter?,Models.Bound]
  by_cases dot : '.' ∈ name.toList
  · simp [dot]
  · simp [dot,typeParameter?_eq_none_iff]

variable (types : n.types name = n.models.typesNamed name)
include types

theorem means_resolveName? (k : NodeKey) : n.models.Means name k (n.resolveName? name k) := by
  rw [resolveName?_eq]
  cases bound : n.parameter? name k with
  | some p =>
    obtain ⟨dotless,inner,d,outer,scopes,first,nearest⟩ := parameter?_eq_some_iff.mp bound
    exact .parameter dotless scopes nearest first
  | none =>
    have free := parameter?_eq_none_iff.mp bound
    rw [Option.none_or,types]
    cases near : (n.models.typesNamed name).find? fun r => n.models.packageOf r == n.models.packageOf k with
    | some r =>
      obtain ⟨own,before,after,listed,first⟩ := List.find?_eq_some_iff_append.mp near
      exact .samePackage free listed (beq_iff_eq.mp own) fun b hb => by simpa using first b hb
    | none =>
      have apart : ∀ b ∈ n.models.typesNamed name, n.models.packageOf b ≠ n.models.packageOf k :=
        fun b hb => by simpa using List.find?_eq_none.mp near b hb
      rw [Option.none_or]
      cases listed : n.models.typesNamed name with
      | nil => exact .unknown free listed
      | cons r after => exact .elsewhere free listed (listed ▸ apart)

/-- A name means one thing. -/
theorem resolveName?_of_means (h : n.models.Means name k r) : n.resolveName? name k = r := by
  rw [resolveName?_eq]
  cases h with
  | parameter dotless scopes nearest first =>
    rw [parameter?_eq_some_iff.mpr ⟨dotless,_,_,_,scopes,first,nearest⟩]
    rfl
  | samePackage free listed own first =>
    have near : (n.models.typesNamed name).find? (fun r => n.models.packageOf r == n.models.packageOf k) = some _ :=
      List.find?_eq_some_iff_append.mpr ⟨beq_iff_eq.mpr own,_,_,listed,fun b hb => by simpa using first b hb⟩
    rw [parameter?_eq_none_iff.mpr free,types,near]
    rfl
  | elsewhere free listed apart =>
    have near : (n.models.typesNamed name).find? (fun r => n.models.packageOf r == n.models.packageOf k) = none :=
      List.find?_eq_none.mpr fun b hb => by simpa using apart b (listed ▸ hb)
    rw [parameter?_eq_none_iff.mpr free,types,near,listed]
    rfl
  | unknown free listed =>
    rw [parameter?_eq_none_iff.mpr free,types,listed]
    rfl

end Names

namespace Fixture

variable (x : Fixture)

/-- What a traversal meets under a name is in the order of the nodes. -/
theorem typesNamed_eq (name : String) :
    x.models.typesNamed name = x.models.keys.filter (name ∈ x.models.typeNames ·) := by
  rw [Models.typesNamed,filterMap_preorder x (f := fun y => y.node?.filter (name ∈ x.models.typeNames ·))
    fun _ => rfl,← List.filterMap_eq_filter]
  rfl

/-- The index lists types as a traversal does. -/
theorem types_eq (name : String) : x.names.types name = x.models.typesNamed name := by
  have kotlin := Models.named_files_sublist x.models (i := ⟨0⟩) rfl (flatten_sourceOrdered.1 x.kotlin)
  have java := Models.named_files_sublist x.models (i := ⟨1⟩) rfl (flatten_sourceOrdered.2 x.java)
  have all : (x.models.named.map (·.key)).Sublist x.models.keys := by
    rw [Models.named,files_eq,keys_eq,List.flatMap_append,List.map_append]
    exact kotlin.append java
  have order : (x.names.types name).Sublist x.models.keys := (List.filter_sublist.map _).trans all
  rw [typesNamed_eq]
  refine eq_filter_of_sublist order (Models.nodup_keys _) fun k _ => ?_
  rw [decide_eq_true_iff]
  exact Models.mem_types x.models_wellFormed x.inferred

theorem mem_typesNamed {name : String} {r : NodeKey} :
    r ∈ x.models.typesNamed name ↔ name ∈ x.models.typeNames r := by
  rw [← x.types_eq]
  exact Models.mem_types x.models_wellFormed x.inferred

variable (config : Config)

/-- A name means the nearest type parameter, else the first type of the same package, else the first type. The types
of a name are those outside of functions with this simple or qualified name, each of them once, in the order of the
sources and a class before what is nested in it. -/
theorem resolveName_means (history : List Action) (name : String) :
    (∀ k r, x.models.Means name k r ↔ x.names.resolveName? name k = r) ∧
    (∀ r, r ∈ x.models.typesNamed name ↔ ∃ s, x.models.shape? r = some s ∧
      (s.kind = .classLike ∨ s.kind = .typeAlias) ∧ x.models.isLocal r = false ∧
        (s.declaredName? = some name ∨ x.models.indexedName? r = some name)) ∧
    (x.models.typesNamed name).Nodup ∧
    ((x.models.typesNamed name).Pairwise fun r q => r.source.index ≤ q.source.index ∧ q ∉ x.models.ancestors r) ∧
    (∀ k r s, x.names.resolveName? name k = some r → x.models.shape? r = some s →
      s.kind = .classLike ∨ s.kind = .typeAlias → x.models.isLocal r = false) ∧
    ((∀ k c, x.models.shape? k = some (.classLike c) → c.name ≠ "") → ∀ r q,
      x.models.indexedName? r = some q ↔ x.facetDuring config history r .qualifiedName = .ok (.text (some q))) := by
  have hw : x.models.WellFormed := x.models_wellFormed
  have means (k : NodeKey) : x.models.Means name k (x.names.resolveName? name k) :=
    Names.means_resolveName? (x.types_eq name) k
  refine ⟨fun k r => ⟨Names.resolveName?_of_means (x.types_eq name),fun h => h ▸ means k⟩,fun r => ?_,?_,?_,?_,?_⟩
  · rw [mem_typesNamed,Models.mem_typeNames]
  · rw [typesNamed_eq]
    exact (Models.nodup_keys _).filter _
  · rw [typesNamed_eq]
    exact (Models.pairwise_keys hw).filter _
  · intro k r s found hs type
    -- A type parameter is neither a class nor an alias, and everything else is on the list.
    have listed {r : NodeKey} (h : r ∈ x.models.typesNamed name) : x.models.isLocal r = false := by
      obtain ⟨-,-,-,outside,-⟩ := Models.mem_typeNames.mp (x.mem_typesNamed.mp h)
      exact outside
    have meant := means k
    rw [found] at meant
    cases meant with
    | parameter dotless scopes nearest first =>
      obtain ⟨-,-,-,-,-,-,-,⟨t,ht,-⟩,-⟩ := first
      obtain rfl := Option.some.inj (hs.symm.trans ht)
      rcases type with e | e <;> cases e
    | samePackage free types own first => exact listed (types ▸ List.mem_append_right _ List.mem_cons_self)
    | elsewhere free types apart => exact listed (types ▸ List.mem_cons_self)
  · intro named r q
    rw [facetDuring_qualifiedName_iff,Models.indexedName?_eq hw named]

/-- Classes of one name in two packages, a type parameter of this name, and mentions of it in three packages. -/
def shadowed : Fixture where
  kotlin := [⟨"A.kt","a",[],[.classLike ⟨"T",.plain,.empty,[],[],[],[],1⟩,
      .classLike ⟨"Box",.plain,.empty,[],[⟨"T",.invariant,.empty,[]⟩],[],
        [.property ⟨"p",false,.empty,[],[],none,some ⟨"T",[],[]⟩,3⟩],2⟩]⟩,
    ⟨"B.kt","b",[],[.classLike ⟨"T",.plain,.empty,[],[],[],[],1⟩,
      .property ⟨"p",false,.empty,[],[],none,some ⟨"T",[],[]⟩,2⟩]⟩]
  java := [⟨"C.java","c",[⟨"C",.plain,.empty,[],[],[],[],[.field ⟨"p",.empty,[],⟨"T",[],[]⟩,2⟩],1⟩]⟩]
  inferred := .empty

/-- The type parameter hides the class, but not its qualified name. Elsewhere the package decides, and else the
order of the files. -/
theorem resolveName_means_shadowed :
    shadowed.models.Means "T" ⟨⟨0⟩,⟨5⟩⟩ (some ⟨⟨0⟩,⟨3⟩⟩) ∧ shadowed.models.Means "a.T" ⟨⟨0⟩,⟨5⟩⟩ (some ⟨⟨0⟩,⟨1⟩⟩) ∧
    shadowed.models.Means "T" ⟨⟨0⟩,⟨9⟩⟩ (some ⟨⟨0⟩,⟨7⟩⟩) ∧ shadowed.models.Means "T" ⟨⟨1⟩,⟨3⟩⟩ (some ⟨⟨0⟩,⟨1⟩⟩) ∧
    shadowed.facetDuring .standard [] ⟨⟨0⟩,⟨1⟩⟩ .qualifiedName = .ok (.text (some "a.T")) := by
  obtain ⟨simple,-⟩ := resolveName_means shadowed .standard [] "T"
  obtain ⟨qualified,-,-,-,-,same⟩ := resolveName_means shadowed .standard [] "a.T"
  have named : ∀ k c, shadowed.models.shape? k = some (.classLike c) → c.name ≠ "" := by
    have all : ∀ k ∈ shadowed.models.keys, ∀ s ∈ shadowed.models.shape? k,
        s.kind = .classLike → s.declaredName? ≠ some "" := by decide +kernel
    exact fun k c h e => all k (Models.mem_keys h) _ h rfl (congrArg some e)
  refine ⟨(simple _ _).mpr ?_,(qualified _ _).mpr ?_,(simple _ _).mpr ?_,(simple _ _).mpr ?_,(same named _ _).mp ?_⟩ <;>
    decide +kernel

end Fixture
end SymbolGraph
