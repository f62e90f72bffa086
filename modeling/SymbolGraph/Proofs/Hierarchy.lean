import Mathlib.Data.List.Chain
import Mathlib.Data.List.Induction
import Mathlib.Logic.Relation
import SymbolGraph.Proofs.Names
import SymbolGraph.Proofs.Search

/-! The classes above a class, aliases expanded, and the functions above a function. -/
namespace SymbolGraph
namespace Names

variable {n : Names} {f g h k c d owner : NodeKey} {name : String} {arity : Nat}

/-- The super classes of a class are what its super types of known meaning expand to. -/
theorem mem_superClasses : d ∈ n.superClasses c ↔ ∃ C r t, n.models.shape? c = some (.classLike C) ∧
    r ∈ C.superTypes ∧ n.reference? (c.sibling r) = some t ∧ (n.expand t).declaration = d := by
  rw [superClasses]
  split
  · next C hC => simp [hC]
  · next other =>
    refine ⟨nofun,?_⟩
    rintro ⟨C,-,-,hC,-⟩
    exact absurd hC (other C)

/-- A class extends another one by one or more steps to super classes, aliases expanded. -/
def Extends (n : Names) : NodeKey → NodeKey → Prop := Relation.TransGen fun c d => d ∈ n.superClasses c

/-- A class has a function of a given name and number of parameters. -/
def HasMember (n : Names) (c : NodeKey) (name : String) (arity : Nat) (g : NodeKey) : Prop :=
  ∃ C G, n.models.shape? c = some (.classLike C) ∧ n.models.parent? g = some c ∧
    n.models.shape? g = some (.function G) ∧ G.name = name ∧ G.parameters.length = arity

/-- A function has the name and the number of parameters of one of a class that its own class extends. -/
def Redefines (n : Names) (f g : NodeKey) : Prop :=
  ∃ c d F, n.models.parent? f = some c ∧ n.models.shape? f = some (.function F) ∧ n.Extends c d ∧
    n.HasMember d F.name F.parameters.length g

theorem Redefines.trans (hg : n.Redefines f g) (hh : n.Redefines g h) : n.Redefines f h := by
  obtain ⟨c,d,F,hc,hF,above,-,G,-,hd,hG,name,arity⟩ := hg
  obtain ⟨d',e,G',hd',hG',above',member⟩ := hh
  obtain rfl : d = d' := Option.some.inj (hd.symm.trans hd')
  obtain rfl : G = G' := Shape.function.inj (Option.some.inj (hG.symm.trans hG'))
  rw [name,arity] at member
  exact ⟨c,e,F,hc,hF,above.trans above',member⟩

/-- Unless a class extends itself, its functions redefine functions of other classes. -/
theorem Redefines.parent_ne (h : n.Redefines f g) (acyclic : ∀ c, ¬n.Extends c c) :
    n.models.parent? g ≠ n.models.parent? f := by
  obtain ⟨c,d,-,hc,-,above,-,-,-,hd,-⟩ := h
  intro same
  obtain rfl : d = c := Option.some.inj (hd.symm.trans (same.trans hc))
  exact acyclic d above

/-! ### Members -/

/-- A function is the first one of a class with a given name and number of parameters. -/
def FirstMember (n : Names) (c : NodeKey) (name : String) (arity : Nat) (g : NodeKey) : Prop :=
  ∃ C before after, n.models.shape? c = some (.classLike C) ∧
    C.declarations.map c.sibling = before ++ g :: after ∧ n.HasMember c name arity g ∧
    ∀ h ∈ before, ¬n.HasMember c name arity h

/-- A search for members accepts functions of a given name and number of parameters. -/
def accepts (n : Names) (name : String) (arity : Nat) (g : NodeKey) : Bool :=
  match n.models.shape? g with
  | some (.function G) => G.name == name && G.parameters.length == arity
  | _ => false

theorem matching?_eq {C : ClassShape} (hC : n.models.shape? c = some (.classLike C)) :
    n.matching? name arity c = (C.declarations.map c.sibling).find? (n.accepts name arity) := by
  rw [matching?,hC]
  rfl

theorem accepts_iff (hw : n.models.WellFormed) {C : ClassShape} (hC : n.models.shape? c = some (.classLike C))
    (hg : g ∈ C.declarations.map c.sibling) :
    n.accepts name arity g = true ↔ n.HasMember c name arity g := by
  obtain ⟨m,hm,rfl⟩ := List.mem_map.mp hg
  have listed : (m,Place.declaration) ∈ (Shape.classLike C).places := by
    simp [Shape.places,hm]
  have parent := (hw.child hC listed).1
  rw [accepts]
  constructor
  · intro accepted
    split at accepted
    · next G hG =>
      simp only [Bool.and_eq_true,beq_iff_eq] at accepted
      exact ⟨C,G,hC,parent,hG,accepted⟩
    · cases accepted
  · rintro ⟨-,G,-,-,hG,rfl,rfl⟩
    simp [hG]

/-- What a class has is one of its declarations. -/
theorem HasMember.listed (hw : n.models.WellFormed) {C : ClassShape}
    (hC : n.models.shape? c = some (.classLike C)) (h : n.HasMember c name arity g) :
    g ∈ C.declarations.map c.sibling := by
  obtain ⟨-,G,-,parent,hG,-,-⟩ := h
  obtain ⟨s,place,hs,listed,e⟩ := hw.parent parent
  obtain rfl := Option.some.inj (hC.symm.trans hs)
  obtain ⟨-,t,ht,admitted⟩ := hw.child hs listed
  have key : c.sibling g.node = g := by
    rw [e]
    rfl
  rw [key,hG] at ht
  obtain rfl := Option.some.inj ht
  have member : g.node ∈ C.declarations := by
    simp only [Shape.places,List.mem_append,Place.mem_on] at listed
    rcases listed with ((⟨-,rfl⟩ | ⟨-,rfl⟩) | ⟨-,rfl⟩) | ⟨member,-⟩
    · cases admitted
    · cases admitted
    · cases admitted
    · exact member
  exact List.mem_map.mpr ⟨g.node,member,key⟩

theorem matching?_eq_some (hw : n.models.WellFormed) :
    n.matching? name arity c = some g ↔ n.FirstMember c name arity g := by
  have member : ∀ {C before after}, n.models.shape? c = some (.classLike C) →
      C.declarations.map c.sibling = before ++ g :: after → (n.accepts name arity g = true ∧
        (∀ h ∈ before, (!n.accepts name arity h) = true) ↔
      n.HasMember c name arity g ∧ ∀ h ∈ before, ¬n.HasMember c name arity h) := by
    intro C before after hC split
    refine and_congr (accepts_iff hw hC (by simp [split])) (forall₂_congr fun h hh => ?_)
    rw [← accepts_iff hw hC (by simp [split,hh])]
    simp
  constructor
  · intro found
    obtain ⟨C,hC⟩ : ∃ C, n.models.shape? c = some (.classLike C) := by
      rw [matching?] at found
      split at found
      · next C hC => exact ⟨C,hC⟩
      · cases found
    rw [matching?_eq hC,List.find?_eq_some_iff_append] at found
    obtain ⟨accepted,before,after,split,refused⟩ := found
    exact ⟨C,before,after,hC,split,(member hC split).mp ⟨accepted,refused⟩⟩
  · rintro ⟨C,before,after,hC,split,first⟩
    obtain ⟨accepted,refused⟩ := (member hC split).mpr first
    rw [matching?_eq hC,List.find?_eq_some_iff_append]
    exact ⟨accepted,before,after,split,refused⟩

theorem matching?_eq_none (hw : n.models.WellFormed) :
    n.matching? name arity c = none ↔ ∀ g, ¬n.HasMember c name arity g := by
  constructor
  · intro none g member
    obtain ⟨C,-,hC,-⟩ := id member
    rw [matching?_eq hC,List.find?_eq_none] at none
    have listed := member.listed hw hC
    exact none g listed ((accepts_iff hw hC listed).mpr member)
  · intro none
    apply Option.eq_none_iff_forall_ne_some.mpr
    intro g found
    obtain ⟨-,-,-,-,-,member,-⟩ := (matching?_eq_some hw).mp found
    exact none g member

/-! ### The nearest functions above a function -/

/-- A chain of super classes leads up from a class to another one. It does not come back to where it begins, and
none of the classes on the way has a function of a given name and number of parameters. -/
def LeadsUp (n : Names) (name : String) (arity : Nat) (c : NodeKey) (passed : List NodeKey) (d : NodeKey) : Prop :=
  (c :: passed ++ [d]).IsChain (fun a b => b ∈ n.superClasses a) ∧ c ∉ passed ++ [d] ∧
    ∀ b ∈ passed, ∀ h, ¬n.HasMember b name arity h

theorem leadsUp_nil : n.LeadsUp name arity c [] d ↔ d ∈ n.superClasses c ∧ d ≠ c := by
  simp [LeadsUp,eq_comm]

theorem leadsUp_append {passed : List NodeKey} : n.LeadsUp name arity c (passed ++ [b]) d ↔
    n.LeadsUp name arity c passed b ∧ (∀ h, ¬n.HasMember b name arity h) ∧ d ∈ n.superClasses b ∧ d ≠ c := by
  have chain : (c :: (passed ++ [b]) ++ [d]).IsChain (fun a b => b ∈ n.superClasses a) ↔
      (c :: passed ++ [b]).IsChain (fun a b => b ∈ n.superClasses a) ∧ d ∈ n.superClasses b := by
    change ((c :: passed ++ [b]) ++ [d]).IsChain _ ↔ _
    rw [List.isChain_append,List.getLast?_concat]
    simp
  have unmatched : (∀ a ∈ passed ++ [b], ∀ h, ¬n.HasMember a name arity h) ↔
      (∀ a ∈ passed, ∀ h, ¬n.HasMember a name arity h) ∧ ∀ h, ¬n.HasMember b name arity h := by
    simp [or_imp,forall_and]
  rw [LeadsUp,LeadsUp,chain,unmatched,List.mem_append,List.mem_singleton,not_or,ne_comm]
  tauto

theorem LeadsUp.extends {passed : List NodeKey} (h : n.LeadsUp name arity c passed d) : n.Extends c d := by
  induction passed using List.reverseRecOn generalizing d with
  | nil => exact .single (leadsUp_nil.mp h).1
  | append_singleton passed b ih =>
    obtain ⟨before,-,last,-⟩ := leadsUp_append.mp h
    exact (ih before).tail last

/-- A chain leads up to a class if steps to super classes do that avoid where they began and leave only classes
without such a function. -/
theorem exists_leadsUp : (∃ passed, n.LeadsUp name arity c passed d) ↔ ∃ a ∈ n.superClasses c, a ≠ c ∧
    Relation.ReflTransGen (fun a b => (∀ h, ¬n.HasMember a name arity h) ∧ b ∈ n.superClasses a ∧ b ≠ c) a d := by
  constructor
  · rintro ⟨passed,up⟩
    induction passed using List.reverseRecOn generalizing d with
    | nil =>
      obtain ⟨first,away⟩ := leadsUp_nil.mp up
      exact ⟨d,first,away,.refl⟩
    | append_singleton passed b ih =>
      obtain ⟨before,last⟩ := leadsUp_append.mp up
      obtain ⟨a,first,away,reached⟩ := ih before
      exact ⟨a,first,away,reached.tail last⟩
  · rintro ⟨a,first,away,reached⟩
    induction reached with
    | refl => exact ⟨[],leadsUp_nil.mpr ⟨first,away⟩⟩
    | @tail b d _ last ih =>
      obtain ⟨passed,up⟩ := ih
      exact ⟨passed ++ [b],leadsUp_append.mpr ⟨up,last⟩⟩

/-- A search for functions above those of a class comes to the classes that a chain leads up to, once to each. -/
theorem exists_visited (hw : n.models.WellFormed) (name : String) (arity : Nat) (c : NodeKey) : ∃ above,
    (n.superGraphAbove name arity).explore false [c] (n.superClasses c) = c :: above ∧ above.Nodup ∧
      ∀ d, d ∈ above ↔ ∃ passed, n.LeadsUp name arity c passed d := by
  let graph := n.superGraphAbove name arity
  obtain ⟨above,visited⟩ := graph.prefix_explore false [c] (n.superClasses c)
  have nodup : (graph.explore false [c] (n.superClasses c)).Nodup :=
    graph.nodup_explore false (List.nodup_singleton c)
  have step : ∀ a b, b ∈ graph.next a ∧ b ∉ [c] ↔
      (∀ h, ¬n.HasMember a name arity h) ∧ b ∈ n.superClasses a ∧ b ≠ c := by
    intro a b
    change b ∈ (if _ then _ else _) ∧ _ ↔ _
    rw [← matching?_eq_none hw]
    cases n.matching? name arity a <;> simp
  have met : ∀ d, d ∈ c :: above ↔ d ∈ [c] ∨ ∃ a ∈ n.superClasses c, a ∉ [c] ∧
      Relation.ReflTransGen (fun a b => b ∈ graph.next a ∧ b ∉ [c]) a d := by
    intro d
    rw [show c :: above = _ from visited]
    exact graph.mem_explore false
  simp only [step] at met
  rw [← visited] at nodup
  obtain ⟨new,nodup⟩ := List.nodup_cons.mp nodup
  refine ⟨above,visited.symm,nodup,fun d => ?_⟩
  by_cases own : d = c
  · subst own
    have none : ¬∃ passed, n.LeadsUp name arity d passed d := fun ⟨passed,up⟩ => up.2.1 (by simp)
    exact ⟨fun hd => absurd hd new,fun up => absurd up none⟩
  · rw [exists_leadsUp]
    simpa [own] using met d

theorem mem_overriddenBy_iff (hw : n.models.WellFormed) : g ∈ n.overriddenBy f name arity ↔
    ∃ c passed d, n.models.parent? f = some c ∧ n.LeadsUp name arity c passed d ∧
      n.FirstMember d name arity g := by
  rw [overriddenBy]
  cases hc : n.models.parent? f with
  | none => simp
  | some c =>
    obtain ⟨above,visited,-,reached⟩ := n.exists_visited hw name arity c
    simp only [visited,List.drop_one,List.tail_cons,List.mem_filterMap,reached,matching?_eq_some hw]
    constructor
    · rintro ⟨d,⟨passed,up⟩,first⟩
      exact ⟨c,passed,d,rfl,up,first⟩
    · rintro ⟨_,passed,d,same,up,first⟩
      cases same
      exact ⟨d,⟨passed,up⟩,first⟩

theorem nodup_overriddenBy (hw : n.models.WellFormed) : (n.overriddenBy f name arity).Nodup := by
  rw [overriddenBy]
  cases n.models.parent? f with
  | none => exact List.nodup_nil
  | some c =>
    obtain ⟨above,visited,nodup,-⟩ := n.exists_visited hw name arity c
    simp only [visited,List.drop_one,List.tail_cons]
    refine nodup.filterMap fun d e g hd he => ?_
    obtain ⟨-,-,-,-,-,⟨-,-,-,parent,-⟩,-⟩ := (matching?_eq_some hw).mp hd
    obtain ⟨-,-,-,-,-,⟨-,-,-,parent',-⟩,-⟩ := (matching?_eq_some hw).mp he
    exact Option.some.inj (parent.symm.trans parent')

theorem mem_overriddenBy (hw : n.models.WellFormed) (hg : g ∈ n.overriddenBy f name arity) :
    ∃ c d, n.models.parent? f = some c ∧ d ≠ c ∧ n.Extends c d ∧ n.HasMember d name arity g := by
  obtain ⟨c,passed,d,hc,up,-,-,-,-,-,member,-⟩ := (mem_overriddenBy_iff hw).mp hg
  have ne : d ≠ c := by
    rintro rfl
    exact up.2.1 (by simp)
  exact ⟨c,d,hc,ne,up.extends,member⟩

/-- If no functions are found above those of a class, then no other class that it extends has one. -/
theorem not_hasMember_of_overriddenBy (hw : n.models.WellFormed) (hc : n.models.parent? f = some c)
    (none : n.overriddenBy f name arity = []) (hd : n.Extends c d) (ne : d ≠ c) :
    ¬n.HasMember d name arity g := by
  have unmatched : ∀ d passed, n.LeadsUp name arity c passed d → ∀ g, ¬n.HasMember d name arity g := by
    intro d passed up
    rw [← matching?_eq_none hw]
    refine Option.eq_none_iff_forall_ne_some.mpr fun g found => ?_
    have above := (mem_overriddenBy_iff hw).mpr ⟨c,passed,d,hc,up,(matching?_eq_some hw).mp found⟩
    rw [none] at above
    cases above
  have reached : d = c ∨ ∃ passed, n.LeadsUp name arity c passed d := by
    clear ne
    induction hd with
    | @single d first =>
      by_cases own : d = c
      · exact .inl own
      · exact .inr ⟨[],leadsUp_nil.mpr ⟨first,own⟩⟩
    | @tail b d _ last ih =>
      by_cases own : d = c
      · exact .inl own
      · rcases ih with rfl | ⟨passed,up⟩
        · exact .inr ⟨[],leadsUp_nil.mpr ⟨last,own⟩⟩
        · exact .inr ⟨passed ++ [b],leadsUp_append.mpr ⟨up,unmatched b passed up,last,own⟩⟩
  obtain ⟨passed,up⟩ := reached.resolve_left ne
  exact unmatched d passed up g

/-! ### The functions at the root -/

/-- A function is at the root of those above it: it does not say that it overrides, or no other class that
its own extends has a function of its name and number of parameters. -/
def IsRoot (n : Names) (g : NodeKey) : Prop :=
  ∃ d G, n.models.parent? g = some d ∧ n.models.shape? g = some (.function G) ∧
    (G.modifiers.contains .overriding = false ∨
      ∀ e h, n.Extends d e → e ≠ d → ¬n.HasMember e G.name G.parameters.length h)

/-- A function that does not say that it overrides overrides nothing. -/
theorem overridden_eq_nil {F : FunctionShape} (hF : n.models.shape? f = some (.function F))
    (own : F.modifiers.contains .overriding = false) : n.oracle.overridden f = [] := by
  apply List.eq_nil_iff_forall_not_mem.mpr
  intro g hg
  obtain ⟨G,hG,own',-⟩ := mem_overridden hg
  obtain rfl := Shape.function.inj (Option.some.inj (hF.symm.trans hG))
  rw [own] at own'
  cases own'

theorem overridden_eq {F : FunctionShape} {e : Descriptor} (hF : n.models.shape? f = some (.function F))
    (he : n.oracle.descriptor f = some e) : n.oracle.overridden f = e.overridden ∧ e.overridden =
      if F.modifiers.contains .overriding then n.overriddenBy f F.name F.parameters.length else [] := by
  refine ⟨by rw [Oracle.overridden,he],?_⟩
  change n.descriptor? f = some e at he
  rw [descriptor?,hF] at he
  obtain ⟨parameters,-,made⟩ := Option.bind_eq_some_iff.mp he
  obtain rfl := Option.some.inj made
  rfl

/-- A function that another one overrides is redefined by it. -/
theorem redefines_of_overridden (hw : n.models.WellFormed) (hg : g ∈ n.oracle.overridden f) :
    n.Redefines f g := by
  obtain ⟨F,hF,-,named⟩ := mem_overridden hg
  obtain ⟨c,d,hc,-,above,member⟩ := mem_overriddenBy hw named
  exact ⟨c,d,F,hc,hF,above,member⟩

/-- A search from a function through those overridden finds functions that it redefines. -/
theorem redefines_of_mem_explore (hw : n.models.WellFormed)
    (hg : g ∈ n.oracle.overriddenGraph.explore true [] (n.oracle.overridden f)) : n.Redefines f g := by
  refine n.oracle.overriddenGraph.forall_mem_explore true (P := n.Redefines f) ?_ [] _ nofun ?_ g hg
  · exact fun g hg h hh => hg.trans (redefines_of_overridden hw hh)
  · exact fun g hg => redefines_of_overridden hw hg

theorem isRoot_of_overridden (hw : n.models.WellFormed) {G : FunctionShape} {e : Descriptor}
    (hd : n.models.parent? g = some d) (hG : n.models.shape? g = some (.function G))
    (he : n.oracle.descriptor g = some e) (none : e.overridden = []) : n.IsRoot g := by
  refine ⟨d,G,hd,hG,?_⟩
  rw [(overridden_eq hG he).2] at none
  cases own : G.modifiers.contains .overriding with
  | false => exact .inl rfl
  | true =>
    rw [own,if_pos rfl] at none
    exact .inr fun e h above ne => not_hasMember_of_overriddenBy hw hd none above ne

end Names
end SymbolGraph
