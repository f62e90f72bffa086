import SymbolGraph.Proofs.Hierarchy
import SymbolGraph.Proofs.Overriding

/-! Which types take the values of which other ones by name. Aliases are expanded first. Then a search through
super classes decides, over hierarchies that may come back to where they began. Where none does, types are ordered
by it. -/
namespace SymbolGraph
namespace Names

variable {n : Names} {c d : NodeKey} {t u v : ResolvedType}

/-- A search through super classes finds a class itself and the classes that it extends. -/
theorem mem_reach_superGraph : d ∈ n.superGraph.reach c ↔ d = c ∨ n.Extends c d := by
  rw [Graph.mem_reach]
  exact Relation.reflTransGen_iff_eq_or_transGen

theorem assignable_eq_true {target source : ResolvedType} : n.assignable target source = true ↔
    ¬((n.expand source).nullable = true ∧ (n.expand target).nullable = false) ∧
      ((n.expand target).declaration = (n.expand source).declaration ∧
          (n.expand target).arguments = (n.expand source).arguments ∨
        (n.expand target).declaration ≠ (n.expand source).declaration ∧
          n.Extends (n.expand source).declaration (n.expand target).declaration) := by
  simp only [assignable]
  by_cases null : (n.expand source).nullable = true ∧ (n.expand target).nullable = false
  · simp [null]
  · have admitted : ¬((n.expand source).nullable && !(n.expand target).nullable) = true := by simpa using null
    rw [if_neg admitted]
    by_cases same : (n.expand target).declaration = (n.expand source).declaration
    · simp [null,same]
    · simp [null,same,mem_reach_superGraph]

theorem assignable_refl (t : ResolvedType) : n.assignable t t = true := by
  rw [assignable_eq_true]
  refine ⟨?_,.inl ⟨rfl,rfl⟩⟩
  rintro ⟨null,none⟩
  cases null.symm.trans none

/-- Types of one declaration are told apart by their arguments, and those of different ones are not. So a way back to
a class that was left would compare arguments after all. -/
theorem assignable_trans (acyclic : ∀ c, ¬n.Extends c c) (h : n.assignable t u = true) (h' : n.assignable u v = true) :
    n.assignable t v = true := by
  rw [assignable_eq_true] at h h' ⊢
  obtain ⟨null,built⟩ := h
  obtain ⟨null',built'⟩ := h'
  constructor
  · rintro ⟨source,target⟩
    cases middle : (n.expand u).nullable with
    | true => exact null ⟨middle,target⟩
    | false => exact null' ⟨source,middle⟩
  · rcases built with ⟨same,arguments⟩ | ⟨apart,above⟩
    · rw [same,arguments]
      exact built'
    · rcases built' with ⟨same,-⟩ | ⟨-,above'⟩
      · exact .inr ⟨same ▸ apart,same ▸ above⟩
      · have beyond : n.Extends (n.expand v).declaration (n.expand t).declaration := above'.trans above
        refine .inr ⟨fun same => ?_,beyond⟩
        rw [same] at beyond
        exact acyclic _ beyond

/-! ### Null -/

/-- A type expands to the same type whether it admits null or not. Null is handed on, if it is not met on the way. -/
theorem expandIn_withNullable (steps : Nat) (seen : List NodeKey) (t : ResolvedType) :
    ∃ (u : ResolvedType) (null : Bool), ∀ b, n.expandIn steps seen (t.withNullable b) = u.withNullable (b || null) := by
  induction steps generalizing seen t with
  | zero => exact ⟨t,false,fun b => by rw [Bool.or_false]; rfl⟩
  | succ steps ih =>
    by_cases known : t.declaration ∈ seen
    · refine ⟨t,false,fun b => ?_⟩
      have known : (t.withNullable b).declaration ∈ seen := known
      rw [expandIn,if_pos known,Bool.or_false]
    · cases target : n.aliasTarget? t.declaration with
      | none =>
        refine ⟨t,false,fun b => ?_⟩
        have new : (t.withNullable b).declaration ∉ seen := known
        have target : n.aliasTarget? (t.withNullable b).declaration = none := target
        rw [expandIn,if_neg new,target,Bool.or_false]
      | some w =>
        obtain ⟨u,null,expanded⟩ := ih (t.declaration :: seen) w
        refine ⟨u,w.nullable || null,fun b => ?_⟩
        have new : (t.withNullable b).declaration ∉ seen := known
        have target : n.aliasTarget? (t.withNullable b).declaration = some w := target
        rw [expandIn,if_neg new,target,← Bool.or_assoc]
        exact expanded _

theorem expand_withNullable (n : Names) (t : ResolvedType) : ∃ (u : ResolvedType) (null : Bool),
    n.expand t = u.withNullable (t.nullable || null) ∧
    ∀ b, n.expand (t.withNullable b) = u.withNullable (b || null) := by
  obtain ⟨u,null,expanded⟩ := expandIn_withNullable (n := n) maxExpansions [] t
  refine ⟨u,null,?_,expanded⟩
  have own := expanded t.nullable
  rwa [ResolvedType.withNullable_self] at own

theorem assignable_nullable (h : n.assignable t u = true) : n.assignable (t.withNullable true) u = true := by
  obtain ⟨v,null,own,expanded⟩ := n.expand_withNullable t
  rw [assignable_eq_true,own] at h
  rw [assignable_eq_true,expanded]
  refine ⟨?_,h.2⟩
  rintro ⟨-,none⟩
  rw [ResolvedType.withNullable_nullable,Bool.true_or] at none
  cases none

theorem assignable_notNullable (h : n.assignable t u = true) : n.assignable t (u.withNullable false) = true := by
  obtain ⟨v,null,own,expanded⟩ := n.expand_withNullable u
  rw [assignable_eq_true,own] at h
  rw [assignable_eq_true,expanded]
  refine ⟨?_,h.2⟩
  rintro ⟨source,target⟩
  rw [ResolvedType.withNullable_nullable,Bool.false_or] at source
  refine h.1 ⟨?_,target⟩
  rw [ResolvedType.withNullable_nullable,source,Bool.or_true]

/-! ### Hierarchies that do not come back -/

/-- Classes that are ranked below those that they extend do not extend themselves. -/
theorem not_extends_self (rank : NodeKey → Nat)
    (h : (n.models.keys.all fun c => (n.superClasses c).all fun d => rank c < rank d) = true) (c : NodeKey) :
    ¬n.Extends c c := by
  have step : ∀ c d, d ∈ n.superClasses c → rank c < rank d := by
    intro c d hd
    have known : c ∈ n.models.keys := mem_keys_of_superClasses (List.ne_nil_of_mem hd)
    exact of_decide_eq_true (List.all_eq_true.mp (List.all_eq_true.mp h c known) d hd)
  have climbs : ∀ d, n.Extends c d → rank c < rank d := by
    intro d above
    induction above with
    | single first => exact step _ _ first
    | tail _ last ih => exact Nat.lt_trans ih (step _ _ last)
  exact fun again => Nat.lt_irrefl _ (climbs c again)

end Names

/-- A type of a session can be had with null and without. -/
theorem InternedType.exists_withNullable (t : InternedType) (b : Bool) (env : Environment) (s : State) :
    ∃ t', (t.withNullable b env s).1 = .ok t' ∧ t'.resolved = t.resolved.withNullable b := by
  rw [withNullable]
  split
  · next same => exact ⟨t,rfl,by rw [← same]; exact t.resolved.withNullable_self.symm⟩
  · exact ⟨_,rfl,rfl⟩

namespace Fixture

variable (x : Fixture) (config : Config)

/-- In a session of a fixture, in whatever state, it is answered whether a type takes the values of another one.
It does if, aliases expanded, it admits null where the other one does, and is built from the same declaration
with the same arguments or from another declaration, which that of the other one extends. A class extends what its
super types of known meaning expand to, and what that extends. -/
theorem isAssignableFrom_iff_extends (target source : InternedType) (s : State) :
    let t := x.names.expand target.resolved
    let u := x.names.expand source.resolved
    (∃ answer, (target.isAssignableFrom source (x.environment config) s).1 = .ok answer ∧
      answer = (x.environment config).oracle.assignable target.resolved source.resolved ∧
      (answer = true ↔ ¬(u.nullable = true ∧ t.nullable = false) ∧
        (t.declaration = u.declaration ∧ t.arguments = u.arguments ∨
          t.declaration ≠ u.declaration ∧ x.names.Extends u.declaration t.declaration))) ∧
    ∀ c d, d ∈ x.names.superClasses c ↔ ∃ C r v, x.models.shape? c = some (.classLike C) ∧ r ∈ C.superTypes ∧
      (x.environment config).oracle.reference (c.sibling r) = some v ∧ (x.names.expand v).declaration = d :=
  ⟨⟨_,rfl,rfl,Names.assignable_eq_true⟩,fun _ _ => Names.mem_superClasses⟩

/-- Two classes that extend each other, the one through an alias, beside a super type of no meaning, and a class apart
from them. -/
def tangled : Fixture where
  kotlin := [⟨"K.kt","d",[],[.typeAlias ⟨"Up",.empty,[],[],⟨"Right?",[],[]⟩,1⟩,
    .classLike ⟨"Left",.plain,.empty,[],[],[⟨"Up",[],[]⟩,⟨"Missing",[],[]⟩],[],2⟩,
    .classLike ⟨"Right",.plain,.empty,[],[],[⟨"Left",[],[]⟩],[],3⟩,
    .classLike ⟨"Apart",.plain,.empty,[],[],[],[],4⟩]⟩]
  java := []
  inferred := .empty

/-- The alias takes the class below it and null. The class apart takes nothing of them, although the search comes
round to where it began. And though a class extends itself here, its types with other arguments are not taken. -/
theorem isAssignableFrom_iff_extends_tangled :
    let env := tangled.environment .standard
    let left : NodeKey := ⟨⟨0⟩,⟨3⟩⟩
    let right : NodeKey := ⟨⟨0⟩,⟨6⟩⟩
    let apart : NodeKey := ⟨⟨0⟩,⟨8⟩⟩
    let lower : InternedType := ⟨⟨0⟩,⟨left,[],true⟩⟩
    let up : InternedType := ⟨⟨1⟩,.simple ⟨⟨0⟩,⟨1⟩⟩⟩
    let other : InternedType := ⟨⟨2⟩,⟨apart,[],true⟩⟩
    let starred : InternedType := ⟨⟨3⟩,⟨left,[⟨.star,none⟩],true⟩⟩
    (up.isAssignableFrom lower env .initial).1 = .ok true ∧
    (other.isAssignableFrom lower env .initial).1 = .ok false ∧
    (starred.isAssignableFrom lower env .initial).1 = .ok false ∧
    tangled.names.Extends left right ∧ tangled.names.Extends left left ∧ ¬tangled.names.Extends left apart ∧
    ∀ d, d ∈ tangled.names.superClasses left ↔ d = right := by
  intro env left right apart lower up other starred
  have taken : (up.isAssignableFrom lower env .initial).1 = .ok true := by decide +kernel
  have refused : (other.isAssignableFrom lower env .initial).1 = .ok false := by decide +kernel
  have unlike : (starred.isAssignableFrom lower env .initial).1 = .ok false := by decide +kernel
  have below : tangled.names.expand lower.resolved = ⟨left,[],true⟩ := by decide +kernel
  have meant : tangled.names.expand up.resolved = ⟨right,[],true⟩ := by decide +kernel
  have plain : tangled.names.expand other.resolved = ⟨apart,[],true⟩ := by decide +kernel
  have listed : tangled.names.superClasses left = [right] := by decide +kernel
  have back : left ∈ tangled.names.superClasses right := by
    have listed' : tangled.names.superClasses right = [left] := by decide +kernel
    rw [listed']
    exact List.mem_singleton_self left
  have above : tangled.names.Extends left right := by
    obtain ⟨⟨_,run,-,found⟩,-⟩ := tangled.isAssignableFrom_iff_extends .standard up lower .initial
    obtain rfl := Except.ok.inj (taken.symm.trans run)
    rw [meant,below] at found
    obtain ⟨-,⟨same,-⟩ | ⟨-,above⟩⟩ := found.mp rfl
    · cases same
    · exact above
  have beside : ¬tangled.names.Extends left apart := by
    obtain ⟨⟨_,run,-,found⟩,-⟩ := tangled.isAssignableFrom_iff_extends .standard other lower .initial
    obtain rfl := Except.ok.inj (refused.symm.trans run)
    rw [plain,below] at found
    exact fun reached => nomatch found.mpr ⟨nofun,.inr ⟨nofun,reached⟩⟩
  refine ⟨taken,refused,unlike,above,above.tail back,beside,fun d => ?_⟩
  rw [listed]
  exact List.mem_singleton

/-- Whether a session of a fixture finds, in a given state, that a type takes the values of another one. -/
def takes (t u : InternedType) (s : State) : Except Error Bool := (t.isAssignableFrom u (x.environment config) s).1

theorem takes_eq_true {t u : InternedType} {s : State} :
    x.takes config t u s = .ok true ↔ x.names.assignable t.resolved u.resolved = true :=
  ⟨Except.ok.inj,congrArg Except.ok⟩

/-- Types take their own values, and, if no class extends itself, those that are taken by what they take. What is
taken is still taken if the one type is made to admit null and the other one is made not to. -/
theorem takes_preorder :
    (∀ t s, x.takes config t t s = .ok true) ∧
    ((∀ c, ¬x.names.Extends c c) → ∀ t u v r s, x.takes config t u r = .ok true → x.takes config u v s = .ok true →
      ∀ s', x.takes config t v s' = .ok true) ∧
    ∀ t u s, x.takes config t u s = .ok true → ∀ r, ∃ t' u',
      (t.withNullable true (x.environment config) r).1 = .ok t' ∧ t'.resolved = t.resolved.withNullable true ∧
      (u.withNullable false (x.environment config) r).1 = .ok u' ∧ u'.resolved = u.resolved.withNullable false ∧
      ∀ s', x.takes config t' u s' = .ok true ∧ x.takes config t u' s' = .ok true ∧
        x.takes config t' u' s' = .ok true := by
  simp only [takes_eq_true]
  refine ⟨fun t _ => Names.assignable_refl _,fun acyclic _ _ _ _ _ h h' _ => Names.assignable_trans acyclic h h',?_⟩
  intro t u _ h r
  obtain ⟨t',made,null⟩ := t.exists_withNullable true (x.environment config) r
  obtain ⟨u',made',none⟩ := u.exists_withNullable false (x.environment config) r
  refine ⟨t',u',made,null,made',none,fun _ => ?_⟩
  rw [null,none]
  have target := Names.assignable_nullable h
  exact ⟨target,Names.assignable_notNullable h,Names.assignable_notNullable target⟩

/-- A class below another one, both with a type parameter, and an alias that admits null for a type of the lower
one. -/
def layered : Fixture where
  kotlin := [⟨"K.kt","d",[],[.classLike ⟨"Base",.plain,.empty,[],[⟨"E",.invariant,.empty,[]⟩],[],[],1⟩,
    .classLike ⟨"Leaf",.plain,.empty,[],[⟨"E",.invariant,.empty,[]⟩],[⟨"Base<E>",[],[⟨"E",[],[]⟩]⟩],[],2⟩,
    .typeAlias ⟨"Some",.empty,[],[],⟨"Leaf<Base>?",[],[⟨"Base",[],[]⟩]⟩,3⟩]⟩]
  java := []
  inferred := .empty

/-- The type of the higher class that admits null. -/
def layeredBase : InternedType := ⟨⟨0⟩,(ResolvedType.simple ⟨⟨0⟩,⟨1⟩⟩).withNullable true⟩

/-- The type of the alias. -/
def layeredSome : InternedType := ⟨⟨1⟩,.simple ⟨⟨0⟩,⟨7⟩⟩⟩

/-- The type that the alias stands for, but without null. -/
def layeredLeaf : InternedType := ⟨⟨2⟩,⟨⟨0⟩,⟨3⟩⟩,[⟨.invariant,some (.simple ⟨⟨0⟩,⟨1⟩⟩)⟩],false⟩

theorem takes_preorder_layered :
    (∀ c, ¬layered.names.Extends c c) ∧
    layered.takes .standard layeredBase layeredSome .initial = .ok true ∧
    layered.takes .standard layeredSome layeredLeaf .initial = .ok true ∧
    layered.takes .standard layeredBase layeredLeaf .initial = .ok true := by
  have acyclic : ∀ c, ¬layered.names.Extends c c :=
    Names.not_extends_self (fun c => 9 - c.node.index) (by decide +kernel)
  have upper : layered.takes .standard layeredBase layeredSome .initial = .ok true := by decide +kernel
  have lower : layered.takes .standard layeredSome layeredLeaf .initial = .ok true := by decide +kernel
  obtain ⟨-,trans,-⟩ := layered.takes_preorder .standard
  exact ⟨acyclic,upper,lower,trans acyclic _ _ _ _ _ upper lower _⟩

end Fixture
end SymbolGraph
