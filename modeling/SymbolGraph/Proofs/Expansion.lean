import Mathlib.Data.List.Chain
import SymbolGraph.Proofs.Action
import SymbolGraph.Proofs.Aliases

/-! Aliases are followed in two ways, by the chains of a session and where types are compared. A chain is refused
if it is too long or meets a declaration twice. A comparison stops there. Where a chain is found, both end in the
same type, but only a comparison hands null on. -/
namespace SymbolGraph
namespace Names

variable {n : Names} {t v : ResolvedType} {us : List ResolvedType}

/-- Each type is followed by what it stands for, and the last one is built from no alias. No declaration is met
twice. -/
structure Unrolled (n : Names) (us : List ResolvedType) : Prop where
  steps : us.IsChain fun u v => n.aliasTarget? u.declaration = some v
  distinct : (us.map (·.declaration)).Nodup
  ends : ∃ u, us.getLast? = some u ∧ n.aliasTarget? u.declaration = none

theorem Unrolled.tail (h : n.Unrolled (t :: v :: us)) : n.Unrolled (v :: us) where
  steps := (List.isChain_cons_cons.mp h.steps).2
  distinct := (List.nodup_cons.mp h.distinct).2
  ends := by simpa [List.getLast?_cons_cons] using h.ends

theorem Unrolled.drop (h : n.Unrolled us) {i : Nat} (hi : i < us.length) : n.Unrolled (us.drop i) where
  steps := h.steps.drop i
  distinct := by
    rw [List.map_drop]
    exact h.distinct.drop
  ends := by
    rw [List.getLast?_drop,if_neg (Nat.not_le.mpr hi)]
    exact h.ends

/-- What stands at the head of unrolled types is expanded to the last of them, which takes over the null of all. -/
theorem Unrolled.expandIn (h : n.Unrolled (t :: us)) {steps : Nat} {seen : List NodeKey}
    (bound : us.length ≤ steps) (new : ∀ u ∈ t :: us, u.declaration ∉ seen) (nullable : Bool) :
    ∃ u, (t :: us).getLast? = some u ∧
      n.expandIn steps seen (t.withNullable nullable) = u.withNullable (nullable || us.any (·.nullable)) := by
  induction us generalizing steps seen t nullable with
  | nil =>
    refine ⟨t,rfl,?_⟩
    obtain ⟨u,last,none⟩ := h.ends
    obtain rfl : t = u := Option.some.inj last
    rw [List.any_nil,Bool.or_false]
    cases steps with
    | zero => rfl
    | succ steps =>
      have target : n.aliasTarget? (t.withNullable nullable).declaration = Option.none := none
      have unseen : (t.withNullable nullable).declaration ∉ seen := new t List.mem_cons_self
      rw [Names.expandIn,if_neg unseen,target]
  | cons v us ih =>
    obtain ⟨steps,rfl⟩ : ∃ left, steps = left + 1 := Nat.exists_eq_succ_of_ne_zero (Nat.ne_zero_of_lt bound)
    have target : n.aliasTarget? (t.withNullable nullable).declaration = some v :=
      (List.isChain_cons_cons.mp h.steps).1
    have later : ∀ u ∈ v :: us, u.declaration ∉ t.declaration :: seen := fun u hu =>
      List.not_mem_cons_of_ne_of_not_mem
        (fun same => (List.nodup_cons.mp h.distinct).1 (List.mem_map.mpr ⟨u,hu,same⟩))
        (new u (List.mem_cons_of_mem _ hu))
    obtain ⟨u,last,expanded⟩ := ih h.tail (Nat.le_of_succ_le_succ bound) later (nullable || v.nullable)
    refine ⟨u,by rw [List.getLast?_cons_cons,last],?_⟩
    have unseen : (t.withNullable nullable).declaration ∉ seen := new t List.mem_cons_self
    rw [Names.expandIn,if_neg unseen,target,List.any_cons,← Bool.or_assoc]
    exact expanded

theorem Unrolled.expand (h : n.Unrolled us) (bound : us.length ≤ maxExpansions + 1) (ht : us.head? = some t) :
    ∃ u, us.getLast? = some u ∧ n.expand t = u.withNullable (us.any (·.nullable)) := by
  obtain ⟨us,rfl⟩ : ∃ rest, us = t :: rest := List.head?_eq_some_iff.mp ht
  obtain ⟨u,last,expanded⟩ := h.expandIn (Nat.le_of_succ_le_succ bound) (fun _ _ => List.not_mem_nil) t.nullable
  rw [ResolvedType.withNullable_self] at expanded
  exact ⟨u,last,expanded⟩

/-- Of unrolled types, one takes the values of another one unless only the other one admits null, from there to
the end. -/
theorem Unrolled.assignable (h : n.Unrolled us) (bound : us.length ≤ maxExpansions + 1) {i j : Nat}
    (hi : i < us.length) (hj : j < us.length) : n.assignable us[i] us[j] =
      !((us.drop j).any (·.nullable) && !(us.drop i).any (·.nullable)) := by
  have expanded {k : Nat} (hk : k < us.length) : ∃ u, us.getLast? = some u ∧
      n.expand us[k] = u.withNullable ((us.drop k).any (·.nullable)) := by
    obtain ⟨u,last,expanded⟩ := (h.drop hk).expand (List.length_drop ▸ Nat.le_trans (Nat.sub_le ..) bound)
      (List.head?_drop.trans (List.getElem?_eq_getElem hk))
    rw [List.getLast?_drop,if_neg (Nat.not_le.mpr hk)] at last
    exact ⟨u,last,expanded⟩
  obtain ⟨u,last,target⟩ := expanded hi
  obtain ⟨u',last',source⟩ := expanded hj
  obtain rfl := Option.some.inj (last.symm.trans last')
  simp only [Names.assignable,target,source]
  cases (us.drop i).any (·.nullable) <;> cases (us.drop j).any (·.nullable) <;> simp [ResolvedType.withNullable]

end Names

namespace InternedType

variable {cs : List InternedType} {i j : Nat}

/-- Whether a type of a chain admits null, from a position on. -/
def nullFrom (cs : List InternedType) (i : Nat) : Bool := (cs.drop i).any (·.isNullable)

theorem nullFrom_of_le (le : i ≤ j) (null : nullFrom cs j = true) : nullFrom cs i = true := by
  obtain ⟨c,hc,null⟩ := List.any_eq_true.mp null
  exact List.any_eq_true.mpr ⟨c,(List.drop_sublist_drop_left cs le).subset hc,null⟩

theorem nullFrom_eq_false (none : ∀ c ∈ cs, c.isNullable = false) : nullFrom cs i = false := by
  refine List.any_eq_false.mpr fun c hc => ?_
  rw [none c (List.mem_of_mem_drop hc)]
  exact Bool.false_ne_true

theorem nullFrom_eq (cs : List InternedType) (i : Nat) :
    nullFrom cs i = ((cs.map (·.resolved)).drop i).any (·.nullable) := by
  rw [nullFrom,← List.map_drop,List.any_map]
  rfl

end InternedType

namespace Fixture

variable (x : Fixture) (config : Config)

theorem unrolled_of_aliasChain {t : ResolvedType} {us : List ResolvedType}
    (h : t.aliasChain (x.environment config) = .ok us) : us.head? = some t ∧ x.names.Unrolled us := by
  obtain ⟨distinct,u,last,none⟩ := ResolvedType.chainFrom_ends List.getLast?_singleton (List.nodup_cons.mpr
    ⟨List.not_mem_nil,.nil⟩) h
  obtain ⟨rest,rfl,steps⟩ := ResolvedType.chainFrom_eq_ok h
  refine ⟨rfl,steps.imp fun v w step => ?_,distinct,u,last,?_⟩
  · obtain ⟨a,shape,meant⟩ := step
    have known : x.names.models.shape? v.declaration = some (.typeAlias a) := shape
    rw [Names.aliasTarget?,known]
    exact meant
  · rw [Names.aliasTarget?]
    split
    · next a shape => exact absurd shape (none a)
    · rfl

/-- If the chain of aliases of a type of a session is found and has no more steps than a comparison follows, then
the type is compared by the last one of its chain, and admits null if any one of the chain does. One type of
the chain takes the values of another one unless null is met from the other one on but not from the one on. -/
theorem expand_aliasChain (history : List Action) {t : InternedType} {cs : List InternedType}
    (held : (State.during (x.environment config) history).types.get? t.id = some t.resolved)
    (found : (t.aliasChain (x.environment config) (.during (x.environment config) history)).1 = .ok cs)
    (short : cs.length ≤ Names.maxExpansions + 1) :
    cs.head? = some t ∧
    (∃ c, cs.getLast? = some c ∧
      (x.names.expand t.resolved).declaration = c.resolved.declaration ∧
      (x.names.expand t.resolved).arguments = c.resolved.arguments ∧
      ((x.names.expand t.resolved).nullable = true ↔ ∃ c ∈ cs, c.isNullable = true)) ∧
    ∀ (i j : Nat) (hi : i < cs.length) (hj : j < cs.length) (s : State),
      (cs[i].isAssignableFrom cs[j] (x.environment config) s).1 =
        .ok !(InternedType.nullFrom cs j && !InternedType.nullFrom cs i) ∧
      (i ≤ j → (cs[i].isAssignableFrom cs[j] (x.environment config) s).1 = .ok true) ∧
      ((∀ c ∈ cs, c.isNullable = false) →
        (cs[i].isAssignableFrom cs[j] (x.environment config) s).1 = .ok true) := by
  have follows := Agrees.aliasChain ⟨held,rfl⟩ (by decide) (State.sound_during (x.environment config) history)
  obtain ⟨us,chain,each⟩ := follows.exists_direct found
  obtain ⟨head,unrolled⟩ := x.unrolled_of_aliasChain config chain
  obtain rfl := Agrees.resolved_of_each each
  have bound : (cs.map (·.resolved)).length ≤ Names.maxExpansions + 1 := by rwa [List.length_map]
  refine ⟨?_,?_,fun i j hi hj s => ?_⟩
  · cases each with
    | nil => cases head
    | @cons c _ _ _ first _ =>
      have same : c.resolved = t.resolved := Option.some.inj head
      have ids : c.id = t.id := TypeTable.get?_injective (same ▸ first.1) (follows.grows.type held)
      obtain ⟨_,_⟩ := c
      obtain ⟨_,_⟩ := t
      cases ids
      cases same
      rfl
  · obtain ⟨u,last,expanded⟩ := unrolled.expand bound head
    rw [List.getLast?_map] at last
    obtain ⟨c,hc,rfl⟩ := Option.map_eq_some_iff.mp last
    refine ⟨c,hc,?_⟩
    rw [expanded]
    refine ⟨rfl,rfl,?_⟩
    rw [ResolvedType.withNullable_nullable,List.any_map,List.any_eq_true]
    rfl
  · have answered : (cs[i].isAssignableFrom cs[j] (x.environment config) s).1 =
        .ok !(InternedType.nullFrom cs j && !InternedType.nullFrom cs i) := by
      have compared := unrolled.assignable bound (i := i) (j := j) (by simpa using hi) (by simpa using hj)
      rw [List.getElem_map,List.getElem_map,← InternedType.nullFrom_eq,← InternedType.nullFrom_eq] at compared
      exact congrArg Except.ok compared
    refine ⟨answered,fun le => ?_,fun none => ?_⟩
    · rw [answered]
      cases null : InternedType.nullFrom cs j with
      | false => rfl
      | true => rw [InternedType.nullFrom_of_le le null]; rfl
    · rw [answered,InternedType.nullFrom_eq_false none,Bool.false_and]
      rfl

/-- A class, an alias for it that admits null, and an alias for the alias, which is the type of a property. -/
def doublyAliased : Fixture where
  kotlin := [⟨"K.kt","d",[],[.classLike ⟨"A",.plain,.empty,[],[],[],[],1⟩,
    .typeAlias ⟨"B",.empty,[],[],⟨"A?",[],[]⟩,2⟩,.typeAlias ⟨"C",.empty,[],[],⟨"B",[],[]⟩,3⟩,
    .property ⟨"x",false,.empty,[],[],none,some ⟨"C",[],[]⟩,4⟩]⟩]
  java := []
  inferred := .empty

/-- The type of the property. -/
def doublyAliasedType : ResolvedType := .simple ⟨⟨0⟩,⟨4⟩⟩

theorem aliasChain_doublyAliasedType :
    doublyAliasedType.aliasChain (doublyAliased.environment .standard) =
      .ok [doublyAliasedType,.simple ⟨⟨0⟩,⟨2⟩⟩,(ResolvedType.simple ⟨⟨0⟩,⟨1⟩⟩).withNullable true] := by
  decide +kernel

/-- Null is met from both ends of the chain on, and they take each other's values. -/
theorem expand_aliasChain_doublyAliased :
    let env := doublyAliased.environment .standard
    let s := State.during env [.inquiry (.intern doublyAliasedType)]
    ∃ t b c : InternedType, t.resolved = doublyAliasedType ∧ (t.aliasChain env s).1 = .ok [t,b,c] ∧
      (doublyAliased.names.expand t.resolved).nullable = true ∧
      (t.isAssignableFrom c env s).1 = .ok true ∧ (c.isAssignableFrom t env s).1 = .ok true := by
  intro env s
  let t : InternedType := ⟨(TypeTable.empty.intern doublyAliasedType).1,doublyAliasedType⟩
  have held : s.types.get? t.id = some t.resolved := TypeTable.get?_intern .empty doublyAliasedType
  have follows := Agrees.aliasChain ⟨held,rfl⟩ (by decide) (State.sound_during env _)
  obtain ⟨cs,found,each⟩ := follows.exists_answer aliasChain_doublyAliasedType
  obtain _ | ⟨-,_ | @⟨b,_,_,_,-,_ | @⟨c,_,_,_,hc,_ | _⟩⟩⟩ := each
  obtain ⟨head,⟨-,-,-,-,null⟩,assignable⟩ :=
    expand_aliasChain doublyAliased .standard _ held found (by simp [Names.maxExpansions])
  obtain rfl := Option.some.inj head
  have last : c.isNullable = true := congrArg ResolvedType.nullable hc.2
  have backwards := (assignable 2 0 (by simp) (by simp) s).1
  refine ⟨t,b,c,rfl,found,null.mpr ⟨c,.tail _ (.tail _ (.head _)),last⟩,
    (assignable 0 2 (by simp) (by simp) s).2.1 (by simp),?_⟩
  simpa [InternedType.nullFrom,last] using backwards

end Fixture
end SymbolGraph
