import Mathlib.Data.Set.Card
import Mathlib.Logic.Relation
import SymbolGraph.Proofs.Assignability

/-! What is left of a type once aliases are expanded. If there are not more of them than are followed, an expanded
type stands for itself: it is built from no alias that is known, or from one that comes back to it. So it may take
the place of the type wherever types are compared. -/
namespace SymbolGraph
namespace Names

variable {n : Names} {c d : NodeKey} {t u v : ResolvedType} {ds es seen : List NodeKey} {steps : Nat}

/-- An alias stands for a type that is built from a declaration. -/
def LeadsTo (n : Names) (c d : NodeKey) : Prop := ∃ u, n.aliasTarget? c = some u ∧ u.declaration = d

/-- The aliases that are met from a declaration on, as far as it is known what they stand for. -/
def aliasesFrom (n : Names) (c : NodeKey) : Set NodeKey :=
  {d | Relation.ReflTransGen n.LeadsTo c d ∧ (n.aliasTarget? d).isSome}

/-- A type is followed through aliases to another one. Null is handed on. -/
inductive Trail (n : Names) : ResolvedType → List NodeKey → ResolvedType → Prop
  | stay (t : ResolvedType) : Trail n t [] t
  | step {t w u : ResolvedType} {ds : List NodeKey} (target : n.aliasTarget? t.declaration = some w)
    (rest : Trail n (w.withNullable (t.nullable || w.nullable)) ds u) : Trail n t (t.declaration :: ds) u

/-- A trail may end here: all steps are made, the next declaration was seen or is on the trail, or stands for
nothing. -/
structure Halts (n : Names) (steps : Nat) (seen ds : List NodeKey) (u : ResolvedType) : Prop where
  nodup : ds.Nodup
  new : ∀ d ∈ ds, d ∉ seen
  bound : ds.length ≤ steps
  stop : ds.length = steps ∨ u.declaration ∈ seen ∨ u.declaration ∈ ds ∨ n.aliasTarget? u.declaration = none

/-! ### Trails -/

namespace Trail

/-- The end of a trail is what its beginning expands to. -/
theorem expandIn_eq (h : n.Trail t ds u) (halts : n.Halts steps seen ds u) : n.expandIn steps seen t = u := by
  induction h generalizing steps seen with
  | stay t =>
    cases steps with
    | zero => rfl
    | succ steps =>
      rw [expandIn]
      rcases halts.stop with made | seen | met | none
      · cases made
      · rw [if_pos seen]
      · cases met
      · simp [none]
  | @step t w u ds target rest ih =>
    obtain ⟨steps,rfl⟩ : ∃ k, steps = k + 1 := Nat.exists_eq_succ_of_ne_zero (Nat.ne_zero_of_lt halts.bound)
    obtain ⟨apart,nodup⟩ := List.nodup_cons.mp halts.nodup
    obtain ⟨unseen,new⟩ := List.forall_mem_cons.mp halts.new
    rw [expandIn,if_neg unseen,target]
    refine ih ⟨nodup,fun d hd => ?_,Nat.le_of_succ_le_succ halts.bound,?_⟩
    · exact List.not_mem_cons_of_ne_of_not_mem (fun same => apart (same ▸ hd)) (new d hd)
    · simpa [or_assoc,or_left_comm] using halts.stop

theorem of_append (h : n.Trail t (ds ++ es) u) : ∃ v, n.Trail t ds v ∧ n.Trail v es u := by
  induction ds generalizing t with
  | nil => exact ⟨t,.stay t,h⟩
  | cons d ds ih =>
    cases h with
    | step target rest =>
      obtain ⟨v,before,after⟩ := ih rest
      exact ⟨v,.step target before,after⟩

/-- How a trail begins is told by a declaration and whether it admits null. -/
theorem congr (h : n.Trail t (c :: ds) u) (declaration : v.declaration = c) (null : v.nullable = t.nullable) :
    n.Trail v (c :: ds) u := by
  cases h with
  | step target rest =>
    rw [← declaration] at target ⊢
    exact .step target (null ▸ rest)

/-- Null is handed on to the end. What is met on the way adds to it. -/
theorem withNullable (h : n.Trail t ds u) :
    ∃ null, u.nullable = (t.nullable || null) ∧ ∀ b, n.Trail (t.withNullable b) ds (u.withNullable (b || null)) := by
  induction h with
  | stay t =>
    refine ⟨false,(Bool.or_false _).symm,fun b => ?_⟩
    rw [Bool.or_false]
    exact .stay _
  | @step t w u ds target rest ih =>
    obtain ⟨null,same,trail⟩ := ih
    refine ⟨w.nullable || null,?_,fun b => ?_⟩
    · rw [same,ResolvedType.withNullable_nullable,Bool.or_assoc]
    · have handed := trail (b || w.nullable)
      rw [Bool.or_assoc] at handed
      exact .step target handed

/-- A trail that comes back to where it began can be gone again from its end, and ends there. -/
theorem again (h : n.Trail t (u.declaration :: ds) u) : n.Trail u (u.declaration :: ds) u := by
  obtain ⟨null,same,trail⟩ := h.withNullable
  have back := trail u.nullable
  rw [show (u.nullable || null) = u.nullable by rw [same,Bool.or_assoc,Bool.or_self],
    ResolvedType.withNullable_self] at back
  exact back.congr rfl rfl

theorem subset_aliasesFrom (h : n.Trail t ds u) : ∀ d ∈ ds, d ∈ n.aliasesFrom t.declaration := by
  induction h with
  | stay => exact List.forall_mem_nil _
  | @step t w u ds target rest ih =>
    refine List.forall_mem_cons.mpr ⟨⟨.refl,by rw [target]; rfl⟩,fun d hd => ?_⟩
    obtain ⟨reached,known⟩ := ih d hd
    exact ⟨.head ⟨w,target,rfl⟩ reached,known⟩

theorem leads (h : n.Trail t ds u) : Relation.ReflTransGen n.LeadsTo t.declaration u.declaration := by
  induction h with
  | stay => exact .refl
  | @step t w u ds target rest ih => exact .head ⟨w,target,rfl⟩ ih

end Trail

/-- A type expands along a trail. -/
theorem exists_trail (n : Names) (steps : Nat) (seen : List NodeKey) (t : ResolvedType) :
    ∃ ds, n.Trail t ds (n.expandIn steps seen t) ∧ n.Halts steps seen ds (n.expandIn steps seen t) := by
  induction steps generalizing seen t with
  | zero => exact ⟨[],.stay t,.nil,List.forall_mem_nil _,Nat.le_refl 0,.inl rfl⟩
  | succ steps ih =>
    rw [expandIn]
    by_cases known : t.declaration ∈ seen
    · rw [if_pos known]
      exact ⟨[],.stay t,.nil,List.forall_mem_nil _,Nat.zero_le _,.inr (.inl known)⟩
    · rw [if_neg known]
      cases target : n.aliasTarget? t.declaration with
      | none => exact ⟨[],.stay t,.nil,List.forall_mem_nil _,Nat.zero_le _,.inr (.inr (.inr target))⟩
      | some w =>
        obtain ⟨ds,trail,halts⟩ := ih (t.declaration :: seen) (w.withNullable (t.nullable || w.nullable))
        have apart : t.declaration ∉ ds := fun hd => halts.new _ hd List.mem_cons_self
        refine ⟨t.declaration :: ds,.step target trail,List.nodup_cons.mpr ⟨apart,halts.nodup⟩,?_,
          Nat.succ_le_succ halts.bound,?_⟩
        · exact List.forall_mem_cons.mpr ⟨known,fun d hd seen => halts.new d hd (List.mem_cons_of_mem _ seen)⟩
        · simpa [or_assoc,or_left_comm] using halts.stop

/-! ### Expanded types -/

/-- Different aliases that are met are no more than there are. -/
theorem length_le_of_few {k : Nat} (few : (n.aliasesFrom c).encard ≤ k) (nodup : ds.Nodup)
    (met : ∀ d ∈ ds, d ∈ n.aliasesFrom c) : ds.length ≤ k := by
  have within : (ds.toFinset : Set NodeKey).encard ≤ (n.aliasesFrom c).encard :=
    Set.encard_le_encard fun d hd => met d (List.mem_toFinset.mp hd)
  rw [Set.encard_coe_eq_coe_finsetCard,List.toFinset_card_of_nodup nodup] at within
  exact_mod_cast within.trans few

/-- Where there are few nodes, there are few aliases. -/
theorem encard_aliasesFrom_le (n : Names) (c : NodeKey) : (n.aliasesFrom c).encard ≤ n.models.keys.length := by
  have within : n.aliasesFrom c ⊆ n.models.keys.toFinset := by
    rintro d ⟨-,known⟩
    rw [aliasTarget?] at known
    split at known
    · next shape => exact List.mem_toFinset.mpr (Models.mem_keys shape)
    · cases known
  have counted := Set.encard_le_encard within
  rw [Set.encard_coe_eq_coe_finsetCard] at counted
  exact counted.trans (by exact_mod_cast List.toFinset_card_le _)

variable (few : (n.aliasesFrom t.declaration).encard ≤ maxExpansions)
include few

/-- If not too many aliases are met, then all of them are followed. -/
theorem exists_settled_trail : ∃ ds, n.Trail t ds (n.expand t) ∧ ds.Nodup ∧ ds.length ≤ maxExpansions ∧
    ((n.expand t).declaration ∈ ds ∨ n.aliasTarget? (n.expand t).declaration = none) := by
  obtain ⟨ds,trail,halts⟩ := n.exists_trail maxExpansions [] t
  refine ⟨ds,trail,halts.nodup,halts.bound,?_⟩
  rcases halts.stop with made | seen | settled
  · by_cases met : (n.expand t).declaration ∈ ds
    · exact .inl met
    · refine .inr (Option.eq_none_iff_forall_ne_some.mpr fun w target => ?_)
      -- One more alias would be one too many.
      have known : (n.expand t).declaration ∈ n.aliasesFrom t.declaration := ⟨trail.leads,by rw [target]; rfl⟩
      have one : ((n.expand t).declaration :: ds).length ≤ maxExpansions :=
        length_le_of_few few (List.nodup_cons.mpr ⟨met,halts.nodup⟩)
          (List.forall_mem_cons.mpr ⟨known,trail.subset_aliasesFrom⟩)
      rw [List.length_cons,made] at one
      exact absurd one (Nat.not_succ_le_self _)
  · cases seen
  · exact settled

/-- An expanded type stands for itself. Where it is built from an alias that comes back to it, the way around adds
no null that was not met before. -/
theorem expand_expand : n.expand (n.expand t) = n.expand t := by
  obtain ⟨ds,trail,nodup,bound,met | none⟩ := exists_settled_trail few
  · obtain ⟨before,around,rfl⟩ := List.append_of_mem met
    obtain ⟨v,-,turn⟩ := trail.of_append
    have part := (List.suffix_append before ((n.expand t).declaration :: around)).sublist
    exact turn.again.expandIn_eq ⟨nodup.sublist part,fun _ _ => List.not_mem_nil,part.length_le.trans bound,
      .inr (.inr (.inl List.mem_cons_self))⟩
  · have stay : n.Trail (n.expand t) [] (n.expand t) := .stay _
    exact stay.expandIn_eq ⟨.nil,List.forall_mem_nil _,Nat.zero_le _,.inr (.inr (.inr none))⟩

theorem assignable_expand (u : ResolvedType) :
    n.assignable (n.expand t) u = n.assignable t u ∧ n.assignable u (n.expand t) = n.assignable u t := by
  simp only [assignable,expand_expand few,and_self]

/-- A parameter may have the expanded type. -/
theorem map_expand_set {ts : List ResolvedType} {i : Nat} (here : ts[i]? = some t) :
    (ts.set i (n.expand t)).map n.expand = ts.map n.expand := by
  obtain ⟨lt,rfl⟩ := List.getElem?_eq_some_iff.mp here
  have same : (ts.map n.expand).set i (n.expand ts[i]) = ts.map n.expand := by
    rw [← List.map_set,List.set_getElem_self]
  rw [List.map_set,expand_expand few,same]

end Names

/-- A descriptor with another type of one parameter. -/
def Descriptor.withParameter (d : Descriptor) (i : Nat) (t : ResolvedType) : Descriptor :=
  { d with parameters := d.parameters.set i t }

namespace Names

variable {n : Names} {t : ResolvedType}

theorem compatibility_expand (few : (n.aliasesFrom t.declaration).encard ≤ maxExpansions) {d : Descriptor} {i : Nat}
    (here : d.parameters[i]? = some t) (e : Descriptor) :
    n.compatibility (d.withParameter i (n.expand t)) e = n.compatibility d e ∧
      n.compatibility e (d.withParameter i (n.expand t)) = n.compatibility e d := by
  have same : (d.withParameter i (n.expand t)).parameters.map n.expand = d.parameters.map n.expand :=
    map_expand_set few here
  have name : (d.withParameter i (n.expand t)).name = d.name := rfl
  simp only [compatibility,same,name,and_self]

end Names

namespace Fixture

/-- Over the sources of a fixture, a type from which no more aliases are met than are followed is expanded for good,
whether they end in a type of another kind or in one that is not known, or come back. The oracle answers the same
of the expanded type, which may take the place of the type on either side and as a parameter of a function. -/
theorem expand_settles (x : Fixture) (config : Config) {t : ResolvedType}
    (few : (x.names.aliasesFrom t.declaration).encard ≤ Names.maxExpansions) :
    let o := (x.environment config).oracle
    let t' := x.names.expand t
    x.names.expand t' = t' ∧
    (∀ u, o.assignable t' u = o.assignable t u ∧ o.assignable u t' = o.assignable u t) ∧
    ∀ (d e : Descriptor) (i : Nat), d.parameters[i]? = some t →
      o.compatibility (d.withParameter i t') e = o.compatibility d e ∧
      o.compatibility e (d.withParameter i t') = o.compatibility e d :=
  ⟨Names.expand_expand few,Names.assignable_expand few,fun _ e _ here => Names.compatibility_expand few here e⟩

/-- An alias that leads to two aliases for each other, of which one admits null. -/
def coiled : Fixture where
  kotlin := [⟨"K.kt","d",[],[.typeAlias ⟨"T",.empty,[],[],⟨"A",[],[]⟩,1⟩,
    .typeAlias ⟨"A",.empty,[],[],⟨"B?",[],[]⟩,2⟩,.typeAlias ⟨"B",.empty,[],[],⟨"A",[],[]⟩,3⟩]⟩]
  java := []
  inferred := .empty

/-- The alias is expanded to one of the two, with null. -/
theorem expand_settles_coiled :
    let t : ResolvedType := .simple ⟨⟨0⟩,⟨1⟩⟩
    let t' : ResolvedType := (ResolvedType.simple ⟨⟨0⟩,⟨3⟩⟩).withNullable true
    let o := (coiled.environment .standard).oracle
    let d : Descriptor := ⟨⟨⟨0⟩,⟨0⟩⟩,"f",[t],none,[]⟩
    coiled.names.expand t = t' ∧ coiled.names.expand t' = t' ∧ o.assignable t' t = true ∧ o.assignable t t' = true ∧
      o.compatibility (d.withParameter 0 t') d = .overridable := by
  intro t t' o d
  have expanded : coiled.names.expand t = t' := by decide +kernel
  have nodes : coiled.names.models.keys.length ≤ Names.maxExpansions := by decide
  have few : (coiled.names.aliasesFrom t.declaration).encard ≤ Names.maxExpansions :=
    (Names.encard_aliasesFrom_le _ _).trans (by exact_mod_cast nodes)
  obtain ⟨settled,assignable,compatibility⟩ := coiled.expand_settles .standard few
  rw [expanded] at settled assignable compatibility
  obtain ⟨target,source⟩ := assignable t
  refine ⟨expanded,settled,?_,?_,?_⟩
  · rw [target]
    exact Names.assignable_refl t
  · rw [source]
    exact Names.assignable_refl t
  · rw [(compatibility d d 0 rfl).1]
    have own : coiled.names.compatibility d d = .overridable := Names.compatibility_eq_overridable.mpr ⟨rfl,rfl⟩
    exact own

end Fixture
end SymbolGraph
