import SymbolGraph.Proofs.Direct.Genuine

/-! Where declarations stand in well-formed models, and that the children of genuine symbols are found
and are genuine. -/
namespace SymbolGraph

def DeclaredForm.isInterface : DeclaredForm → Bool
  | .classLike c => c.classKind == .interface
  | _ => false

namespace Models

variable (ms : Models)

def isFunction (k : NodeKey) : Bool :=
  match ms.shape? k with
  | some (.function _) => true
  | _ => false

/-- Whether a node stands inside a function. -/
def isLocal (k : NodeKey) : Bool := (ms.ancestors k).any ms.isFunction

/-- The kind of the class whose member a node is. -/
def ownerKind? (k : NodeKey) : Option ClassKind :=
  match (ms.parent? k).bind ms.shape? with
  | some (.classLike c) => some c.classKind
  | _ => none

def origin? (k : NodeKey) : Option Origin := (ms.arena? k.source).map (·.origin)

/-- Whether a declaration can be overridden: it stands outside of functions, and is an interface or a
member of one, says so, or is of Java and does not say the contrary. -/
def isOpen (k : NodeKey) (d : DeclaredForm) : Bool :=
  !ms.isLocal k && (d.isInterface || [.overriding,.abstracted,.opened].any d.modifiers.contains
    || ms.ownerKind? k == some .interface || (ms.origin? k == some .java && !d.modifiers.contains .final))

/-- The name of a declaration after its package and the declarations around it. Type parameters have none,
and neither has what stands inside a function. -/
def qualifiedName? (k : NodeKey) : Option String := do
  let s ← ms.shape? k
  let name ← s.declaredName?
  if s.kind = .typeParameter ∨ ms.isLocal k then none
  else
    let outer := (ms.ancestors k).filterMap fun j => (ms.shape? j).bind Shape.declaredName?
    let scope := if (ms.packageOf k).isEmpty then outer.reverse else ms.packageOf k :: outer.reverse
    return ".".intercalate (scope ++ [name])

/-- The qualified name of a declaration, or else its own. -/
def displayName (k : NodeKey) : String :=
  (ms.qualifiedName? k).getD (((ms.shape? k).bind Shape.declaredName?).getD "")

theorem isFunction_eq {ms : Models} {k : NodeKey} {s : Shape} (h : ms.shape? k = some s) :
    ms.isFunction k = (s.kind == .function) := by
  rw [isFunction,h]; cases s <;> rfl

end Models

theorem DeclaredForm.exists_shape (d : DeclaredForm) :
    ∃ s : Shape, Viewed.form d = .written s ∧ s.kind.isDeclaration = true ∧ s.declaredName? = some d.name := by
  cases d <;> exact ⟨_,rfl,rfl,rfl⟩

namespace Direct

variable {env : Environment}

theorem anyFunction_eq {ks : List NodeKey} (h : ∀ k ∈ ks, ∃ s, env.models.shape? k = some s) :
    anyFunction ks env = .ok (ks.any env.models.isFunction) := by
  induction ks with
  | nil => rfl
  | cons k ks ih =>
    obtain ⟨⟨s,hs⟩,h⟩ := List.forall_mem_cons.mp h
    rw [anyFunction,bind_ok (rawShape_eq hs),List.any_cons,Models.isFunction_eq hs]
    by_cases hk : s.kind = .function
    · rw [if_pos hk,hk]; rfl
    · have other : (s.kind == NodeKind.function) = false := by simpa using hk
      rw [if_neg hk,ih h,other,Bool.false_or]

theorem filterMapM_eq {A C : Type} {f : C → Direct (Option A)} {g : C → Option A} {l : List C}
    (h : ∀ c ∈ l, f c env = .ok (g c)) : l.filterMapM f env = .ok (l.filterMap g) := by
  have loop : ∀ (r : List C) (taken : List A), (∀ c ∈ r, f c env = .ok (g c)) →
      List.filterMapM.loop f r taken env = .ok (taken.reverse ++ r.filterMap g) := by
    intro r
    induction r with
    | nil =>
      intro taken _
      rw [List.filterMap_nil,List.append_nil]
      rfl
    | cons c r ih =>
      intro taken hr
      obtain ⟨hc,hr⟩ := List.forall_mem_cons.mp hr
      rw [List.filterMapM.loop,bind_ok hc,List.filterMap_cons]
      cases g c with
      | none => exact ih taken hr
      | some a =>
        show List.filterMapM.loop f r (a :: taken) env = _
        rw [ih (a :: taken) hr,List.reverse_cons,List.append_assoc]
        rfl
  exact loop l [] h

end Direct

open Direct

namespace Sight

variable {env : Environment} {allowed : Error → Prop}

section Parent

variable {d : Sight DeclaredForm} (hd : d.Genuine env)
  (known : ∀ p, env.models.parent? d.anchor = some p → ∃ t, env.models.shape? p = some t)
include hd known

/-- The declaration around a declaration is its parent, unless that is a file. -/
theorem parentDeclaration_of_known : Within allowed env d.parentDeclaration fun p =>
    (∀ e ∈ p, e.Genuine env) ∧
      p.map (·.shape) = ((env.models.parent? d.anchor).bind env.models.shape?).bind fun s =>
        Viewed.ofForm? (.written s) := by
  obtain ⟨a,ha,-⟩ := hd.exists_arena
  refine .after (rawParent?_eq ha) ?_
  cases e : env.models.parent? d.anchor with
  | none => exact .pure ⟨nofun,rfl⟩
  | some p =>
    obtain ⟨t,ht⟩ := known p e
    refine (node_within ht).bind fun w ⟨genuine,_,shape⟩ => .pure ⟨fun v hv => genuine.narrow hv,?_⟩
    simp only [Option.bind_some,ht,as?,Option.map_map,Function.comp_def,shape,Option.map_id']
    rfl

theorem parentClassKind?_of_known : d.parentClassKind? env = .ok (env.models.ownerKind? d.anchor) := by
  obtain ⟨p,run,-,shapes⟩ := (parentDeclaration_of_known hd known).exists_ok
  rw [parentClassKind?,bind_ok run,Models.ownerKind?]
  generalize (env.models.parent? d.anchor).bind env.models.shape? = above at shapes ⊢
  rcases p with _ | ⟨_,_,_,_⟩ <;> rcases above with _ | ⟨⟨⟩⟩ <;> cases shapes <;> rfl

end Parent

variable (hw : env.models.WellFormed)
include hw

section Declaration

variable {d : Sight DeclaredForm} (hd : d.Genuine env)
include hd

theorem isLocal_eq : d.isLocal env = .ok (env.models.isLocal d.anchor) := by
  obtain ⟨a,ha,-⟩ := hd.exists_arena
  rw [isLocal,bind_ok (rawAncestors_eq ha)]
  exact anyFunction_eq fun _ => hw.exists_shape_of_mem_ancestors

theorem parentClassKind?_eq : d.parentClassKind? env = .ok (env.models.ownerKind? d.anchor) := by
  refine parentClassKind?_of_known hd fun p hp => ?_
  obtain ⟨t,-,ht,-⟩ := hw.parent hp
  exact ⟨t,ht⟩

theorem isOpen_eq : d.isOpen env = .ok (env.models.isOpen d.anchor d.shape) := by
  obtain ⟨a,ha,same⟩ := hd.exists_arena
  have origin : env.models.origin? d.anchor = some d.origin := by
    rw [Models.origin?,ha,same]; rfl
  have rest : (do
      if [.overriding,.abstracted,.opened].any d.shape.modifiers.contains then return true
      if (← d.parentClassKind?) = some .interface then return true
      return d.origin = .java && !d.shape.modifiers.contains .final : Direct Bool) env =
        .ok ([.overriding,.abstracted,.opened].any d.shape.modifiers.contains
          || env.models.ownerKind? d.anchor == some .interface
          || (some d.origin == some .java && !d.shape.modifiers.contains .final)) := by
    cases [.overriding,.abstracted,.opened].any d.shape.modifiers.contains with
    | true => rfl
    | false =>
      refine (bind_ok (parentClassKind?_eq hw hd)).trans ?_
      by_cases owner : env.models.ownerKind? d.anchor = some .interface
      · rw [owner]; rfl
      · rw [if_neg owner,beq_eq_false_iff_ne.mpr owner]
        simp [pure,ReaderT.pure,Except.pure]; rfl
  rw [isOpen,bind_ok (isLocal_eq hw hd),Models.isOpen,origin]
  cases env.models.isLocal d.anchor with
  | true => rfl
  | false =>
    rw [Bool.not_false,Bool.true_and,Bool.or_assoc,Bool.or_assoc,← Bool.or_assoc (List.any _ _)]
    cases e : d.shape with
    | classLike c =>
      rw [e] at rest
      by_cases interface : c.classKind = .interface
      · simp [interface,DeclaredForm.isInterface]; rfl
      · have notInterface : (DeclaredForm.classLike c).isInterface = false := by
          simpa [DeclaredForm.isInterface] using interface
        rw [notInterface,Bool.false_or,← rest]
        simp [interface]
    | _ => rw [e] at rest; exact rest

theorem containingFile_within : Within allowed env d.containingFile fun f =>
    f.Genuine env ∧ f.anchor = env.models.root d.anchor := by
  obtain ⟨s,form,kind,-⟩ := d.shape.exists_shape
  have hs := (hd.written form).2
  obtain ⟨a,ha,-⟩ := Models.exists_arena_of_shape? hs
  obtain ⟨p,hp⟩ := hw.exists_parent hs (by rintro e; rw [e] at kind; cases kind)
  obtain ⟨r,f,last,hr⟩ := hw.getLast?_ancestors hp
  refine .after (rawAncestors_eq ha) ?_
  rw [last]
  refine (typed_within FileShape hr rfl).weaken fun v ⟨genuine,key⟩ => ⟨genuine,?_⟩
  rw [Models.root,List.getLastD_eq_getLast?,last]
  exact congrArg SymbolKey.anchor key

theorem packageName_eq : d.packageName env = .ok (env.models.packageOf d.anchor) := by
  obtain ⟨f,run,genuine,root⟩ := (containingFile_within hw hd).exists_ok
  have shape : env.models.shape? f.anchor = some (.file f.shape) := (genuine.written rfl).2
  rw [packageName,bind_ok run,Models.packageOf,← root,shape]; rfl

theorem qualifiedName_eq : d.qualifiedName env = .ok (env.models.qualifiedName? d.anchor) := by
  obtain ⟨a,ha,-⟩ := hd.exists_arena
  obtain ⟨s,form,-,name⟩ := d.shape.exists_shape
  have hs := (hd.written form).2
  have kind : (Viewed.form d.shape).kind = s.kind := by rw [form]; rfl
  have outer : ((env.models.ancestors d.anchor).filterMapM fun k => return (← rawShape k).declaredName? :
      Direct (List String)) env =
        .ok ((env.models.ancestors d.anchor).filterMap fun k => (env.models.shape? k).bind Shape.declaredName?) := by
    refine filterMapM_eq fun k hk => ?_
    obtain ⟨t,ht⟩ := hw.exists_shape_of_mem_ancestors hk
    rw [bind_ok (rawShape_eq ht),ht]
    rfl
  rw [qualifiedName,kind,Models.qualifiedName?,hs]
  simp only [Option.bind_eq_bind,Option.bind_some,name]
  by_cases parameter : s.kind = .typeParameter
  · rw [if_pos parameter,if_pos (.inl parameter)]
    rfl
  · rw [if_neg parameter,bind_ok (isLocal_eq hw hd)]
    cases inside : env.models.isLocal d.anchor with
    | true =>
      rw [if_pos rfl,if_pos (.inr rfl)]
      rfl
    | false =>
      rw [if_neg Bool.false_ne_true,if_neg (by simp [parameter]),bind_ok (rawAncestors_eq ha),bind_ok outer,
        bind_ok (packageName_eq hw hd)]
      rfl

theorem displayName_eq : d.displayName env = .ok (env.models.displayName d.anchor) := by
  obtain ⟨s,form,-,name⟩ := d.shape.exists_shape
  have hs := (hd.written form).2
  rw [displayName,bind_ok (qualifiedName_eq hw hd),Models.displayName,hs,Option.bind_some,name]
  rfl

end Declaration

end Sight
end SymbolGraph
