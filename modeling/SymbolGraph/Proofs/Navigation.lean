import Mathlib.Data.List.Count
import SymbolGraph.Proofs.Action
import SymbolGraph.Proofs.Members
import SymbolGraph.Proofs.Settled
import SymbolGraph.Proofs.Traversal

/-! Up and down between declarations. Asked through symbols, at any times of a session and in any order, a
declaration is a member of the declaration around it, and of no other one, and a traversal reaches it from its
file. -/
namespace SymbolGraph

open Session

variable {env : Environment} {s u v : State}

namespace View

/-- The declarations inside a declaration, and its type parameters. -/
def members (d : Declaration) : Session (List Declaration) := do
  return (← d.declarations) ++ (← d.typeParameters).map (·.toDeclaration)

/-- The symbols that a traversal of a file meets. -/
def traversed (f : FileView) : Session (Array Node) :=
  Gathering.gathered ((Visitor.postorder Gathering.record).visit f.toNode) #[]

/-- Asked for parents, one after the other from a state on, a session comes from one declaration to another. -/
inductive Encloses (env : Environment) : State → Declaration → Declaration → Prop
  | parent {s u v c d} : s.Continues env u → c.parentDeclaration env u = (.ok (some d),v) → Encloses env s c d
  | outer {s u v c d e} : s.Continues env u → c.parentDeclaration env u = (.ok (some d),v) →
      Encloses env v d e → Encloses env s c e

end View

/-! ### What is told -/

theorem Gathering.gathered_run {G : Type} {x : Gathering G Unit} {g g' : G}
    (run : x env (s,g) = (.ok (),(v,g'))) : gathered x g env s = (.ok g',v) := by
  rw [gathered,run]

/-- Gathers the symbols that it is given. -/
def Handler.collecting (env : Environment) : Handler env (Array Node) where
  handle := Gathering.record
  continues _ hs _ := .refl hs

theorem Handled.collected {ks : List SymbolKey} {g : Array Node} {r : Except Error Unit × (State × Array Node)}
    (run : Handled (Handler.collecting env) ks s g r) :
    ∃ t ns, s.Finds env t ∧ r = (.ok (),(t,g ++ ns)) ∧ Keyed t ns.toList ks := by
  induction run with
  | done found => exact ⟨_,#[],found,by simp,.nil⟩
  | @next _ _ _ _ _ n ks _ found held answer _ ih =>
    obtain ⟨t,ns,later,rfl,keyed⟩ := ih
    cases answer
    have first : Keyed t [n] [n.header.key] :=
      ⟨rfl,List.forall_mem_singleton.mpr (later.grows.node held)⟩
    refine ⟨t,#[n] ++ ns,found.trans later,by simp,?_⟩
    rw [Array.toList_append]
    exact first.append keyed
  | failed found held answer => cases answer

/-! ### What is told of symbols of a state -/

/-- Symbols that a node lists are told by their keys. -/
theorem Session.Tells.of_listed {S : Type} [Viewed S] {x : Session (List (View S))} {p : Direct (List (Sight S))}
    {k : NodeKey} {nodes : List NodeId} (agrees : ∀ u, s.Continues env u → Agrees (Each Shows) env 4 u x p)
    (listed : Direct.Within (fun _ => False) env p (Sight.Listed env k (nodes.map some))) :
    Tells Keyed env s x ((nodes.map k.sibling).map .node) := by
  obtain ⟨ws,direct,keys,-⟩ := listed.exists_ok
  refine (of_agrees agrees direct).imp fun v vs _ h => ?_
  have keyed := Keyed.of_each h
  rw [keys,List.map_map] at keyed
  rwa [List.map_map]

theorem DeclaredForm.exists_written (d : DeclaredForm) :
    ∃ t : Shape, Viewed.form d = .written t ∧ t.kind.isDeclaration = true ∧
      d.declarations?.getD [] ++ d.typeParameters = t.members := by
  cases d with
  | classLike c => exact ⟨.classLike c,rfl,rfl,rfl⟩
  | function f => exact ⟨.function f,rfl,rfl,rfl⟩
  | property p => exact ⟨.property p,rfl,rfl,rfl⟩
  | typeAlias a => exact ⟨.typeAlias a,rfl,rfl,rfl⟩
  | typeParameter t => exact ⟨.typeParameter t,rfl,rfl,rfl⟩

open Direct in
theorem Sight.parentDeclaration_keyed (hw : env.models.WellFormed) {d : Sight DeclaredForm} (hd : d.Genuine env)
    {allowed : Error → Prop} : Within allowed env d.parentDeclaration fun p =>
      p.toList.map (·.key) = (env.models.parentDeclaration? d.anchor).toList.map .node := by
  obtain ⟨a,ha,-⟩ := hd.exists_arena
  refine .after (rawParent?_eq ha) ?_
  cases parent : env.models.parent? d.anchor with
  | none =>
    rw [Models.parentDeclaration?,parent]
    exact .pure rfl
  | some p =>
    obtain ⟨t,-,ht,-⟩ := hw.parent parent
    refine (node_within ht).bind fun w made => .pure ?_
    obtain ⟨-,key,shape⟩ := made
    rw [Models.parentDeclaration?_of_parent parent ht]
    cases seen : w.as? DeclaredForm with
    | none =>
      have other : t.kind.isDeclaration = false := by
        rw [← Bool.not_eq_true]
        intro declares
        obtain ⟨_,found⟩ := exists_declared shape declares
        rw [seen] at found
        cases found
      simp [other]
    | some e =>
      obtain ⟨t',form,declares,-⟩ := e.shape.exists_written
      have same : w.shape = .written t' := (congrArg Sight.shape (as?_eq_some.mp seen)).trans form
      obtain rfl : t = t' := Form.written.inj (shape.symm.trans same)
      simp [declares,key_of_as? seen,key]

namespace View

variable {c : Declaration} {f : FileView}

section Symbols

variable (hs : s.Sound env 4)
include hs

theorem written_of_held (hc : s.node? c.id = some c.toNode) : ∃ t, c.header.key = .node c.anchor ∧
    env.models.shape? c.anchor = some t ∧ Viewed.form c.shape = .written t ∧ t.kind.isDeclaration = true ∧
      c.shape.declarations?.getD [] ++ c.shape.typeParameters = t.members := by
  obtain ⟨t,form,declares,members⟩ := c.shape.exists_written
  have genuine : c.toNode.sight.Genuine env := hs.symbol hc
  obtain ⟨key,shape⟩ := genuine.written form
  exact ⟨t,key,shape,form,declares,members⟩

theorem file_of_held (hf : s.node? f.id = some f.toNode) : f.header.key = .node f.anchor ∧
    env.models.shape? f.anchor = some (.file f.shape) := by
  have genuine : f.toNode.sight.Genuine env := hs.symbol hf
  exact genuine.written (s := .file f.shape) rfl

end Symbols

variable (hw : env.models.WellFormed) (hs : s.Sound env 4)
include hw hs

section Declaration

variable (hc : s.node? c.id = some c.toNode)
include hc

theorem tells_parentDeclaration : Tells (Keyed.through Option.toList) env s c.parentDeclaration
    ((env.models.parentDeclaration? c.anchor).toList.map .node) := by
  have genuine : c.sight.Genuine env := hs.symbol hc
  obtain ⟨p,direct,keys⟩ := (Sight.parentDeclaration_keyed hw genuine).exists_ok
  refine (Tells.of_agrees (fun u went => Agrees.parentDeclaration (went.grows.reading ⟨hc,rfl⟩) (by decide)) direct).imp
    fun v p _ h => ?_
  have keyed := Keyed.of_maybe h
  rwa [keys] at keyed

theorem tells_containingFile : Tells (Keyed.through fun f => [f]) env s c.containingFile
    [.node (env.models.root c.anchor)] := by
  have genuine : c.sight.Genuine env := hs.symbol hc
  obtain ⟨f,direct,hf,root⟩ := (Sight.containingFile_within hw genuine).exists_ok
  refine (Tells.of_agrees (fun u went => Agrees.containingFile (went.grows.reading ⟨hc,rfl⟩) (by decide)) direct).imp
    fun v f _ h => ?_
  have keyed := Keyed.of_shows h
  rwa [(hf.written (s := .file _) rfl).1,root] at keyed

theorem tells_packageName : Tells Same env s c.packageName (env.models.packageOf c.anchor) := by
  have genuine : c.sight.Genuine env := hs.symbol hc
  exact .of_agrees (fun u went => Agrees.packageName (went.grows.reading ⟨hc,rfl⟩) (by decide))
    (Sight.packageName_eq hw genuine)

theorem tells_isLocal : Tells Same env s c.isLocal (env.models.isLocal c.anchor) := by
  have genuine : c.sight.Genuine env := hs.symbol hc
  exact .of_agrees (fun u went => Agrees.isLocal (went.grows.reading ⟨hc,rfl⟩) (by decide))
    (Sight.isLocal_eq hw genuine)

theorem tells_members {t : Shape} (ht : env.models.shape? c.anchor = some t) :
    Tells Keyed env s c.members ((t.members.map c.anchor.sibling).map .node) := by
  obtain ⟨t',-,ht',-,-,members⟩ := written_of_held hs hc
  obtain rfl := Option.some.inj (ht.symm.trans ht')
  rw [← members,List.map_append,List.map_append]
  have genuine : c.sight.Genuine env := hs.symbol hc
  have inside : Tells Keyed env s c.declarations
      (((c.shape.declarations?.getD []).map c.anchor.sibling).map .node) :=
    .of_listed (fun u went => Agrees.declarations (went.grows.reading ⟨hc,rfl⟩) (by decide))
      (Sight.declarations_within hw genuine)
  have parameters : Tells Keyed env s c.typeParameters
      ((c.shape.typeParameters.map c.anchor.sibling).map .node) :=
    .of_listed (fun u went => Agrees.typeParameters (went.grows.reading ⟨hc,rfl⟩) (by decide))
      (Sight.typeParameters_within hw genuine)
  refine inside.bind fun v ds went hds => (parameters.after went).bind fun w ts later hts => ?_
  exact .pure ((later.grows.reading hds).append hts.toDeclaration)

end Declaration

theorem tells_topLevel (hf : s.node? f.id = some f.toNode) :
    Tells Keyed env s f.topLevel (((Shape.file f.shape).members.map f.anchor.sibling).map .node) := by
  have genuine : f.sight.Genuine env := hs.symbol hf
  exact .of_listed (fun u went => Agrees.topLevel (went.grows.reading ⟨hf,rfl⟩) (by decide))
    (Direct.childDeclarations_within hw genuine rfl)

theorem tells_traversed (hf : s.node? f.id = some f.toNode) :
    Tells (Keyed.through Array.toList) env s f.traversed (env.models.postorder f.header.key) := by
  intro u went
  have hands : Hands (.collecting env) s
      ((Visitor.pruned (fun _ => false) (Handler.collecting env).handle).visit f.toNode)
      (env.models.walk (fun _ => false) f.header.key) := Visitor.visit_hands hw hs (n := f.toNode) hf
  obtain ⟨v,ns,found,run,keyed⟩ := (hands u #[] went).collected
  rw [Visitor.pruned_none,Array.empty_append] at run
  exact ⟨ns,v,Gathering.gathered_run run,found.toContinues,keyed⟩

/-- The parent that a session answers is the parent in the models. -/
theorem parent?_of_run {d : Declaration} (hc : s.node? c.id = some c.toNode) (went : s.Continues env u)
    (run : c.parentDeclaration env u = (.ok (some d),v)) :
    s.Continues env v ∧ v.node? d.id = some d.toNode ∧ env.models.parent? c.anchor = some d.anchor := by
  obtain ⟨goes,keys,held⟩ := (tells_parentDeclaration hw hs hc).of_run went run
  have held := held d List.mem_cons_self
  refine ⟨went.trans goes,held,?_⟩
  cases parent : env.models.parentDeclaration? c.anchor with
  | none => rw [parent] at keys; cases keys
  | some p =>
    rw [parent] at keys
    have key : d.header.key = .node p := (List.cons.inj keys).1
    have anchor : d.anchor = p := congrArg SymbolKey.anchor key
    rw [anchor]
    exact (Models.parent?_of_parentDeclaration? parent).1

theorem Encloses.mem_ancestors {d : Declaration} (hc : s.node? c.id = some c.toNode) (h : Encloses env s c d) :
    d.anchor ∈ env.models.ancestors c.anchor ∧ ∃ t, env.models.shape? d.anchor = some t ∧ t.kind = d.kind := by
  induction h with
  | @parent s u v c d went run =>
    obtain ⟨goes,held,parent⟩ := parent?_of_run hw hs hc went run
    obtain ⟨t,-,ht,form,-⟩ := written_of_held goes.sound held
    rw [hw.ancestors_of_parent parent]
    exact ⟨List.mem_cons_self,t,ht,(congrArg Form.kind form).symm⟩
  | @outer s u v c d e went run _ ih =>
    obtain ⟨goes,held,parent⟩ := parent?_of_run hw hs hc went run
    obtain ⟨above,shaped⟩ := ih goes.sound held
    rw [hw.ancestors_of_parent parent]
    exact ⟨List.mem_cons_of_mem _ above,shaped⟩

/-- Asking for parents, a session comes to every declaration above one. -/
theorem Encloses.exists_of_mem {j : NodeKey} {t : Shape} (hc : s.node? c.id = some c.toNode)
    (ht : env.models.shape? j = some t) (declares : t.kind.isDeclaration = true)
    (h : j ∈ env.models.ancestors c.anchor) : ∃ e, Encloses env s c e ∧ e.anchor = j := by
  obtain ⟨k,hk⟩ : ∃ k, k = c.anchor := ⟨_,rfl⟩
  induction k using hw.climb generalizing s c with
  | root k top =>
    rw [← hk,Models.ancestors_of_root top] at h
    cases h
  | child k q parent ih =>
    subst hk
    obtain ⟨p,v,run,goes,keys,held⟩ := tells_parentDeclaration hw hs hc s (.refl hs)
    obtain ⟨t',-,ht',-,declares',-⟩ := written_of_held hs hc
    obtain ⟨q',parent',around⟩ := Models.parent?_of_declaration hw ht' declares'
    obtain rfl := Option.some.inj (parent.symm.trans parent')
    rw [hw.ancestors_of_parent parent] at h
    rcases around with inside | ⟨-,top,-⟩
    · rw [inside] at keys
      obtain ⟨d,rfl⟩ : ∃ d, p = some d := by
        cases p with
        | none => cases keys
        | some d => exact ⟨d,rfl⟩
      have anchor : d.anchor = q := congrArg SymbolKey.anchor (List.cons.inj keys).1
      rcases List.mem_cons.mp h with rfl | above
      · exact ⟨d,.parent (.refl hs) run,anchor⟩
      · rw [← anchor] at above
        obtain ⟨e,outer,he⟩ := ih goes.sound (held d List.mem_cons_self) above anchor.symm
        exact ⟨e,.outer (.refl hs) run outer,he⟩
    · rw [Models.ancestors_of_root top,List.mem_singleton] at h
      subst h
      have file := (hw.root ht).mp top
      rw [file] at declares
      cases declares

end View

/-- What a session tells of a declaration, another one and a file, all of them symbols of a state. -/
structure Navigates (env : Environment) (s : State) (c d : Declaration) (f : FileView) : Prop where
  responds : Responds env s c.parentDeclaration ∧ Responds env s c.containingFile ∧ Responds env s c.packageName ∧
    Responds env s c.isLocal ∧ Responds env s d.members ∧ Responds env s f.topLevel ∧ Responds env s f.traversed
  /-- What is answered is a symbol from then on. -/
  held : (∀ e v, c.parentDeclaration env s = (.ok (some e),v) → v.node? e.id = some e.toNode) ∧
    ∀ g v, c.containingFile env s = (.ok g,v) → v.node? g.id = some g.toNode
  member : ∀ p ds, Answers env s c.parentDeclaration p → Answers env s d.members ds →
    ds.count c = if p = some d then 1 else 0
  top : ∀ p g ds, Answers env s c.parentDeclaration p → Answers env s c.containingFile g →
    Answers env s f.topLevel ds → ds.count c = if p = none ∧ g = f then 1 else 0
  reached : ∀ g ns, Answers env s c.containingFile g → Answers env s f.traversed ns → (c.toNode ∈ ns ↔ g = f)
  file : ∀ g h, Answers env s c.parentDeclaration (some d) → Answers env s c.containingFile g →
    Answers env s d.containingFile h → (g = f ↔ h = f)
  package : ∀ g name, Answers env s c.containingFile g → Answers env s c.packageName name → name = g.shape.package
  isLocal : ∀ b, Answers env s c.isLocal b → (b = true ↔ ∃ e, c.Encloses env s e ∧ e.kind = .function)

section Navigates

variable {f : FileView}

namespace View

variable {c d : Declaration}

section Answers

variable (hw : env.models.WellFormed) (hs : s.Sound env 4) (hc : s.node? c.id = some c.toNode)
include hw hs hc

theorem parentDeclaration_eq_some_iff (hd : s.node? d.id = some d.toNode) {p : Option Declaration}
    (h : Answers env s c.parentDeclaration p) : p = some d ↔ env.models.parent? c.anchor = some d.anchor := by
  obtain ⟨v,went,keyed⟩ := (tells_parentDeclaration hw hs hc).reads h
  obtain ⟨t,key,ht,-,declares,-⟩ := written_of_held hs hd
  have mem : d ∈ p.toList ↔ d.header.key ∈ _ := Keyed.mem went.sound keyed (went.grows.node hd)
  rw [Option.mem_toList,key,List.mem_map_of_injective (fun _ _ => SymbolKey.node.inj),Option.mem_toList] at mem
  rw [← Models.parentDeclaration?_eq_some ht declares]
  exact mem

theorem parentDeclaration_eq_none_iff {p : Option Declaration} (h : Answers env s c.parentDeclaration p) :
    p = none ↔ env.models.parentDeclaration? c.anchor = none := by
  obtain ⟨v,went,keys,-⟩ := (tells_parentDeclaration hw hs hc).reads h
  have lengths := congrArg List.length keys
  rw [List.length_map,List.length_map] at lengths
  cases p <;> cases e : env.models.parentDeclaration? c.anchor <;> simp [e] at lengths ⊢

theorem containingFile_eq_iff (hf : s.node? f.id = some f.toNode) {g : FileView}
    (h : Answers env s c.containingFile g) : g = f ↔ env.models.root c.anchor = f.anchor := by
  obtain ⟨v,went,keyed⟩ := (tells_containingFile hw hs hc).reads h
  have mem : f ∈ [g] ↔ f.header.key ∈ _ := Keyed.mem went.sound keyed (went.grows.node hf)
  rw [List.mem_singleton,(file_of_held hs hf).1,List.mem_singleton,SymbolKey.node.injEq] at mem
  rw [eq_comm,mem,eq_comm]

end Answers

end View

theorem Navigates.of_held (hw : env.models.WellFormed)
    (once : ∀ k t, env.models.shape? k = some t → t.children.Nodup) (hs : s.Sound env 4) {c d : Declaration}
    (hc : s.node? c.id = some c.toNode) (hd : s.node? d.id = some d.toNode) (hf : s.node? f.id = some f.toNode) :
    Navigates env s c d f := by
  obtain ⟨t,key,ht,-,declares,-⟩ := View.written_of_held hs hc
  obtain ⟨t',-,ht',-,declares',-⟩ := View.written_of_held hs hd
  obtain ⟨fileKey,file⟩ := View.file_of_held hs hf
  have top : env.models.parent? f.anchor = none := (hw.root file).mpr rfl
  have parents := View.tells_parentDeclaration hw hs hc
  have files := View.tells_containingFile hw hs hc
  have members := View.tells_members hw hs hd ht'
  have traversed := View.tells_traversed hw hs hf
  constructor
  case responds =>
    have parent := Definite.through (R := @Keyed DeclaredForm _) (f := Option.toList) fun p q h => by
      cases p <;> cases q <;> simp_all
    have file := Definite.through (R := @Keyed FileShape _) (f := fun f => [f]) fun f g h => (List.cons.inj h).1
    have nodes := Definite.through (R := @Keyed Form _) (f := Array.toList) fun ns ms h => Array.toList_inj.mp h
    exact ⟨parents.responds,files.responds,(View.tells_packageName hw hs hc).responds,
      (View.tells_isLocal hw hs hc).responds,members.responds,(View.tells_topLevel hw hs hf).responds,
      traversed.responds⟩
  case held =>
    constructor
    · intro e v run
      exact (View.parent?_of_run hw hs hc (.refl hs) run).2.1
    · intro g v run
      exact (files.of_run (.refl hs) run).2.2 g List.mem_cons_self
  case member =>
    intro p ds hp hds
    obtain ⟨v,went,keyed⟩ := members.reads hds
    rw [keyed.count went.sound (went.grows.node hc),key,
      List.count_map_of_injective _ _ (fun _ _ => SymbolKey.node.inj),Models.count_members hw once ht declares ht']
    exact if_congr (View.parentDeclaration_eq_some_iff hw hs hc hd hp).symm rfl rfl
  case top =>
    intro p g ds hp hg hds
    obtain ⟨v,went,keyed⟩ := (View.tells_topLevel hw hs hf).reads hds
    rw [keyed.count went.sound (went.grows.node hc),key,
      List.count_map_of_injective _ _ (fun _ _ => SymbolKey.node.inj),Models.count_members hw once ht declares file]
    refine if_congr ?_ rfl rfl
    rw [View.parentDeclaration_eq_none_iff hw hs hc hp,View.containingFile_eq_iff hw hs hc hf hg]
    obtain ⟨q,parent,around⟩ := Models.parent?_of_declaration hw ht declares
    constructor
    · intro own
      obtain rfl := Option.some.inj (own.symm.trans parent)
      rw [Models.root_of_parent hw parent,Models.parentDeclaration?_of_parent parent file,Models.root,
        Models.ancestors_of_root top]
      exact ⟨rfl,rfl⟩
    · rintro ⟨none,root⟩
      rcases around with inside | ⟨-,-,same⟩
      · rw [none] at inside
        cases inside
      · rw [parent,← same,root]
  case reached =>
    intro g ns hg hns
    obtain ⟨v,went,keyed⟩ := traversed.reads hns
    have mem : c.toNode ∈ ns.toList ↔ c.header.key ∈ _ :=
      Keyed.mem went.sound keyed (w := c.toNode) (went.grows.node hc)
    rw [Array.mem_toList_iff,key,Models.node_mem_postorder hw,fileKey] at mem
    rw [mem,View.containingFile_eq_iff hw hs hc hf hg,Models.root_eq_iff hw top]
    simp
  case file =>
    intro g h hp hg hh
    have parent := (View.parentDeclaration_eq_some_iff hw hs hc hd hp).mp rfl
    rw [View.containingFile_eq_iff hw hs hc hf hg,View.containingFile_eq_iff hw hs hd hf hh,
      Models.root_of_parent hw parent]
  case package =>
    intro g name hg hname
    obtain ⟨v,went,keys,held⟩ := files.reads hg
    obtain ⟨-,-,rfl⟩ := (View.tells_packageName hw hs hc).reads hname
    have anchor : g.anchor = env.models.root c.anchor := congrArg SymbolKey.anchor (List.cons.inj keys).1
    have shape := (View.file_of_held went.sound (held g List.mem_cons_self)).2
    rw [Models.packageOf,← anchor,shape]
  case isLocal =>
    intro b hb
    obtain ⟨-,-,rfl⟩ := (View.tells_isLocal hw hs hc).reads hb
    rw [Models.isLocal,List.any_eq_true]
    constructor
    · rintro ⟨j,above,function⟩
      obtain ⟨t,ht⟩ := hw.exists_shape_of_mem_ancestors above
      rw [Models.isFunction_eq ht,beq_iff_eq] at function
      obtain ⟨e,encloses,rfl⟩ := View.Encloses.exists_of_mem hw hs hc ht (by rw [function]; rfl) above
      obtain ⟨-,t',ht',kind⟩ := encloses.mem_ancestors hw hs hc
      obtain rfl := Option.some.inj (ht.symm.trans ht')
      exact ⟨e,encloses,kind.symm.trans function⟩
    · rintro ⟨e,encloses,function⟩
      obtain ⟨above,t,ht,kind⟩ := encloses.mem_ancestors hw hs hc
      refine ⟨e.anchor,above,?_⟩
      rw [Models.isFunction_eq ht,beq_iff_eq,kind,function]

end Navigates

/-- From any state on, a node gets a symbol. -/
theorem State.Sound.exists_held {S : Type} [Viewed S] (hs : s.Sound env 4) (k : NodeKey) (shape : S) {t : Shape}
    (ht : env.models.shape? k = some t) (form : Viewed.form shape = .written t) :
    ∃ (u : State) (v : View S), s.Continues env u ∧ u.node? v.id = some v.toNode ∧ v.anchor = k ∧ v.shape = shape := by
  obtain ⟨w,genuine,key,written⟩ := Direct.exists_genuine ht form
  have made : Direct.node k env = .ok w.toNode := by
    rw [Sight.Genuine,key] at genuine
    exact genuine
  have follows := Agrees.node k hs
  obtain ⟨n,-,held,shown⟩ := follows.exists_answer made
  have whole : n.shape = Viewed.form w.shape := congrArg Sight.shape shown
  have same : n.header.key = .node k := (congrArg Sight.key shown).trans key
  refine ⟨_,⟨n.header,shape⟩,⟨follows.grows,follows.sound⟩,?_,congrArg SymbolKey.anchor same,rfl⟩
  have node : View.toNode ⟨n.header,shape⟩ = n := by
    rw [← written,View.toNode,← whole]
  rw [node]
  exact held

namespace Fixture

/-- In every state that a session of a fixture comes to, among all symbols that it has then. -/
theorem navigates (x : Fixture) (config : Config) (history : List Action) {s : State}
    (reached : (State.during (x.environment config) history).Continues (x.environment config) s)
    {c d : Declaration} {f : FileView} (hc : s.node? c.id = some c.toNode) (hd : s.node? d.id = some d.toNode)
    (hf : s.node? f.id = some f.toNode) : Navigates (x.environment config) s c d f :=
  .of_held x.models_wellFormed x.children_nodup reached.sound hc hd hf

/-- A class with a type parameter. -/
def generic : Fixture where
  kotlin := [⟨"G.kt","d",[],[.classLike ⟨"C",.plain,.empty,[],[⟨"T",.invariant,.empty,[]⟩],[],[],1⟩]⟩]
  java := []
  inferred := .empty

/-- The type parameter is a member of the class, and not of the file. -/
theorem navigates_generic : ∃ (s : State) (c d : Declaration) (f : FileView) (ds top : List Declaration),
    c.name = "T" ∧ d.name = "C" ∧ Answers (generic.environment .standard) s c.parentDeclaration (some d) ∧
      Answers (generic.environment .standard) s d.members ds ∧ ds.count c = 1 ∧
      Answers (generic.environment .standard) s f.topLevel top ∧ top.count c = 0 := by
  have hw : (generic.environment .standard).models.WellFormed := generic.models_wellFormed
  obtain ⟨s,f,went,hf,-,-⟩ := (State.sound_during (generic.environment .standard) []).exists_held ⟨⟨0⟩,⟨0⟩⟩
    (⟨"G.kt","d",[],[⟨1⟩]⟩ : FileShape) rfl rfl
  obtain ⟨t,d,went',hd,atClass,d_shape⟩ := went.sound.exists_held ⟨⟨0⟩,⟨1⟩⟩
    (DeclaredForm.classLike ⟨"C",.plain,.empty,[],[⟨2⟩],[],[]⟩) rfl rfl
  obtain ⟨u,c,went'',hc,atParameter,c_shape⟩ := went'.sound.exists_held ⟨⟨0⟩,⟨2⟩⟩
    (DeclaredForm.typeParameter ⟨"T",.invariant,false,[]⟩) rfl rfl
  have hd := went''.grows.node hd
  have hf := (went'.trans went'').grows.node hf
  have sound := went''.sound
  obtain ⟨⟨parent,file,-,-,members,topLevel,-⟩,-,member,top,-⟩ :=
    navigates generic .standard [] ((went.trans went').trans went'') hc hd hf
  obtain ⟨p,hp⟩ := parent.exists_answer sound
  obtain ⟨g,hg⟩ := file.exists_answer sound
  obtain ⟨ds,hds⟩ := members.exists_answer sound
  obtain ⟨top',htop⟩ := topLevel.exists_answer sound
  have same : p = some d := by
    rw [View.parentDeclaration_eq_some_iff hw sound hc hd hp,atClass,atParameter]
    decide
  subst same
  refine ⟨u,c,d,f,ds,top',?_,?_,hp,hds,?_,htop,?_⟩
  · rw [View.name,c_shape]
    rfl
  · rw [View.name,d_shape]
    rfl
  · rw [member _ _ hp hds,if_pos rfl]
  · rw [top _ _ _ hp hg htop,if_neg (by simp)]

end Fixture

end SymbolGraph
