import Mathlib.Data.List.Basic
import SymbolGraph.Kotlin.Flatten
import SymbolGraph.Proofs.Layout.Alike

/-! What flattened Kotlin files tell of their sources: everything but what erasure forgets. Erased files
are laid out as the files themselves, and files that are laid out alike have the same erasure. -/
namespace SymbolGraph

/-- The modifiers of a set that are among given ones. -/
def Modifiers.only (keep : List Modifier) (s : Modifiers) : Modifiers := .ofList (keep.filter s.contains)

@[simp] theorem Modifiers.contains_only (keep : List Modifier) (s : Modifiers) (m : Modifier) :
    (s.only keep).contains m = (keep.contains m && s.contains m) := by
  rw [only,contains_ofList]
  apply Bool.eq_iff_iff.mpr
  simp

theorem Modifiers.only_congr {keep : List Modifier} {s t : Modifiers}
    (h : ∀ m ∈ keep, s.contains m = t.contains m) : s.only keep = t.only keep := by
  rw [only,only,List.filter_congr h]

namespace Kotlin

/-! ### Erasure -/

/-- That a type parameter is reified is kept as a flag. -/
def TypeParameter.erased (t : TypeParameter) : TypeParameter :=
  { t with modifiers := t.modifiers.only [.reified] }

/-- Three modifiers of a parameter are kept as flags. -/
def Parameter.erased (p : Parameter) : Parameter :=
  { p with modifiers := p.modifiers.only [.vararg,.crossinline,.noinline] }

def PropertyDecl.erased (p : PropertyDecl) : PropertyDecl :=
  { p with typeParameters := p.typeParameters.map (·.erased) }

def TypeAliasDecl.erased (a : TypeAliasDecl) : TypeAliasDecl :=
  { a with typeParameters := a.typeParameters.map (·.erased) }

/-- Constructors are of one kind. -/
def FunctionStyle.erased : FunctionStyle → FunctionStyle
  | .primaryConstructor | .secondaryConstructor => .primaryConstructor
  | s => s

/-- Only a named function keeps its name, if it has one. -/
def FunctionStyle.erasedName (name : Option String) : FunctionStyle → Option String
  | .named => some (name.getD "<no name provided>")
  | .primaryConstructor | .secondaryConstructor => some "<init>"
  | .lambda | .anonymousFunction => some "<no name provided>"

mutual
def Declaration.erased : Declaration → Declaration
  | .classLike c => .classLike (ClassDecl.erased c)
  | .function f => .function (FunctionDecl.erased f)
  | .property p => .property p.erased
  | .typeAlias a => .typeAlias a.erased
def ClassDecl.erased : ClassDecl → ClassDecl
  | ⟨name,keyword,modifiers,annotations,typeParameters,superTypes,body,line⟩ =>
    ⟨name,keyword,modifiers,annotations,typeParameters.map (·.erased),superTypes,
      erasedDeclarations body,line⟩
def FunctionDecl.erased : FunctionDecl → FunctionDecl
  | ⟨style,name,modifiers,annotations,typeParameters,receiver,parameters,returnType,body,line⟩ =>
    ⟨style.erased,style.erasedName name,modifiers,annotations,typeParameters.map (·.erased),receiver,
      parameters.map (·.erased),returnType,erasedBody body,line⟩
def erasedBody : Option Body → Option Body
  | none => none
  | some b => some (Body.erased b)
/-- What an expression holds is not kept, and then it is like an empty block. -/
def Body.erased : Body → Body
  | ⟨block,statements⟩ => ⟨true,if block then erasedDeclarations statements else []⟩
def erasedDeclarations : List Declaration → List Declaration
  | [] => []
  | d :: ds => d.erased :: erasedDeclarations ds
end

def File.erased (f : File) : File := { f with declarations := f.declarations.map (·.erased) }

theorem erasedDeclarations_eq (ds : List Declaration) : erasedDeclarations ds = ds.map (·.erased) := by
  induction ds with
  | nil => rw [erasedDeclarations,List.map_nil]
  | cons d ds ih => rw [erasedDeclarations,ih,List.map_cons]

/-! ### Erased files are laid out as the files themselves -/

open Layout (Spot Alike Opens)

theorem TypeParameter.layout_erased (spot : Spot) (t : TypeParameter) :
    t.erased.layout spot = t.layout spot := by
  simp [TypeParameter.layout,TypeParameter.erased]

theorem typeParametersLayout_erased (spot : Spot) (ts : List TypeParameter) :
    typeParametersLayout spot (ts.map (·.erased)) = typeParametersLayout spot ts := by
  simp only [typeParametersLayout,Layout.each_map,TypeParameter.layout_erased]

theorem Parameter.flags_erased (p : Parameter) : p.erased.flags = p.flags := by
  simp [Parameter.flags,Parameter.erased]
  exact ⟨rfl,rfl⟩

theorem Parameter.layout_erased (spot : Spot) (p : Parameter) : p.erased.layout spot = p.layout spot := by
  rw [Parameter.layout,Parameter.layout,flags_erased]; rfl

theorem PropertyDecl.layout_erased (spot : Spot) (p : PropertyDecl) :
    p.erased.layout spot = p.layout spot := by
  simp only [PropertyDecl.layout,PropertyDecl.erased,typeParametersLayout_erased]

theorem TypeAliasDecl.layout_erased (spot : Spot) (a : TypeAliasDecl) :
    a.erased.layout spot = a.layout spot := by
  simp only [TypeAliasDecl.layout,TypeAliasDecl.erased,typeParametersLayout_erased]

theorem FunctionStyle.nameAndForm_erased (s : FunctionStyle) (name : Option String) :
    s.erased.nameAndForm (s.erasedName name) = s.nameAndForm name := by
  cases s <;> rfl

mutual
theorem Declaration.layout_erased (spot : Spot) : (d : Declaration) →
    d.erased.layout spot = d.layout spot
  | .classLike c => by
    rw [Declaration.erased,Declaration.layout,Declaration.layout]; exact c.layout_erased spot
  | .function f => by
    rw [Declaration.erased,Declaration.layout,Declaration.layout]; exact f.layout_erased spot
  | .property p => by
    rw [Declaration.erased,Declaration.layout,Declaration.layout]; exact p.layout_erased spot
  | .typeAlias a => by
    rw [Declaration.erased,Declaration.layout,Declaration.layout]; exact a.layout_erased spot
theorem ClassDecl.layout_erased (spot : Spot) : (c : ClassDecl) → c.erased.layout spot = c.layout spot
  | ⟨_,_,_,_,_,_,body,_⟩ => by
    have below := fun spot => declarationsLayout_erased spot body
    simp only [ClassDecl.erased,ClassDecl.layout,typeParametersLayout_erased,below]
theorem FunctionDecl.layout_erased (spot : Spot) : (f : FunctionDecl) →
    f.erased.layout spot = f.layout spot
  | ⟨_,_,_,_,_,_,_,_,body,_⟩ => by
    have below := fun spot => bodyLayout_erased spot body
    have present : (erasedBody body).isSome = body.isSome := by cases body <;> rfl
    simp only [FunctionDecl.erased,FunctionDecl.layout,typeParametersLayout_erased,Layout.each_map,
      Parameter.layout_erased,FunctionStyle.nameAndForm_erased,below,present]
theorem bodyLayout_erased (spot : Spot) : (b : Option Body) →
    bodyLayout spot (erasedBody b) = bodyLayout spot b
  | none => by rw [erasedBody]
  | some b => by rw [erasedBody,bodyLayout,bodyLayout]; exact b.layout_erased spot
theorem Body.layout_erased (spot : Spot) : (b : Body) → b.erased.layout spot = b.layout spot
  | ⟨block,statements⟩ => by
    rw [Body.erased,Body.layout,Body.layout]
    cases block with
    | false => rfl
    | true => exact declarationsLayout_erased spot statements
theorem declarationsLayout_erased (spot : Spot) : (ds : List Declaration) →
    declarationsLayout spot (erasedDeclarations ds) = declarationsLayout spot ds
  | [] => by rw [erasedDeclarations]
  | d :: ds => by
    rw [erasedDeclarations,declarationsLayout,declarationsLayout,d.layout_erased spot,
      declarationsLayout_erased spot ds]
end

theorem File.layout_erased (f : File) : f.erased.layout = f.layout := by
  have below := fun spot => declarationsLayout_erased spot f.declarations
  simp only [erasedDeclarations_eq] at below
  simp only [File.layout,File.erased,below]

theorem flatten_erased (files : List File) : flatten (files.map (·.erased)) = flatten files := by
  simp only [flatten,Layout.each_map,File.layout_erased]

/-! ### Files that are laid out alike have the same erasure -/

theorem AnnotationEntry.alike (spot : Spot) (a b : AnnotationEntry) :
    Alike (a.layout spot) (b.layout spot) (a = b) := by
  refine .node fun _ spot => Alike.seq (P := True) (.node fun _ _ => .pure fun _ => trivial) ?_ ?_
  · intro _ _ _ _ h
    exact Option.some.inj (AnnotationShape.mk.inj (Shape.annotationEntry.inj h)).2.1
  · intro _ _
    refine .pure fun h => ?_
    obtain ⟨_,as⟩ := a
    obtain ⟨_,bs⟩ := b
    obtain ⟨rfl,-,arguments⟩ := AnnotationShape.mk.inj (Shape.annotationEntry.inj h)
    have argument : Function.Injective fun v : ValueArgument => AnnotationArgument.mk v.name v.value := by
      rintro ⟨_,_⟩ ⟨_,_⟩ e
      cases e
      rfl
    have same : as = bs := List.map_injective_iff.mpr argument arguments
    rw [same]

theorem annotations_alike (spot : Spot) (as bs : List AnnotationEntry) :
    Alike (annotationsLayout spot as) (annotationsLayout spot bs) (as = bs) := by
  have each := Alike.each (e := id) (AnnotationEntry.alike spot) as bs
  rwa [List.map_id,List.map_id] at each

mutual
theorem TypeReference.alike (spot : Spot) : (t u : TypeReference) →
    Alike (t.layout spot) (u.layout spot) (t = u)
  | ⟨text,annotations,arguments⟩, ⟨text',annotations',arguments'⟩ => by
    rw [TypeReference.layout,TypeReference.layout]
    refine .node fun _ spot => (annotations_alike spot annotations annotations').seq ?_ fun h _ =>
      (typeReferences_alike spot arguments arguments').seq ?_ fun h' _ => .pure fun shape => ?_
    · intro _ _ _ _ h
      exact (TypeReferenceShape.mk.inj (Shape.typeReference.inj h)).2.1
    · intro _ _ _ _ h
      exact (TypeReferenceShape.mk.inj (Shape.typeReference.inj h)).2.2
    · rw [(TypeReferenceShape.mk.inj (Shape.typeReference.inj shape)).1,h,h']
theorem typeReferences_alike (spot : Spot) : (ts us : List TypeReference) →
    Alike (typeReferencesLayout spot ts) (typeReferencesLayout spot us) (ts = us)
  | [], [] => .pure fun _ => rfl
  | [], u :: us => by rw [typeReferencesLayout,typeReferencesLayout]; exact .absurd fun _ => nofun
  | t :: ts, [] => by rw [typeReferencesLayout,typeReferencesLayout]; exact .absurd fun _ => nofun
  | t :: ts, u :: us => by
    rw [typeReferencesLayout,typeReferencesLayout,List.cons.injEq]
    exact (t.alike spot u).cons (typeReferences_alike spot ts us)
end

theorem typeReference_alike (spot : Spot) (t u : Option TypeReference) :
    Alike (Layout.option (TypeReference.layout spot) t) (Layout.option (TypeReference.layout spot) u)
      (t = u) := by
  have option := Alike.option (e := id) (TypeReference.alike spot) t u
  rwa [Option.map_id] at option

theorem TypeParameter.alike (spot : Spot) (t u : TypeParameter) :
    Alike (t.layout spot) (u.layout spot) (t.erased = u.erased) := by
  refine .node fun _ spot => (typeReferences_alike spot t.bounds u.bounds).seq ?_ fun bounds _ =>
    .pure fun shape => ?_
  · intro _ _ _ _ h
    exact (TypeParameterShape.mk.inj (Shape.typeParameter.inj h)).2.2.2
  · obtain ⟨name,variance,reified,-⟩ := TypeParameterShape.mk.inj (Shape.typeParameter.inj shape)
    have modifiers : t.modifiers.only [.reified] = u.modifiers.only [.reified] :=
      Modifiers.only_congr (List.forall_mem_singleton.mpr reified)
    rw [erased,erased,name,variance,modifiers,bounds]

theorem typeParameters_alike (spot : Spot) (ts us : List TypeParameter) :
    Alike (typeParametersLayout spot ts) (typeParametersLayout spot us)
      (ts.map (·.erased) = us.map (·.erased)) := .each (TypeParameter.alike spot) ts us

theorem Parameter.erased_eq_of_flags {p q : Parameter} (h : p.flags = q.flags) :
    p.hasDefault = q.hasDefault ∧ p.valVar = q.valVar ∧ p.erased.modifiers = q.erased.modifiers := by
  obtain ⟨vararg,hasDefault,isVal,isVar,crossinline,noinline⟩ := ParameterFlags.mk.inj h
  refine ⟨hasDefault,?_,Modifiers.only_congr ?_⟩
  · rw [decide_eq_decide] at isVal isVar
    rcases hp : p.valVar with _ | _ | _ <;> rcases hq : q.valVar with _ | _ | _ <;> simp_all
  · simpa using ⟨vararg,crossinline,noinline⟩

theorem Parameter.alike (spot : Spot) (p q : Parameter) :
    Alike (p.layout spot) (q.layout spot) (p.erased = q.erased) := by
  refine .node fun _ spot => (annotations_alike spot p.annotations q.annotations).seq ?_ fun annotations _ =>
    (typeReference_alike spot p.typeReference q.typeReference).seq ?_ fun typeReference _ =>
    .pure fun shape => ?_
  · intro _ _ _ _ h
    exact (ValueParameterShape.mk.inj (Shape.valueParameter.inj h)).2.1
  · intro _ _ _ _ h
    exact (ValueParameterShape.mk.inj (Shape.valueParameter.inj h)).2.2.1
  · obtain ⟨name,-,-,flags⟩ := ValueParameterShape.mk.inj (Shape.valueParameter.inj shape)
    obtain ⟨hasDefault,valVar,modifiers⟩ := erased_eq_of_flags flags
    simp only [erased] at modifiers ⊢
    rw [name,typeReference,hasDefault,valVar,modifiers,annotations]

theorem PropertyDecl.alike (spot : Spot) (p q : PropertyDecl) :
    Alike (p.layout spot) (q.layout spot) (p.erased = q.erased) := by
  refine .node fun place spot => (annotations_alike spot p.annotations q.annotations).seq ?_ fun annotations _ =>
    (typeParameters_alike spot p.typeParameters q.typeParameters).seq ?_ fun typeParameters _ =>
    (typeReference_alike spot p.receiver q.receiver).seq ?_ fun receiver _ =>
    (typeReference_alike spot p.typeReference q.typeReference).seq ?_ fun typeReference _ =>
    .pure fun shape => ?_
  · intro _ _ _ _ h
    exact (PropertyShape.mk.inj (Shape.property.inj h)).2.2.1
  · intro _ _ _ _ h
    exact (PropertyShape.mk.inj (Shape.property.inj h)).2.2.2.1
  · intro _ _ _ _ h
    exact (PropertyShape.mk.inj (Shape.property.inj h)).2.2.2.2.1
  · intro _ _ _ _ h
    exact (PropertyShape.mk.inj (Shape.property.inj h)).2.2.2.2.2.1
  · obtain ⟨name,modifiers,-,-,-,-,mutable⟩ := PropertyShape.mk.inj (Shape.property.inj shape)
    have line : p.line = q.line := congrArg Spot.line place
    rw [erased,erased,name,mutable,modifiers,annotations,typeParameters,receiver,typeReference,line]

theorem TypeAliasDecl.alike (spot : Spot) (a b : TypeAliasDecl) :
    Alike (a.layout spot) (b.layout spot) (a.erased = b.erased) := by
  refine .node fun place spot => (annotations_alike spot a.annotations b.annotations).seq ?_ fun annotations _ =>
    (typeParameters_alike spot a.typeParameters b.typeParameters).seq ?_ fun typeParameters _ =>
    (a.target.alike spot b.target).seq ?_ fun target _ => .pure fun shape => ?_
  · intro _ _ _ _ h
    exact (TypeAliasShape.mk.inj (Shape.typeAlias.inj h)).2.2.1
  · intro _ _ _ _ h
    exact (TypeAliasShape.mk.inj (Shape.typeAlias.inj h)).2.2.2.1
  · intro _ _ _ _ h
    exact (TypeAliasShape.mk.inj (Shape.typeAlias.inj h)).2.2.2.2
  · obtain ⟨name,modifiers,-,-,-⟩ := TypeAliasShape.mk.inj (Shape.typeAlias.inj shape)
    have line : a.line = b.line := congrArg Spot.line place
    rw [erased,erased,name,modifiers,annotations,typeParameters,target,line]

/-- The name and the form of a function in an arena tell its erased name and style. -/
theorem FunctionStyle.erased_eq_of_nameAndForm {s t : FunctionStyle} {m n : Option String}
    (h : s.nameAndForm m = t.nameAndForm n) : s.erased = t.erased ∧ s.erasedName m = t.erasedName n := by
  cases s <;> cases t <;> simp_all [nameAndForm,erased,erasedName,noName]

theorem ClassDecl.opens (spot : Spot) : (c : ClassDecl) → Opens (c.layout spot) .classLike
  | ⟨_,_,_,_,_,_,_,_⟩ => by rw [ClassDecl.layout]; exact .node _ fun _ _ => rfl

theorem FunctionDecl.opens (spot : Spot) : (f : FunctionDecl) → Opens (f.layout spot) .function
  | ⟨_,_,_,_,_,_,_,_,_,_⟩ => by rw [FunctionDecl.layout]; exact .node _ fun _ _ => rfl

theorem PropertyDecl.opens (spot : Spot) (p : PropertyDecl) : Opens (p.layout spot) .property :=
  .node _ fun _ _ => rfl

theorem TypeAliasDecl.opens (spot : Spot) (a : TypeAliasDecl) : Opens (a.layout spot) .typeAlias :=
  .node _ fun _ _ => rfl

def Declaration.kind : Declaration → NodeKind
  | .classLike _ => .classLike
  | .function _ => .function
  | .property _ => .property
  | .typeAlias _ => .typeAlias

theorem Declaration.opens (spot : Spot) (d : Declaration) : Opens (d.layout spot) d.kind := by
  cases d <;> rw [Declaration.layout]
  case classLike c => exact c.opens spot
  case function f => exact f.opens spot
  case property p => exact p.opens spot
  case typeAlias a => exact a.opens spot

/-- Declarations of different kinds are not laid out alike. -/
theorem Declaration.apart (spot : Spot) {d e : Declaration} (ne : d.kind ≠ e.kind) :
    Alike (d.layout spot) (e.layout spot) (d.erased = e.erased) :=
  .of_opens (d.opens spot) (e.opens spot) ne

theorem nothing_alike (spot : Spot) (es : List Declaration) :
    Alike (pure []) (declarationsLayout spot es) ([] = erasedDeclarations es) := by
  cases es with
  | nil => exact .pure fun _ => by rw [erasedDeclarations]
  | cons e es => rw [declarationsLayout]; exact .absurd fun _ => nofun

theorem Body.nothing_alike (spot : Spot) (b : Body) :
    Alike (pure []) (b.layout spot) ((⟨true,[]⟩ : Body) = b.erased) := by
  obtain ⟨block,statements⟩ := b
  rw [Body.layout,Body.erased]
  cases block with
  | false => exact .pure fun _ => rfl
  | true => exact (Kotlin.nothing_alike spot statements).imp (congrArg (Body.mk true))

mutual
theorem Declaration.alike (spot : Spot) : (d e : Declaration) →
    Alike (d.layout spot) (e.layout spot) (d.erased = e.erased)
  | .classLike c, .classLike c' => by
    simp only [Declaration.layout,Declaration.erased,Declaration.classLike.injEq]
    exact c.alike spot c'
  | .function f, .function f' => by
    simp only [Declaration.layout,Declaration.erased,Declaration.function.injEq]
    exact f.alike spot f'
  | .property p, .property p' => by
    simp only [Declaration.layout,Declaration.erased,Declaration.property.injEq]
    exact p.alike spot p'
  | .typeAlias a, .typeAlias a' => by
    simp only [Declaration.layout,Declaration.erased,Declaration.typeAlias.injEq]
    exact a.alike spot a'
  | .classLike _, .function _ | .classLike _, .property _ | .classLike _, .typeAlias _
  | .function _, .classLike _ | .function _, .property _ | .function _, .typeAlias _
  | .property _, .classLike _ | .property _, .function _ | .property _, .typeAlias _
  | .typeAlias _, .classLike _ | .typeAlias _, .function _ | .typeAlias _, .property _ =>
    Declaration.apart spot nofun
theorem ClassDecl.alike (spot : Spot) : (c d : ClassDecl) →
    Alike (c.layout spot) (d.layout spot) (c.erased = d.erased)
  | ⟨_,_,_,annotations,typeParameters,superTypes,body,line⟩,
    ⟨_,_,_,annotations',typeParameters',superTypes',body',line'⟩ => by
    rw [ClassDecl.layout,ClassDecl.layout,ClassDecl.erased,ClassDecl.erased]
    refine .node fun place spot => (annotations_alike spot annotations annotations').seq ?_ fun ha _ =>
      (typeParameters_alike spot typeParameters typeParameters').seq ?_ fun ht _ =>
      (typeReferences_alike spot superTypes superTypes').seq ?_ fun hs _ =>
      (declarations_alike spot body body').seq ?_ fun hb _ => .pure fun shape => ?_
    · intro _ _ _ _ h
      exact (ClassShape.mk.inj (Shape.classLike.inj h)).2.2.2.1
    · intro _ _ _ _ h
      exact (ClassShape.mk.inj (Shape.classLike.inj h)).2.2.2.2.1
    · intro _ _ _ _ h
      exact (ClassShape.mk.inj (Shape.classLike.inj h)).2.2.2.2.2.1
    · intro _ _ _ _ h
      exact (ClassShape.mk.inj (Shape.classLike.inj h)).2.2.2.2.2.2
    · obtain ⟨name,keyword,modifiers,-,-,-,-⟩ := ClassShape.mk.inj (Shape.classLike.inj shape)
      have hl : line = line' := congrArg Spot.line place
      rw [name,keyword,modifiers,ha,ht,hs,hb,hl]
theorem FunctionDecl.alike (spot : Spot) : (f g : FunctionDecl) →
    Alike (f.layout spot) (g.layout spot) (f.erased = g.erased)
  | ⟨style,name,_,annotations,typeParameters,receiver,parameters,returnType,body,line⟩,
    ⟨style',name',_,annotations',typeParameters',receiver',parameters',returnType',body',line'⟩ => by
    rw [FunctionDecl.layout,FunctionDecl.layout,FunctionDecl.erased,FunctionDecl.erased]
    refine .node fun place spot => (annotations_alike spot annotations annotations').seq ?_ fun ha _ =>
      (typeParameters_alike spot typeParameters typeParameters').seq ?_ fun ht _ =>
      (typeReference_alike spot receiver receiver').seq ?_ fun hr _ =>
      (Alike.each (Parameter.alike spot) parameters parameters').seq ?_ fun hp _ =>
      (typeReference_alike spot returnType returnType').seq ?_ fun hy _ =>
      (body_alike spot body body').seq ?_ fun hb _ => .pure fun shape => ?_
    · intro _ _ _ _ h
      exact (FunctionShape.mk.inj (Shape.function.inj h)).2.2.2.1
    · intro _ _ _ _ h
      exact (FunctionShape.mk.inj (Shape.function.inj h)).2.2.2.2.1
    · intro _ _ _ _ h
      exact (FunctionShape.mk.inj (Shape.function.inj h)).2.2.2.2.2.1
    · intro _ _ _ _ h
      exact (FunctionShape.mk.inj (Shape.function.inj h)).2.2.2.2.2.2.1
    · intro _ _ _ _ h
      exact (FunctionShape.mk.inj (Shape.function.inj h)).2.2.2.2.2.2.2.1
    · intro _ _ _ _ h
      exact (FunctionShape.mk.inj (Shape.function.inj h)).2.2.2.2.2.2.2.2.2
    · obtain ⟨hn,form,modifiers,-,-,-,-,-,present,-⟩ := FunctionShape.mk.inj (Shape.function.inj shape)
      obtain ⟨hs,hn⟩ := FunctionStyle.erased_eq_of_nameAndForm (Prod.ext hn form)
      have hl : line = line' := congrArg Spot.line place
      rw [hs,hn,modifiers,ha,ht,hr,hp,hy,hb present,hl]
theorem body_alike (spot : Spot) : (b c : Option Body) →
    Alike (bodyLayout spot b) (bodyLayout spot c) (b.isSome = c.isSome → erasedBody b = erasedBody c)
  | none, none => .pure fun _ _ => rfl
  | none, some c => (c.nothing_alike spot).imp fun _ => nofun
  | some b, none => (b.nothing_alike spot).symm.imp fun _ => nofun
  | some b, some c => (b.alike spot c).imp fun same _ => congrArg some same
theorem Body.alike (spot : Spot) : (b c : Body) →
    Alike (b.layout spot) (c.layout spot) (b.erased = c.erased)
  | ⟨true,statements⟩, ⟨true,statements'⟩ => by
    rw [Body.layout,Body.layout,Body.erased,Body.erased]
    exact (declarations_alike spot statements statements').imp (congrArg (Body.mk true))
  | ⟨false,_⟩, c => by
    rw [Body.layout,Body.erased]
    exact c.nothing_alike spot
  | ⟨true,statements⟩, ⟨false,_⟩ => by
    rw [Body.layout,Body.layout,Body.erased,Body.erased]
    exact (nothing_alike spot statements).symm.imp fun none => congrArg (Body.mk true) none.symm
theorem declarations_alike (spot : Spot) : (ds es : List Declaration) →
    Alike (declarationsLayout spot ds) (declarationsLayout spot es)
      (erasedDeclarations ds = erasedDeclarations es)
  | [], [] => .pure fun _ => rfl
  | [], e :: es => by rw [declarationsLayout,declarationsLayout]; exact .absurd fun _ => nofun
  | d :: ds, [] => by rw [declarationsLayout,declarationsLayout]; exact .absurd fun _ => nofun
  | d :: ds, e :: es => by
    rw [declarationsLayout,declarationsLayout,erasedDeclarations,erasedDeclarations,List.cons.injEq]
    exact (d.alike spot e).cons (declarations_alike spot ds es)
end

theorem File.alike (f g : File) : Alike f.layout g.layout (f.erased = g.erased) := by
  refine .node fun place spot => (annotations_alike spot f.annotations g.annotations).seq ?_ fun annotations _ =>
    (declarations_alike spot f.declarations g.declarations).seq ?_ fun declarations _ => .pure fun shape => ?_
  · intro _ _ _ _ h
    exact (FileShape.mk.inj (Shape.file.inj h)).2.2.1
  · intro _ _ _ _ h
    exact (FileShape.mk.inj (Shape.file.inj h)).2.2.2
  · obtain ⟨-,package,-,-⟩ := FileShape.mk.inj (Shape.file.inj shape)
    have name : f.name = g.name := congrArg Spot.path place
    rw [erasedDeclarations_eq,erasedDeclarations_eq] at declarations
    rw [erased,erased,name,package,annotations,declarations]

theorem erased_eq_of_flatten {fs gs : List File} (h : flatten fs = flatten gs) :
    fs.map (·.erased) = gs.map (·.erased) := by
  have slots : (Layout.each File.layout fs).slots = (Layout.each File.layout gs).slots := by
    simpa [flatten,Arena.ofSlots] using h
  exact Alike.of_slots_each File.alike (fun _ _ => rfl) (fun _ _ => List.cons_ne_nil _ _) fs gs 0 slots

/-- The arenas of two lists of files are the same to see exactly if the lists have the same erasure. -/
theorem flatten_seen_iff (fs gs : List File) :
    ((∀ n, (flatten fs).shape? n = (flatten gs).shape? n ∧ (flatten fs).parent? n = (flatten gs).parent? n ∧
        (flatten fs).location n = (flatten gs).location n) ∧ (flatten fs).files = (flatten gs).files) ↔
      fs.map (·.erased) = gs.map (·.erased) := by
  constructor
  · rintro ⟨seen,-⟩
    exact erased_eq_of_flatten (Arena.eq_of_seen rfl seen)
  · intro same
    have arenas : flatten fs = flatten gs := by rw [← flatten_erased fs,same,flatten_erased gs]
    rw [arenas]
    exact ⟨fun _ => ⟨rfl,rfl,rfl⟩,rfl⟩

end Kotlin
end SymbolGraph
