import SymbolGraph.Proofs.Agreement.Symbols

/-! The attributes of symbols agree with the direct ones. -/
namespace SymbolGraph

variable {env : Environment} {rank : Nat} {s : State}

theorem Quiet.anyFunction (ks : List NodeKey) :
    Quiet (View.anyFunction ks) (Direct.anyFunction ks) := by
  induction ks with
  | nil => exact .pure false
  | cons k ks ih =>
    refine (Quiet.rawShape k).bind fun a => ?_
    split
    · exact .pure true
    · exact ih

theorem ids_of_maybe {S : Type} [Viewed S] {v : Option (View S)} {w : Option (Sight S)}
    (h : Maybe Shows s v w) : Maybe Identifies s (v.map (·.id)) (w.map Sight.toNode) := by
  cases h with
  | none => exact .none
  | some h => exact .some h.identifies

theorem each_filterMap_as? {S : Type} [Viewed S] (T : Type) [Viewed T] {vs : List (View S)}
    {ws : List (Sight S)} (h : Each Shows s vs ws) :
    Each Shows s (vs.filterMap (·.as? T)) (ws.filterMap (·.as? T)) := by
  induction h with
  | nil => exact .nil
  | @cons v w vs ws hv _ ih =>
    have ht := hv.as? T
    simp only [List.filterMap_cons]
    cases hv' : v.as? T <;> cases hw : w.as? T <;> rw [hv',hw] at ht <;> cases ht
    · exact ih
    · exact .cons ‹_› ih

namespace Agrees

section Children

variable {T : Type} [Viewed T] {v : View T} {w : Sight T} (hv : Shows s v w)
include hv

theorem children (l : ChildList) {nodes : List NodeId} (S : Type) [OneKind S] (h0 : 0 < rank)
    (hl : (Viewed.form w.shape).childList l = nodes)
    (hc : l.child = fun k => do return (← Direct.typed S k).toNode) :
    Agrees (Each Shows) env rank s (Session.children v l nodes S) (Direct.children w nodes S) := by
  have value : w.toNode.value (.children l) =
      nodes.mapM fun n => do return (← Direct.typed S (w.near n)).toNode := by
    rw [← hl,Sight.value,hc]; rfl
  rw [Session.children,Direct.children]
  rw [← Direct.mapM_view,← value]
  refine (memo hv h0 fun s hv => ?_).bind fun _ _ _ _ h =>
    mapM (Q := Identifies) h fun _ _ _ _ h => typedById S h
  rw [value]
  refine mapM (Q := Same) (List.forall₂_same.mpr fun _ _ => rfl) fun s' n _ g e => ?_
  cases e
  rw [hv.near]
  exact (typed S _).map fun _ _ _ _ h => h.identifies

theorem childDeclarations {nodes : List NodeId} (h0 : 0 < rank)
    (hl : (Viewed.form w.shape).childList .declarations = nodes) :
    Agrees (Each Shows) env rank s (Session.childDeclarations v nodes)
      (Direct.childDeclarations w nodes) := by
  have value : w.toNode.value (.children .declarations) = nodes.mapM fun n => Direct.node (w.near n) := by
    rw [← hl]; rfl
  rw [Session.childDeclarations,Direct.childDeclarations]
  rw [← value]
  refine (memo hv h0 fun s hv => ?_).bind fun _ _ _ _ h =>
    mapM (Q := Identifies) h fun _ _ _ _ h => declarationById h
  rw [value]
  refine mapM (Q := Same) (List.forall₂_same.mpr fun _ _ => rfl) fun s' n _ g e => ?_
  cases e
  rw [hv.near,← bind_pure (Direct.node _)]
  exact (node _).bind fun _ _ _ _ h => .pure h.identifies

theorem child? {m n : Option NodeId} (e : m = n) (S : Type) [OneKind S] :
    Agrees (Maybe Shows) env rank s (Session.child? v m S) (Direct.child? w n S) := by
  subst e
  cases m with
  | none => exact .pure .none
  | some n =>
    unfold Session.child? Direct.child?
    dsimp only
    rw [hv.near]
    exact (typed S _).map fun _ _ _ _ h => .some h

theorem typeReference {m n : Option NodeId} (e : m = n) :
    Agrees Shows env rank s (Session.typeReference v m) (Direct.typeReference w n) := by
  subst e
  cases m with
  | none =>
    rw [Session.typeReference,Direct.typeReference]
    rw [hv.anchor]
    exact deferredReference _
  | some n =>
    unfold Session.typeReference Direct.typeReference
    dsimp only
    rw [hv.near]
    exact typed _ _

end Children

section Declarations

variable {d : Declaration} {w : Sight DeclaredForm} (hd : Shows s d w)
include hd

theorem parentDeclaration (h0 : 0 < rank) :
    Agrees (Maybe Shows) env rank s d.parentDeclaration w.parentDeclaration := by
  have value : w.toNode.value .parentDeclaration = do return (← w.parentDeclaration).map Sight.toNode :=
    Sight.through_toNode _ w
  have viewed : w.parentDeclaration = (do
      match ← w.toNode.value .parentDeclaration with
      | some n => return some (← Direct.declaration n)
      | none => return none) := by
    rw [value]
    simp only [bind_assoc,pure_bind]
    refine Eq.trans (bind_pure _).symm (bind_congr fun d => ?_)
    cases d <;> simp [Direct.declaration_toNode]
  rw [viewed]
  rw [View.parentDeclaration]
  refine (memo (a := .parentDeclaration) hd h0 fun s hd => ?_).bind fun _ _ _ _ h => ?_
  · rw [value,hd.anchor]
    rw [Sight.parentDeclaration]
    simp only [bind_assoc]
    refine (Quiet.rawParent? _).agrees.bind fun _ p _ _ e => ?_
    cases e
    cases p with
    | none => exact .pure .none
    | some p =>
      simp only [bind_assoc,pure_bind]
      exact (node p).bind fun _ _ _ _ h => .pure (ids_of_maybe (h.as? DeclaredForm))
  · cases h with
    | none => exact .pure .none
    | some h =>
      have found : Agrees (Maybe Shows) env rank _ (do return some (← (do Session.declaration (← Session.nodeById _))))
          (do return some (← Direct.declaration _)) := (declarationById h).map fun _ _ _ _ h => .some h
      simpa only [bind_assoc] using found

theorem containingFile (h0 : 0 < rank) :
    Agrees Shows env rank s d.containingFile w.containingFile := by
  have value : w.toNode.value .containingFile = do return (← w.containingFile).toNode :=
    Sight.through_toNode _ w
  have viewed : w.containingFile = (do Direct.view FileShape (← w.toNode.value .containingFile)) := by
    simp [value,Direct.view_toNode]
  rw [viewed]
  rw [View.containingFile]
  refine (memo hd h0 fun s hd => ?_).bind fun _ _ _ _ h => typedById _ h
  rw [value,hd.anchor]
  rw [Sight.containingFile]
  simp only [bind_assoc]
  refine (Quiet.rawAncestors _).agrees.bind fun _ _ _ _ e => ?_
  cases e
  refine (Quiet.orFail _ _).agrees.bind fun _ _ _ _ e => ?_
  cases e
  exact (typed _ _).map fun _ _ _ _ h => h.identifies

theorem packageName (h1 : 1 < rank) : Agrees Same env rank s d.packageName w.packageName := by
  have value : w.toNode.value .packageName = w.packageName := Sight.through_toNode _ w
  rw [← value]
  refine memo (a := .packageName) hd h1 fun s hd => ?_
  rw [value]
  exact (containingFile hd Nat.one_pos).map fun _ _ _ _ h => congrArg FileShape.package h.shape

theorem isLocal (h0 : 0 < rank) : Agrees Same env rank s d.isLocal w.isLocal := by
  have value : w.toNode.value .isLocal = w.isLocal := Sight.through_toNode _ w
  rw [← value]
  refine memo (a := .isLocal) hd h0 fun s hd => ?_
  rw [value,hd.anchor]
  exact ((Quiet.rawAncestors _).bind fun _ => .anyFunction _).agrees

theorem qualifiedName (h2 : 2 < rank) : Agrees Same env rank s d.qualifiedName w.qualifiedName := by
  have value : w.toNode.value .qualifiedName = w.qualifiedName := Sight.through_toNode _ w
  rw [← value]
  refine memo (a := .qualifiedName) hd h2 fun s hd => ?_
  rw [value]
  rw [Sight.qualifiedName]
  rw [show d.kind = (Viewed.form w.shape).kind by rw [← hd.shape]; rfl]
  refine branch (.pure rfl) ?_
  refine (isLocal hd (by decide)).bind fun s₁ _ _ g₁ e => ?_
  cases e
  refine branch (.pure rfl) ?_
  rw [hd.anchor]
  refine (Quiet.rawAncestors _).agrees.bind fun s₂ _ _ g₂ e => ?_
  cases e
  refine (filterMapM fun _ _ _ => ((Quiet.rawShape _).bind fun _ => .pure _).agrees).bind
    fun s₃ _ _ g₃ e => ?_
  cases e
  refine (packageName (((g₁.trans g₂).trans g₃).reading hd) (by decide)).bind fun _ _ _ _ e => ?_
  cases e
  rw [show d.name = w.shape.name by rw [← hd.shape]; rfl]
  exact .pure rfl

theorem displayName (h2 : 2 < rank) : Agrees Same env rank s d.displayName w.displayName := by
  refine (qualifiedName hd h2).map fun _ _ _ _ e => ?_
  cases e
  rw [show d.name = w.shape.name by rw [← hd.shape]; rfl]
  rfl

theorem typeParameters (h0 : 0 < rank) :
    Agrees (Each Shows) env rank s d.typeParameters w.typeParameters := by
  rw [View.typeParameters]
  rw [hd.shape]
  exact children hd .typeParameters TypeParameterShape h0 (by cases w.shape <;> rfl) rfl

theorem declarations (h0 : 0 < rank) :
    Agrees (Each Shows) env rank s d.declarations w.declarations := by
  rw [View.declarations,Sight.declarations]
  rw [hd.shape]
  cases e : w.shape.declarations? with
  | none => exact .pure .nil
  | some nodes =>
    refine childDeclarations hd h0 ?_
    cases hs : w.shape <;> rw [hs] at e <;> cases e <;> rfl

theorem parentClassKind? (h0 : 0 < rank) :
    Agrees Same env rank s (View.parentClassKind? d) w.parentClassKind? := by
  refine (parentDeclaration hd h0).bind fun _ _ _ _ h => ?_
  cases h with
  | none => exact .pure rfl
  | @some p q h =>
    obtain ⟨-,rfl⟩ := h
    obtain ⟨header,shape⟩ := p
    cases shape <;> exact .pure rfl

theorem isOpen (h0 : 0 < rank) : Agrees Same env rank s d.isOpen w.isOpen := by
  rw [View.isOpen,Sight.isOpen]
  refine (isLocal hd h0).bind fun s₁ _ _ g₁ e => ?_
  cases e
  refine branch (.pure rfl) ?_
  have modifiers : d.modifiers = w.shape.modifiers := by rw [← hd.shape]; rfl
  have tail : Agrees Same env rank s₁
      (do
        if [.overriding,.abstracted,.opened].any d.modifiers.contains then return true
        if (← View.parentClassKind? d) = some .interface then return true
        return d.header.origin = .java && !d.modifiers.contains .final)
      (do
        if [.overriding,.abstracted,.opened].any w.shape.modifiers.contains then return true
        if (← w.parentClassKind?) = some .interface then return true
        return w.origin = .java && !w.shape.modifiers.contains .final) := by
    rw [modifiers]
    refine branch (.pure rfl) ?_
    refine (parentClassKind? (g₁.reading hd) h0).bind fun _ _ _ _ e => ?_
    cases e
    rw [show d.header.origin = w.origin by rw [← hd.2]; rfl]
    exact branch (.pure rfl) (.pure rfl)
  rw [hd.shape]
  cases e : w.shape <;> rw [e] at tail
  case classLike => exact branch (.pure rfl) tail
  all_goals exact tail

end Declarations

/-! ### Symbols of one kind -/

theorem annotations {T : Type} [Annotated T] [LawfulAnnotated T] {v : View T} {w : Sight T}
    (hv : Shows s v w) (h0 : 0 < rank) :
    Agrees (Each Shows) env rank s v.annotations w.annotations := by
  rw [View.annotations]
  rw [hv.shape]
  exact children hv .annotations AnnotationShape h0 (LawfulAnnotated.annotations_eq _).symm rfl

theorem topLevel {f : FileView} {w : Sight FileShape} (hf : Shows s f w) (h0 : 0 < rank) :
    Agrees (Each Shows) env rank s f.topLevel w.topLevel := by
  rw [View.topLevel]
  rw [hf.shape]
  exact childDeclarations hf h0 rfl

section Class

variable {c : ClassView} {w : Sight ClassShape} (hc : Shows s c w)
include hc

theorem superTypes (h0 : 0 < rank) : Agrees (Each Shows) env rank s c.superTypes w.superTypes := by
  rw [View.superTypes]
  rw [hc.shape]
  exact children hc .superTypes ReferenceForm h0 rfl rfl

theorem functions (h0 : 0 < rank) : Agrees (Each Shows) env rank s c.functions w.functions :=
  (declarations hc.toDeclaration h0).map fun _ _ _ _ h => each_filterMap_as? FunctionShape h

theorem properties (h0 : 0 < rank) : Agrees (Each Shows) env rank s c.properties w.properties :=
  (declarations hc.toDeclaration h0).map fun _ _ _ _ h => each_filterMap_as? PropertyShape h

end Class

section Function

variable {f : FunctionView} {w : Sight FunctionShape} (hf : Shows s f w)
include hf

theorem functionReceiver? :
    Agrees (Maybe Shows) env rank s f.functionReceiver? w.functionReceiver? :=
  child? hf (congrArg FunctionShape.receiver hf.shape) ReferenceForm

theorem parameters (h0 : 0 < rank) : Agrees (Each Shows) env rank s f.parameters w.parameters := by
  rw [View.parameters]
  rw [hf.shape]
  exact children hf .parameters ValueParameterShape h0 rfl rfl

theorem returnType : Agrees Shows env rank s f.returnType w.returnType :=
  typeReference hf (congrArg FunctionShape.returnType hf.shape)

theorem functionKind (h0 : 0 < rank) : Agrees Same env rank s f.functionKind w.functionKind := by
  rw [View.functionKind,Sight.functionKind]
  refine (parentDeclaration hf.toDeclaration h0).bind fun _ _ _ _ h => ?_
  cases h with
  | none => exact .pure rfl
  | some h =>
    rw [hf.shape]
    rcases w.shape.form with _ | _ | _ | _ <;> exact .pure rfl

theorem isAbstract (h0 : 0 < rank) : Agrees Same env rank s f.isAbstract w.isAbstract := by
  rw [View.isAbstract,Sight.isAbstract]
  rw [hf.shape]
  refine branch (.pure rfl) ?_
  refine (parentClassKind? hf.toDeclaration h0).bind fun _ _ _ _ e => ?_
  cases e
  exact .pure rfl

end Function

theorem propertyReceiver? {p : PropertyView} {w : Sight PropertyShape} (hp : Shows s p w) :
    Agrees (Maybe Shows) env rank s p.propertyReceiver? w.propertyReceiver? :=
  child? hp (congrArg PropertyShape.receiver hp.shape) ReferenceForm

theorem propertyType {p : PropertyView} {w : Sight PropertyShape} (hp : Shows s p w) :
    Agrees Shows env rank s p.propertyType w.propertyType :=
  typeReference hp (congrArg PropertyShape.typeReference hp.shape)

theorem target {a : TypeAliasView} {w : Sight TypeAliasShape} (ha : Shows s a w) :
    Agrees Shows env rank s a.target w.target := by
  rw [View.target]
  rw [ha.shape,ha.near]
  exact typed _ _

theorem bounds {t : TypeParameterView} {w : Sight TypeParameterShape} (ht : Shows s t w)
    (h0 : 0 < rank) : Agrees (Each Shows) env rank s t.bounds w.bounds := by
  rw [View.bounds]
  rw [ht.shape]
  exact children ht .bounds ReferenceForm h0 rfl rfl

theorem parameterType {v : ValueParameterView} {w : Sight ValueParameterShape} (hv : Shows s v w) :
    Agrees Shows env rank s v.parameterType w.parameterType :=
  typeReference hv (congrArg ValueParameterShape.typeReference hv.shape)

theorem parameterName {v : ValueParameterView} {w : Sight ValueParameterShape} (hv : Shows s v w) :
    Agrees Same env rank s v.parameterName w.parameterName := by
  rw [View.parameterName]
  rw [hv.shape]
  exact read

theorem typeArguments {r : ReferenceView} {w : Sight ReferenceForm} (hr : Shows s r w)
    (h0 : 0 < rank) : Agrees (Each Shows) env rank s r.typeArguments w.typeArguments := by
  rw [View.typeArguments,Sight.typeArguments]
  rw [hr.shape]
  cases e : w.shape with
  | written => exact children hr .typeArguments ReferenceForm h0 (by rw [e]; rfl) rfl
  | deferred => exact .pure .nil

theorem annotationType? {n : AnnotationView} {w : Sight AnnotationShape} (hn : Shows s n w) :
    Agrees (Maybe Shows) env rank s n.annotationType? w.annotationType? :=
  child? hn (congrArg AnnotationShape.type hn.shape) ReferenceForm

end Agrees
end SymbolGraph
