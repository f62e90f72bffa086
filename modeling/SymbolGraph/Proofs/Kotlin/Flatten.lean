import SymbolGraph.Kotlin.Flatten
import SymbolGraph.Proofs.Layout

/-! Flattened Kotlin files are well-formed. -/
namespace SymbolGraph
namespace Kotlin

open Layout (Spot Lays)

theorem annotations_lay (spot : Spot) (as : List AnnotationEntry) :
    Lays (annotationsLayout spot as) spot.parent Place.annotationEntry.on :=
  .each fun _ _ => Layout.annotationEntry_lays _ _ _ _

mutual
theorem TypeReference.lays (spot : Spot) : (t : TypeReference) →
    Lays (t.layout spot) spot.parent fun n => Place.reference.on [n]
  | ⟨text,annotations,arguments⟩ => by
    rw [TypeReference.layout]
    exact .node _ rfl (fun _ _ => rfl) fun spot => (annotations_lay spot annotations).seq fun _ =>
      (typeReferences_lay spot arguments).seq fun _ => .done rfl
theorem typeReferences_lay (spot : Spot) : (ts : List TypeReference) →
    Lays (typeReferencesLayout spot ts) spot.parent Place.reference.on
  | [] => by
    rw [typeReferencesLayout]
    exact .nothing rfl
  | t :: ts => by
    rw [typeReferencesLayout]
    exact (t.lays spot).cons (typeReferences_lay spot ts)
end

theorem TypeParameter.lays (spot : Spot) (t : TypeParameter) :
    Lays (t.layout spot) spot.parent fun n => Place.typeParameter.on [n] :=
  .node _ rfl (fun _ _ => rfl) fun spot => (typeReferences_lay spot t.bounds).seq fun _ => .done rfl

theorem typeParameters_lay (spot : Spot) (ts : List TypeParameter) :
    Lays (typeParametersLayout spot ts) spot.parent Place.typeParameter.on :=
  .each fun t _ => t.lays spot

theorem typeReference_lays (spot : Spot) (t : Option TypeReference) :
    Lays (Layout.option (TypeReference.layout spot) t) spot.parent fun n => Place.reference.on n.toList :=
  .option fun t _ => t.lays spot

theorem Parameter.lays (spot : Spot) (p : Parameter) :
    Lays (p.layout spot) spot.parent fun n => Place.parameter.on [n] :=
  .node _ rfl (fun _ _ => rfl) fun spot => (annotations_lay spot p.annotations).seq fun _ =>
    (typeReference_lays spot p.typeReference).seq fun _ => .done rfl

theorem PropertyDecl.lays (spot : Spot) (p : PropertyDecl) :
    Lays (p.layout spot) spot.parent fun n => Place.declaration.on [n] :=
  Lays.node (spot.onLine p.line) rfl (fun _ _ => rfl) fun spot =>
    (annotations_lay spot p.annotations).seq fun _ =>
    (typeParameters_lay spot p.typeParameters).seq fun _ =>
    (typeReference_lays spot p.receiver).seq fun _ =>
    (typeReference_lays spot p.typeReference).seq fun _ => .done rfl

theorem TypeAliasDecl.lays (spot : Spot) (a : TypeAliasDecl) :
    Lays (a.layout spot) spot.parent fun n => Place.declaration.on [n] :=
  Lays.node (spot.onLine a.line) rfl (fun _ _ => rfl) fun spot =>
    (annotations_lay spot a.annotations).seq fun _ =>
    (typeParameters_lay spot a.typeParameters).seq fun _ => (a.target.lays spot).seq fun _ => .done rfl

mutual
theorem Declaration.lays (spot : Spot) : (d : Declaration) →
    Lays (d.layout spot) spot.parent fun n => Place.declaration.on [n]
  | .classLike c => by rw [Declaration.layout]; exact c.lays spot
  | .function f => by rw [Declaration.layout]; exact f.lays spot
  | .property p => by rw [Declaration.layout]; exact p.lays spot
  | .typeAlias a => by rw [Declaration.layout]; exact a.lays spot
theorem ClassDecl.lays (spot : Spot) : (c : ClassDecl) →
    Lays (c.layout spot) spot.parent fun n => Place.declaration.on [n]
  | ⟨_,_,_,annotations,typeParameters,superTypes,body,line⟩ => by
    rw [ClassDecl.layout]
    exact Lays.node (spot.onLine line) rfl (fun _ _ => rfl) fun spot =>
      (annotations_lay spot annotations).seq fun _ =>
      (typeParameters_lay spot typeParameters).seq fun _ =>
      (typeReferences_lay spot superTypes).seq fun _ => (declarations_lay spot body).seq fun _ => .done rfl
theorem FunctionDecl.lays (spot : Spot) : (f : FunctionDecl) →
    Lays (f.layout spot) spot.parent fun n => Place.declaration.on [n]
  | ⟨_,_,_,annotations,typeParameters,receiver,parameters,returnType,body,line⟩ => by
    rw [FunctionDecl.layout]
    exact Lays.node (spot.onLine line) rfl (fun _ _ => rfl) fun spot =>
      (annotations_lay spot annotations).seq fun _ =>
      (typeParameters_lay spot typeParameters).seq fun _ =>
      (typeReference_lays spot receiver).seq fun _ =>
      (Lays.each fun p _ => Parameter.lays spot p).seq fun _ =>
      (typeReference_lays spot returnType).seq fun _ => (body_lays spot body).seq fun _ => .done rfl
theorem body_lays (spot : Spot) : (b : Option Body) →
    Lays (bodyLayout spot b) spot.parent Place.declaration.on
  | none => by rw [bodyLayout]; exact .nothing rfl
  | some b => by rw [bodyLayout]; exact b.lays spot
theorem Body.lays (spot : Spot) : (b : Body) → Lays (b.layout spot) spot.parent Place.declaration.on
  | ⟨block,statements⟩ => by
    rw [Body.layout]
    cases block with
    | false => exact .nothing rfl
    | true => exact declarations_lay spot statements
theorem declarations_lay (spot : Spot) : (ds : List Declaration) →
    Lays (declarationsLayout spot ds) spot.parent Place.declaration.on
  | [] => by rw [declarationsLayout]; exact .nothing rfl
  | d :: ds => by
    rw [declarationsLayout]
    exact (d.lays spot).cons (declarations_lay spot ds)
end

theorem File.lays (f : File) : Lays f.layout none fun n => Place.root.on [n] :=
  Lays.node ⟨f.name,1,none⟩ rfl (fun _ _ => rfl) fun spot =>
    (annotations_lay spot f.annotations).seq fun _ =>
    (declarations_lay spot f.declarations).seq fun _ => .done rfl

theorem flatten_wellFormed (files : List File) : (flatten files).WellFormed :=
  (Lays.each fun f _ => f.lays).wellFormed .kotlin

end Kotlin
end SymbolGraph
