import SymbolGraph.Java.Flatten
import SymbolGraph.Proofs.Layout

/-! Flattened Java files are well-formed. -/
namespace SymbolGraph
namespace Java

open Layout (Spot Lays)

theorem annotations_lay (spot : Spot) (as : List AnnotationUse) :
    Lays (annotationsLayout spot as) spot.parent Place.annotationEntry.on :=
  .each fun _ _ => Layout.annotationEntry_lays _ _ _ _

mutual
theorem TypeUse.lays (spot : Spot) : (t : TypeUse) →
    Lays (t.layout spot) spot.parent fun n => Place.reference.on [n]
  | ⟨text,annotations,arguments⟩ => by
    rw [TypeUse.layout]
    exact .node _ rfl (fun _ _ => rfl) fun spot => (annotations_lay spot annotations).seq fun _ =>
      (types_lay spot arguments).seq fun _ => .done rfl
theorem types_lay (spot : Spot) : (ts : List TypeUse) →
    Lays (typesLayout spot ts) spot.parent Place.reference.on
  | [] => by
    rw [typesLayout]
    exact .nothing rfl
  | t :: ts => by
    rw [typesLayout]
    exact (t.lays spot).cons (types_lay spot ts)
end

theorem TypeParameter.lays (spot : Spot) (t : TypeParameter) :
    Lays (t.layout spot) spot.parent fun n => Place.typeParameter.on [n] :=
  .node _ rfl (fun _ _ => rfl) fun spot => (types_lay spot t.bounds).seq fun _ => .done rfl

theorem typeParameters_lay (spot : Spot) (ts : List TypeParameter) :
    Lays (typeParametersLayout spot ts) spot.parent Place.typeParameter.on :=
  .each fun t _ => t.lays spot

theorem Parameter.lays (spot : Spot) (p : Parameter) :
    Lays (p.layout spot) spot.parent fun n => Place.parameter.on [n] :=
  .node _ rfl (fun _ _ => rfl) fun spot => (annotations_lay spot p.annotations).seq fun _ =>
    (p.type.lays spot).seq fun _ => .done rfl

theorem Method.lays (spot : Spot) (m : Method) :
    Lays (m.layout spot) spot.parent fun n => Place.declaration.on [n] :=
  Lays.node (spot.onLine m.line) rfl (fun _ _ => rfl) fun spot =>
    (annotations_lay spot m.annotations).seq fun _ =>
    (typeParameters_lay spot m.typeParameters).seq fun _ =>
    (Lays.each fun p _ => Parameter.lays spot p).seq fun _ =>
    (Lays.option fun t _ => TypeUse.lays spot t).seq fun _ => .done (by simp [Shape.places])

theorem Field.lays (spot : Spot) (f : Field) :
    Lays (f.layout spot) spot.parent fun n => Place.declaration.on [n] :=
  Lays.node (spot.onLine f.line) rfl (fun _ _ => rfl) fun spot =>
    (annotations_lay spot f.annotations).seq fun _ =>
    (f.type.lays spot).seq fun _ => .done (by simp [Shape.places])

mutual
theorem ClassDecl.lays (spot : Spot) : (c : ClassDecl) →
    Lays (c.layout spot) spot.parent fun n => Place.declaration.on [n]
  | ⟨_,_,_,annotations,typeParameters,superclasses,interfaces,members,line⟩ => by
    rw [ClassDecl.layout]
    exact Lays.node (spot.onLine line) rfl (fun _ _ => rfl) fun spot =>
      (annotations_lay spot annotations).seq fun _ =>
      (typeParameters_lay spot typeParameters).seq fun _ =>
      (types_lay spot (superclasses ++ interfaces)).seq fun _ =>
      (members_lay spot members).seq fun _ => .done rfl
theorem Member.lays (spot : Spot) : (m : Member) →
    Lays (m.layout spot) spot.parent fun n => Place.declaration.on [n]
  | .method m => by rw [Member.layout]; exact m.lays spot
  | .field f => by rw [Member.layout]; exact f.lays spot
  | .classLike c => by rw [Member.layout]; exact c.lays spot
theorem members_lay (spot : Spot) : (ms : List Member) →
    Lays (membersLayout spot ms) spot.parent Place.declaration.on
  | [] => by rw [membersLayout]; exact .nothing rfl
  | m :: ms => by
    rw [membersLayout]
    exact (m.lays spot).cons (members_lay spot ms)
end

theorem File.lays (f : File) : Lays f.layout none fun n => Place.root.on [n] :=
  Lays.node ⟨f.name,1,none⟩ rfl (fun _ _ => rfl) fun spot =>
    (Lays.each fun c _ => ClassDecl.lays spot c).seq fun _ => .done rfl

theorem flatten_wellFormed (files : List File) : (flatten files).WellFormed :=
  (Lays.each fun f _ => f.lays).wellFormed .java

end Java
end SymbolGraph
