import SymbolGraph.Proofs.Hierarchy
import SymbolGraph.Proofs.Overriding

/-! The functions that a function of a fixture overrides by name: the nearest ones above it on each chain of super
classes, also where chains cross or come back to where they began. -/
namespace SymbolGraph
namespace Fixture

variable (x : Fixture) (config : Config)

/-- The functions found above a function are, once each, the first ones of its name and number of parameters in the
classes that chains lead up to, past classes without such a function. A function outside of classes has none. The
oracle names them if the function says that it overrides. -/
theorem overriddenBy_nearest {f : NodeKey} {F : FunctionShape} (hF : x.models.shape? f = some (.function F)) :
    let found := x.names.overriddenBy f F.name F.parameters.length
    found.Nodup ∧
    (∀ c C, x.models.parent? f = some c → x.models.shape? c = some (.classLike C) → ∀ g, g ∈ found ↔
      ∃ passed d, x.names.LeadsUp F.name F.parameters.length c passed d ∧
        x.names.FirstMember d F.name F.parameters.length g) ∧
    ((∀ c C, x.models.parent? f = some c → x.models.shape? c ≠ some (.classLike C)) → found = []) ∧
    ∀ e, (x.environment config).oracle.descriptor f = some e →
      e.overridden = if F.modifiers.contains .overriding then found else [] := by
  intro found
  have hw := x.models_wellFormed
  refine ⟨Names.nodup_overriddenBy hw,?_,?_,fun e he => (Names.overridden_eq hF he).2⟩
  · intro c C hc hC g
    rw [Names.mem_overriddenBy_iff hw]
    constructor
    · rintro ⟨_,passed,d,same,up,first⟩
      obtain rfl := Option.some.inj (hc.symm.trans same)
      exact ⟨passed,d,up,first⟩
    · rintro ⟨passed,d,up,first⟩
      exact ⟨c,passed,d,hc,up,first⟩
  · intro outside
    apply List.eq_nil_iff_forall_not_mem.mpr
    intro g hg
    obtain ⟨c,d,hc,-,above,-⟩ := Names.mem_overriddenBy hw hg
    obtain ⟨e,first,-⟩ := Relation.TransGen.head'_iff.mp above
    obtain ⟨C,-,-,hC,-⟩ := Names.mem_superClasses.mp first
    exact outside c C hc hC

/-- A class with two super classes that extend one class, which extends the first one again. One of the two has
no function of its own. -/
def crossed : Fixture where
  kotlin := [⟨"K.kt","d",[],[
    .classLike ⟨"Leaf",.plain,.empty,[],[],[⟨"Left",[],[]⟩,⟨"Right",[],[]⟩],[memberNamed "m" .overriding],1⟩,
    .classLike ⟨"Left",.plain,.empty,[],[],[⟨"Base",[],[]⟩],[memberNamed "m" .opened],2⟩,
    .classLike ⟨"Right",.plain,.empty,[],[],[⟨"Base",[],[]⟩],[],3⟩,
    .classLike ⟨"Base",.plain,.empty,[],[],[⟨"Leaf",[],[]⟩],[memberNamed "m" .opened],4⟩]⟩]
  java := []
  inferred := .empty

/-- The function of the lowest class overrides that of the class that bars one chain and that of the highest class,
to which the other chain is free, but not itself. -/
theorem overriddenBy_nearest_crossed :
    let found := crossed.names.overriddenBy ⟨⟨0⟩,⟨4⟩⟩ "m" 0
    found = [⟨⟨0⟩,⟨7⟩⟩,⟨⟨0⟩,⟨12⟩⟩] ∧ found.Nodup ∧
    (∃ passed d, crossed.names.LeadsUp "m" 0 ⟨⟨0⟩,⟨1⟩⟩ passed d ∧
      crossed.names.FirstMember d "m" 0 ⟨⟨0⟩,⟨12⟩⟩) ∧
    ¬∃ passed d, crossed.names.LeadsUp "m" 0 ⟨⟨0⟩,⟨1⟩⟩ passed d ∧
      crossed.names.FirstMember d "m" 0 ⟨⟨0⟩,⟨4⟩⟩ := by
  intro found
  have computed : crossed.names.overriddenBy ⟨⟨0⟩,⟨4⟩⟩ "m" 0 = [⟨⟨0⟩,⟨7⟩⟩,⟨⟨0⟩,⟨12⟩⟩] := by
    decide +kernel
  have leaf : crossed.models.shape? ⟨⟨0⟩,⟨4⟩⟩ =
      some (.function ⟨"m",.named,.ofList [.overriding],[],[],none,[],none,false,[]⟩) := by decide +kernel
  obtain ⟨nodup,nearest,-⟩ := overriddenBy_nearest crossed .standard leaf
  have chains : ∀ g, g ∈ crossed.names.overriddenBy ⟨⟨0⟩,⟨4⟩⟩ "m" 0 ↔ ∃ passed d,
      crossed.names.LeadsUp "m" 0 ⟨⟨0⟩,⟨1⟩⟩ passed d ∧ crossed.names.FirstMember d "m" 0 g :=
    nearest _ ⟨"Leaf",.plain,.empty,[],[],[⟨2⟩,⟨3⟩],[⟨4⟩]⟩ (by decide +kernel) (by decide +kernel)
  rw [computed] at chains
  refine ⟨computed,nodup,(chains _).mp (by decide),?_⟩
  rw [← chains]
  decide

end Fixture
end SymbolGraph
