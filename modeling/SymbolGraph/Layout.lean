import SymbolGraph.Arena

/-! Laying out a syntax tree as a run of slots.
A node takes the next free id before its children take theirs, so that ids follow the source and every
parent has a smaller id than its children. -/
namespace SymbolGraph

/-- A part of a tree that starts at a given id: what it answers, and the slots that it takes in order. -/
def Layout (A : Type) := Nat → A × List Slot

namespace Layout

variable {A B : Type}

instance : Monad Layout where
  pure a := fun _ => (a,[])
  bind x f := fun n =>
    let (a,first) := x n
    let (b,rest) := f a (n + first.length)
    (b,first ++ rest)

instance : LawfulMonad Layout := LawfulMonad.mk' Layout
  (fun x => funext fun n => Prod.ext rfl (List.append_nil _))
  (fun a f => by funext n; simp [bind,pure])
  (fun x f g => by funext n; simp [bind,Nat.add_assoc,List.append_assoc])

/-- Where a node stands: the file, the line, and the parent. -/
structure Spot where
  path : String
  line : Nat
  parent : Option NodeId

namespace Spot

/-- A place below a node, on the same line unless it begins a declaration. -/
def below (s : Spot) (n : NodeId) : Spot := { s with parent := some n }

def onLine (s : Spot) (line : Nat) : Spot := { s with line := line }

end Spot

/-- A node with the children that its shape lists. -/
def node (spot : Spot) (shape : Spot → Layout Shape) : Layout NodeId := fun n =>
  let (s,rest) := shape (spot.below ⟨n⟩) (n + 1)
  (⟨n⟩,⟨spot.parent,spot.path,spot.line,some s⟩ :: rest)

def option (f : A → Layout B) : Option A → Layout (Option B)
  | none => pure none
  | some a => some <$> f a

/-- Lays out parts one after the other. -/
def each (f : A → Layout B) : List A → Layout (List B)
  | [] => pure []
  | a :: l => do
    let b ← f a
    let bs ← each f l
    return b :: bs

/-- An annotation. The type it names is a reference of its own below it. -/
def annotationEntry (spot : Spot) (shortName callee : String) (arguments : List AnnotationArgument) :
    Layout NodeId :=
  node spot fun spot => do
    let type ← node spot fun _ => pure (.typeReference ⟨callee,[],[]⟩)
    return .annotationEntry ⟨shortName,some type,arguments⟩

/-- The slots of a forest whose trees are laid out one after the other. -/
def slots (x : Layout A) : List Slot := (x 0).2

end Layout

/-- The last segment of a path or of a qualified name. -/
def lastSegment (separator : Char) (s : String) : String :=
  String.ofList (s.toList.reverse.takeWhile (· != separator)).reverse

/-- A text is the last segment of another one: there is no separator in it, and it is all of the other one or stands
behind a separator at its end. -/
def IsLastSegment (separator : Char) (s t : String) : Prop :=
  separator ∉ t.toList ∧ (s = t ∨ ∃ before, s.toList = before ++ separator :: t.toList)

theorem isLastSegment_lastSegment (c : Char) (s : String) : IsLastSegment c s (lastSegment c s) := by
  have plain := List.all_takeWhile (p := (· != c)) (l := s.toList.reverse)
  have first := List.head?_dropWhile_not (· != c) s.toList.reverse
  have split : s.toList = (s.toList.reverse.dropWhile (· != c)).reverse ++
      (s.toList.reverse.takeWhile (· != c)).reverse := by
    rw [← List.reverse_append,List.takeWhile_append_dropWhile,List.reverse_reverse]
  rw [lastSegment,IsLastSegment,String.toList_ofList]
  refine ⟨by simpa using List.all_eq_true.mp plain c,?_⟩
  cases rest : s.toList.reverse.dropWhile (· != c) with
  | nil =>
    rw [rest,List.reverse_nil,List.nil_append] at split
    exact .inl (by rw [← split,String.ofList_toList])
  | cons d l =>
    obtain rfl : d = c := by simpa [rest] using first
    rw [rest,List.reverse_cons,List.append_assoc] at split
    exact .inr ⟨l.reverse,split⟩

/-- A text has one last segment. -/
theorem lastSegment_eq_iff {c : Char} {s t : String} : lastSegment c s = t ↔ IsLastSegment c s t := by
  constructor
  · rintro rfl
    exact isLastSegment_lastSegment c s
  · rintro ⟨plain,whole⟩
    have others : ∀ d ∈ t.toList.reverse, (d != c) = true := by
      intro d hd
      rw [bne_iff_ne]
      rintro rfl
      exact plain (List.mem_reverse.mp hd)
    obtain ⟨l,e,first⟩ : ∃ l, s.toList.reverse = t.toList.reverse ++ l ∧ l.takeWhile (· != c) = [] := by
      rcases whole with rfl | ⟨before,e⟩
      · exact ⟨[],(List.append_nil _).symm,rfl⟩
      · exact ⟨c :: before.reverse,by simp [e],by simp⟩
    rw [lastSegment,e,List.takeWhile_append_of_pos others,first,List.append_nil,List.reverse_reverse,
      String.ofList_toList]

instance {c : Char} {s t : String} : Decidable (IsLastSegment c s t) := decidable_of_iff _ lastSegment_eq_iff

end SymbolGraph
