import SymbolGraph.Java.Flatten
import SymbolGraph.Kotlin.Flatten
import SymbolGraph.Proofs.Layout

/-! Layouts as they are carried out. A node is reserved in a store, its children are laid out behind it, and it is
filled as soon as its shape is known. What this leaves are the slots of the layout, and the files that were noted on
the way are the nodes without a parent. -/
namespace SymbolGraph
namespace Arena

variable {p : Option NodeId} {path : String} {line : Nat}

/-- Puts slots behind those of an arena. -/
def append (a : Arena) (l : List Slot) : Arena := { a with slots := a.slots ++ l.toArray }

theorem append_nil (a : Arena) : a.append [] = a := by
  simp [append]

theorem append_append (a : Arena) (l r : List Slot) : (a.append l).append r = a.append (l ++ r) := by
  simp [append]

theorem size_append (a : Arena) (l : List Slot) : (a.append l).size = a.size + l.length := by
  simp [append,size]

theorem empty_append (o : Origin) (l : List Slot) : (empty o).append l = ofSlots o l := by
  simp [append,empty,ofSlots]

/-- A reserved node gets its shape, whatever was laid out behind it. -/
theorem fill_append_reserve (a : Arena) (p : Option NodeId) (path : String) (line : Nat) (l : List Slot) (s : Shape) :
    ((a.reserve p path line).append l).fill ⟨a.size⟩ s = a.append (⟨p,path,line,some s⟩ :: l) := by
  have slots : (a.slots.toList ++ ⟨p,path,line,none⟩ :: l).modify a.slots.toList.length
      (fun slot => { slot with shape := some s }) = a.slots.toList ++ ⟨p,path,line,some s⟩ :: l := by
    rw [List.modify_eq_take_drop,List.take_left,List.drop_left,List.modifyHead_cons]
  simp only [fill,append,reserve,size]
  congr 1
  rw [← Array.toList_inj,Array.toList_modify]
  simpa using slots

theorem parent?_reserve (a : Arena) (n : NodeId) :
    (a.reserve p path line).parent? n = if n.index = a.size then p else a.parent? n := by
  rw [parent?,reserve,Array.getElem?_push,size]
  split <;> rfl

theorem parent?_fill (a : Arena) (m n : NodeId) (s : Shape) : (a.fill m s).parent? n = a.parent? n := by
  simp only [fill,parent?,Array.getElem?_modify]
  split
  · rw [Option.bind_map]
    rfl
  · rfl

/-- A node that is reserved without a parent comes behind the files that there are. -/
theorem files_reserve (a : Arena) (p : Option NodeId) (path : String) (line : Nat) :
    (a.reserve p path line).files = if p.isNone then a.files ++ [⟨a.size⟩] else a.files := by
  have nodes : (a.reserve p path line).nodes = a.nodes ++ [⟨a.size⟩] := by
    rw [Arena.nodes,size_reserve,List.range_succ,List.map_append,Arena.nodes,List.map_singleton]
  have others : ∀ n ∈ a.nodes, ((a.reserve p path line).parent? n).isNone = (a.parent? n).isNone := by
    intro n hn
    obtain ⟨i,hi,rfl⟩ := List.mem_map.mp hn
    rw [parent?_reserve,if_neg (Nat.ne_of_lt (List.mem_range.mp hi))]
  rw [files,nodes,List.filter_append,List.filter_congr others,files,List.filter_cons,parent?_reserve,if_pos rfl]
  cases p <;> simp

theorem files_fill (a : Arena) (n : NodeId) (s : Shape) : (a.fill n s).files = a.files := by
  simp only [files,nodes,size_fill,parent?_fill]

end Arena

/-- An arena that is being built up, with the files noted so far. -/
structure Store where
  arena : Arena
  files : List NodeId
  files_eq : files = arena.files

namespace Store

@[ext] theorem ext {a b : Store} (h : a.arena = b.arena) : a = b := by
  obtain ⟨_,_,rfl⟩ := a
  obtain ⟨_,_,rfl⟩ := b
  obtain rfl := h
  rfl

def ofArena (a : Arena) : Store := ⟨a,a.files,rfl⟩

def empty (o : Origin) : Store := ⟨.empty o,[],rfl⟩

/-- Reserves the next node. It is noted as a file if it has no parent. -/
def reserve (spot : Layout.Spot) : StateM Store NodeId := fun b =>
  (⟨b.arena.size⟩,⟨b.arena.reserve spot.parent spot.path spot.line,
    if spot.parent.isNone then b.files ++ [⟨b.arena.size⟩] else b.files,by rw [Arena.files_reserve,b.files_eq]⟩)

def fill (n : NodeId) (s : Shape) : StateM Store Unit := fun b =>
  ((),⟨b.arena.fill n s,b.files,by rw [Arena.files_fill,b.files_eq]⟩)

end Store

namespace Layout

variable {A B : Type}

/-- Carries a layout out at the end of a store. -/
def build (x : Layout A) : StateM Store A := fun b =>
  ((x b.arena.size).1,.ofArena (b.arena.append (x b.arena.size).2))

theorem build_pure (b : A) : build (pure b) = pure b := by
  funext s
  exact Prod.ext rfl (Store.ext s.arena.append_nil)

theorem build_bind (x : Layout A) (f : A → Layout B) : build (x >>= f) = build x >>= fun a => build (f a) := by
  funext s
  show build (x >>= f) s = build (f (x s.arena.size).1) (.ofArena (s.arena.append (x s.arena.size).2))
  simp only [build,bind_apply,Store.ofArena,Arena.size_append,Arena.append_append]

theorem build_map (g : A → B) (x : Layout A) : build (g <$> x) = g <$> build x := by
  rw [map_eq_pure_bind,build_bind,map_eq_pure_bind]
  simp only [build_pure]

/-- A node takes its id before its children take theirs, and its shape when they are laid out. -/
theorem build_node (spot : Spot) (shape : Spot → Layout Shape) : build (node spot shape) = do
    let n ← Store.reserve spot
    let s ← build (shape (spot.below n))
    Store.fill n s
    return n := by
  funext s
  refine Prod.ext rfl (Store.ext ?_)
  let below := shape (spot.below ⟨s.arena.size⟩)
  let reserved := s.arena.reserve spot.parent spot.path spot.line
  show s.arena.append (⟨spot.parent,spot.path,spot.line,some (below (s.arena.size + 1)).1⟩ ::
      (below (s.arena.size + 1)).2) =
    (reserved.append (below reserved.size).2).fill ⟨s.arena.size⟩ (below reserved.size).1
  rw [Arena.size_reserve,Arena.fill_append_reserve]

theorem build_each (f : A → Layout B) (l : List A) : build (each f l) = l.mapM fun a => build (f a) := by
  induction l with
  | nil => exact build_pure _
  | cons a l ih =>
    rw [each,build_bind,List.mapM_cons]
    simp only [build_bind,build_pure,ih]

theorem build_option (f : A → Layout B) (o : Option A) : build (option f o) = o.mapM fun a => build (f a) := by
  cases o with
  | none => exact build_pure _
  | some a => rw [option,build_map]; rfl

/-- Files that are laid out one after the other in a new store leave the arena of all their slots. -/
theorem build_files (f : A → Layout NodeId) (l : List A) (o : Origin) :
    ((l.mapM fun a => build (f a)) (.empty o)).2 = .ofArena (.ofSlots o (each f l).slots) := by
  rw [← build_each]
  exact Store.ext (Arena.empty_append o _)

end Layout

/-- Flattened files are what the steps of their layouts leave, with the files as they were noted. -/
theorem flatten_build :
    (∀ fs : List Kotlin.File, ((fs.mapM fun f => Layout.build f.layout) (Store.empty .kotlin)).2 =
      Store.ofArena (Kotlin.flatten fs)) ∧
    ∀ fs : List Java.File, ((fs.mapM fun f => Layout.build f.layout) (Store.empty .java)).2 =
      Store.ofArena (Java.flatten fs) :=
  ⟨fun fs => Layout.build_files Kotlin.File.layout fs .kotlin,fun fs => Layout.build_files Java.File.layout fs .java⟩

end SymbolGraph
