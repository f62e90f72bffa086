import SymbolGraph.Proofs.Direct.Gathering
import SymbolGraph.Proofs.Operation
import SymbolGraph.Proofs.Outline
import SymbolGraph.Proofs.Overriding
import SymbolGraph.Proofs.Visit

/-! Traversals of the files of a fixture. Whatever its handler does, a traversal hands over every symbol of
a file once, after those below it, and nothing else. -/
namespace SymbolGraph

variable {G : Type} {env : Environment} {s : State}

/-! ### Handlers -/

namespace Handler

/-- Asks nothing. It may gather something, or fail. -/
def ofFunction (f : Node → G → Except Error Unit × G) : Handler env G where
  handle n := fun _ t => ((f n t.2).1,(t.1,(f n t.2).2))
  continues _ hs _ := .refl hs

/-- Asks something of the session, and goes on by the answer. -/
def asking (op : Node → Operation) (next : Answer → Handler env G) : Handler env G where
  handle n := do (next (← Gathering.ofSession (op n).run)).handle n
  continues {s n} g hs hn := by
    have asked := Agrees.operation (op n) hs
    have went : s.Continues env ((op n).run env s).2 := ⟨asked.grows,asked.sound⟩
    rcases run : (op n).run env s with ⟨e | a,t⟩ <;> rw [run] at went
    · rw [Attempt.bind_error (Gathering.ofSession_run run g)]
      exact went
    · rw [Attempt.bind_ok (Gathering.ofSession_run run g)]
      exact went.trans ((next a).continues g went.sound (went.grows.node hn))

/-- Gathers the keys of what it is given. -/
def recording (env : Environment) : Handler env (Array SymbolKey) :=
  ofFunction fun n keys => (.ok (),keys.push n.header.key)

end Handler

/-- Nothing but the keys is gathered, and nothing is asked. -/
theorem Handled.recorded {ks : List SymbolKey} {g : Array SymbolKey}
    {r : Except Error Unit × (State × Array SymbolKey)}
    (run : Handled (Handler.recording env) ks s g r) :
    ∃ t, s.Finds env t ∧ r = (.ok (),(t,g ++ ks.toArray)) := by
  induction run with
  | done found => exact ⟨_,found,by simp⟩
  | next found held answer _ ih =>
    obtain ⟨t,later,rfl⟩ := ih
    cases answer
    exact ⟨t,found.trans later,by simp⟩
  | failed found held answer => cases answer

/-! ### Files -/

theorem Session.allFiles_run (fits : env.oracle.Fits env.models) (hs : s.Sound env 4) :
    ∃ files t, allFiles env s = (.ok files,t) ∧ s.Continues env t ∧
      files.map (·.header.key) = env.oracle.files.map .node ∧ ∀ f ∈ files, t.node? f.id = some f.toNode := by
  obtain ⟨grows,sound,answer⟩ := Agrees.allFiles hs
  have found : Direct.Within (fun _ => False) env Direct.allFiles fun fs =>
      fs.map (·.key) = env.oracle.files.map .node ∧ ∀ f ∈ fs, f.Genuine env :=
    Direct.allFiles_within fun _ => fits.file
  obtain ⟨ws,direct,keys,-⟩ := found.exists_ok
  rcases run : allFiles env s with ⟨e | files,t⟩ <;> rw [run] at grows sound <;> rw [run,direct] at answer
  · exact answer.elim
  · have shown : Each Shows t files ws := answer
    exact ⟨files,t,rfl,⟨grows,sound⟩,shown.keys.trans keys,shown.held⟩

namespace Fixture

variable (x : Fixture)

theorem children_nodup (k : NodeKey) (t : Shape) (ht : x.models.shape? k = some t) : t.children.Nodup := by
  obtain ⟨a,ha,ht⟩ := Models.exists_arena_of_shape? ht
  rcases List.mem_cons.mp (List.mem_of_getElem? ha) with rfl | ha
  · exact (Layout.IsFile.sourceOrdered Kotlin.File.isFile .kotlin x.kotlin).children_nodup ht
  · obtain rfl := List.mem_singleton.mp ha
    exact (Layout.IsFile.sourceOrdered Java.File.isFile .java x.java).children_nodup ht

/-- The traversal of a file hands over every node of the file once, and every type that is missing there,
the symbols below a symbol in the order of the source and before the symbol. -/
theorem visit_postorder (config : Config) (h : Handler (x.environment config) G)
    (hs : s.Sound (x.environment config) 4) :
    (∃ files t, Session.allFiles (x.environment config) s = (.ok files,t) ∧
      s.Continues (x.environment config) t ∧ files.map (·.header.key) = x.models.files.map .node ∧
      ∀ f ∈ files, t.node? f.id = some f.toNode) ∧
    ∀ f : FileView, s.node? f.id = some f.toNode →
      x.models.Postordered f.anchor (x.models.postorder f.header.key) ∧
      ∀ g, Handled h (x.models.postorder f.header.key) s g
        ((Visitor.postorder h.handle).visit f.toNode (x.environment config) (s,g)) := by
  have hw : (x.environment config).models.WellFormed := x.models_wellFormed
  refine ⟨Session.allFiles_run (Names.oracle_fits hw x.inferred) hs,fun f hf => ⟨?_,fun g => ?_⟩⟩
  · have genuine : f.toNode.sight.Genuine (x.environment config) := hs.symbol hf
    obtain ⟨key,shape⟩ := genuine.written (s := .file f.shape) rfl
    have top : x.models.parent? f.anchor = none := (hw.root shape).mpr rfl
    have own : f.header.key = .node f.anchor := key
    rw [own]
    exact Models.postordered hw x.children_nodup shape top
  · rw [← Visitor.pruned_none]
    exact Visitor.visit_hands (n := f.toNode) hw hs hf s g (.refl hs)

/-- A function that is written without a type, and its parameter, too. -/
def untyped : Fixture where
  kotlin := [⟨"U.kt","",[],[.function ⟨.named,some "f",.empty,[],[],none,
    [⟨some "x",none,false,none,.empty,[]⟩],none,none,1⟩]⟩]
  java := []
  inferred := .empty

theorem visit_postorder_untyped : ∃ f s t,
    Session.allFiles (untyped.environment .standard) .initial = (.ok [f],s) ∧
    (Visitor.postorder (Handler.recording (untyped.environment .standard)).handle).visit f.toNode
      (untyped.environment .standard) (s,#[]) = (.ok (),(t,#[.deferred ⟨⟨0⟩,⟨2⟩⟩,.node ⟨⟨0⟩,⟨2⟩⟩,
        .deferred ⟨⟨0⟩,⟨1⟩⟩,.node ⟨⟨0⟩,⟨1⟩⟩,.node ⟨⟨0⟩,⟨0⟩⟩])) ∧ t.asked = s.asked := by
  obtain ⟨⟨files,s,run,went,keys,held⟩,-⟩ :=
    visit_postorder untyped .standard (Handler.recording _) (State.sound_initial _ 4)
  have listed : untyped.models.files = [⟨⟨0⟩,⟨0⟩⟩] := by decide
  rw [listed] at keys
  have one : files.length = 1 := by simpa using congrArg List.length keys
  obtain ⟨f,rfl⟩ := List.length_eq_one_iff.mp one
  have key : f.header.key = .node ⟨⟨0⟩,⟨0⟩⟩ := (List.cons.inj keys).1
  have handed := ((visit_postorder untyped .standard (Handler.recording _) went.sound).2 f
    (held f List.mem_cons_self)).2 #[]
  obtain ⟨t,found,answer⟩ := handed.recorded
  refine ⟨f,s,t,run,answer.trans ?_,found.asked⟩
  rw [key]
  rfl

end Fixture
end SymbolGraph
