import SymbolGraph.Error

/-! Computations that change a state and may fail. What was changed before a failure stays changed. -/
namespace SymbolGraph

def Attempt (S A : Type) := S → Except Error A × S

namespace Attempt

variable {S T A B : Type}

instance : Monad (Attempt S) where
  pure a := fun s => (.ok a,s)
  bind x f := fun s =>
    match x s with
    | (.ok a,s) => f a s
    | (.error e,s) => (.error e,s)

instance : LawfulMonad (Attempt S) := LawfulMonad.mk' (Attempt S)
  (fun x => funext fun s => by
    show (match x s with | (.ok a,s) => (.ok a,s) | (.error e,s) => (.error e,s)) = x s
    rcases x s with ⟨_ | _,_⟩ <;> rfl)
  (fun _ _ => rfl)
  (fun x f g => funext fun s => by
    simp only [bind]
    rcases x s with ⟨_ | _,_⟩ <;> rfl)

def fail (e : Error) : Attempt S A := fun s => (.error e,s)

def rescue (x : Attempt S A) (f : Error → Attempt S A) : Attempt S A := fun s =>
  match x s with
  | (.ok a,s) => (.ok a,s)
  | (.error e,s) => f e s

instance : MonadExceptOf Error (Attempt S) := ⟨fail,rescue⟩

def get : Attempt S S := fun s => (.ok s,s)

def modify (f : S → S) : Attempt S Unit := fun s => (.ok (),f s)

def ofExcept (x : Except Error A) : Attempt S A := fun s => (x,s)

/-- Runs in the first part of a larger state. -/
def first (x : Attempt S A) : Attempt (S × T) A := fun (s,t) =>
  let (a,s) := x s
  (a,(s,t))

theorem pure_run (a : A) (s : S) : (pure a : Attempt S A) s = (.ok a,s) := rfl

theorem bind_run (x : Attempt S A) (f : A → Attempt S B) (s : S) :
    (x >>= f) s = match x s with | (.ok a,s) => f a s | (.error e,s) => (.error e,s) := rfl

/-! ### Runs in surroundings -/

section Surroundings

variable {R : Type} {x : ReaderT R (Attempt S) A} {f : A → ReaderT R (Attempt S) B}
  {g : Error → ReaderT R (Attempt S) A} {r : R} {s s' : S}

theorem bind_ok {a : A} (h : x r s = (.ok a,s')) : (x >>= f) r s = f a r s' := by
  change (x r >>= fun a => f a r) s = _
  rw [bind_run,h]

theorem bind_error {e : Error} (h : x r s = (.error e,s')) : (x >>= f) r s = (.error e,s') := by
  change (x r >>= fun a => f a r) s = _
  rw [bind_run,h]

/-- What is answered in the end was answered on the way. -/
theorem bind_eq_ok {s'' : S} {b : B} :
    (x >>= f) r s = (.ok b,s'') ↔ ∃ a s', x r s = (.ok a,s') ∧ f a r s' = (.ok b,s'') := by
  constructor
  · intro run
    rcases first : x r s with ⟨e | a,s'⟩
    · rw [bind_error first] at run
      cases run
    · rw [bind_ok first] at run
      exact ⟨a,s',rfl,run⟩
  · rintro ⟨a,s',first,next⟩
    rw [bind_ok first,next]

theorem rescue_ok {a : A} (h : x r s = (.ok a,s')) : tryCatch x g r s = (.ok a,s') := by
  change rescue (x r) (fun e => g e r) s = _
  rw [rescue,h]

theorem rescue_error {e : Error} (h : x r s = (.error e,s')) : tryCatch x g r s = g e r s' := by
  change rescue (x r) (fun e => g e r) s = _
  rw [rescue,h]

end Surroundings

end Attempt
end SymbolGraph
