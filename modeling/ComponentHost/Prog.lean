import ComponentHost.Call

/-!
Computations over a shared state that may wait and call collaborators.

A computation is a sequence of indivisible actions on the state, of waits, and of calls. It says
nothing about who else acts on the state in between: that is decided by what runs it.
-/

set_option autoImplicit false

namespace ComponentHost

/-- A computation over states `σ` with the result `α`. -/
inductive Prog (σ : Type) (α : Type) : Type where
  | done (result : α)
  /-- Changes the state, and goes on by the state before. -/
  | act (change : σ → σ) (next : σ → Prog σ α)
  /-- Waits until the claim can be made, and makes it. -/
  | await (claim : σ → Option σ) (next : Prog σ α)
  /-- Calls a collaborator, and goes on by its answer. -/
  | call (call : Call) (next : call.Reply → Prog σ α)

namespace Prog

variable {σ τ α β : Type}

def bind : Prog σ α → (α → Prog σ β) → Prog σ β
  | done a, g => g a
  | act f k, g => act f fun s ↦ (k s).bind g
  | await c k, g => await c (k.bind g)
  | call c k, g => call c fun r ↦ (k r).bind g

instance : Monad (Prog σ) where
  pure := done
  bind := bind

@[simp] theorem pure_eq (a : α) : (pure a : Prog σ α) = done a := rfl

@[simp] theorem bind_eq (p : Prog σ α) (g : α → Prog σ β) : p >>= g = p.bind g := rfl

@[simp] theorem done_bind (a : α) (g : α → Prog σ β) : (done a).bind g = g a := rfl

@[simp] theorem bind_done (p : Prog σ α) : p.bind done = p := by
  induction p with
  | done => rfl
  | act f k ih => simp [bind, ih]
  | await c k ih => simp [bind, ih]
  | call c k ih => simp [bind, ih]

theorem bind_assoc {γ : Type} (p : Prog σ α) (g : α → Prog σ β) (h : β → Prog σ γ) :
    (p.bind g).bind h = p.bind fun a ↦ (g a).bind h := by
  induction p with
  | done => rfl
  | act f k ih => simp [bind, ih]
  | await c k ih => simp [bind, ih]
  | call c k ih => simp [bind, ih]

instance : LawfulMonad (Prog σ) :=
  LawfulMonad.mk' (Prog σ) (fun p ↦ bind_done p) (fun _ _ ↦ rfl) fun p g h ↦ bind_assoc p g h

def gets (f : σ → α) : Prog σ α := act id fun s ↦ done (f s)

def modify (f : σ → σ) : Prog σ Unit := act f fun _ ↦ done ()

/-- One action that reads and changes the state. -/
def update (f : σ → α × σ) : Prog σ α := act (fun s ↦ (f s).2) fun s ↦ done (f s).1

/-- Waits for a claim. -/
def claim (c : σ → Option σ) : Prog σ Unit := await c (done ())

/-- Asks a collaborator. -/
def ask (c : Call) : Prog σ c.Reply := call c done

/-- The computation on a part of a larger state. -/
def within (part : τ → σ) (replace : σ → τ → τ) : Prog σ α → Prog τ α
  | done a => done a
  | act f k => act (fun t ↦ replace (f (part t)) t) fun t ↦ (k (part t)).within part replace
  | await c k => await (fun t ↦ (c (part t)).map (replace · t)) (k.within part replace)
  | call c k => call c fun r ↦ (k r).within part replace

end Prog

end ComponentHost
