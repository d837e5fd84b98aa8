import ComponentHost.Prog

/-!
Running computations side by side, one at a time and in turn.

A task runs until it is done or has to wait; then the next one in the queue has its turn. A claim is
tried as soon as the state may have changed, for the tasks that wait in the order in which they
began to wait, and a task whose claim was made goes to the end of the queue. So what is given back
is handed to the first that waits for it, and nobody overtakes.

`Prog.alone` runs one computation with nobody beside it.
-/

set_option autoImplicit false

namespace ComponentHost

/-- A task that waits. -/
structure Waiting (σ : Type) where
  claim : σ → Option σ
  next : Prog σ Unit

/-- Tasks over a common state. -/
structure Machine (σ : Type) where
  state : σ
  /-- The queue; its first task has the turn. -/
  ready : List (Prog σ Unit) := []
  /-- In the order in which they began to wait. -/
  waiting : List (Waiting σ) := []

/-- What the collaborators do. -/
abbrev Environment (σ : Type) := (c : Call) → Prog σ c.Reply

namespace Machine

variable {σ : Type}

/-- Puts a task at the end of the queue. -/
def spawn (m : Machine σ) (task : Prog σ Unit) : Machine σ :=
  { m with ready := m.ready ++ [task] }

/-- Makes the claims that can be made, in order: the state after them, the tasks that may go on, and
those that still wait. -/
def grant (s : σ) : List (Waiting σ) → σ × List (Prog σ Unit) × List (Waiting σ)
  | [] => (s, [], [])
  | w :: rest =>
    match w.claim s with
    | some s =>
      let (s, ready, waiting) := grant s rest
      (s, w.next :: ready, waiting)
    | none =>
      let (s, ready, waiting) := grant s rest
      (s, ready, w :: waiting)

/-- A changed state, `task` having the turn. -/
def resume (s : σ) (task : Prog σ Unit) (others : List (Prog σ Unit))
    (waiting : List (Waiting σ)) : Machine σ :=
  let (s, granted, waiting) := grant s waiting
  ⟨s, task :: others ++ granted, waiting⟩

/-- One step of the task that has the turn. -/
def step (env : Environment σ) (m : Machine σ) : Machine σ :=
  match m.ready with
  | [] => m
  | .done _ :: others => { m with ready := others }
  | .act f k :: others => resume (f m.state) (k m.state) others m.waiting
  | .await claim k :: others =>
    match claim m.state with
    | some s => resume s k others m.waiting
    | none => { m with ready := others, waiting := m.waiting ++ [⟨claim, k⟩] }
  | .call c k :: others => { m with ready := (env c).bind k :: others }

/-- Steps until no task has the turn, at most so many. -/
def run (env : Environment σ) : Nat → Machine σ → Machine σ
  | 0, m => m
  | n + 1, m => if m.ready.isEmpty then m else run env n (m.step env)

end Machine

/-- The result of a computation nobody interferes with, and the state after it. Nothing if it waits
for what never comes, or takes more than so many steps. -/
def Prog.alone {σ α : Type} (env : Environment σ) : Nat → Prog σ α → σ → Option (α × σ)
  | 0, _, _ => none
  | _ + 1, .done a, s => some (a, s)
  | n + 1, .act f k, s => alone env n (k s) (f s)
  | n + 1, .await claim k, s => (claim s).bind (alone env n k)
  | n + 1, .call c k, s => alone env n ((env c).bind k) s

end ComponentHost
