import ComponentHost.Host.Processes
import Mathlib.Logic.Relation

/-!
Clients of process managers, side by side on one host.

A client carries out one request. It acts on the host, waits for a lock, or asks a collaborator and
waits for the answer; between any two of these steps other clients may act, so a client that gives
up its turn only where it has to wait is a special case. Collaborators answer what they like. What
else happens on the host may change everything but the managers and their processes.

A run is a list of moves, and a state is `Traffic.Reachable` if some moves lead to it from a host on
which nothing has been recorded. Every state knows what has passed between the host and its
collaborators (`Traffic.exchanges`), and which client has which process to itself
(`Traffic.holder`). `Traffic.serve` is the run in which one client after the other is served.
-/

set_option autoImplicit false

namespace ComponentHost

/-! ### Requests -/

/-- What a client asks of a manager of processes. -/
inductive Request where
  | create (m : ManagerRef) (ctx : ContextRef) (config : ProcessConfig)
  | start (m : ManagerRef) (ctx : ContextRef) (id : String)
  | stop (m : ManagerRef) (ctx : ContextRef) (id : String)
  | restart (m : ManagerRef) (ctx : ContextRef) (id : String)
  | markFailed (m : ManagerRef) (id reason : String)
  | remove (m : ManagerRef) (id : String)

/-- How a request ends; creating and removing answer the process. -/
abbrev Outcome := Except Error (Option ProcessRef)

namespace Request

def action : Request → Action (Option ProcessRef)
  | .create m ctx config => do return some (← Host.createProcess m ctx config)
  | .start m ctx id => do
    Host.startProcess m ctx id
    return none
  | .stop m ctx id => do
    Host.stopProcess m ctx id
    return none
  | .restart m ctx id => do
    Host.restartProcess m ctx id
    return none
  | .markFailed m id reason => do
    Host.markFailed m id reason
    return none
  | .remove m id => do return some (← Host.removeProcess m id)

/-- What a client does who makes the request. -/
def program (r : Request) : Prog Host Outcome := r.action.run

/-- A call that takes a recorded process through its life. -/
def isLifecycle : Request → Bool
  | .create _ _ _ | .remove _ _ => false
  | _ => true

end Request

/-! ### Clients -/

/-- What a client has still to do. -/
inductive Task where
  | going (rest : Prog Host Outcome)
  /-- The call is made and its answer awaited. -/
  | asking (call : Call) (next : call.Reply → Prog Host Outcome)

structure Client where
  request : Request
  task : Task

def Client.isFinished (c : Client) : Bool :=
  match c.task with
  | .going (.done _) => true
  | _ => false

/-- What passes between the host and its collaborators. -/
inductive Exchange where
  | asked (call : Call)
  | answered (call : Call) (reply : call.Reply)

structure Entry where
  client : Nat
  exchange : Exchange

/-- The clients of a host, each known by its place in the list. -/
structure Traffic where
  host : Host
  clients : List Client := []
  /-- Who has a process to himself. -/
  holder : ProcessRef → Option Nat := fun _ ↦ none
  /-- What has passed so far, the latest first. -/
  past : List Entry := []

/-- What may happen next. -/
inductive Move where
  /-- A new client makes a request. -/
  | arrive (request : Request)
  /-- A client acts, takes what it waits for, or makes a call. -/
  | proceed (client : Nat)
  /-- A client is given the answer to its call. -/
  | answer (client : Nat) (reply : (call : Call) → call.Reply)
  /-- Something else happens on the host. -/
  | outside (change : Host → Host)

/-- The client who moves. -/
def Move.client? : Move → Option Nat
  | .proceed i | .answer i _ => some i
  | _ => none

namespace Traffic

def process (s : Traffic) (p : ProcessRef) : Process := s.host.processes.get p

def exchanges (s : Traffic) : List Exchange := s.past.map (·.exchange)

/-- Who has each process to himself after a client has changed the host: the client itself, where it
has taken a lock that was free. -/
def holderAfter (s : Traffic) (i : Nat) (h : Host) (p : ProcessRef) : Option Nat :=
  if (h.processes.get p).locked then if (s.process p).locked then s.holder p else some i else none

/-- A client leaves the host changed and goes on. -/
def actAs (s : Traffic) (i : Nat) (r : Request) (h : Host) (rest : Prog Host Outcome) : Traffic :=
  { s with
    host := h
    clients := s.clients.set i ⟨r, .going rest⟩
    holder := s.holderAfter i h }

/-- Something passes between a client and a collaborator. -/
def passAs (s : Traffic) (i : Nat) (r : Request) (x : Exchange) (task : Task) : Traffic :=
  { s with clients := s.clients.set i ⟨r, task⟩, past := ⟨i, x⟩ :: s.past }

/-- The state after a move, if the move can be made. -/
def step (s : Traffic) : Move → Option Traffic
  | .arrive r => some { s with clients := s.clients ++ [⟨r, .going r.program⟩] }
  | .proceed i =>
    match s.clients[i]? with
    | some ⟨r, .going (.act f k)⟩ => some (s.actAs i r (f s.host) (k s.host))
    | some ⟨r, .going (.await claim k)⟩ => (claim s.host).map fun h ↦ s.actAs i r h k
    | some ⟨r, .going (.call c k)⟩ => some (s.passAs i r (.asked c) (.asking c k))
    | _ => none
  | .answer i reply =>
    match s.clients[i]? with
    | some ⟨r, .asking c k⟩ => some (s.passAs i r (.answered c (reply c)) (.going (k (reply c))))
    | _ => none
  | .outside change =>
    some { s with
      host := { change s.host with
        managers := s.host.managers
        processes := s.host.processes } }

/-- One move leads from a state to another. -/
def Next (s t : Traffic) : Prop := ∃ m, s.step m = some t

/-- Some moves lead from a state to another. -/
def Later : Traffic → Traffic → Prop := Relation.ReflTransGen Next

end Traffic

/-- Some manager has recorded the process. -/
def Host.Records (h : Host) (p : ProcessRef) : Prop :=
  ∃ m id, (id, p) ∈ (h.managers.get m).recorded

/-- Nothing has been recorded yet. -/
structure Host.Unused (h : Host) : Prop where
  no_process : h.processes.count = 0
  no_record : ∀ m, (h.managers.get m).recorded = []

namespace Traffic

/-- A run leads to the state from a host on which nothing has been recorded. -/
def Reachable (s : Traffic) : Prop := ∃ h : Host, h.Unused ∧ Later { host := h } s

/-- A call that has the process to itself is not finished. -/
def AtWork (s : Traffic) (p : ProcessRef) : Prop :=
  ∃ i c, s.clients[i]? = some c ∧ c.isFinished = false ∧ s.holder p = some i

def HasFailed (s : Traffic) (p : ProcessRef) : Prop :=
  p < s.host.processes.count ∧ ∃ reason, (s.process p).status = .failed reason

/-- Some move of a run is as `Q` says. -/
def Meets (Q : Traffic → Move → Traffic → Prop) : List Move → Traffic → Prop
  | [], _ => False
  | m :: rest, s => ∃ t, s.step m = some t ∧ (Q s m t ∨ Meets Q rest t)

/-- All states of a run are as `Q` says. -/
def Throughout (Q : Traffic → Prop) : List Move → Traffic → Prop
  | [], s => Q s
  | m :: rest, s => Q s ∧ ∀ t, s.step m = some t → Throughout Q rest t

theorem Throughout.first {Q : Traffic → Prop} {ms : List Move} {s : Traffic}
    (h : s.Throughout Q ms) : Q s := by
  cases ms with
  | nil => exact h
  | cons m rest => exact h.1

/-! ### One client after the other -/

/-- The next move of a client who is given these answers. -/
def moveOf (s : Traffic) (i : Nat) (answers : (call : Call) → call.Reply) : Move :=
  match s.clients[i]? with
  | some ⟨_, .asking _ _⟩ => .answer i answers
  | _ => .proceed i

/-- A client makes its moves, at most `n`, until it cannot move. -/
def advance (i : Nat) (answers : (call : Call) → call.Reply) : Nat → Traffic → Traffic
  | 0, s => s
  | n + 1, s =>
    match s.step (s.moveOf i answers) with
    | some t => advance i answers n t
    | none => s

/-- A new client makes a request, and then its moves, at most `n`. -/
def serve (s : Traffic) (r : Request) (answers : (call : Call) → call.Reply) (n : Nat) : Traffic :=
  advance s.clients.length answers n { s with clients := s.clients ++ [⟨r, .going r.program⟩] }

theorem later_advance (i : Nat) (answers : (call : Call) → call.Reply) (n : Nat) (s : Traffic) :
    Later s (s.advance i answers n) := by
  induction n generalizing s with
  | zero => exact .refl
  | succ n ih =>
    unfold advance
    split
    · rename_i t hstep
      have hnext : Next s t := ⟨_, hstep⟩
      exact .head hnext (ih t)
    · exact .refl

theorem later_serve (s : Traffic) (r : Request) (answers : (call : Call) → call.Reply) (n : Nat) :
    Later s (s.serve r answers n) := by
  have harrive : Next s { s with clients := s.clients ++ [⟨r, .going r.program⟩] } :=
    ⟨.arrive r, rfl⟩
  exact .head harrive (later_advance _ _ _ _)

/-- The component a client is about to start. -/
def startNext? (s : Traffic) (i : Nat) : Option (Component × ContextRef) :=
  match s.clients[i]? with
  | some ⟨_, .going (.call (.lifecycle .start c ctx) _)⟩ => some (c, ctx)
  | _ => none

theorem exists_step_of_startNext? {s : Traffic} {i : Nat} {c : Component} {ctx : ContextRef}
    (h : s.startNext? i = some (c, ctx)) :
    ∃ t, s.step (.proceed i) = some t ∧
      t.past = ⟨i, .asked (.lifecycle .start c ctx)⟩ :: s.past := by
  unfold startNext? at h
  split at h
  · rename_i hi
    cases h
    simp only [step, hi]
    exact ⟨_, rfl, rfl⟩
  · cases h

end Traffic

/-! ### A small host -/

namespace Small

/-- A host with a manager of processes and a factory whose components the host knows nothing of. -/
def host : Host :=
  { (Host.withManager (.sequential "p" 0)).2.2 with
    registry := { factories := [("f", .external 0)] } }

theorem host_unused : host.Unused := by
  constructor
  · rfl
  · intro m
    simp only [host, Host.withManager, Store.add]
    split <;> rfl

/-- Two components, to be started in this order. -/
def config : ProcessConfig := ⟨[⟨"a", "a", "", "f", []⟩, ⟨"b", "b", "", "f", []⟩]⟩

def component (name : String) : Component :=
  ⟨if name = "a" then 0 else 1, ⟨name, name, ""⟩, .plain, false, .external⟩

/-- Everything goes well, but that one component refuses to start. -/
def answersBut (refuses : String) : (call : Call) → call.Reply
  | .create _ config => .ok (component config.name)
  | .lifecycle phase c _ => if phase = .start ∧ c.name = refuses then .error .cancelled else .ok ()
  | .execute _ _ _ => .ok .null
  | .plugin _ _ _ => .ok ()
  | .generateId _ => .ok "p"
  | .release _ | .publish _ _ | .deliver _ _ | .log _ | .line _ => ()

def answers : (call : Call) → call.Reply := answersBut ""

/-- The generator gives this identifier. -/
def naming (id : String) : (call : Call) → call.Reply
  | .generateId _ => .ok id
  | call => answers call

/-- Nothing has happened yet. -/
def untouched : Traffic := { host := host }

/-- The process is created, and named `p`. -/
def created : Traffic := Traffic.serve { host := host } (.create 0 0 config) answers 100

theorem created_reachable : created.Reachable := ⟨host, host_unused, Traffic.later_serve ..⟩

end Small

end ComponentHost
