import ComponentHost.Proofs.Turns

/-!
What the clients of process managers make of a scene, one turn after the other.

`Scene.Orderly w₀ w` says that the scene `w` has come about from `w₀` by what clients do in whole
turns: a client comes, says something that is no news, ends without a process, takes a lock or gives
it back, or counts. Three of these are more than one action, and are never seen in part by anybody
else: a process is put into a status and this is announced, a process is recorded and this is
announced and answered, a process is forgotten and this is announced and answered.

Every request keeps to this (`Request.turn`), so whenever everybody waits, clients who take turns
have left an orderly scene (`Traffic.Run.orderly`).
-/

set_option autoImplicit false

namespace ComponentHost

/-- The manager of whom something is asked. -/
def Request.manager : Request → ManagerRef
  | .create m _ _ | .start m _ _ | .stop m _ _ | .restart m _ _ | .markFailed m _ _
  | .remove m _ => m

/-- The topic under which it is announced that a section has come to its aim. -/
def Section.topic : Section → String
  | .start _ _ => Topic.processStarted
  | .stop _ _ => Topic.processStopped
  | .fail _ _ => Topic.processFailed

/-- What a call publishes. -/
def Exchange.news? : Exchange → Option (String × Json)
  | .asked (.publish topic payload) => some (topic, payload)
  | _ => none

/-! ### Orderly scenes -/

namespace Scene

/-- The scenes that clients come to from a scene by whole turns. -/
inductive Orderly (w₀ : Scene) : Scene → Prop where
  | begun : Orderly w₀ w₀
  | joined {w : Scene} {i : Nat} {r : Request} (hw : Orderly w₀ w) (hnew : w.request i = none) :
      Orderly w₀ (w.joined i r)
  | said {w : Scene} {i : Nat} {r : Request} {x : Exchange} (hw : Orderly w₀ w)
      (hi : w.request i = some r) (hx : x.news? = none) : Orderly w₀ (w.said i x)
  | ended {w : Scene} {i : Nat} {r : Request} {o : Outcome} (hw : Orderly w₀ w)
      (hi : w.request i = some r) (hunfinished : w.finished i = none)
      (ho : ∀ p, o ≠ .ok (some p)) : Orderly w₀ (w.ended i r o)
  | locked {w : Scene} {h : Host} {p : ProcessRef} {locked : Bool} (hw : Orderly w₀ w)
      (hshows : w.Shows h) :
      Orderly w₀ (w.on { h with processes := h.processes.modify p ({ · with locked }) })
  | counted {w : Scene} {h : Host} {m : ManagerRef} (hw : Orderly w₀ w) (hshows : w.Shows h) :
      Orderly w₀ (w.on (h.counted m))
  /-- A process that the client has found once is put into a status, and this is announced. -/
  | became {v w : Scene} {h : Host} {i : Nat} {r : Request} {id : String} {p : ProcessRef}
      (sec : Section) (hw : Orderly w₀ w) (hv : Orderly w₀ v) (hgrows : v.Grows w)
      (hfind : (v.managers.get r.manager).find id = .ok p) (hi : w.request i = some r)
      (hshows : w.Shows h) :
      Orderly w₀ ((w.on (h.withStatus p sec.target)).said i
        (.asked (announcement sec.topic { h.processes.get p with status := sec.target })))
  /-- A process is numbered and recorded, with an identifier that was given for it; it is the
  client's answer. -/
  | recorded {w : Scene} {h : Host} {i : Nat} {m : ManagerRef} {ctx : ContextRef}
      {config : ProcessConfig} {P : Process} {generator : GeneratorRef} (hw : Orderly w₀ w)
      (hi : w.request i = some (.create m ctx config)) (hunfinished : w.finished i = none)
      (hshows : w.Shows h)
      (hnamed : ⟨i, .answered (.generateId generator) (.ok P.id)⟩ ∈ w.past)
      (hfree : (h.managers.get m).recorded.contains P.id = false)
      (hstatus : P.status = .initialized) :
      Orderly w₀ (((w.on ((h.counted m).recording m P)).said i
        (.asked (announcement Topic.processInitialized P))).ended i
          (.create m ctx config) (.ok (some h.processes.count)))
  /-- A process that is recorded is forgotten; it is the client's answer. -/
  | removed {w : Scene} {h : Host} {i : Nat} {m : ManagerRef} {id : String} {p : ProcessRef}
      (hw : Orderly w₀ w) (hi : w.request i = some (.remove m id))
      (hunfinished : w.finished i = none) (hshows : w.Shows h)
      (hfind : (h.managers.get m).find id = .ok p) :
      Orderly w₀ (((w.on (h.forgetting m id)).said i
        (.asked (announcement Topic.processRemoved (h.processes.get p)))).ended i
          (.remove m id) (.ok (some p)))

/-- A client that has come for `r` and is not finished is in an orderly scene. -/
structure Active (w₀ : Scene) (i : Nat) (r : Request) (w : Scene) : Prop where
  orderly : Orderly w₀ w
  request : w.request i = some r
  unfinished : w.finished i = none

/-- The client has gone on from one scene to another, in whole turns. -/
structure Onward (w₀ : Scene) (i : Nat) (r : Request) (w w' : Scene) : Prop where
  grows : w.Grows w'
  active : Active w₀ i r w'

variable {w₀ w w' w'' : Scene} {i : Nat} {r : Request}

theorem Active.onward (hw : Active w₀ i r w) : Onward w₀ i r w w := ⟨.refl w, hw⟩

theorem Onward.trans (h : Onward w₀ i r w w') (h' : Onward w₀ i r w' w'') :
    Onward w₀ i r w w'' := ⟨h.grows.trans h'.grows, h'.active⟩

theorem Active.said {x : Exchange} (hw : Active w₀ i r w) (hx : x.news? = none) :
    Onward w₀ i r w (w.said i x) :=
  ⟨.said w i x, .said hw.orderly hw.request hx, hw.request, hw.unfinished⟩

theorem Active.called {c : Call} (hw : Active w₀ i r w) (hc : (Exchange.asked c).news? = none)
    (reply : c.Reply) : Onward w₀ i r w (w.called i c reply) :=
  (hw.said hc).trans ((hw.said hc).active.said rfl)

/-- The client goes on after a wait. -/
theorem Active.resumed (hw : Active w₀ i r w) (hgrows : w.Grows w') (horderly : Orderly w₀ w')
    (hunfinished : w'.finished i = none) : Onward w₀ i r w w' :=
  ⟨hgrows, horderly, hgrows.request i r hw.request, hunfinished⟩

/-- A process has another status or another lock. -/
theorem Grows.on_modify {h : Host} (hshows : w.Shows h) (p : ProcessRef) {f : Process → Process}
    (hf : ∀ P, ∃ status locked, f P = { P with status, locked }) :
    w.Grows (w.on { h with processes := h.processes.modify p f }) := by
  refine { Grows.refl w with count := ?_, process := fun q _ ↦ ?_ }
  · exact Nat.le_of_eq (congrArg Store.count hshows.2).symm
  · show ∃ status locked, (h.processes.modify p f).get q = _
    rw [hshows.2]
    by_cases hqp : q = p
    · subst hqp
      rw [Store.get_modify_self]
      exact hf _
    · rw [Store.get_modify_ne _ _ hqp]
      exact ⟨_, _, rfl⟩

theorem Active.locked {h : Host} (hw : Active w₀ i r w) (hshows : w.Shows h) (p : ProcessRef)
    (locked : Bool) :
    Onward w₀ i r w (w.on { h with processes := h.processes.modify p ({ · with locked }) }) :=
  ⟨.on_modify hshows p fun _ ↦ ⟨_, _, rfl⟩, .locked hw.orderly hshows, hw.request, hw.unfinished⟩

/-- The client puts a process into a status that it has found once, and announces this. -/
theorem Active.became {v : Scene} {h : Host} {id : String} {p : ProcessRef} {sec : Section}
    (hw : Active w₀ i r w) (hv : Orderly w₀ v) (hgrows : v.Grows w)
    (hfind : (v.managers.get r.manager).find id = .ok p) (hshows : w.Shows h) :
    Onward w₀ i r w ((w.on (h.withStatus p sec.target)).called i
      (announcement sec.topic ((h.withStatus p sec.target).processes.get p)) ()) := by
  rw [h.get_withStatus_self]
  have hannounced := hw.orderly.became sec hv hgrows hfind hw.request hshows
  have hstatus : w.Grows (w.on (h.withStatus p sec.target)) :=
    .on_modify hshows p fun _ ↦ ⟨_, _, rfl⟩
  have honward : Onward w₀ i r w _ :=
    ⟨hstatus.trans (.said ..), hannounced, hw.request, hw.unfinished⟩
  exact honward.trans (honward.active.said rfl)

/-- The client forgets a process that is recorded, announces this, and is finished. -/
theorem Active.removed {h : Host} {m : ManagerRef} {id : String} {p : ProcessRef}
    (hw : Active w₀ i (.remove m id) w) (hshows : w.Shows h)
    (hfind : (h.managers.get m).find id = .ok p) :
    Orderly w₀ (((w.on (h.forgetting m id)).called i
      (announcement Topic.processRemoved (h.processes.get p)) ()).ended i
        (.remove m id) (.ok (some p))) := by
  have hremoved := Orderly.removed hw.orderly hw.request hw.unfinished hshows hfind
  exact hremoved.said (x := .answered (announcement Topic.processRemoved (h.processes.get p)) ())
    hw.request rfl

/-- The client records a process, announces this, and is finished. -/
theorem Active.recorded {h : Host} {m : ManagerRef} {ctx : ContextRef} {config : ProcessConfig}
    {P : Process} {generator : GeneratorRef} (hw : Active w₀ i (.create m ctx config) w)
    (hshows : w.Shows h) (hnamed : ⟨i, .answered (.generateId generator) (.ok P.id)⟩ ∈ w.past)
    (hfree : (h.managers.get m).recorded.contains P.id = false)
    (hstatus : P.status = .initialized) :
    Orderly w₀ (((w.on ((h.counted m).recording m P)).called i (announcement
      Topic.processInitialized (((h.counted m).recording m P).processes.get h.processes.count))
        ()).ended i (.create m ctx config) (.ok (some h.processes.count))) := by
  have hget : ((h.counted m).recording m P).processes.get h.processes.count = P :=
    Store.get_add_self ..
  rw [hget]
  have hrecorded := Orderly.recorded hw.orderly hw.request hw.unfinished hshows hnamed hfree hstatus
  exact hrecorded.said (x := .answered (announcement Topic.processInitialized P) ()) hw.request rfl

/-- The client is finished, and answers no process. -/
theorem Active.ended {o : Outcome} (hw : Active w₀ i r w) (ho : ∀ p, o ≠ .ok (some p)) :
    Orderly w₀ (w.ended i r o) := hw.orderly.ended hw.request hw.unfinished ho

end Scene

/-! ### Programs that are still -/

namespace Prog

open Scene

variable {α β : Type} {w₀ w : Scene} {i : Nat} {r : Request}

/-- The program only looks and makes calls, and none of them is news. -/
def Still : Prog Host α → Prop
  | .done _ => True
  | .act f k => (∀ h, f h = h) ∧ ∀ h, (k h).Still
  | .await _ _ => False
  | .call c k => (Exchange.asked c).news? = none ∧ ∀ reply, (k reply).Still

namespace Still

theorem bind {x : Prog Host α} {g : α → Prog Host β} (hx : x.Still) (hg : ∀ a, (g a).Still) :
    (x.bind g).Still := by
  induction x with
  | done a => exact hg a
  | act f k ih => exact ⟨hx.1, fun h ↦ ih h (hx.2 h)⟩
  | await claim k => exact hx.elim
  | call c k ih => exact ⟨hx.1, fun reply ↦ ih reply (hx.2 reply)⟩

/-- One action after another. -/
theorem andThen {x : Action α} {g : α → Action β} (hx : x.run.Still)
    (hg : ∀ a, (g a).run.Still) : (x >>= g).run.Still := by
  refine bind (x := x.run) (g := ExceptT.bindCont g) hx fun res ↦ ?_
  cases res with
  | ok a => exact hg a
  | error e => exact trivial

/-- An action, and what is done if it fails. -/
theorem rescue {x : Action α} {g : Error → Action α} (hx : x.run.Still)
    (hg : ∀ e, (g e).run.Still) : (tryCatch x g).run.Still := by
  refine bind (x := x.run) hx fun res ↦ ?_
  cases res with
  | ok a => exact trivial
  | error e => exact hg e

/-- A program that is still leaves the scene orderly. -/
theorem turn {x : Prog Host α} (hx : x.Still) (hw : Active w₀ i r w) :
    x.Turn (Orderly w₀) i w fun w' _ ↦ Onward w₀ i r w w' := by
  induction x generalizing w with
  | done a => exact hw.onward
  | act f k ih => exact .look hx.1 fun h _ ↦ ih h (hx.2 h) hw
  | await claim k => exact hx.elim
  | call c k ih =>
    have hasked := hw.said hx.1
    unfold Turn
    split
    · refine ⟨hasked.active.orderly, fun w' hgrows hunfinished hw' reply ↦ ?_⟩
      have hwaited := hasked.trans (hasked.active.resumed hgrows hw' hunfinished)
      have hanswered := hwaited.trans (hwaited.active.said (x := .answered c reply) rfl)
      exact (ih reply (hx.2 reply) hanswered.active).mono fun _ _ h ↦ hanswered.trans h
    · intro reply
      have hanswered := hw.called hx.1 reply
      exact (ih reply (hx.2 reply) hanswered.active).mono fun _ _ h ↦ hanswered.trans h

end Still

/-- What is still may come first. -/
theorem Turn.still {x : Action α} {f : α → Action β} {Q : Scene → Except Error β → Prop}
    (hx : x.run.Still) (hw : Active w₀ i r w)
    (hok : ∀ w' a, Onward w₀ i r w w' → (f a).run.Turn (Orderly w₀) i w' Q)
    (herror : ∀ w' e, Onward w₀ i r w w' → Q w' (.error e)) :
    (x >>= f).run.Turn (Orderly w₀) i w Q := by
  refine .andThen ((hx.turn hw).mono fun w' res h ↦ ?_)
  cases res with
  | ok a => exact hok w' a h
  | error e => exact herror w' e h

end Prog

namespace Host

open Prog

theorem inspect_still {α : Type} (f : Host → Except Error α) : (inspect f).run.Still :=
  ⟨fun _ ↦ rfl, fun _ ↦ trivial⟩

theorem process_still (p : ProcessRef) : (process p).run.Still := ⟨fun _ ↦ rfl, fun _ ↦ trivial⟩

theorem log_still (level : LogLevel) (message : String) (entries : Entries) :
    (log level message entries).run.Still := ⟨rfl, fun _ ↦ trivial⟩

theorem perform_still (phase : Phase) (c : Component) (ctx : ContextRef) :
    (perform phase c ctx).run.Still := ⟨rfl, fun _ ↦ trivial⟩

theorem diagnose_still (level : LineLevel) (message : String) :
    (diagnose level message).run.Still := ⟨rfl, fun _ ↦ trivial⟩

theorem throw_still {α : Type} (e : Error) : (throw e : Action α).run.Still := trivial

theorem rollback_still (ctx : ContextRef) (id : String) (cs : List (String × Component)) :
    (rollback ctx id cs).run.Still := by
  induction cs with
  | nil => exact trivial
  | cons x rest ih =>
    obtain ⟨name, c⟩ := x
    exact .andThen (.rescue (perform_still .stop c ctx) fun _ ↦ diagnose_still ..) fun _ ↦ ih

theorem startEach_still (ctx : ContextRef) (id : String) (started cs : List (String × Component)) :
    (startEach ctx id started cs).run.Still := by
  induction cs generalizing started with
  | nil => exact trivial
  | cons x rest ih =>
    obtain ⟨name, c⟩ := x
    refine .andThen (.rescue (perform_still .start c ctx) fun e ↦ ?_) fun _ ↦ ih _
    refine .andThen (log_still _ _ _) fun _ ↦ ?_
    exact .andThen (rollback_still ctx id started) fun _ ↦ throw_still _

theorem stopEach_still (ctx : ContextRef) (id : String) (cs : List (String × Component)) :
    (stopEach ctx id cs).run.Still := by
  induction cs with
  | nil => exact trivial
  | cons x rest ih =>
    obtain ⟨name, c⟩ := x
    refine .andThen (.rescue (perform_still .stop c ctx) fun e ↦ ?_) fun _ ↦ ih
    exact .andThen (log_still _ _ _) fun _ ↦ throw_still _

theorem prepare_still (ctx : ContextRef) (id : String) (config : ComponentConfig) :
    (prepare ctx id config).run.Still := by
  refine .andThen (inspect_still _) fun f ↦ .rescue ?_ fun e ↦ throw_still _
  have hbuild : (build f config).run.Still := ⟨rfl, fun _ ↦ trivial⟩
  exact .andThen hbuild fun c ↦ .andThen (perform_still .setUp c ctx) fun _ ↦ trivial

theorem prepareAll_still (ctx : ContextRef) (id : String) (prepared : List (String × Component))
    (configs : List ComponentConfig) : (prepareAll ctx id prepared configs).run.Still := by
  induction configs generalizing prepared with
  | nil => exact trivial
  | cons config rest ih =>
    refine .andThen (.rescue (prepare_still ctx id config) fun e ↦ ?_) fun _ ↦ ih _
    refine .andThen (log_still _ _ _) fun _ ↦ ?_
    exact .andThen (rollback_still ctx id prepared) fun _ ↦ throw_still _

/-! ### Lifecycle calls -/

section

open Scene

variable {w₀ v w : Scene} {i : Nat} {r : Request} {id : String} {p : ProcessRef}

/-- The end of a section: the process is put into a status, and this is announced. -/
theorem conclude_turn (sec : Section) {level : LogLevel} {message : String} {entries : Entries}
    (hw : Active w₀ i r w) (hv : Orderly w₀ v) (hgrows : v.Grows w)
    (hfind : (v.managers.get r.manager).find id = .ok p) :
    (do
      setStatus p sec.target
      log level message entries
      announce sec.topic p : Action Unit).run.Turn (Orderly w₀) i w
        fun w' _ ↦ Onward w₀ i r w w' := by
  refine .andThen (setStatus_turn fun h hshows ↦ .andThen (log_turn (announce_turn ?_)))
  -- the note might as well have been written before
  have hnoted := hw.called (c := .log ⟨level, message, entries⟩) rfl ()
  exact hnoted.trans (hnoted.active.became hv (hgrows.trans hnoted.grows) hfind hshows)

/-- What is still may come before the end of a section. -/
theorem section_turn {α : Type} {x : Action α} {f : α → Action Unit} (hx : x.run.Still)
    (hw : Active w₀ i r w) (hf : ∀ w' a, Onward w₀ i r w w' → (f a).run.Turn (Orderly w₀) i w'
      fun w'' _ ↦ Onward w₀ i r w' w'') :
    (x >>= f).run.Turn (Orderly w₀) i w fun w' _ ↦ Onward w₀ i r w w' :=
  .still hx hw (fun w' a h ↦ (hf w' a h).mono fun _ _ h' ↦ h.trans h') fun _ _ h ↦ h

theorem body_turn (sec : Section) (hw : Active w₀ i r w) (hv : Orderly w₀ v)
    (hgrows : v.Grows w) (hfind : (v.managers.get r.manager).find id = .ok p) :
    (sec.body p).run.Turn (Orderly w₀) i w fun w' _ ↦ Onward w₀ i r w w' := by
  cases sec with
  | start ctx id' =>
    refine section_turn (inspect_still _) hw fun w₁ u h₁ ↦ ?_
    refine section_turn (process_still p) h₁.active fun w₂ P h₂ ↦ ?_
    refine section_turn (startEach_still ctx id' [] P.ordered) h₂.active fun w₃ u h₃ ↦ ?_
    exact conclude_turn (.start ctx id') h₃.active hv
      (hgrows.trans (h₁.trans (h₂.trans h₃)).grows) hfind
  | stop ctx id' =>
    refine section_turn (process_still p) hw fun w₁ P h₁ ↦ ?_
    refine section_turn (stopEach_still ctx id' P.ordered.reverse) h₁.active fun w₂ u h₂ ↦ ?_
    exact conclude_turn (.stop ctx id') h₂.active hv
      (hgrows.trans (h₁.trans h₂).grows) hfind
  | fail id' reason => exact conclude_turn (.fail id' reason) hw hv hgrows hfind

/-- A client goes through a section of a process it has found once. -/
theorem exclusively_turn (sec : Section) (hw : Active w₀ i r w) (hv : Orderly w₀ v)
    (hgrows : v.Grows w) (hfind : (v.managers.get r.manager).find id = .ok p) :
    (exclusively p (sec.body p)).run.Turn (Orderly w₀) i w fun w' _ ↦ Onward w₀ i r w w' := by
  refine ⟨hw.orderly, fun w₁ hgrows₁ hunfinished horderly h h' hshows hclaim ↦ ?_⟩
  unfold lock? at hclaim
  split_ifs at hclaim
  obtain rfl := Option.some.inj hclaim
  have hwaited := hw.resumed hgrows₁ horderly hunfinished
  have hlocked := hwaited.trans (hwaited.active.locked hshows p true)
  have hbody := body_turn sec hlocked.active hv (hgrows.trans hlocked.grows) hfind
  refine Turn.bind (x := (sec.body p).run) (hbody.mono fun w₂ res h₂ h'' hshows'' ↦ ?_)
  exact (hlocked.trans h₂).trans (h₂.active.locked hshows'' p false)

/-- Looking a process up, and going through a section of it. -/
theorem visit_turn {m : ManagerRef} {check : Action Unit} (sec : Section) (hr : r.manager = m)
    (hcheck : check.run.Still) (id : String) (hw : Active w₀ i r w) :
    (do
      let p ← find m id
      check
      exclusively p (sec.body p) : Action Unit).run.Turn (Orderly w₀) i w
        fun w' _ ↦ Onward w₀ i r w w' := by
  subst hr
  refine .andThen (find_turn (fun p hfind ↦ ?_) fun e ↦ hw.onward)
  refine section_turn hcheck hw fun w₁ u h₁ ↦ ?_
  exact exclusively_turn sec h₁.active hw.orderly h₁.grows hfind

theorem startProcess_turn (m : ManagerRef) (hr : r.manager = m) (ctx : ContextRef) (id : String)
    (hw : Active w₀ i r w) : (startProcess m ctx id).run.Turn (Orderly w₀) i w
      fun w' _ ↦ Onward w₀ i r w w' := visit_turn (.start ctx id) hr (inspect_still _) id hw

theorem stopProcess_turn (m : ManagerRef) (hr : r.manager = m) (ctx : ContextRef) (id : String)
    (hw : Active w₀ i r w) : (stopProcess m ctx id).run.Turn (Orderly w₀) i w
      fun w' _ ↦ Onward w₀ i r w w' := visit_turn (.stop ctx id) hr (inspect_still _) id hw

theorem markFailed_turn (m : ManagerRef) (hr : r.manager = m) (id reason : String)
    (hw : Active w₀ i r w) : (markFailed m id reason).run.Turn (Orderly w₀) i w
      fun w' _ ↦ Onward w₀ i r w w' := by
  refine visit_turn (.fail id reason) hr (?_ : (pure () : Action Unit).run.Still) id hw
  exact trivial

theorem restartProcess_turn (m : ManagerRef) (hr : r.manager = m) (ctx : ContextRef) (id : String)
    (hw : Active w₀ i r w) : (restartProcess m ctx id).run.Turn (Orderly w₀) i w
      fun w' _ ↦ Onward w₀ i r w w' := by
  refine section_turn (inspect_still _) hw fun w₁ p h₁ ↦ ?_
  refine section_turn (inspect_still _) h₁.active fun w₂ u h₂ ↦ ?_
  refine .andThen ((stopProcess_turn m hr ctx id h₂.active).mono fun w₃ res h₃ ↦ ?_)
  cases res with
  | error e => exact h₃
  | ok u => exact (startProcess_turn m hr ctx id h₃.active).mono fun _ _ h ↦ h₃.trans h

/-! ### Creating and removing -/

/-- The client is finished. -/
def Finishes (w₀ : Scene) (i : Nat) (r : Request) (w : Scene) (res : Except Error ProcessRef) :
    Prop := Orderly w₀ (w.ended i r (res.map some))

theorem Finishes.error (hw : Active w₀ i r w) (e : Error) : Finishes w₀ i r w (.error e) :=
  hw.ended (fun _ h ↦ nomatch h)

/-- What is still may come before the rest of a request. -/
theorem rest_turn {α : Type} {x : Action α} {f : α → Action ProcessRef} (hx : x.run.Still)
    (hw : Active w₀ i r w)
    (hf : ∀ w' a, Onward w₀ i r w w' → (f a).run.Turn (Orderly w₀) i w' (Finishes w₀ i r)) :
    (x >>= f).run.Turn (Orderly w₀) i w (Finishes w₀ i r) :=
  .still hx hw hf fun _ e h ↦ .error h.active e

theorem removeProcess_turn {m : ManagerRef} (hw : Active w₀ i (.remove m id) w) :
    (removeProcess m id).run.Turn (Orderly w₀) i w (Finishes w₀ i (.remove m id)) := by
  refine .andThen (unrecord_turn (fun h p hshows hfind ↦ ?_) fun e ↦ .error hw e)
  refine .look (fun _ ↦ rfl) fun h' _ ↦ ?_
  show Turn _ _ (ExceptT.run (if (h'.processes.get p).status = .running then _ else _)) _ _
  split
  · -- the note might as well have been written before
    refine .andThen (diagnose_turn (.andThen (announce_turn ?_)))
    exact (hw.called (c := .line _) rfl ()).active.removed hshows hfind
  · exact .andThen (announce_turn (hw.removed hshows hfind))

theorem createProcess_turn {m : ManagerRef} {ctx : ContextRef} {config : ProcessConfig}
    (hw : Active w₀ i (.create m ctx config) w) :
    (createProcess m ctx config).run.Turn (Orderly w₀) i w
      (Finishes w₀ i (.create m ctx config)) := by
  refine rest_turn (x := Action.ofExcept config.validate) trivial hw fun w₁ u h₁ ↦ ?_
  refine rest_turn (inspect_still _) h₁.active fun w₂ u h₂ ↦ ?_
  refine .look (fun _ ↦ rfl) fun h hshows ↦ .call rfl fun reply ↦ ?_
  have h₃ := h₂.active.called (c := .generateId (h.managers.get m).generator) rfl reply
  cases reply with
  | error e => exact .error h₃.active e
  | ok id =>
    have hnamed : ⟨i, .answered (.generateId (h.managers.get m).generator) (.ok id)⟩ ∈
        (w₂.called i (.generateId (h.managers.get m).generator) (.ok id)).past :=
      List.mem_cons_self
    refine rest_turn (prepareAll_still ctx id [] config.components) h₃.active
      fun w₄ prepared h₄ ↦ ?_
    refine .andThen (takeSeq_turn fun h₅ hshows₅ ↦ ?_)
    have hcounted : Active w₀ i (.create m ctx config) (w₄.on (h₅.counted m)) :=
      ⟨.counted h₄.active.orderly hshows₅, h₄.active.request, h₄.active.unfinished⟩
    refine .look (fun _ ↦ rfl) fun h₆ hshows₆ ↦ ?_
    refine .andThen (recordProcess_turn (fun htaken ↦ ?_) fun h₇ hshows₇ hfree ↦ ?_)
    · refine rest_turn (rollback_still ctx id prepared) hcounted fun w₈ u h₈ ↦ ?_
      exact .error h₈.active _
    · -- the note might as well have been written before
      obtain ⟨hmanagers, hprocesses⟩ := hshows₇
      rw [hmanagers] at hfree
      have hrecording (P : Process) : (w₄.on (h₅.counted m)).on (h₇.recording m P) =
          w₄.on ((h₅.counted m).recording m P) := by
        simp [Scene.on, recording, hmanagers, hprocesses]
      have hcount : h₇.processes.count = h₅.processes.count := congrArg Store.count hprocesses
      rw [hrecording, hcount]
      refine .andThen (log_turn (.andThen (announce_turn ?_)))
      have hnoted := h₄.active.called (c := .log ⟨.info, "process initialized", fields [
        ("process_id", .str id), ("components", .strings config.names)]⟩) rfl ()
      have hpast : ⟨i, .answered (.generateId (h.managers.get m).generator) (.ok id)⟩ ∈ w₄.past :=
        h₄.grows.past.subset hnamed
      exact hnoted.active.recorded hshows₅ (hnoted.grows.past.subset hpast)
        (by simpa [Scene.on, counted] using hfree) rfl

end

end Host

/-! ### Requests -/

open Prog Scene

/-- Every request leaves the scene orderly, whenever its client waits and at the end. -/
theorem Request.turn {w₀ w : Scene} {i : Nat} {r : Request} (hw : Active w₀ i r w) :
    r.program.Turn (Orderly w₀) i w fun w o ↦ Orderly w₀ (w.ended i r o) := by
  -- creating and removing answer a process, lifecycle calls do not
  have hanswer {x : Action ProcessRef}
      (hx : x.run.Turn (Orderly w₀) i w (Host.Finishes w₀ i r)) : (do
        return some (← x) : Action (Option ProcessRef)).run.Turn (Orderly w₀) i w
          fun w o ↦ Orderly w₀ (w.ended i r o) := by
    refine .andThen (hx.mono fun w' res hres ↦ ?_)
    cases res with
    | ok p => exact hres
    | error e => exact hres
  have hlifecycle {x : Action Unit}
      (hx : x.run.Turn (Orderly w₀) i w fun w' _ ↦ Onward w₀ i r w w') : (do
        x
        return none : Action (Option ProcessRef)).run.Turn (Orderly w₀) i w
          fun w o ↦ Orderly w₀ (w.ended i r o) := by
    refine .andThen (hx.mono fun w' res hres ↦ ?_)
    cases res with
    | ok u => exact hres.active.ended (by simp)
    | error e => exact hres.active.ended (by simp)
  cases r with
  | create m ctx config => exact hanswer (Host.createProcess_turn hw)
  | remove m id => exact hanswer (Host.removeProcess_turn hw)
  | start m ctx id => exact hlifecycle (Host.startProcess_turn m rfl ctx id hw)
  | stop m ctx id => exact hlifecycle (Host.stopProcess_turn m rfl ctx id hw)
  | restart m ctx id => exact hlifecycle (Host.restartProcess_turn m rfl ctx id hw)
  | markFailed m id reason => exact hlifecycle (Host.markFailed_turn m rfl id reason hw)

/-- Clients who take turns have left an orderly scene whenever everybody waits. -/
theorem Traffic.Run.orderly {h : Host} {ms : List Move} {s : Traffic} (hunused : h.Unused)
    (hrun : Run InTurn ms { host := h } s) (hquiet : s.Quiet) :
    Orderly ({ host := h } : Traffic).scene s.scene :=
  hrun.turns hunused .begun (fun _ _ _ hw hnew ↦ hw.joined hnew)
    (fun _ _ _ hw hr hunfinished ↦ Request.turn ⟨hw, hr, hunfinished⟩) hquiet

end ComponentHost
