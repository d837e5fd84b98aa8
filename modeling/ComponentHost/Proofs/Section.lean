import ComponentHost.Proofs.Traffic
import Mathlib.Tactic.Tauto

/-!
What a lifecycle call does while it has a process to itself.

Such a section of the call reads its process, puts it into a status, and makes calls. Which calls it
makes depends on nothing but the process as it was found and the answers, so a section is described
by the deeds it does from its beginning to its end (`Section.Does`), whatever else happens on the
host in between. That the program of a section keeps to this description is a statement about every
host and every answer (`Prog.Yields`, `Section.yields`). A section that is not at its end yet can
always be brought to it (`Prog.Yields.exists_deeds`), so the description also tells what may happen
in the middle.

The notes a section writes to the log are deeds, but no part of its description (`account`).
-/

set_option autoImplicit false

namespace ComponentHost

/-! ### Deeds -/

/-- One thing done by a call that has a process to itself. -/
inductive Deed where
  | said (x : Exchange)
  /-- The process was put into a status. -/
  | became (status : ProcessStatus)

/-- A note for the log or the diagnostics. -/
def Call.isNote : Call → Bool
  | .log _ | .line _ => true
  | _ => false

def Exchange.call : Exchange → Call
  | .asked c | .answered c _ => c

/-- The call of a component. -/
def Exchange.calling? : Exchange → Option (Phase × Component)
  | .asked (.lifecycle phase c _) => some (phase, c)
  | _ => none

/-- The calls of components, the earliest first. -/
def callsIn (xs : List Exchange) : List (Phase × Component) := xs.filterMap Exchange.calling?

theorem callsIn_append (xs ys : List Exchange) : callsIn (xs ++ ys) = callsIn xs ++ callsIn ys :=
  List.filterMap_append

def Deed.isNote : Deed → Bool
  | .said x => x.call.isNote
  | .became _ => false

/-- What is done, but for the notes. -/
def account (ds : List Deed) : List Deed := ds.filter fun d ↦ !d.isNote

@[simp] theorem isNote_asked (c : Call) : (Deed.said (.asked c)).isNote = c.isNote := rfl

@[simp] theorem isNote_answered (c : Call) (r : c.Reply) :
    (Deed.said (.answered c r)).isNote = c.isNote := rfl

@[simp] theorem account_nil : account [] = [] := rfl

@[simp] theorem account_append (ds es : List Deed) :
    account (ds ++ es) = account ds ++ account es := List.filter_append ..

@[simp] theorem account_cons (d : Deed) (ds : List Deed) :
    account (d :: ds) = if d.isNote then account ds else d :: account ds := by
  cases h : d.isNote <;> simp [account, h]

theorem mem_account {d : Deed} {ds : List Deed} :
    d ∈ account ds ↔ d ∈ ds ∧ d.isNote = false := by
  simp [account]

/-- A call of a component and its answer. -/
def turn (phase : Phase) (ctx : ContextRef) (x : Component × Except Error Unit) : List Deed :=
  [.said (.asked (.lifecycle phase x.1 ctx)), .said (.answered (.lifecycle phase x.1 ctx) x.2)]

/-- Calls of components, one after the other, with their answers. -/
def turns (phase : Phase) (ctx : ContextRef) (xs : List (Component × Except Error Unit)) :
    List Deed := xs.flatMap (turn phase ctx)

@[simp] theorem turns_nil (phase : Phase) (ctx : ContextRef) : turns phase ctx [] = [] := rfl

@[simp] theorem turns_cons (phase : Phase) (ctx : ContextRef) (c : Component)
    (r : Except Error Unit) (xs : List (Component × Except Error Unit)) :
    turns phase ctx ((c, r) :: xs) =
      .said (.asked (.lifecycle phase c ctx)) :: .said (.answered (.lifecycle phase c ctx) r) ::
        turns phase ctx xs := rfl

@[simp] theorem turns_append (phase : Phase) (ctx : ContextRef)
    (xs ys : List (Component × Except Error Unit)) :
    turns phase ctx (xs ++ ys) = turns phase ctx xs ++ turns phase ctx ys := List.flatMap_append

theorem said_mem_turns {phase : Phase} {ctx : ContextRef} {x : Exchange}
    {xs : List (Component × Except Error Unit)} (h : .said x ∈ turns phase ctx xs) :
    ∃ c ∈ xs.map Prod.fst, x.call = .lifecycle phase c ctx := by
  obtain ⟨y, hy, hturn⟩ := List.mem_flatMap.mp h
  refine ⟨y.1, List.mem_map_of_mem hy, ?_⟩
  rcases List.mem_cons.mp hturn with heq | hturn
  · cases heq
    rfl
  · cases List.mem_singleton.mp hturn
    rfl

theorem became_notMem_turns {phase : Phase} {ctx : ContextRef} {status : ProcessStatus}
    {xs : List (Component × Except Error Unit)} : .became status ∉ turns phase ctx xs := by
  simp [turns, turn]

/-- The components answer that all is well. -/
def successes (cs : List (String × Component)) : List (Component × Except Error Unit) :=
  cs.map fun x ↦ (x.2, .ok ())

@[simp] theorem fst_successes (cs : List (String × Component)) :
    (successes cs).map Prod.fst = cs.map Prod.snd := by
  simp [successes]

/-- The publication of what has become of a process. -/
def announcement (topic : String) (P : Process) : Call :=
  .publish topic (.ofEntries [("process_id", .str P.id), ("status", .str P.status.text)])

def announced (topic : String) (P : Process) : List Deed :=
  [.said (.asked (announcement topic P)), .said (.answered (announcement topic P) ())]

theorem said_mem_announced {topic : String} {P : Process} {x : Exchange}
    (h : .said x ∈ announced topic P) : x.call = announcement topic P := by
  rcases List.mem_cons.mp h with heq | h
  · cases heq
    rfl
  · cases List.mem_singleton.mp h
    rfl

/-- A call that is made for the sake of a process: of its components, of the bus to tell what has
become of it, or to write a note. -/
def Call.IsFor (P : Process) : Call → Prop
  | .lifecycle _ c _ => c ∈ P.ordered.map Prod.snd
  | .publish topic payload =>
    ∃ status, .publish topic payload = announcement topic { P with status }
  | .log _ | .line _ => True
  | _ => False

/-- The process after some deeds. -/
def Process.after (P : Process) : List Deed → Process
  | [] => P
  | .said _ :: ds => P.after ds
  | .became status :: ds => { P with status }.after ds

namespace Process

@[simp] theorem after_append (P : Process) (ds es : List Deed) :
    P.after (ds ++ es) = (P.after ds).after es := by
  induction ds generalizing P with
  | nil => rfl
  | cons d ds ih =>
    cases d with
    | said x => exact ih P
    | became status => exact ih { P with status }

/-- Deeds change nothing of a process but its status. -/
theorem after_eq (P : Process) (ds : List Deed) :
    P.after ds = { P with status := (P.after ds).status } := by
  induction ds generalizing P with
  | nil => rfl
  | cons d ds ih =>
    cases d with
    | said x => exact ih P
    | became status => exact ih { P with status }

/-- The status after some deeds is one of theirs, or there is none among them. -/
theorem status_after (P : Process) (ds : List Deed) :
    (P.after ds).status = P.status ∨ .became (P.after ds).status ∈ ds := by
  induction ds generalizing P with
  | nil => exact .inl rfl
  | cons d ds ih =>
    cases d with
    | said x => exact (ih P).imp_right (List.mem_cons_of_mem _)
    | became status =>
      rcases ih { P with status } with h | h
      · exact .inr (by simp [Process.after, h])
      · exact .inr (List.mem_cons_of_mem _ h)

theorem after_account (P : Process) (ds : List Deed) : P.after (account ds) = P.after ds := by
  induction ds generalizing P with
  | nil => rfl
  | cons d ds ih =>
    cases d with
    | said x =>
      rw [account_cons]
      split
      · exact ih P
      · exact ih P
    | became status => exact ih { P with status }

theorem after_turns (P : Process) (phase : Phase) (ctx : ContextRef)
    (xs : List (Component × Except Error Unit)) : P.after (turns phase ctx xs) = P := by
  induction xs with
  | nil => rfl
  | cons x xs ih => exact ih

end Process

/-- A call for the sake of a process stays one while deeds are done to it. -/
theorem Call.IsFor.after {call : Call} {P : Process} (ds : List Deed) (h : call.IsFor P) :
    call.IsFor (P.after ds) := by
  rw [P.after_eq ds]
  exact h

/-! ### What a program yields -/

/-- Every call can be answered. -/
theorem Call.nonempty_reply (c : Call) : Nonempty c.Reply := by
  cases c <;> first | exact ⟨()⟩ | exact ⟨.error .cancelled⟩

/-- The host with a process put into a status. -/
def Host.withStatus (h : Host) (p : ProcessRef) (status : ProcessStatus) : Host :=
  { h with processes := h.processes.modify p ({ · with status }) }

@[simp] theorem Host.get_withStatus_self (h : Host) (p : ProcessRef) (status : ProcessStatus) :
    (h.withStatus p status).processes.get p = { h.processes.get p with status } := by
  simp [withStatus]

@[simp] theorem Host.get_withStatus_ne (h : Host) {p q : ProcessRef} (status : ProcessStatus)
    (hne : q ≠ p) : (h.withStatus p status).processes.get q = h.processes.get q := by
  simp [withStatus, hne]

namespace Prog

variable {α β : Type}

/-- Nobody else putting the process into a status, the program neither waits nor changes anything
but the status of the process; and what it has done at its end, together with its result, is as
`Q` says, whatever it is answered. -/
def Yields (p : ProcessRef) : Prog Host α → Process → (List Deed → α → Prop) → Prop
  | .done a, _, Q => Q [] a
  | .act f k, P, Q => ∀ h : Host, h.processes.get p = P →
      (f h = h ∧ (k h).Yields p P Q) ∨
        ∃ status, f h = h.withStatus p status ∧
          (k h).Yields p { P with status } fun ds ↦ Q (.became status :: ds)
  | .await _ _, _, _ => False
  | .call c k, P, Q => ∀ r,
      (k r).Yields p P fun ds ↦ Q (.said (.asked c) :: .said (.answered c r) :: ds)

namespace Yields

variable {p : ProcessRef} {P : Process}

theorem mono {x : Prog Host α} {Q R : List Deed → α → Prop} (hx : x.Yields p P Q)
    (h : ∀ ds a, Q ds a → R ds a) : x.Yields p P R := by
  induction x generalizing P Q R with
  | done a => exact h _ _ hx
  | act f k ih =>
    intro host hP
    rcases hx host hP with ⟨hf, hk⟩ | ⟨status, hf, hk⟩
    · exact .inl ⟨hf, ih _ hk h⟩
    · exact .inr ⟨status, hf, ih _ hk fun ds a ↦ h _ a⟩
  | await claim k => exact hx
  | call c k ih => exact fun r ↦ ih r (hx r) fun ds a ↦ h _ a

theorem bind {x : Prog Host α} {g : α → Prog Host β} {Q : List Deed → β → Prop}
    (hx : x.Yields p P fun ds a ↦ (g a).Yields p (P.after ds) fun es ↦ Q (ds ++ es)) :
    (x.bind g).Yields p P Q := by
  induction x generalizing P Q with
  | done a => exact hx
  | act f k ih =>
    intro host hP
    rcases hx host hP with ⟨hf, hk⟩ | ⟨status, hf, hk⟩
    · exact .inl ⟨hf, ih _ hk⟩
    · exact .inr ⟨status, hf, ih _ hk⟩
  | await claim k => exact hx.elim
  | call c k ih => exact fun r ↦ ih r (hx r)

/-- One action after another: the second is taken only if the first succeeds. -/
theorem andThen {x : Action α} {f : α → Action β} {Q : List Deed → Except Error β → Prop}
    (hx : x.run.Yields p P fun ds r ↦ match r with
      | .ok a => (f a).run.Yields p (P.after ds) fun es ↦ Q (ds ++ es)
      | .error e => Q ds (.error e)) :
    (x >>= f).run.Yields p P Q := by
  refine bind (x := x.run) (g := ExceptT.bindCont f) (hx.mono fun ds r hr ↦ ?_)
  cases r with
  | ok a => exact hr
  | error e => simpa [ExceptT.bindCont, Yields] using hr

/-- A program can be brought to its end. -/
theorem exists_deeds {x : Prog Host α} {Q : List Deed → α → Prop} (hx : x.Yields p P Q) :
    ∃ ds a, Q ds a := by
  induction x generalizing P Q with
  | done a => exact ⟨[], a, hx⟩
  | act f k ih =>
    have hP : ({ processes := ⟨0, fun _ ↦ P⟩ } : Host).processes.get p = P := rfl
    rcases hx _ hP with ⟨-, hk⟩ | ⟨status, -, hk⟩
    · exact ih _ hk
    · obtain ⟨ds, a, h⟩ := ih _ hk
      exact ⟨_, a, h⟩
  | await claim k => exact hx.elim
  | call c k ih =>
    obtain ⟨r⟩ := c.nonempty_reply
    obtain ⟨ds, a, h⟩ := ih r (hx r)
    exact ⟨_, a, h⟩

end Yields

end Prog

/-! ### Going through the components -/

/-- Of the components to start, one refused, and those started before it were stopped again. -/
inductive StartFails (ctx : ContextRef) (id : String) (started cs : List (String × Component))
    (ds : List Deed) : Error → Prop where
  | intro {before after : List (String × Component)} {name : String} {c : Component} {e : Error}
      {stops : List (Component × Except Error Unit)}
      (hcs : cs = before ++ (name, c) :: after)
      (hstops : stops.map Prod.fst = (before.reverse ++ started).map Prod.snd)
      (hds : account ds =
        turns .start ctx (successes before ++ [(c, .error e)]) ++ turns .stop ctx stops) :
      StartFails ctx id started cs ds (.componentStartFailed id name e)

/-- Of the components to stop, one refused, and those after it were not called. -/
inductive StopFails (ctx : ContextRef) (id : String) (cs : List (String × Component))
    (ds : List Deed) : Error → Prop where
  | intro {before after : List (String × Component)} {name : String} {c : Component} {e : Error}
      (hcs : cs = before ++ (name, c) :: after)
      (hds : account ds = turns .stop ctx (successes before ++ [(c, .error e)])) :
      StopFails ctx id cs ds (.componentStopFailed id name e)

/-- The components that are called are those to start and those started before. -/
theorem StartFails.said_mem {ctx : ContextRef} {id : String}
    {started cs : List (String × Component)} {ds : List Deed} {e : Error} {x : Exchange}
    (h : StartFails ctx id started cs ds e) (hmem : .said x ∈ account ds) :
    ∃ phase ctx, ∃ c ∈ (cs ++ started).map Prod.snd, x.call = .lifecycle phase c ctx := by
  obtain ⟨hcs, hstops, hds⟩ := h
  rw [hds, List.mem_append] at hmem
  rcases hmem with hmem | hmem
  · obtain ⟨c, hc, hcall⟩ := said_mem_turns hmem
    refine ⟨_, _, c, ?_, hcall⟩
    simp only [List.map_append, fst_successes, List.map_cons, List.map_nil] at hc
    simp only [hcs, List.map_append, List.map_cons, List.mem_append, List.mem_cons] at hc ⊢
    tauto
  · obtain ⟨c, hc, hcall⟩ := said_mem_turns hmem
    refine ⟨_, _, c, ?_, hcall⟩
    rw [hstops] at hc
    simp only [hcs, List.map_append, List.map_cons, List.map_reverse, List.mem_append,
      List.mem_cons, List.mem_reverse] at hc ⊢
    tauto

theorem StopFails.said_mem {ctx : ContextRef} {id : String} {cs : List (String × Component)}
    {ds : List Deed} {e : Error} {x : Exchange} (h : StopFails ctx id cs ds e)
    (hmem : .said x ∈ account ds) :
    ∃ ctx, ∃ c ∈ cs.map Prod.snd, x.call = .lifecycle .stop c ctx := by
  obtain ⟨hcs, hds⟩ := h
  rw [hds] at hmem
  obtain ⟨c, hc, hcall⟩ := said_mem_turns hmem
  refine ⟨_, c, ?_, hcall⟩
  simp only [List.map_append, fst_successes, List.map_cons, List.map_nil] at hc
  simp only [hcs, List.map_append, List.map_cons, List.mem_append, List.mem_cons] at hc ⊢
  tauto

/-- A start that failed leaves the status as it is. -/
theorem StartFails.after_eq {ctx : ContextRef} {id : String}
    {started cs : List (String × Component)} {ds : List Deed} {e : Error}
    (h : StartFails ctx id started cs ds e) (P : Process) : P.after ds = P := by
  obtain ⟨-, -, hds⟩ := h
  rw [← P.after_account, hds, P.after_append, P.after_turns, P.after_turns]

theorem StopFails.after_eq {ctx : ContextRef} {id : String} {cs : List (String × Component)}
    {ds : List Deed} {e : Error} (h : StopFails ctx id cs ds e) (P : Process) : P.after ds = P := by
  obtain ⟨-, hds⟩ := h
  rw [← P.after_account, hds, P.after_turns]

namespace Host

variable {p : ProcessRef} {P : Process} {β : Type} {Q : List Deed → Except Error β → Prop}

theorem rejectFailed_yields {f : Unit → Action β} (hfailed : ∀ e, P.rejectFailed = .error e →
      Q [] (.error e)) (hfine : P.rejectFailed = .ok () → (f ()).run.Yields p P Q) :
    (rejectFailed p >>= f).run.Yields p P Q := by
  intro h hP
  refine .inl ⟨rfl, ?_⟩
  show Prog.Yields p ((Prog.done (h.processes.get p).rejectFailed).bind (ExceptT.bindCont f)) P Q
  rw [hP]
  cases hP : P.rejectFailed with
  | error e => exact hfailed e hP
  | ok u => exact hfine hP

theorem process_yields {f : Process → Action β} (hf : (f P).run.Yields p P Q) :
    (process p >>= f).run.Yields p P Q := by
  intro h hP
  refine .inl ⟨rfl, ?_⟩
  show Prog.Yields p (f (h.processes.get p)).run P Q
  rw [hP]
  exact hf

theorem setStatus_yields {status : ProcessStatus} {f : Unit → Action β}
    (hf : (f ()).run.Yields p { P with status } fun ds ↦ Q (.became status :: ds)) :
    (setStatus p status >>= f).run.Yields p P Q := fun _ _ ↦ .inr ⟨status, rfl, hf⟩

/-- What a section ends with: a note, and the event. -/
theorem announce_yields (level : LogLevel) (message : String) (entries : Entries) (topic : String) :
    (log level message entries >>= fun _ ↦ announce topic p).run.Yields p P fun ds r ↦
      r = .ok () ∧ account ds = announced topic P :=
  fun _ ↦ process_yields fun _ ↦ ⟨rfl, by simp [Call.isNote, announced, announcement]⟩

/-- Stopping again calls every component, whatever the others answer. -/
theorem rollback_yields (ctx : ContextRef) (id : String) (cs : List (String × Component)) :
    (rollback ctx id cs).run.Yields p P fun ds r ↦ r = .ok () ∧
      ∃ stops, stops.map Prod.fst = cs.map Prod.snd ∧ account ds = turns .stop ctx stops := by
  induction cs with
  | nil => exact ⟨rfl, [], rfl, rfl⟩
  | cons x rest ih =>
    obtain ⟨name, c⟩ := x
    intro answer
    cases answer with
    | ok u =>
      refine ih.mono ?_
      rintro ds r ⟨hr, stops, hstops, hds⟩
      exact ⟨hr, (c, .ok u) :: stops, by simp [hstops], by simp [Call.isNote, hds]⟩
    | error e =>
      intro u
      refine ih.mono ?_
      rintro ds r ⟨hr, stops, hstops, hds⟩
      exact ⟨hr, (c, .error e) :: stops, by simp [hstops], by simp [Call.isNote, hds]⟩

theorem startEach_yields (ctx : ContextRef) (id : String) (started cs : List (String × Component)) :
    (startEach ctx id started cs).run.Yields p P fun ds r ↦
      match r with
      | .ok _ => account ds = turns .start ctx (successes cs)
      | .error e => StartFails ctx id started cs ds e := by
  induction cs generalizing started with
  | nil => exact rfl
  | cons x rest ih =>
    obtain ⟨name, c⟩ := x
    intro answer
    cases answer with
    | ok u =>
      refine (ih ((name, c) :: started)).mono fun ds r hr ↦ ?_
      cases r with
      | ok v => simpa [successes, Call.isNote] using hr
      | error e =>
        obtain ⟨rfl, hstops, hds⟩ := hr
        refine .intro (List.cons_append ..).symm (by simpa using hstops) ?_
        simp [successes, Call.isNote, hds]
    | error e =>
      intro u
      refine .andThen
        (x := (rollback ctx id started >>= fun _ ↦ throw (.componentStartFailed id name e) :
          Action Unit))
        (.andThen ((rollback_yields ctx id started).mono ?_))
      rintro ds r ⟨rfl, stops, hstops, hds⟩
      refine .intro (List.nil_append _).symm (by simpa using hstops) ?_
      simp [successes, Call.isNote, hds]

theorem stopEach_yields (ctx : ContextRef) (id : String) (cs : List (String × Component)) :
    (stopEach ctx id cs).run.Yields p P fun ds r ↦
      match r with
      | .ok _ => account ds = turns .stop ctx (successes cs)
      | .error e => StopFails ctx id cs ds e := by
  induction cs with
  | nil => exact rfl
  | cons x rest ih =>
    obtain ⟨name, c⟩ := x
    intro answer
    cases answer with
    | ok u =>
      refine ih.mono fun ds r hr ↦ ?_
      cases r with
      | ok v => simpa [successes, Call.isNote] using hr
      | error e =>
        obtain ⟨rfl, hds⟩ := hr
        refine .intro (List.cons_append ..).symm ?_
        simp [successes, Call.isNote, hds]
    | error e =>
      intro u
      refine .intro (List.nil_append _).symm ?_
      simp [successes, Call.isNote]

end Host

/-! ### Sections -/

/-- What a lifecycle call has a process to itself for. -/
inductive Section where
  | start (ctx : ContextRef) (id : String)
  | stop (ctx : ContextRef) (id : String)
  | fail (id reason : String)

namespace Section

def body (p : ProcessRef) : Section → Action Unit
  | .start ctx id => Host.startLocked ctx id p
  | .stop ctx id => Host.stopLocked ctx id p
  | .fail id reason => Host.failLocked id reason p

/-- What a section does from its beginning to its end, and how it ends, on a process that is found
as it is given. -/
inductive Does (P : Process) : Section → List Deed → Except Error Unit → Prop where
  | rejected {ctx : ContextRef} {id : String} {e : Error} (hfailed : P.rejectFailed = .error e) :
      Does P (.start ctx id) [] (.error e)
  | startFailed {ctx : ContextRef} {id : String} {ds : List Deed} {e : Error}
      (hfine : P.rejectFailed = .ok ()) (hfails : StartFails ctx id [] P.ordered ds e) :
      Does P (.start ctx id) ds (.error e)
  | started {ctx : ContextRef} {id : String} {ds : List Deed} (hfine : P.rejectFailed = .ok ())
      (hds : account ds = turns .start ctx (successes P.ordered) ++
        .became .running :: announced Topic.processStarted { P with status := .running }) :
      Does P (.start ctx id) ds (.ok ())
  | stopFailed {ctx : ContextRef} {id : String} {ds : List Deed} {e : Error}
      (hfails : StopFails ctx id P.ordered.reverse ds e) :
      Does P (.stop ctx id) ds (.error e)
  | stopped {ctx : ContextRef} {id : String} {ds : List Deed}
      (hds : account ds = turns .stop ctx (successes P.ordered.reverse) ++
        .became .stopped :: announced Topic.processStopped { P with status := .stopped }) :
      Does P (.stop ctx id) ds (.ok ())
  | failed {id reason : String} {ds : List Deed}
      (hds : account ds = .became (.failed reason) ::
        announced Topic.processFailed { P with status := .failed reason }) :
      Does P (.fail id reason) ds (.ok ())

variable {p : ProcessRef} {P : Process}

theorem start_yields (ctx : ContextRef) (id : String) :
    (Host.startLocked ctx id p).run.Yields p P (Does P (.start ctx id)) := by
  refine Host.rejectFailed_yields (fun e hfailed ↦ .rejected hfailed) fun hfine ↦ ?_
  refine Host.process_yields (.andThen ((Host.startEach_yields ctx id [] _).mono fun ds r hr ↦ ?_))
  cases r with
  | error e => exact .startFailed hfine hr
  | ok u =>
    refine Host.setStatus_yields ((Host.announce_yields _ _ _ _).mono ?_)
    rintro es r ⟨rfl, hes⟩
    have hP : P.after ds = P := by rw [← P.after_account, hr, P.after_turns]
    exact .started hfine (by simp [hr, hes, hP, Deed.isNote])

theorem stop_yields (ctx : ContextRef) (id : String) :
    (Host.stopLocked ctx id p).run.Yields p P (Does P (.stop ctx id)) := by
  refine Host.process_yields (.andThen ((Host.stopEach_yields ctx id _).mono fun ds r hr ↦ ?_))
  cases r with
  | error e => exact .stopFailed hr
  | ok u =>
    refine Host.setStatus_yields ((Host.announce_yields _ _ _ _).mono ?_)
    rintro es r ⟨rfl, hes⟩
    have hP : P.after ds = P := by rw [← P.after_account, hr, P.after_turns]
    exact .stopped (by simp [hr, hes, hP, Deed.isNote])

theorem fail_yields (id reason : String) :
    (Host.failLocked id reason p).run.Yields p P (Does P (.fail id reason)) := by
  refine Host.setStatus_yields ((Host.announce_yields _ _ _ _).mono ?_)
  rintro ds r ⟨rfl, hds⟩
  exact .failed (by simp [Deed.isNote, hds])

/-- The program of a section keeps to its description. -/
theorem yields (sec : Section) (p : ProcessRef) (P : Process) :
    (sec.body p).run.Yields p P (sec.Does P) := by
  cases sec with
  | start ctx id => exact start_yields ctx id
  | stop ctx id => exact stop_yields ctx id
  | fail id reason => exact fail_yields id reason

/-- The status a section is meant to lead to. -/
def target : Section → ProcessStatus
  | .start _ _ => .running
  | .stop _ _ => .stopped
  | .fail _ reason => .failed reason

namespace Does

variable {sec : Section} {ds : List Deed} {r : Except Error Unit}

/-- A section that starts components does nothing on a process that has failed. -/
theorem fine_of_mem {ctx : ContextRef} {id : String} {d : Deed} (h : Does P (.start ctx id) ds r)
    (hd : d ∈ ds) : P.rejectFailed = .ok () := by
  cases h with
  | rejected hfailed => cases hd
  | startFailed hfine _ => exact hfine
  | started hfine _ => exact hfine

theorem became_eq {status : ProcessStatus} (h : sec.Does P ds r) (hmem : .became status ∈ ds) :
    status = sec.target := by
  have hmem : .became status ∈ account ds := mem_account.mpr ⟨hmem, rfl⟩
  cases h with
  | rejected _ => simp at hmem
  | startFailed _ hfails =>
    obtain ⟨-, -, hds⟩ := hfails
    simp [hds, became_notMem_turns] at hmem
  | started _ hds => simpa [hds, became_notMem_turns, announced, target] using hmem
  | stopFailed hfails =>
    obtain ⟨-, hds⟩ := hfails
    simp [hds, became_notMem_turns] at hmem
  | stopped hds => simpa [hds, became_notMem_turns, announced, target] using hmem
  | failed hds => simpa [hds, announced, target] using hmem

/-- Every call a section makes is for the sake of its process. -/
theorem isFor {x : Exchange} (h : sec.Does P ds r) (hmem : .said x ∈ ds) : x.call.IsFor P := by
  by_cases hnote : x.call.isNote = true
  · cases hcall : x.call <;> simp_all [Call.isNote, Call.IsFor]
  have hmem : .said x ∈ account ds := mem_account.mpr ⟨hmem, by simpa [Deed.isNote] using hnote⟩
  cases h with
  | rejected _ => simp at hmem
  | startFailed _ hfails =>
    obtain ⟨phase, ctx, c, hc, hcall⟩ := hfails.said_mem hmem
    simpa [hcall, Call.IsFor] using hc
  | stopFailed hfails =>
    obtain ⟨ctx, c, hc, hcall⟩ := hfails.said_mem hmem
    simpa [hcall, Call.IsFor] using hc
  | started _ hds | stopped hds =>
    rw [hds, List.mem_append, List.mem_cons] at hmem
    rcases hmem with hmem | hmem | hmem
    · obtain ⟨c, hc, hcall⟩ := said_mem_turns hmem
      simpa [hcall, Call.IsFor] using hc
    · cases hmem
    · exact said_mem_announced hmem ▸ ⟨_, rfl⟩
  | failed hds =>
    rw [hds, List.mem_cons] at hmem
    rcases hmem with hmem | hmem
    · cases hmem
    · exact said_mem_announced hmem ▸ ⟨_, rfl⟩

/-- Only a section that is to start the components starts any. -/
theorem eq_start {x : Exchange} {c : Component} {ctx : ContextRef} (h : sec.Does P ds r)
    (hmem : .said x ∈ ds) (hcall : x.call = .lifecycle .start c ctx) :
    ∃ ctx id, sec = .start ctx id := by
  have hmem : .said x ∈ account ds :=
    mem_account.mpr ⟨hmem, by simp [Deed.isNote, hcall, Call.isNote]⟩
  cases h with
  | rejected | startFailed | started => exact ⟨_, _, rfl⟩
  | stopFailed hfails =>
    obtain ⟨ctx, c, -, hstop⟩ := hfails.said_mem hmem
    cases hcall.symm.trans hstop
  | stopped hds =>
    rw [hds, List.mem_append, List.mem_cons] at hmem
    rcases hmem with hmem | hmem | hmem
    · obtain ⟨c, -, hstop⟩ := said_mem_turns hmem
      cases hcall.symm.trans hstop
    · cases hmem
    · cases hcall.symm.trans (said_mem_announced hmem)
  | failed hds =>
    rw [hds, List.mem_cons] at hmem
    rcases hmem with hmem | hmem
    · cases hmem
    · cases hcall.symm.trans (said_mem_announced hmem)

/-- A section that fails leaves the status as it is. -/
theorem after_of_error {e : Error} (h : sec.Does P ds (.error e)) : P.after ds = P := by
  cases h with
  | rejected => rfl
  | startFailed _ hfails => exact hfails.after_eq P
  | stopFailed hfails => exact hfails.after_eq P

/-- A section that succeeds leads to the status it is meant to lead to. -/
theorem status_of_ok {u : Unit} (h : sec.Does P ds (.ok u)) : (P.after ds).status = sec.target := by
  cases h with
  | started _ hds | stopped hds =>
    rw [← P.after_account, hds, P.after_append, P.after_turns]
    rfl
  | failed hds =>
    rw [← P.after_account, hds]
    rfl

end Does

end Section

end ComponentHost
