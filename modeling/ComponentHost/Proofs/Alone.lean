import ComponentHost.Machine
import ComponentHost.Proofs.Traffic
import ComponentHost.Proofs.Section

/-!
One client after the other, with nobody beside him.

Collaborators answer by what has passed so far, so a host and what has passed between it and its
collaborators (`Diary`) determine how a request ends that is carried out with nobody beside it
(`Diary.serve`), and how a list of requests does (`Diary.serveAll`). `Prog.goes` tells the same
without a bound on the number of steps (`Prog.alone_of_goes`).

A lifecycle call minds nothing of a host but its managers, its processes, and which contexts are
cancelled (`Prog.Minds`, `Request.minds`). So it ends in the same way on hosts that agree in these
(`Prog.Minds.result_eq`).
-/

set_option autoImplicit false

namespace ComponentHost

/-! ### Requests on their own -/

/-- How collaborators answer: by all that has passed, the latest first. -/
abbrev Answers := List Exchange → (c : Call) → c.Reply

/-- A host, and what has passed between it and its collaborators, the latest first. -/
structure Diary where
  host : Host
  passed : List Exchange

namespace Diary

/-- A call is made and answered. -/
def tell (d : Diary) (f : Answers) (c : Call) : Diary :=
  { d with passed := .answered c (f (.asked c :: d.passed) c) :: .asked c :: d.passed }

def environment (f : Answers) : Environment Diary := fun c ↦
  .act (·.tell f c) fun d ↦ .done (f (.asked c :: d.passed) c)

/-- The program of a client of the host. -/
def program {α : Type} (x : Prog Host α) : Prog Diary α :=
  x.within Diary.host fun h d ↦ { d with host := h }

/-- A request is carried out with nobody beside it, in at most so many steps. -/
def serve (d : Diary) (f : Answers) (fuel : Nat) (r : Request) : Option (Outcome × Diary) :=
  (program r.program).alone (environment f) fuel d

/-- Requests are carried out one after the other: how they end, and the diary after them. -/
def serveAll (f : Answers) (fuel : Nat) : Diary → List Request → Option (List Outcome × Diary)
  | d, [] => some ([], d)
  | d, r :: rest => do
    let (o, d) ← d.serve f fuel r
    let (os, d) ← serveAll f fuel d rest
    return (o :: os, d)

end Diary

/-! ### Evaluation -/

namespace Prog

variable {α β : Type} {f : Answers}

/-- How a program ends that nobody interferes with, and the diary then; nothing if it waits for what
never comes. -/
def goes (f : Answers) : Prog Host α → Diary → Option (α × Diary)
  | .done a, d => some (a, d)
  | .act g k, d => (k d.host).goes f { d with host := g d.host }
  | .await claim k, d => (claim d.host).bind fun h ↦ k.goes f { d with host := h }
  | .call c k, d => (k (f (.asked c :: d.passed) c)).goes f (d.tell f c)

/-- Every sufficiently large number of steps is enough. -/
theorem alone_of_goes {x : Prog Host α} {d d' : Diary} {a : α} (h : x.goes f d = some (a, d')) :
    ∃ N, ∀ n ≥ N, (Diary.program x).alone (Diary.environment f) n d = some (a, d') := by
  induction x generalizing d with
  | done b =>
    refine ⟨1, fun n hn ↦ ?_⟩
    obtain ⟨n, rfl⟩ := Nat.exists_eq_add_of_le' hn
    exact h
  | act g k ih =>
    obtain ⟨N, hN⟩ := ih _ h
    refine ⟨N + 1, fun n hn ↦ ?_⟩
    obtain ⟨n, rfl⟩ := Nat.exists_eq_add_of_le' (Nat.le_trans (Nat.le_add_left 1 N) hn)
    exact hN n (Nat.le_of_succ_le_succ hn)
  | await claim k ih =>
    obtain ⟨h', hclaim, hgoes⟩ := Option.bind_eq_some_iff.mp h
    obtain ⟨N, hN⟩ := ih hgoes
    refine ⟨N + 1, fun n hn ↦ ?_⟩
    obtain ⟨n, rfl⟩ := Nat.exists_eq_add_of_le' (Nat.le_trans (Nat.le_add_left 1 N) hn)
    simp only [Diary.program, within, alone, hclaim, Option.map_some, Option.bind_some]
    exact hN n (Nat.le_of_succ_le_succ hn)
  | call c k ih =>
    obtain ⟨N, hN⟩ := ih _ h
    refine ⟨N + 2, fun n hn ↦ ?_⟩
    obtain ⟨n, rfl⟩ := Nat.exists_eq_add_of_le' (Nat.le_trans (Nat.le_add_left 2 N) hn)
    exact hN n (Nat.le_of_add_le_add_right hn)

end Prog

/-! ### What matters -/

/-- What lifecycle calls mind of a host. -/
structure Essence where
  managers : Store Manager
  processes : Store Process
  cancelled : ContextRef → Bool

def Host.essence (h : Host) : Essence := ⟨h.managers, h.processes, h.contexts.isCancelled⟩

/-- What matters of a diary: the essence of the host, and what has passed. -/
def Diary.point (d : Diary) : Essence × List Exchange := (d.host.essence, d.passed)

namespace Prog

variable {α β : Type} {f : Answers}

/-- How a program ends, and what matters of the diary then. -/
def result (f : Answers) (x : Prog Host α) (d : Diary) : Option (α × Essence × List Exchange) :=
  (x.goes f d).map fun y ↦ (y.1, y.2.point)

/-- The program minds only the essence of a host. -/
def Minds : Prog Host α → Prop
  | .done _ => True
  | .act g k => ∀ h h' : Host, h.essence = h'.essence →
      (g h).essence = (g h').essence ∧ k h = k h' ∧ (k h).Minds
  | .await claim k => (∀ h h' : Host, h.essence = h'.essence →
      (claim h).map Host.essence = (claim h').map Host.essence) ∧ k.Minds
  | .call _ k => ∀ r, (k r).Minds

namespace Minds

/-- On diaries that agree in what matters the program ends in the same way. -/
theorem result_eq {x : Prog Host α} {d d' : Diary} (hx : x.Minds) (hd : d.point = d'.point) :
    x.result f d = x.result f d' := by
  induction x generalizing d d' with
  | done a => simp [result, goes, hd]
  | act g k ih =>
    obtain ⟨hhost, hpassed⟩ := Prod.mk.inj hd
    obtain ⟨hg, hk, hrest⟩ := hx _ _ hhost
    have hafter : ({ d with host := g d.host } : Diary).point =
        ({ d' with host := g d'.host } : Diary).point := Prod.ext hg hpassed
    have heq := ih _ hrest hafter
    simp only [result, goes] at heq ⊢
    rw [heq, hk]
  | await claim k ih =>
    obtain ⟨hhost, hpassed⟩ := Prod.mk.inj hd
    have hclaim := hx.1 _ _ hhost
    cases hbefore : claim d.host with
    | none =>
      have hnone : claim d'.host = none := by simpa [hbefore] using hclaim.symm
      simp [result, goes, hbefore, hnone]
    | some h =>
      rw [hbefore] at hclaim
      obtain ⟨h', hafter, hessence⟩ := Option.map_eq_some_iff.mp hclaim.symm
      have hpoint : ({ d with host := h } : Diary).point = ({ d' with host := h' } : Diary).point :=
        Prod.ext hessence.symm hpassed
      have heq := ih hx.2 hpoint
      simpa only [result, goes, hbefore, hafter, Option.bind_some] using heq
  | call c k ih =>
    obtain ⟨hhost, hpassed⟩ := Prod.mk.inj hd
    have hafter : (d.tell f c).point = (d'.tell f c).point :=
      Prod.ext hhost (by simp only [Diary.tell, Diary.point, hpassed])
    have heq := ih (f (.asked c :: d.passed) c) (hx _) hafter
    simp only [result, goes] at heq ⊢
    rw [heq, hpassed]

theorem bind {x : Prog Host α} {g : α → Prog Host β} (hx : x.Minds) (hg : ∀ a, (g a).Minds) :
    (x.bind g).Minds := by
  induction x with
  | done a => exact hg a
  | act f k ih =>
    intro h h' heq
    obtain ⟨hf, hk, hrest⟩ := hx h h' heq
    exact ⟨hf, congrArg (·.bind g) hk, ih h hrest⟩
  | await claim k ih => exact ⟨hx.1, ih hx.2⟩
  | call c k ih => exact fun r ↦ ih r (hx r)

/-- One action after another. -/
theorem andThen {x : Action α} {g : α → Action β} (hx : x.run.Minds)
    (hg : ∀ a, (g a).run.Minds) : (x >>= g).run.Minds := by
  refine bind (x := x.run) (g := ExceptT.bindCont g) hx fun res ↦ ?_
  cases res with
  | ok a => exact hg a
  | error e => exact trivial

/-- An action, and what is done if it fails. -/
theorem rescue {x : Action α} {g : Error → Action α} (hx : x.run.Minds)
    (hg : ∀ e, (g e).run.Minds) : (tryCatch x g).run.Minds := by
  refine bind (x := x.run) hx fun res ↦ ?_
  cases res with
  | ok a => exact trivial
  | error e => exact hg e

/-- A look at the host that may fail. -/
theorem inspect {g : Host → Except Error α}
    (hg : ∀ h h' : Host, h.essence = h'.essence → g h = g h') : (Host.inspect g).run.Minds :=
  fun h h' heq ↦ ⟨heq, congrArg Prog.done (hg h h' heq), trivial⟩

/-- A change of one process. -/
theorem essence_modify (p : ProcessRef) (change : Process → Process) {h h' : Host}
    (heq : h.essence = h'.essence) :
    ({ h with processes := h.processes.modify p change } : Host).essence =
      ({ h' with processes := h'.processes.modify p change } : Host).essence := by
  simp only [Host.essence, Essence.mk.injEq] at heq ⊢
  obtain ⟨hmanagers, hprocesses, hcancelled⟩ := heq
  exact ⟨hmanagers, by rw [hprocesses], hcancelled⟩

end Minds

end Prog

namespace Host

open Prog

theorem processes_eq {h h' : Host} (heq : h.essence = h'.essence) : h.processes = h'.processes :=
  congrArg Essence.processes heq

theorem find_minds (m : ManagerRef) (id : String) : (find m id).run.Minds := by
  refine .inspect fun h h' heq ↦ ?_
  have hmanagers : h.managers = h'.managers := congrArg Essence.managers heq
  rw [hmanagers]

theorem checkContext_minds (ctx : ContextRef) : (checkContext ctx).run.Minds := by
  refine .inspect fun h h' heq ↦ ?_
  have hcancelled : h.contexts.isCancelled ctx = h'.contexts.isCancelled ctx :=
    congrFun (congrArg Essence.cancelled heq) ctx
  simp only [Contexts.check, hcancelled]

theorem rejectFailed_minds (p : ProcessRef) : (rejectFailed p).run.Minds :=
  .inspect fun h h' heq ↦ by rw [processes_eq heq]

theorem process_minds (p : ProcessRef) : (process p).run.Minds := by
  intro h h' heq
  have hget : h.processes.get p = h'.processes.get p := by rw [processes_eq heq]
  exact ⟨heq, congrArg (fun P ↦ Prog.done (Except.ok P)) hget, trivial⟩

theorem setStatus_minds (p : ProcessRef) (status : ProcessStatus) :
    (setStatus p status).run.Minds := fun _ _ heq ↦
  ⟨Minds.essence_modify p _ heq, rfl, trivial⟩

theorem log_minds (level : LogLevel) (message : String) (entries : Entries) :
    (log level message entries).run.Minds := fun _ ↦ trivial

theorem announce_minds (topic : String) (p : ProcessRef) : (announce topic p).run.Minds :=
  .andThen (process_minds p) fun _ _ ↦ trivial

theorem rollback_minds (ctx : ContextRef) (id : String) (cs : List (String × Component)) :
    (rollback ctx id cs).run.Minds := by
  induction cs with
  | nil => exact trivial
  | cons x rest ih =>
    obtain ⟨name, c⟩ := x
    have hstop : (perform .stop c ctx).run.Minds := fun _ ↦ trivial
    exact .andThen (.rescue hstop fun _ _ ↦ trivial) fun _ ↦ ih

theorem startEach_minds (ctx : ContextRef) (id : String) (started cs : List (String × Component)) :
    (startEach ctx id started cs).run.Minds := by
  induction cs generalizing started with
  | nil => exact trivial
  | cons x rest ih =>
    obtain ⟨name, c⟩ := x
    have hstart : (perform .start c ctx).run.Minds := fun _ ↦ trivial
    refine .andThen (.rescue hstart fun e ↦ ?_) fun _ ↦ ih _
    refine .andThen (log_minds _ _ _) fun _ ↦ ?_
    exact .andThen (rollback_minds ctx id started) fun _ ↦ trivial

theorem stopEach_minds (ctx : ContextRef) (id : String) (cs : List (String × Component)) :
    (stopEach ctx id cs).run.Minds := by
  induction cs with
  | nil => exact trivial
  | cons x rest ih =>
    obtain ⟨name, c⟩ := x
    have hstop : (perform .stop c ctx).run.Minds := fun _ ↦ trivial
    exact .andThen (.rescue hstop fun e ↦ .andThen (log_minds _ _ _) fun _ ↦ trivial) fun _ ↦ ih

theorem body_minds (sec : Section) (p : ProcessRef) : (sec.body p).run.Minds := by
  have hend (status : ProcessStatus) (level : LogLevel) (message : String) (entries : Entries)
      (topic : String) : (do
        setStatus p status
        log level message entries
        announce topic p : Action Unit).run.Minds :=
    .andThen (setStatus_minds p status) fun _ ↦
      .andThen (log_minds level message entries) fun _ ↦ announce_minds topic p
  cases sec with
  | start ctx id =>
    refine .andThen (rejectFailed_minds p) fun _ ↦ .andThen (process_minds p) fun P ↦ ?_
    exact .andThen (startEach_minds ctx id [] _) fun _ ↦ hend _ _ _ _ _
  | stop ctx id =>
    refine .andThen (process_minds p) fun P ↦ ?_
    exact .andThen (stopEach_minds ctx id _) fun _ ↦ hend _ _ _ _ _
  | fail id reason => exact hend _ _ _ _ _

theorem lock?_minds (p : ProcessRef) {h h' : Host} (heq : h.essence = h'.essence) :
    (lock? p h).map Host.essence = (lock? p h').map Host.essence := by
  have hget : h.processes.get p = h'.processes.get p := by rw [processes_eq heq]
  by_cases hlocked : (h'.processes.get p).locked = true
  · simp [lock?, hget, hlocked]
  · simp only [lock?, hget, hlocked]
    exact congrArg some (Minds.essence_modify p _ heq)

theorem exclusively_minds (p : ProcessRef) (sec : Section) :
    (exclusively p (sec.body p)).run.Minds := by
  show (Prog.await (lock? p) ((sec.body p).run.bind fun res ↦ .act (unlock p) fun _ ↦
    .done res)).Minds
  have hleave (res : Except Error Unit) : (Prog.act (unlock p) fun _ ↦ .done res).Minds :=
    fun _ _ heq ↦ ⟨Minds.essence_modify p _ heq, rfl, trivial⟩
  exact ⟨fun _ _ heq ↦ lock?_minds p heq, .bind (body_minds sec p) hleave⟩

theorem startProcess_minds (m : ManagerRef) (ctx : ContextRef) (id : String) :
    (startProcess m ctx id).run.Minds :=
  .andThen (find_minds m id) fun p ↦ .andThen (checkContext_minds ctx) fun _ ↦
    exclusively_minds p (.start ctx id)

theorem stopProcess_minds (m : ManagerRef) (ctx : ContextRef) (id : String) :
    (stopProcess m ctx id).run.Minds :=
  .andThen (find_minds m id) fun p ↦ .andThen (checkContext_minds ctx) fun _ ↦
    exclusively_minds p (.stop ctx id)

end Host

/-- A lifecycle call minds only the essence of the host. -/
theorem Request.minds {r : Request} (hr : r.isLifecycle = true) : r.program.Minds := by
  have hanswer {x : Action Unit} (hx : x.run.Minds) : (do
      x
      return none : Action (Option ProcessRef)).run.Minds := .andThen hx fun _ ↦ trivial
  cases r with
  | create | remove => cases hr
  | start m ctx id => exact hanswer (Host.startProcess_minds m ctx id)
  | stop m ctx id => exact hanswer (Host.stopProcess_minds m ctx id)
  | restart m ctx id =>
    refine hanswer (.andThen (Host.find_minds m id) fun p ↦ ?_)
    refine .andThen (Host.rejectFailed_minds p) fun _ ↦ ?_
    exact .andThen (Host.stopProcess_minds m ctx id) fun _ ↦ Host.startProcess_minds m ctx id
  | markFailed m id reason =>
    exact hanswer (.andThen (Host.find_minds m id) fun p ↦
      Host.exclusively_minds p (.fail id reason))

end ComponentHost
