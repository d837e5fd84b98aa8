import ComponentHost.Proofs.Conduct

/-!
What computations see of a state, and what they do to it.

A scope says which states look the same, which changes may be made, and which calls. A computation
that keeps to a scope (`Prog.KeepsTo`) does the same wherever states look the same, leaves them
looking the same, and makes no other changes and calls. That states look the same need not be
reflexive: a scope may leave out the states a computation is not meant for.

What keeps to a scope on a part of a state keeps to it on the whole (`Prog.KeepsTo.within`). The
lifecycle calls on a process keep to every scope that covers the process (`Scope.Covers`,
`Host.exclusively_keepsTo`), and those on what is recorded under an identifier to every scope that
reaches the identifier (`Scope.Reaches`, `Request.keepsTo`).
-/

set_option autoImplicit false

namespace ComponentHost

/-- What a computation may see and do. -/
structure Scope (σ : Type) where
  /-- The states look the same to it. -/
  alike : σ → σ → Prop
  /-- It may change the one state into the other. -/
  change : σ → σ → Prop := fun _ _ ↦ True
  /-- It may make the call. -/
  call : Call → Prop := fun _ ↦ True
  /-- It may always leave a state as it is. -/
  idle : ∀ s, change s s := by exact fun _ ↦ trivial

namespace Prog

variable {σ τ α β : Type} {S : Scope σ}

/-- The computation does the same wherever states look the same, leaves them looking the same, and
makes no changes and calls but those it may. -/
def KeepsTo (S : Scope σ) : Prog σ α → Prop
  | .done _ => True
  | .act f k => ∀ s s', S.alike s s' →
      S.alike (f s) (f s') ∧ S.change s (f s) ∧ k s = k s' ∧ (k s).KeepsTo S
  | .await claim k => (∀ s s', S.alike s s' →
      Option.Rel (fun t t' ↦ S.alike t t' ∧ S.change s t) (claim s) (claim s')) ∧ k.KeepsTo S
  | .call c k => S.call c ∧ ∀ r, (k r).KeepsTo S

namespace KeepsTo

theorem bind {x : Prog σ α} {g : α → Prog σ β} (hx : x.KeepsTo S) (hg : ∀ a, (g a).KeepsTo S) :
    (x.bind g).KeepsTo S := by
  induction x with
  | done a => exact hg a
  | act f k ih =>
    intro s s' hs
    obtain ⟨hf, hchange, hk, hrest⟩ := hx s s' hs
    exact ⟨hf, hchange, congrArg (·.bind g) hk, ih s hrest⟩
  | await claim k ih => exact ⟨hx.1, ih hx.2⟩
  | call c k ih => exact ⟨hx.1, fun r ↦ ih r (hx.2 r)⟩

/-- A look at what looks the same. -/
theorem look {k : σ → Prog σ α}
    (hk : ∀ s s', S.alike s s' → k s = k s' ∧ (k s).KeepsTo S) : (Prog.act id k).KeepsTo S :=
  fun s s' hs ↦ ⟨hs, S.idle s, hk s s' hs⟩

theorem modify {f : σ → σ} (hf : ∀ s s', S.alike s s' → S.alike (f s) (f s') ∧ S.change s (f s)) :
    (Prog.modify f).KeepsTo S :=
  fun s s' hs ↦ ⟨(hf s s' hs).1, (hf s s' hs).2, rfl, trivial⟩

theorem ask {c : Call} (hc : S.call c) : (Prog.ask c : Prog σ c.Reply).KeepsTo S :=
  ⟨hc, fun _ ↦ trivial⟩

/-- What keeps to a scope on a part of a state keeps to one on the whole of which that is a part. -/
theorem within {T : Scope τ} {part : τ → σ} {replace : σ → τ → τ} {x : Prog σ α}
    (hpart : ∀ t t', T.alike t t' → S.alike (part t) (part t'))
    (hreplace : ∀ t t' s s', T.alike t t' → S.alike s s' → S.change (part t) s →
      T.alike (replace s t) (replace s' t') ∧ T.change t (replace s t))
    (hcall : ∀ c, S.call c → T.call c) (hx : x.KeepsTo S) :
    (x.within part replace).KeepsTo T := by
  induction x with
  | done a => trivial
  | act f k ih =>
    intro t t' ht
    obtain ⟨hf, hchange, hk, hrest⟩ := hx _ _ (hpart t t' ht)
    obtain ⟨halike, hchange⟩ := hreplace t t' _ _ ht hf hchange
    exact ⟨halike, hchange, congrArg (·.within part replace) hk, ih _ hrest⟩
  | await claim k ih =>
    refine ⟨fun t t' ht ↦ ?_, ih hx.2⟩
    have hclaim := hx.1 _ _ (hpart t t' ht)
    show Option.Rel _ ((claim (part t)).map fun s ↦ replace s t)
      ((claim (part t')).map fun s ↦ replace s t')
    generalize claim (part t) = before, claim (part t') = after at hclaim
    cases hclaim with
    | none => exact .none
    | some hs => exact .some (hreplace t t' _ _ ht hs.1 hs.2)
  | call c k ih => exact ⟨hcall c hx.1, fun r ↦ ih r (hx.2 r)⟩

end KeepsTo

end Prog

/-! ### Actions of a host -/

namespace Prog.KeepsTo

variable {α β : Type} {S : Scope Host}

/-- One action after another. -/
theorem andThen {x : Action α} {f : α → Action β} (hx : x.run.KeepsTo S)
    (hf : ∀ a, (f a).run.KeepsTo S) : (x >>= f).run.KeepsTo S := by
  refine bind (x := x.run) (g := ExceptT.bindCont f) hx fun res ↦ ?_
  cases res with
  | ok a => exact hf a
  | error e => trivial

/-- An action, and what is done if it fails. -/
theorem rescue {x : Action α} {f : Error → Action α} (hx : x.run.KeepsTo S)
    (hf : ∀ e, (f e).run.KeepsTo S) : (tryCatch x f).run.KeepsTo S := by
  refine bind (x := x.run) hx fun res ↦ ?_
  cases res with
  | ok a => trivial
  | error e => exact hf e

/-- A computation that does not fail. -/
theorem lift {x : Prog Host α} (hx : x.KeepsTo S) : (Action.of x).run.KeepsTo S :=
  bind hx fun _ ↦ trivial

/-- A look that may fail, and what is done with what is seen. -/
theorem inspect {f : Host → Except Error α} {g : α → Action β}
    (hf : ∀ h h', S.alike h h' → f h = f h')
    (hg : ∀ h h' a, S.alike h h' → f h = .ok a → (g a).run.KeepsTo S) :
    (Host.inspect f >>= g).run.KeepsTo S := by
  refine look fun h h' hh ↦ ?_
  show (Prog.done (f h)).bind (ExceptT.bindCont g) = (Prog.done (f h')).bind (ExceptT.bindCont g) ∧
    ((Prog.done (f h)).bind (ExceptT.bindCont g)).KeepsTo S
  refine ⟨by rw [hf h h' hh], ?_⟩
  cases hfh : f h with
  | ok a => exact hg h h' a hh hfh
  | error e => trivial

end Prog.KeepsTo

/-! ### What a scope has of processes -/

/-- The computation may take notes. -/
def Scope.TakesNotes (S : Scope Host) : Prop := ∀ c : Call, c.isNote = true → S.call c

/-- A process is in the scope: it is seen, it may be locked and put into a status, and calls may be
made for its sake. -/
structure Scope.Covers (S : Scope Host) (p : ProcessRef) : Prop where
  get_eq : ∀ h h', S.alike h h' → h.processes.get p = h'.processes.get p
  modify : ∀ (f : Process → Process) (h h' : Host), S.alike h h' →
    (∀ P, ∃ status locked, f P = { P with status, locked }) →
      S.alike { h with processes := h.processes.modify p f }
          { h' with processes := h'.processes.modify p f } ∧
        S.change h { h with processes := h.processes.modify p f }
  call : ∀ (h h' : Host) (c : Call), S.alike h h' → c.IsFor (h.processes.get p) → S.call c

namespace Host

open Prog

variable {S : Scope Host} {p : ProcessRef} {ctx : ContextRef} {id : String}

theorem log_keepsTo (hnotes : S.TakesNotes) (level : LogLevel) (message : String)
    (entries : Entries) : (log level message entries).run.KeepsTo S :=
  .lift (.ask (hnotes _ rfl))

theorem diagnose_keepsTo (hnotes : S.TakesNotes) (level : LineLevel) (message : String) :
    (diagnose level message).run.KeepsTo S := .lift (.ask (hnotes _ rfl))

theorem process_keepsTo {α : Type} {f : Process → Action α} (hp : S.Covers p)
    (hf : ∀ h h', S.alike h h' → (f (h.processes.get p)).run.KeepsTo S) :
    (process p >>= f).run.KeepsTo S :=
  .look fun h h' hh ↦
    ⟨congrArg (fun P ↦ (f P).run) (hp.get_eq h h' hh), hf h h' hh⟩

theorem setStatus_keepsTo (hp : S.Covers p) (status : ProcessStatus) :
    (setStatus p status).run.KeepsTo S :=
  .lift (.modify fun h h' hh ↦ hp.modify _ h h' hh fun P ↦ ⟨status, P.locked, rfl⟩)

theorem announce_keepsTo (hp : S.Covers p) (topic : String) : (announce topic p).run.KeepsTo S :=
  process_keepsTo hp fun h h' hh ↦ .lift (.ask (hp.call h h' _ hh ⟨_, rfl⟩))

theorem rejectFailed_keepsTo (hp : S.Covers p) : (rejectFailed p).run.KeepsTo S := by
  refine Prog.KeepsTo.look fun h h' hh ↦ ⟨?_, trivial⟩
  exact congrArg (fun P : Process ↦ Prog.done P.rejectFailed) (hp.get_eq h h' hh)

/-- Some components may be called. -/
def Reached (S : Scope Host) (cs : List (String × Component)) : Prop :=
  ∀ x ∈ cs, ∀ phase ctx, S.call (.lifecycle phase x.2 ctx)

theorem rollback_keepsTo (hnotes : S.TakesNotes) {cs : List (String × Component)}
    (hcs : Reached S cs) : (rollback ctx id cs).run.KeepsTo S := by
  induction cs with
  | nil => trivial
  | cons x rest ih =>
    have hstop : (perform .stop x.2 ctx).run.KeepsTo S := .ask (hcs x List.mem_cons_self _ _)
    refine .andThen (.rescue hstop fun e ↦ diagnose_keepsTo hnotes _ _) fun _ ↦ ?_
    exact ih fun y hy ↦ hcs y (List.mem_cons_of_mem _ hy)

theorem startEach_keepsTo (hnotes : S.TakesNotes) {started cs : List (String × Component)}
    (hstarted : Reached S started) (hcs : Reached S cs) :
    (startEach ctx id started cs).run.KeepsTo S := by
  induction cs generalizing started with
  | nil => trivial
  | cons x rest ih =>
    have hx := hcs x List.mem_cons_self
    have hstart : (perform .start x.2 ctx).run.KeepsTo S := .ask (hx _ _)
    refine .andThen (.rescue hstart fun e ↦ ?_) fun _ ↦ ?_
    · refine .andThen (log_keepsTo hnotes _ _ _) fun _ ↦ ?_
      exact .andThen (rollback_keepsTo hnotes hstarted) fun _ ↦ trivial
    · refine ih (fun y hy ↦ ?_) fun y hy ↦ hcs y (List.mem_cons_of_mem _ hy)
      rcases List.mem_cons.mp hy with rfl | hy
      · exact hx
      · exact hstarted y hy

theorem stopEach_keepsTo (hnotes : S.TakesNotes) {cs : List (String × Component)}
    (hcs : Reached S cs) : (stopEach ctx id cs).run.KeepsTo S := by
  induction cs with
  | nil => trivial
  | cons x rest ih =>
    have hstop : (perform .stop x.2 ctx).run.KeepsTo S := .ask (hcs x List.mem_cons_self _ _)
    refine .andThen (.rescue hstop fun e ↦ ?_) fun _ ↦ ?_
    · exact .andThen (log_keepsTo hnotes _ _ _) fun _ ↦ trivial
    · exact ih fun y hy ↦ hcs y (List.mem_cons_of_mem _ hy)

/-- The components of a process in the scope may be called. -/
theorem reached_ordered (hp : S.Covers p) {h h' : Host} (hh : S.alike h h') :
    Reached S (h.processes.get p).ordered :=
  fun _ hx _ _ ↦ hp.call h h' _ hh (List.mem_map_of_mem hx)

end Host

/-- A section keeps to every scope its process is in. -/
theorem Section.body_keepsTo {S : Scope Host} {p : ProcessRef} (hnotes : S.TakesNotes)
    (hp : S.Covers p) (sec : Section) : (sec.body p).run.KeepsTo S := by
  have hend (status : ProcessStatus) (level : LogLevel) (message : String) (entries : Entries)
      (topic : String) : (do
        Host.setStatus p status
        Host.log level message entries
        Host.announce topic p : Action Unit).run.KeepsTo S :=
    .andThen (Host.setStatus_keepsTo hp status) fun _ ↦
      .andThen (Host.log_keepsTo hnotes level message entries) fun _ ↦
        Host.announce_keepsTo hp topic
  cases sec with
  | start ctx id =>
    refine .andThen (Host.rejectFailed_keepsTo hp) fun _ ↦ ?_
    refine Host.process_keepsTo hp fun h h' hh ↦ ?_
    have hstart : (Host.startEach ctx id [] (h.processes.get p).ordered).run.KeepsTo S :=
      Host.startEach_keepsTo hnotes (by simp [Host.Reached]) (Host.reached_ordered hp hh)
    exact .andThen hstart fun _ ↦ hend _ _ _ _ _
  | stop ctx id =>
    refine Host.process_keepsTo hp fun h h' hh ↦ ?_
    have hreached : Host.Reached S (h.processes.get p).ordered.reverse := fun x hx ↦
      Host.reached_ordered hp hh x (List.mem_reverse.mp hx)
    exact .andThen (Host.stopEach_keepsTo hnotes hreached) fun _ ↦ hend _ _ _ _ _
  | fail id reason => exact hend _ _ _ _ _

/-! ### What a scope has of identifiers -/

/-- What a manager has recorded under an identifier is in the scope. -/
structure Scope.Reaches (S : Scope Host) (m : ManagerRef) (id : String) : Prop where
  find_eq : ∀ h h', S.alike h h' → (h.managers.get m).find id = (h'.managers.get m).find id
  covers : ∀ h h' p, S.alike h h' → (h.managers.get m).find id = .ok p → S.Covers p

/-- What is recorded under an identifier may be taken out of the records. -/
def Scope.Forgets (S : Scope Host) (m : ManagerRef) (id : String) : Prop :=
  ∀ h h', S.alike h h' →
    S.alike (h.forgetting m id) (h'.forgetting m id) ∧ S.change h (h.forgetting m id)

/-- It can be seen whether a context is cancelled. -/
def Scope.Sees (S : Scope Host) (ctx : ContextRef) : Prop :=
  ∀ h h', S.alike h h' → h.contexts.isCancelled ctx = h'.contexts.isCancelled ctx

namespace Host

variable {S : Scope Host} {m : ManagerRef} {ctx : ContextRef} {id : String}

theorem exclusively_keepsTo {p : ProcessRef} (hnotes : S.TakesNotes) (hp : S.Covers p)
    (sec : Section) : (exclusively p (sec.body p)).run.KeepsTo S := by
  show (Prog.await (lock? p) ((sec.body p).run.bind fun res ↦ .act (unlock p) fun _ ↦
    .done res)).KeepsTo S
  refine ⟨fun h h' hh ↦ ?_, .bind (sec.body_keepsTo hnotes hp) fun res h h' hh ↦ ?_⟩
  · unfold lock?
    rw [hp.get_eq h h' hh]
    by_cases hlocked : (h'.processes.get p).locked = true
    · rw [if_pos hlocked, if_pos hlocked]
      exact .none
    · rw [if_neg hlocked, if_neg hlocked]
      exact .some (hp.modify _ h h' hh fun P ↦ ⟨P.status, true, rfl⟩)
  · obtain ⟨halike, hchange⟩ := hp.modify ({ · with locked := false }) h h' hh
      fun P ↦ ⟨P.status, false, rfl⟩
    exact ⟨halike, hchange, rfl, trivial⟩

theorem find_keepsTo {α : Type} {f : ProcessRef → Action α} (hid : S.Reaches m id)
    (hf : ∀ p, S.Covers p → (f p).run.KeepsTo S) : (find m id >>= f).run.KeepsTo S :=
  .inspect hid.find_eq fun h h' p hh hfind ↦ hf p (hid.covers h h' p hh hfind)

theorem checkContext_keepsTo (hctx : S.Sees ctx) : (checkContext ctx).run.KeepsTo S := by
  refine Prog.KeepsTo.look fun h h' hh ↦ ⟨?_, trivial⟩
  simp only [Contexts.check, hctx h h' hh]

/-- Looking a process up, and going through a section of it. -/
theorem visit_keepsTo (hnotes : S.TakesNotes) (hid : S.Reaches m id) (hctx : S.Sees ctx)
    (sec : Section) : (do
      let p ← find m id
      checkContext ctx
      exclusively p (sec.body p) : Action Unit).run.KeepsTo S :=
  find_keepsTo hid fun _ hp ↦ .andThen (checkContext_keepsTo hctx) fun _ ↦
    exclusively_keepsTo hnotes hp sec

theorem startProcess_keepsTo (hnotes : S.TakesNotes) (hid : S.Reaches m id) (hctx : S.Sees ctx) :
    (startProcess m ctx id).run.KeepsTo S := visit_keepsTo hnotes hid hctx (.start ctx id)

theorem stopProcess_keepsTo (hnotes : S.TakesNotes) (hid : S.Reaches m id) (hctx : S.Sees ctx) :
    (stopProcess m ctx id).run.KeepsTo S := visit_keepsTo hnotes hid hctx (.stop ctx id)

theorem restartProcess_keepsTo (hnotes : S.TakesNotes) (hid : S.Reaches m id) (hctx : S.Sees ctx) :
    (restartProcess m ctx id).run.KeepsTo S :=
  find_keepsTo hid fun _ hp ↦ .andThen (rejectFailed_keepsTo hp) fun _ ↦
    .andThen (stopProcess_keepsTo hnotes hid hctx) fun _ ↦ startProcess_keepsTo hnotes hid hctx

theorem markFailed_keepsTo (hnotes : S.TakesNotes) (hid : S.Reaches m id) (reason : String) :
    (markFailed m id reason).run.KeepsTo S :=
  find_keepsTo hid fun _ hp ↦ exclusively_keepsTo hnotes hp (.fail id reason)

theorem removeProcess_keepsTo (hnotes : S.TakesNotes) (hid : S.Reaches m id)
    (hforgets : S.Forgets m id) : (removeProcess m id).run.KeepsTo S := by
  have hannounce {p : ProcessRef} (hp : S.Covers p) : (do
      announce Topic.processRemoved p
      return p : Action ProcessRef).run.KeepsTo S :=
    .andThen (announce_keepsTo hp _) fun _ ↦ trivial
  have hgone {p : ProcessRef} (hp : S.Covers p) : (do
      if (← process p).status = .running then
        diagnose .warn ("removed process " ++ Error.quoted id ++ " while it was still running")
      announce Topic.processRemoved p
      return p : Action ProcessRef).run.KeepsTo S := by
    refine process_keepsTo hp fun h _ _ ↦ ?_
    by_cases hrunning : (h.processes.get p).status = .running
    · rw [if_pos hrunning]
      exact .andThen (diagnose_keepsTo hnotes _ _) fun _ ↦ hannounce hp
    · rw [if_neg hrunning]
      exact hannounce hp
  intro h h' hh
  have hfind := hid.find_eq h h' hh
  cases hbefore : (h.managers.get m).find id with
  | error e =>
    rw [hbefore] at hfind
    simp only [← hfind, hbefore, Bind.bind, Except.bind]
    exact ⟨hh, S.idle h, trivial, trivial⟩
  | ok p =>
    rw [hbefore] at hfind
    simp only [← hfind, hbefore, Bind.bind, Except.bind, Pure.pure, Except.pure]
    obtain ⟨halike, hchange⟩ := hforgets h h' hh
    exact ⟨halike, hchange, trivial, hgone (hid.covers h h' p hh hbefore)⟩

end Host

namespace Request

/-- The context the request is made in. -/
def context? : Request → Option ContextRef
  | .create _ ctx _ | .start _ ctx _ | .stop _ ctx _ | .restart _ ctx _ => some ctx
  | .markFailed _ _ _ | .remove _ _ => none

/-- A request for what is recorded under an identifier keeps to every scope that reaches the
identifier. -/
theorem keepsTo {S : Scope Host} {m : ManagerRef} {id : String} {r : Request}
    (hr : r.IsAbout m id) (hnotes : S.TakesNotes) (hid : S.Reaches m id)
    (hforgets : r = .remove m id → S.Forgets m id)
    (hctx : ∀ ctx, r.context? = some ctx → S.Sees ctx) : r.program.KeepsTo S := by
  have hanswer {α : Type} {x : Action α} (f : α → Option ProcessRef) (hx : x.run.KeepsTo S) : (do
      let a ← x
      return f a : Action (Option ProcessRef)).run.KeepsTo S := .andThen hx fun _ ↦ trivial
  cases r with
  | create => exact hr.elim
  | start m' ctx id' =>
    obtain ⟨rfl, rfl⟩ := hr
    exact hanswer _ (Host.startProcess_keepsTo hnotes hid (hctx ctx rfl))
  | stop m' ctx id' =>
    obtain ⟨rfl, rfl⟩ := hr
    exact hanswer _ (Host.stopProcess_keepsTo hnotes hid (hctx ctx rfl))
  | restart m' ctx id' =>
    obtain ⟨rfl, rfl⟩ := hr
    exact hanswer _ (Host.restartProcess_keepsTo hnotes hid (hctx ctx rfl))
  | markFailed m' id' reason =>
    obtain ⟨rfl, rfl⟩ := hr
    exact hanswer _ (Host.markFailed_keepsTo hnotes hid reason)
  | remove m' id' =>
    obtain ⟨rfl, rfl⟩ := hr
    exact hanswer _ (Host.removeProcess_keepsTo hnotes hid (hforgets rfl))

end Request

end ComponentHost
