import ComponentHost.Proofs.Course

/-!
What a restart has done that is rejected because the process has failed.

A restart looks at the status before it does anything, and a process that has failed by then is left
alone. But the two halves of a restart are sections of their own. When another client marks the
process failed after the first half has come to its end, the second half is rejected, and the
components have been stopped and not started again. There is no third case
(`Traffic.restart_rejected_iff`).
-/

set_option autoImplicit false

namespace ComponentHost

/-! ### The halves of a restart -/

/-- The publication that a process was stopped. -/
def stopNews (P : Process) : Call := announcement Topic.processStopped { P with status := .stopped }

/-- What a stop tells, apart from notes, that comes to its end. -/
def stopping (ctx : ContextRef) (P : Process) : List Exchange :=
  told (turns .stop ctx (successes P.ordered.reverse)) ++
    [.asked (stopNews P), .answered (stopNews P) ()]

/-- What has been told, but for the notes. -/
def withoutNotes (xs : List Exchange) : List Exchange := xs.filter fun x ↦ !x.call.isNote

@[simp] theorem withoutNotes_nil : withoutNotes [] = [] := rfl

@[simp] theorem withoutNotes_append (xs ys : List Exchange) :
    withoutNotes (xs ++ ys) = withoutNotes xs ++ withoutNotes ys := List.filter_append ..

@[simp] theorem withoutNotes_cons (x : Exchange) (xs : List Exchange) :
    withoutNotes (x :: xs) = if x.call.isNote then withoutNotes xs else x :: withoutNotes xs := by
  cases hx : x.call.isNote <;> simp [withoutNotes, hx]

theorem told_account (ds : List Deed) : told (account ds) = withoutNotes (told ds) := by
  induction ds with
  | nil => rfl
  | cons d ds ih =>
    cases d with
    | became status => simpa [Deed.isNote] using ih
    | said x =>
      rw [account_cons, told_said, withoutNotes, List.filter_cons, ← withoutNotes, ← ih]
      cases hx : x.call.isNote <;> simp [Deed.isNote, hx]

theorem Process.rejectFailed_eq_ok {P : Process} (hfine : ∀ reason, P.status ≠ .failed reason) :
    P.rejectFailed = .ok () := by
  unfold rejectFailed
  split
  · rename_i reason hreason
    exact absurd hreason (hfine reason)
  · rfl

theorem Process.exists_reason {P : Process} {e : Error} (h : P.rejectFailed = .error e) :
    ∃ reason, P.status = .failed reason := by
  unfold rejectFailed at h
  split at h
  · rename_i reason hreason
    exact ⟨reason, hreason⟩
  · cases h

namespace Prog

variable {α : Type} {N : Host → Prop} {J : List Exchange → Host → Prop} {xs : List Exchange}

/-- Looking up a process that is recorded all along, and going through a section of it. -/
theorem Tells.section {m : ManagerRef} {ctx : ContextRef} {id : String} {p : ProcessRef}
    {Q : List Exchange → Except Error Unit → Prop} (sec : Section)
    (hfind : ∀ h, N h → (h.managers.get m).find id = .ok p) (hcancelled : Q xs (.error .cancelled))
    (hafter : ∀ h h' ds res, N h → J xs h →
      sec.Does { h.processes.get p with locked := true } ds res → N h' →
      h'.processes.get p = { (h.processes.get p).after ds with locked := false } →
      J (xs ++ told ds) h')
    (hdoes : ∀ h ds res, N h → J xs h →
      sec.Does { h.processes.get p with locked := true } ds res → Q (xs ++ told ds) res) :
    (do
      let p ← Host.find m id
      Host.checkContext ctx
      Host.exclusively p (sec.body p) : Action Unit).run.Tells N J Q xs := by
  have hlook : (Host.find m id).run.Tells N J (fun ys res ↦ ys = xs ∧ res = .ok p) xs :=
    .inspect fun h hN _ ↦ ⟨rfl, hfind h hN⟩
  refine .andThen hlook (fun ys q hq ↦ ?_) fun ys e he ↦ by cases he.2
  obtain ⟨rfl, hq⟩ := hq
  obtain rfl : q = p := Except.ok.inj hq
  have hcheck : (Host.checkContext ctx).run.Tells N J (fun zs res ↦ zs = ys ∧
      ∀ e, res = .error e → e = .cancelled) ys := by
    refine .inspect fun h _ _ ↦ ⟨rfl, fun e he ↦ ?_⟩
    unfold Contexts.check at he
    split_ifs at he
    exact (Except.error.inj he).symm
  refine .andThen hcheck (fun zs u hzs ↦ ?_) fun zs e he ↦ ?_
  · obtain ⟨rfl, -⟩ := hzs
    exact .visit hafter fun h ds res hN hJ hsec ↦ .done (hdoes h ds res hN hJ hsec)
  · obtain ⟨rfl, he⟩ := he
    rw [he e rfl]
    exact hcancelled

end Prog

/-- The manager has the process recorded, and it is as it was but for its status and its lock. -/
structure StaysRecorded (m : ManagerRef) (id : String) (p : ProcessRef) (P : Process)
    (h : Host) : Prop where
  recorded : (h.managers.get m).find id = .ok p
  kept : ∃ status locked, h.processes.get p = { P with status, locked }

/-- A process has not failed, unless `M` is so, where a client has told that it was stopped. -/
def FineOnceStopped (p : ProcessRef) (P : Process) (M : Prop) (xs : List Exchange) (h : Host) :
    Prop :=
  .asked (stopNews P) ∈ xs → (∃ reason, (h.processes.get p).status = .failed reason) → M

/-- A rejection comes after nothing was told, or after just what a stop tells if `M` is so. -/
def RejectionTells (ctx : ContextRef) (P : Process) (M : Prop) {α : Type} (xs : List Exchange)
    (res : Except Error α) : Prop :=
  ∀ msg, res = .error (.validation msg) → xs = [] ∨ (withoutNotes xs = stopping ctx P ∧ M)

section

variable {m : ManagerRef} {ctx : ContextRef} {id : String} {p : ProcessRef} {P : Process} {M : Prop}

open Prog

theorem stopNews_mem {ctx : ContextRef} {P : Process} {xs : List Exchange}
    (h : withoutNotes xs = stopping ctx P) : .asked (stopNews P) ∈ xs := by
  have hmem : .asked (stopNews P) ∈ withoutNotes xs := by simp [h, stopping]
  exact (List.mem_filter.mp hmem).1

/-- The half that stops: it tells all that stopping tells, or its failure is another one. -/
theorem stopHalf_tells :
    (Host.stopProcess m ctx id).run.Tells (StaysRecorded m id p P) (FineOnceStopped p P M)
      (fun xs res ↦ match res with
        | .ok _ => withoutNotes xs = stopping ctx P
        | .error e => ∀ msg, e ≠ .validation msg) [] := by
  refine Tells.section (.stop ctx id) (fun h hN ↦ hN.recorded) (by simp) ?_ ?_
  · intro h h' ds res hN hJ hdoes hN' hget hmem hfailed
    rw [List.nil_append, mem_told] at hmem
    cases hdoes with
    | stopFailed hfails =>
      obtain ⟨_, _, -, hcall⟩ := hfails.said_mem (mem_account.mpr ⟨hmem, rfl⟩)
      cases hcall
    | stopped hds =>
      obtain ⟨reason, hreason⟩ := hfailed
      have hstopped : Section.Does _ (.stop ctx id) ds (.ok ()) := .stopped hds
      have hstatus := hstopped.status_of_ok
      rw [Process.after_locked] at hstatus
      rw [hget] at hreason
      cases hstatus.symm.trans hreason
  · intro h ds res hN hJ hdoes
    obtain ⟨status, locked, hkept⟩ := hN.kept
    cases hdoes with
    | stopFailed hfails =>
      obtain ⟨-, -⟩ := hfails
      simp
    | stopped hds =>
      rw [List.nil_append, ← told_account, hds, hkept]
      simp only [told_append, told_became, stopping]
      rfl

/-- The half that starts: it is rejected only if the process has failed after it was stopped. -/
theorem startHalf_tells {xs : List Exchange} (hxs : withoutNotes xs = stopping ctx P) :
    (Host.startProcess m ctx id).run.Tells (StaysRecorded m id p P) (FineOnceStopped p P M)
      (RejectionTells ctx P M) xs := by
  have hmem := stopNews_mem hxs
  refine Tells.section (.start ctx id) (fun h hN ↦ hN.recorded) (by simp [RejectionTells])
    ?_ ?_
  · rintro h h' ds res hN hJ hdoes hN' hget - ⟨reason, hreason⟩
    rw [hget] at hreason
    cases res with
    | error e =>
      have hkept := hdoes.after_of_error
      rw [Process.after_locked] at hkept
      have hstatus : (h.processes.get p).status = .failed reason := by
        rw [← hreason]
        exact (congrArg Process.status hkept).symm
      exact hJ hmem ⟨reason, hstatus⟩
    | ok u =>
      have hstatus := hdoes.status_of_ok
      rw [Process.after_locked] at hstatus
      cases hstatus.symm.trans hreason
  · intro h ds res hN hJ hdoes
    cases hdoes with
    | rejected hfailed =>
      intro msg _
      obtain ⟨reason, hreason⟩ := Process.exists_reason hfailed
      exact .inr ⟨by simpa using hxs, hJ hmem ⟨reason, hreason⟩⟩
    | startFailed _ hfails =>
      obtain ⟨-, -, -⟩ := hfails
      simp [RejectionTells]
    | started => simp [RejectionTells]

theorem restart_tells :
    (Request.restart m ctx id).program.Tells (StaysRecorded m id p P) (FineOnceStopped p P M)
      (RejectionTells ctx P M) [] := by
  have hrestart : (Host.restartProcess m ctx id).run.Tells (StaysRecorded m id p P)
      (FineOnceStopped p P M) (RejectionTells ctx P M) [] := by
    refine .andThen (Q := fun ys _ ↦ ys = []) (.inspect fun _ _ _ ↦ rfl) (fun ys q hys ↦ ?_)
      fun ys e hys msg _ ↦ .inl hys
    obtain rfl := hys
    refine .andThen (Q := fun ys _ ↦ ys = []) (.inspect fun _ _ _ ↦ rfl) (fun ys u hys ↦ ?_)
      fun ys e hys msg _ ↦ .inl hys
    obtain rfl := hys
    exact .andThen stopHalf_tells (fun ys u hys ↦ startHalf_tells hys)
      fun ys e he msg hmsg ↦ absurd (Except.error.inj hmsg) (he msg)
  exact .andThen hrestart (fun ys u _ ↦ .done (by simp [RejectionTells])) fun ys e he msg hmsg ↦
    he msg (by rw [Except.error.inj hmsg])

end

namespace Traffic

/-- Another client, who has the process to himself, marks it failed after this one has told that it
was stopped. -/
def FailsBehind (p : ProcessRef) (i : Nat) (s : Traffic) (m : Move) (t : Traffic) : Prop :=
  (∃ j ≠ i, m.client? = some j ∧ s.holder p = some j ∧
    ∃ m' id reason task, s.clients[j]? = some ⟨.markFailed m' id reason, task⟩) ∧
  ¬s.HasFailed p ∧ t.HasFailed p ∧ .asked (stopNews (s.process p)) ∈ s.exchangesOf i

variable {s t : Traffic} {p : ProcessRef} {i : Nat} {ms : List Move}

/-- A process fails only by a client who marks it failed. -/
theorem failsBehind_of_others {move : Move} (hs : s.Reachable) (hlt : p < s.host.processes.count)
    (hstep : s.step move = some t) (hmove : move.client? ≠ some i)
    (hfine : ¬s.HasFailed p) (hfailed : t.HasFailed p)
    (htold : .asked (stopNews (s.process p)) ∈ s.exchangesOf i) : FailsBehind p i s move t := by
  refine ⟨?_, hfine, hfailed, htold⟩
  obtain ⟨σ, hstaged⟩ := hs.exists_staged
  obtain ⟨τ, hshift, -⟩ := hstaged.exists_shift hstep
  obtain ⟨-, reason, hreason⟩ := hfailed
  rcases hshift.status_eq_or hlt with hkept | ⟨j, c, v, ds, res, hj, hc, hsec, hstage, hdoes⟩
  · exact absurd ⟨hlt, reason, hkept ▸ hreason⟩ hfine
  · have hholder : s.holder p = some j := (hstaged.holder p j).mpr (by rw [hstage]; rfl)
    have htarget := hdoes.became_eq (List.mem_append_right _ List.mem_cons_self)
    refine ⟨j, fun h ↦ hmove (h ▸ hj), hj, hholder, ?_⟩
    obtain ⟨r, task⟩ := c
    cases hv : v.sec with
    | start | stop =>
      rw [hreason, hv] at htarget
      cases htarget
    | fail id' reason' =>
      rw [hv] at hsec
      cases r with
      | markFailed m' id reason => exact ⟨m', id, reason, task, hc⟩
      | _ => simp [Request.sections] at hsec

/-- What a restart relies on is so along a run in which the process stays recorded, `M` being so if
another client fails it behind the restart. -/
theorem Run.staysRecorded {m : ManagerRef} {id : String} {P : Process} {M : Prop} (hs : s.Reachable)
    (hlt : p < s.host.processes.count)
    (hP : ∃ status locked, s.process p = { P with status, locked }) (hrun : Run Freely ms s t)
    (hkept : s.Throughout (fun u ↦ (u.host.managers.get m).find id = .ok p) ms)
    (hM : s.Meets (FailsBehind p i) ms → M) :
    Run (fun u move ↦ StaysRecorded m id p P u.host ∧ ∀ v, u.step move = some v →
      StaysRecorded m id p P v.host ∧ (move.client? ≠ some i →
        FineOnceStopped p P M (u.exchangesOf i) u.host →
        FineOnceStopped p P M (u.exchangesOf i) v.host)) ms s t := by
  induction ms generalizing s with
  | nil => exact hrun
  | cons move rest ih =>
    obtain ⟨-, u, hstep, hrest⟩ := hrun
    obtain ⟨status, locked, heq⟩ := hP
    have hnext {v : Traffic} (hstep : s.step move = some v) :
        p < v.host.processes.count ∧ ∃ status locked, v.process p = { P with status, locked } := by
      obtain ⟨hlt', status', locked', hv⟩ := hs.process_step hlt hstep
      exact ⟨hlt', status', locked', by rw [hv, heq]⟩
    have hgoes := ih (hs.step hstep) (hnext hstep).1 (hnext hstep).2 hrest (hkept.2 u hstep)
      fun hmeets ↦ hM ⟨u, hstep, .inr hmeets⟩
    refine ⟨⟨⟨hkept.1, status, locked, heq⟩, fun v hv ↦
      ⟨⟨(hkept.2 v hv).first, (hnext hv).2⟩, ?_⟩⟩, u, hstep, hgoes⟩
    intro hmove hfine htold hfailed
    by_cases hbefore : s.HasFailed p
    · exact hfine htold hbefore.2
    · have htold' : .asked (stopNews (s.process p)) ∈ s.exchangesOf i := by
        rw [heq]
        exact htold
      have hafter : v.HasFailed p := ⟨(hnext hv).1, hfailed⟩
      exact hM ⟨v, hv, .inl (failsBehind_of_others hs hlt hv hmove hbefore hafter htold')⟩

/-- Assumes: the process stays recorded. A restart that is rejected because the process has failed
has told nothing at all, unless another client has marked the process failed after the restart had
stopped it; and then it has told just what a stop tells. -/
theorem restart_rejected_iff {m : ManagerRef} {ctx : ContextRef} {id msg : String}
    (hs : s.Reachable) (habsent : s.clients[i]? = none) (hrun : Run Freely ms s t)
    (hkept : s.Throughout (fun u ↦ (u.host.managers.get m).find id = .ok p) ms)
    (hrejected : t.clients[i]? =
      some ⟨.restart m ctx id, .going (.done (.error (.validation msg)))⟩) :
    (t.exchangesOf i = [] ↔ ¬s.Meets (FailsBehind p i) ms) ∧
      (t.exchangesOf i ≠ [] → withoutNotes (t.exchangesOf i) = stopping ctx (t.process p)) := by
  obtain ⟨σ, hstaged⟩ := hs.exists_staged
  have hlt : p < s.host.processes.count :=
    hstaged.recorded p ⟨m, id, Manager.mem_of_find hkept.first⟩
  have hkeeps := hrun.staysRecorded (i := i) (M := s.Meets (FailsBehind p i) ms) hs hlt ⟨_, _, rfl⟩
    hkept fun hmeets ↦ hmeets
  have htells := hkeeps.tells hs habsent (fun h _ hmem ↦ by cases hmem) restart_tells hrejected
  refine ⟨⟨fun hnothing hmeets ↦ ?_, fun hnone ↦ ?_⟩, fun hsome ↦ ?_⟩
  · obtain ⟨u, move, v, -, hstep, hbehind, hlater⟩ := hrun.exists_of_meets hmeets
    have hnext : Next u v := ⟨move, hstep⟩
    obtain ⟨xs, hxs⟩ := Later.exists_exchangesOf (.head hnext hlater) i
    have htold := hbehind.2.2.2
    rw [hnothing] at hxs
    simp [(List.append_eq_nil_iff.mp hxs.symm).1] at htold
  · rcases htells msg rfl with hnothing | ⟨-, hmeets⟩
    · exact hnothing
    · exact absurd hmeets hnone
  · obtain ⟨-, status, locked, heq⟩ := hs.process_later hlt hrun.later
    rcases htells msg rfl with hnothing | ⟨hstopping, -⟩
    · exact absurd hnothing hsome
    · rw [hstopping, heq]
      rfl

/-- The component a call is to stop, and the context. -/
def stopOf? : Exchange → Option (Component × ContextRef)
  | .asked (.lifecycle .stop c ctx) => some (c, ctx)
  | _ => none

theorem eq_of_stopOf? {x : Exchange} {c : Component} {ctx : ContextRef}
    (h : stopOf? x = some (c, ctx)) : x = .asked (.lifecycle .stop c ctx) := by
  unfold stopOf? at h
  split at h
  · cases h
    rfl
  · cases h

/-- The restart that a client has been refused as the process has failed, and the message. -/
def refusedRestart? (s : Traffic) (i : Nat) :
    Option (ManagerRef × ContextRef × String × String) :=
  match s.clients[i]? with
  | some ⟨.restart m ctx id, .going (.done (.error (.validation msg)))⟩ => some (m, ctx, id, msg)
  | _ => none

theorem getElem?_of_refusedRestart? {m : ManagerRef} {ctx : ContextRef} {id msg : String}
    (h : s.refusedRestart? i = some (m, ctx, id, msg)) :
    s.clients[i]? = some ⟨.restart m ctx id, .going (.done (.error (.validation msg)))⟩ := by
  unfold refusedRestart? at h
  split at h
  · rename_i hi
    cases h
    exact hi
  · cases h

end Traffic

namespace Small

open Traffic

/-- While one client restarts the process another comes to mark it failed, and has to wait until the
process is stopped. Then the second half of the restart comes too late. -/
def failedBetween : List Move :=
  movesBy answers [.enter (.restart 0 0 "p"), .play 1 7, .enter (.markFailed 0 "p" "broken"),
    .play 2 2, .play 1 12, .play 2 100, .play 1 100] created

theorem created_absent : created.clients[1]? = none :=
  List.getElem?_eq_none (by decide +kernel : created.clients.length ≤ 1)

theorem failedBetween_refused :
    (created.after failedBetween).refusedRestart? 1 = some (0, 0, "p",
      "process 'p' has failed (broken) and must be removed") := by decide +kernel

theorem failedBetween_throughout :
    created.Throughout (fun u ↦ (u.host.managers.get 0).find "p" = .ok 0) failedBetween := by
  have hrun : Run (fun u _ ↦ (u.host.managers.get 0).recorded.get? "p" = some 0) failedBetween
      created (created.after failedBetween) := run_of_follows (by decide +kernel)
  have hlast : ((created.after failedBetween).host.managers.get 0).recorded.get? "p" = some 0 := by
    decide +kernel
  exact (hrun.mono fun u _ h ↦ Manager.find_eq_ok h).throughout (Manager.find_eq_ok hlast)

/-- The theorem on a restart that is rejected after its first half. -/
theorem failedBetween_rejected_iff : ∃ msg : String,
    created.Reachable ∧ created.clients[1]? = none ∧
    Run Freely failedBetween created (created.after failedBetween) ∧
    created.Throughout (fun u ↦ (u.host.managers.get 0).find "p" = .ok 0) failedBetween ∧
    (created.after failedBetween).clients[1]? =
      some ⟨.restart 0 0 "p", .going (.done (.error (.validation msg)))⟩ ∧
    ((created.after failedBetween).exchangesOf 1 = [] ↔
      ¬created.Meets (FailsBehind 0 1) failedBetween) ∧
    ((created.after failedBetween).exchangesOf 1 ≠ [] →
      withoutNotes ((created.after failedBetween).exchangesOf 1) =
        stopping 0 ((created.after failedBetween).process 0)) := by
  have hrun : Run Freely failedBetween created (created.after failedBetween) :=
    run_movesBy (fun cue _ ↦ by cases cue <;> exact fun _ ↦ trivial) created
  have hrejected := getElem?_of_refusedRestart? failedBetween_refused
  exact ⟨_, created_reachable, created_absent, hrun, failedBetween_throughout, hrejected,
    restart_rejected_iff created_reachable created_absent hrun failedBetween_throughout hrejected⟩

/-- A restart is rejected because the process has failed, and has stopped a component of it. -/
theorem stopped_then_rejected : ∃ (s t : Traffic) (ms : List Move) (i : Nat) (p : ProcessRef)
    (m : ManagerRef) (ctx : ContextRef) (id msg : String) (c : Component), s.Reachable ∧
    s.clients[i]? = none ∧ Run InTurn ms s t ∧
    s.Throughout (fun u ↦ (u.host.managers.get m).find id = .ok p) ms ∧
    t.clients[i]? = some ⟨.restart m ctx id, .going (.done (.error (.validation msg)))⟩ ∧
    c ∈ (t.process p).ordered.map Prod.snd ∧
    .asked (.lifecycle .stop c ctx) ∈ t.exchangesOf i := by
  have hrun : Run InTurn failedBetween created (created.after failedBetween) :=
    run_of_follows (by decide +kernel)
  have hstops : (component "b", 0) ∈
      ((created.after failedBetween).exchangesOf 1).filterMap stopOf? := by decide +kernel
  obtain ⟨x, hx, hstop⟩ := List.mem_filterMap.mp hstops
  exact ⟨created, created.after failedBetween, failedBetween, 1, 0, 0, 0, "p", _, component "b",
    created_reachable, created_absent, hrun, failedBetween_throughout,
    getElem?_of_refusedRestart? failedBetween_refused, by decide +kernel,
    eq_of_stopOf? hstop ▸ hx⟩

end Small

end ComponentHost
