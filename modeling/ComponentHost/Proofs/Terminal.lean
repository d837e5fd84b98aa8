import ComponentHost.Proofs.Stages

/-!
What becomes of a process that has failed.

A start finds the failure and does nothing, and marking the process failed again gives it another
reason. A stop does not look at the status: it stops the components once more, and puts the process
into the status of one that was stopped, from where it can be started. So a process that has failed
stays so just as long as no stop of it comes to its end, be it on its own or as the first half of a
restart that began before the process failed (`Traffic.throughout_hasFailed_iff`).
-/

set_option autoImplicit false

namespace ComponentHost

namespace Traffic

/-- A client who has the process to itself, and whose request is to stop it, also if only to start
it again, puts it into the status of a process that was stopped. -/
def Stops (p : ProcessRef) (s : Traffic) (m : Move) (t : Traffic) : Prop :=
  ∃ i c ctx id, m.client? = some i ∧ s.clients[i]? = some c ∧ .stop ctx id ∈ c.request.sections ∧
    s.holder p = some i ∧ (t.process p).status = .stopped

/-- A client makes a call to start a component, and not for another process that it has to
itself. -/
def StartsFor (p : ProcessRef) (s : Traffic) (_ : Move) (t : Traffic) : Prop :=
  ∃ i c ctx, t.past = ⟨i, .asked (.lifecycle .start c ctx)⟩ :: s.past ∧
    ∀ q ≠ p, s.holder q = some i → c ∉ (s.process q).ordered.map Prod.snd

variable {s t : Traffic} {σ τ : Nat → Stage} {m : Move} {p : ProcessRef}

/-- A section that starts components is at work on a process that has not failed. -/
theorem Staged.not_hasFailed {i : Nat} {v : Visit} {ctx : ContextRef} {id : String} {d : Deed}
    {ds : List Deed} {res : Except Error Unit} (hs : Staged s σ) (hstage : σ i = .inside p v)
    (hsec : v.sec = .start ctx id) (hdoes : v.sec.Does v.found (v.log ++ d :: ds) res) :
    ¬s.HasFailed p := by
  rintro ⟨-, reason, hreason⟩
  have hholds := hs.holds i
  rw [hstage] at hholds
  have hget : s.process p = v.found.after v.log := hholds.2.2
  rw [hget] at hreason
  rcases v.found.status_after v.log with hstatus | hmem
  · have hfine : v.found.rejectFailed = .ok () := by
      rw [hsec] at hdoes
      exact hdoes.fine_of_mem (List.mem_append_right _ List.mem_cons_self)
    simp [Process.rejectFailed, ← hstatus, hreason] at hfine
  · have htarget := hdoes.became_eq (List.mem_append_left _ hmem)
    simp [hreason, hsec, Section.target] at htarget

/-- A process that has failed is still failed after a move, unless the move is the end of a stop. -/
theorem hasFailed_step (hs : s.Reachable) (hfailed : s.HasFailed p) (hstep : s.step m = some t) :
    t.HasFailed p ∨ Stops p s m t := by
  obtain ⟨σ, hstaged⟩ := hs.exists_staged
  obtain ⟨τ, hshift, -⟩ := hstaged.exists_shift hstep
  obtain ⟨hlt, reason, hreason⟩ := id hfailed
  have hlt' : p < t.host.processes.count := Nat.lt_of_lt_of_le hlt hshift.count_le
  rcases hshift.status_eq_or hlt with hkept | ⟨i, c, v, ds, res, hm, hi, hsec, hstage, hdoes⟩
  · exact .inl ⟨hlt', reason, hkept.trans hreason⟩
  · have htarget := hdoes.became_eq (List.mem_append_right _ List.mem_cons_self)
    cases hv : v.sec with
    | start ctx id => exact absurd hfailed (hstaged.not_hasFailed hstage hv hdoes)
    | fail id reason' => exact .inl ⟨hlt', reason', by rw [htarget, hv]; rfl⟩
    | stop ctx id =>
      have hhas : s.holder p = some i := (hstaged.holder p i).mpr (by rw [hstage]; rfl)
      exact .inr ⟨i, c, ctx, id, hm, hi, hv ▸ hsec, hhas, by rw [htarget, hv]; rfl⟩

/-- No component of a process that has failed is started. -/
theorem not_startsFor (hs : s.Reachable) (hfailed : s.HasFailed p) (hstep : s.step m = some t) :
    ¬StartsFor p s m t := by
  obtain ⟨σ, hstaged⟩ := hs.exists_staged
  obtain ⟨τ, hshift, -⟩ := hstaged.exists_shift hstep
  rintro ⟨i, c, ctx, hpast, hnone⟩
  rcases hshift.asked hpast with ⟨_, b, -, -, -, hprivate⟩ | ⟨q, v, ds, res, hstage, hdoes⟩
  · exact hprivate.1 rfl
  · have hmem : .said (.asked (.lifecycle .start c ctx)) ∈
        v.log ++ .said (.asked (.lifecycle .start c ctx)) :: ds := by simp
    obtain ⟨ctx', id, hsec⟩ := hdoes.eq_start hmem rfl
    have hne : q ≠ p := by
      rintro rfl
      exact hstaged.not_hasFailed hstage hsec hdoes hfailed
    have hholds := hstaged.holds i
    rw [hstage] at hholds
    have hfor : (Call.lifecycle .start c ctx).IsFor (s.process q) := by
      rw [process, hholds.2.2]
      exact (hdoes.isFor hmem).after _
    have hhas : s.holder q = some i := (hstaged.holder q i).mpr (by rw [hstage]; rfl)
    exact hnone q hne hhas hfor

/-- In a run that begins where a process has failed, the process stays so just as long as no stop of
it comes to its end; and as long as it stays so, no component of it is started. -/
theorem throughout_hasFailed_iff (hs : s.Reachable) (hfailed : s.HasFailed p) (ms : List Move) :
    (s.Throughout (·.HasFailed p) ms ↔ ¬s.Meets (Stops p) ms) ∧
      (s.Throughout (·.HasFailed p) ms → ¬s.Meets (StartsFor p) ms) := by
  induction ms generalizing s with
  | nil => exact ⟨⟨fun _ h ↦ h, fun _ ↦ hfailed⟩, fun _ h ↦ h⟩
  | cons m rest ih =>
    refine ⟨⟨fun hall ↦ ?_, fun hnone ↦ ⟨hfailed, fun t hstep ↦ ?_⟩⟩, fun hall ↦ ?_⟩
    · rintro ⟨t, hstep, hstops | hmeets⟩
      · obtain ⟨-, reason, hreason⟩ := (hall.2 t hstep).first
        obtain ⟨_, _, _, _, -, -, -, -, hstopped⟩ := hstops
        rw [hreason] at hstopped
        cases hstopped
      · have hrest := hall.2 t hstep
        exact (ih (hs.step hstep) hrest.first).1.mp hrest hmeets
    · rcases hasFailed_step hs hfailed hstep with hfailed' | hstops
      · exact (ih (hs.step hstep) hfailed').1.mpr fun hmeets ↦ hnone ⟨t, hstep, .inr hmeets⟩
      · exact absurd ⟨t, hstep, .inl hstops⟩ hnone
    · rintro ⟨t, hstep, hstarts | hmeets⟩
      · exact not_startsFor hs hfailed hstep hstarts
      · have hrest := hall.2 t hstep
        exact (ih (hs.step hstep) hrest.first).2 hrest hmeets

end Traffic

namespace Small

open Traffic

/-- The process has failed before it was started. -/
def failed : Traffic := created.serve (.markFailed 0 "p" "broken") answers 100

theorem failed_reachable : failed.Reachable := created_reachable.later (later_serve ..)

theorem failed_hasFailed : failed.HasFailed 0 := by
  constructor
  · decide +kernel
  · exact ⟨"broken", by decide +kernel⟩

/-- The theorem on a run in which the failed process is to be stopped. -/
theorem failed_throughout_iff : failed.Reachable ∧ failed.HasFailed 0 ∧
    (failed.Throughout (·.HasFailed 0) [.arrive (.stop 0 0 "p"), .proceed 2, .proceed 2] ↔
      ¬failed.Meets (Stops 0) [.arrive (.stop 0 0 "p"), .proceed 2, .proceed 2]) ∧
    (failed.Throughout (·.HasFailed 0) [.arrive (.stop 0 0 "p"), .proceed 2, .proceed 2] →
      ¬failed.Meets (StartsFor 0) [.arrive (.stop 0 0 "p"), .proceed 2, .proceed 2]) :=
  ⟨failed_reachable, failed_hasFailed,
    throughout_hasFailed_iff failed_reachable failed_hasFailed _⟩

/-- The failed process was stopped, and a client has come to start it. -/
def stopped : Traffic :=
  (failed.serve (.stop 0 0 "p") answers 100).serve (.start 0 0 "p") answers 5

/-- A process that has failed is stopped, and then a component of it is started. -/
theorem failed_then_started : ∃ s t u : Traffic, ∃ i : Nat, s.Reachable ∧ s.HasFailed 0 ∧
    Later s t ∧ ¬t.HasFailed 0 ∧ t.step (.proceed i) = some u ∧ StartsFor 0 t (.proceed i) u := by
  have hlater : Later failed stopped := (later_serve ..).trans (later_serve ..)
  have hstart : stopped.startNext? 3 = some (component "a", 0) := by decide +kernel
  have hholder : stopped.holder 0 = some 3 := by decide +kernel
  obtain ⟨u, hstep, hpast⟩ := exists_step_of_startNext? hstart
  refine ⟨failed, stopped, u, 3, failed_reachable, failed_hasFailed, hlater, ?_, hstep, ?_⟩
  · rintro ⟨-, reason, hreason⟩
    have hstopped : (stopped.process 0).status = .stopped := by decide +kernel
    rw [hstopped] at hreason
    cases hreason
  · refine ⟨3, component "a", 0, hpast, fun q hq hother ↦ ?_⟩
    exact absurd ((failed_reachable.later hlater).eq_of_holder hother hholder) hq

end Small

end ComponentHost
