import ComponentHost.Proofs.Starting

/-!
How a process is stopped, and how it is stopped and started again.

The components are stopped in reverse declared order, up to the first that refuses; those declared
before it are not called. The caller is told of the component that did not stop and why, and the
process is left in the status it had, without news. If none refuses the process was stopped, which
is published (`Stopping`). What status the process has makes no difference.

A restart of a process that has not failed is a stop, and then a start if the stop has come to its
end (`Restarting`). The two halves fail in opposite ways: a component that refuses to stop leaves
the process where it was, with the components declared after it stopped; one that refuses to start
leaves it stopped, and what the restart had started is stopped again.
-/

set_option autoImplicit false

namespace ComponentHost

/-- What is told, apart from notes, to stop a process that was found as it is given and has these
components, what becomes of the process, and how it ends. -/
inductive Stopping (ctx : ContextRef) (id : String) (P : Process)
    (cs : List (String × Component)) : List Exchange → Process → Except Error Unit → Prop where
  | stopped :
      Stopping ctx id P cs
        (told (turns .stop ctx (successes cs.reverse)) ++
          told (announced Topic.processStopped { P with status := .stopped }))
        { P with status := .stopped } (.ok ())
  | refused {before after : List (String × Component)} {name : String} {c : Component} {e : Error}
      (hcs : cs.reverse = before ++ (name, c) :: after) :
      Stopping ctx id P cs (told (turns .stop ctx (successes before ++ [(c, .error e)])))
        P (.error (.componentStopFailed id name e))

namespace Stopping

variable {ctx : ContextRef} {id : String} {P P' : Process} {cs : List (String × Component)}
  {xs : List Exchange}

/-- A process that was stopped has not failed. -/
theorem not_failed {u : Unit} (h : Stopping ctx id P cs xs P' (.ok u)) (reason : String) :
    P'.status ≠ .failed reason := by
  cases h
  nofun

theorem declares {res : Except Error Unit} (h : Stopping ctx id P cs xs P' res)
    (hcs : P.Declares cs) : P'.Declares cs := by
  cases h with
  | stopped => exact hcs.withStatus .stopped
  | refused => exact hcs

end Stopping

/-- What is told, apart from notes, to restart a process that was found as it is given, has these
components and has not failed, what becomes of the process, and how it ends. -/
inductive Restarting (ctx : ContextRef) (id : String) (P : Process)
    (cs : List (String × Component)) : List Exchange → Process → Except Error Unit → Prop where
  | notStopped {xs : List Exchange} {P' : Process} {e : Error}
      (hstop : Stopping ctx id P cs xs P' (.error e)) : Restarting ctx id P cs xs P' (.error e)
  | stopped {xs ys : List Exchange} {P₁ P' : Process} {res : Except Error Unit}
      (hstop : Stopping ctx id P cs xs P₁ (.ok ())) (hstart : Starting ctx id P₁ cs ys P' res) :
      Restarting ctx id P cs (xs ++ ys) P' res

/-- A section that is to stop a process. -/
theorem Section.Does.stopping {P : Process} {cs : List (String × Component)} {ctx : ContextRef}
    {id : String} {ds : List Deed} {res : Except Error Unit}
    (h : Section.Does { P with locked := true } (.stop ctx id) ds res) (hcs : P.ordered = cs) :
    Stopping ctx id P cs (withoutNotes (told ds)) (P.after ds) res := by
  rw [← told_account, ← P.after_account, ← hcs]
  cases h with
  | stopFailed hfails =>
    obtain ⟨hordered, hds⟩ := hfails
    rw [hds, P.after_turns]
    exact .refused hordered
  | stopped hds =>
    rw [hds, told_append, told_became, P.after_append, P.after_turns]
    exact .stopped

/-! ### Visits -/

/-- The process is recorded and not locked, and the context is not cancelled. -/
structure Host.Accessible (m : ManagerRef) (ctx : ContextRef) (id : String) (p : ProcessRef)
    (h : Host) : Prop where
  find : (h.managers.get m).find id = .ok p
  unlocked : (h.processes.get p).locked = false
  uncancelled : h.contexts.isCancelled ctx = false

/-- The others leave the process and its record alone, and the context. -/
structure Surroundings.Spares (w : Surroundings) (m : ManagerRef) (ctx : ContextRef) (id : String)
    (p : ProcessRef) : Prop where
  record : w.Keeps fun g ↦ (g.managers.get m).find id
  process : w.Keeps fun g ↦ g.processes.get p
  flag : w.Keeps fun g ↦ g.contexts.isCancelled ctx

namespace Host

variable {w : Surroundings} {log : List Feat} {h h' : Host} {m : ManagerRef} {ctx : ContextRef}
  {id : String} {p : ProcessRef} {cs : List (String × Component)}

theorem Accessible.found (hh : h.Accessible m ctx id p) (hw : w.Spares m ctx id p)
    (log : List Feat) : (w.found log h).Accessible m ctx id p where
  find := (hw.record log h).trans hh.find
  unlocked := (congrArg Process.locked (hw.process log h)).trans hh.unlocked
  uncancelled := (hw.flag log h).trans hh.uncancelled

/-- Who works on a process leaves it accessible if it is not locked at the end. -/
theorem Accessible.drifted (hh : h.Accessible m ctx id p) (hw : w.Spares m ctx id p)
    (hdrift : w.Drifts (SameBut p) h h') (hunlocked : (h'.processes.get p).locked = false) :
    h'.Accessible m ctx id p where
  find := (hdrift.kept hw.record fun g g' hg ↦ by rw [hg.rest]).trans hh.find
  unlocked := hunlocked
  uncancelled := (hdrift.kept hw.flag fun g g' hg ↦ by rw [hg.rest]).trans hh.uncancelled

/-- A section of a process that is accessible, and that the others leave alone, is gone through from
its beginning to its end, and the process is accessible again. -/
theorem visit_does (sec : Section) (hw : w.Spares m ctx id p) (hh : h.Accessible m ctx id p) :
    (do
      let p ← find m id
      checkContext ctx
      exclusively p (sec.body p) : Action Unit).run.EndsAmid w (fun log' h' res ↦
        ∃ ds, sec.Does { h.processes.get p with locked := true } ds res ∧
          exchangesIn log' = exchangesIn log ++ told ds ∧
            h'.processes.get p = (h.processes.get p).after ds ∧ h'.Accessible m ctx id p)
        log h := by
  have hfound := hh.found hw log
  refine (visit_endsAmid sec hw.process hh.unlocked hfound.find).mono ?_
  rintro log' h' res ⟨g, rfl, -, hdrift, hvisit⟩
  rw [(hfound.found hw _).uncancelled, if_neg Bool.false_ne_true] at hvisit
  obtain ⟨ds, hdoes, htold, hget⟩ := hvisit
  refine ⟨ds, hdoes, htold, hget, hh.drifted hw hdrift ?_⟩
  rw [hget, (h.processes.get p).after_eq, hh.unlocked]

theorem stopProcess_stopping (hw : w.Spares m ctx id p) (hh : h.Accessible m ctx id p)
    (hcs : (h.processes.get p).Declares cs) :
    (stopProcess m ctx id).run.EndsAmid w (fun log' h' res ↦
      (∃ xs, Stopping ctx id (h.processes.get p) cs xs (h'.processes.get p) res ∧
        withoutNotes (exchangesIn log') = withoutNotes (exchangesIn log) ++ xs) ∧
          h'.Accessible m ctx id p) log h := by
  have hvisited : (stopProcess m ctx id).run.EndsAmid w _ log h := visit_does (.stop ctx id) hw hh
  refine hvisited.mono ?_
  rintro log' h' res ⟨ds, hdoes, htold, hget, hh'⟩
  exact ⟨⟨_, hget ▸ hdoes.stopping hcs.ordered_eq, by rw [htold, withoutNotes_append]⟩, hh'⟩

theorem startProcess_starting (hw : w.Spares m ctx id p) (hh : h.Accessible m ctx id p)
    (hcs : (h.processes.get p).Declares cs)
    (hfine : ∀ reason, (h.processes.get p).status ≠ .failed reason) :
    (startProcess m ctx id).run.EndsAmid w (fun log' h' res ↦
      ∃ xs, Starting ctx id (h.processes.get p) cs xs (h'.processes.get p) res ∧
        withoutNotes (exchangesIn log') = withoutNotes (exchangesIn log) ++ xs) log h := by
  have hvisited : (startProcess m ctx id).run.EndsAmid w _ log h := visit_does (.start ctx id) hw hh
  refine hvisited.mono ?_
  rintro log' h' res ⟨ds, hdoes, htold, hget, -⟩
  exact ⟨_, hget ▸ hdoes.starting hcs.ordered_eq hfine, by rw [htold, withoutNotes_append]⟩

/-- Looking a process up and seeing that it has not failed comes before a restart. -/
theorem restartProcess_restarting (hw : w.Spares m ctx id p) (hh : h.Accessible m ctx id p)
    (hcs : (h.processes.get p).Declares cs)
    (hfine : ∀ reason, (h.processes.get p).status ≠ .failed reason) :
    (restartProcess m ctx id).run.EndsAmid w (fun log' h' res ↦
      ∃ xs, Restarting ctx id (h.processes.get p) cs xs (h'.processes.get p) res ∧
        withoutNotes (exchangesIn log') = withoutNotes (exchangesIn log) ++ xs) log h := by
  refine .andThen (inspect_endsAmid ?_)
  have hh₁ := hh.found hw log
  simp only [hh₁.find]
  refine .andThen (inspect_endsAmid ?_)
  have hh₂ := hh₁.found hw (log ++ [.acted (w.found log h) (w.found log h)])
  have hkept : (w.found (log ++ [.acted (w.found log h) (w.found log h)])
      (w.found log h)).processes.get p = h.processes.get p :=
    (hw.process _ _).trans (hw.process _ _)
  have hpassed : (h.processes.get p).rejectFailed = .ok () := Process.rejectFailed_eq_ok hfine
  simp only [hkept, hpassed]
  refine .andThen ((stopProcess_stopping hw hh₂ (hkept ▸ hcs)).mono ?_)
  rintro log₁ h₁ res ⟨⟨xs, hstop, htold⟩, hh'⟩
  rw [hkept] at hstop
  cases res with
  | error e => exact ⟨xs, .notStopped hstop, by simpa using htold⟩
  | ok u =>
    refine (startProcess_starting hw hh' (hstop.declares hcs) hstop.not_failed).mono ?_
    rintro log₂ h₂ res ⟨ys, hstart, htold'⟩
    exact ⟨xs ++ ys, .stopped hstop hstart, by simpa [htold] using htold'⟩

/-- Assumes: a process that is recorded with these components and is not locked, a context that is
not cancelled, and others who leave these alone. A stop calls the components in reverse declared
order up to the first that refuses, and the process was stopped if none does. If the process has not
failed then a restart is such a stop, and then a start just if the stop has succeeded. -/
theorem restartProcess_stops_then_starts (hw : w.Spares m ctx id p)
    (hh : h.Accessible m ctx id p) (hcs : (h.processes.get p).Declares cs) :
    (∃ res log h', (stopProcess m ctx id).run.amid w [] h = some (res, log, h') ∧
      Stopping ctx id (h.processes.get p) cs (withoutNotes (exchangesIn log))
        (h'.processes.get p) res) ∧
    ((∀ reason, (h.processes.get p).status ≠ .failed reason) →
      ∃ res log h', (restartProcess m ctx id).run.amid w [] h = some (res, log, h') ∧
        Restarting ctx id (h.processes.get p) cs (withoutNotes (exchangesIn log))
          (h'.processes.get p) res) := by
  constructor
  · have hstopped : (stopProcess m ctx id).run.EndsAmid w _ [] h := stopProcess_stopping hw hh hcs
    obtain ⟨res, log, h', hends, ⟨xs, hstop, htold⟩, -⟩ := hstopped
    exact ⟨res, log, h', hends, htold ▸ hstop⟩
  · intro hfine
    have hrestarted : (restartProcess m ctx id).run.EndsAmid w _ [] h :=
      restartProcess_restarting hw hh hcs hfine
    obtain ⟨res, log, h', hends, xs, hrestart, htold⟩ := hrestarted
    exact ⟨res, log, h', hends, htold ▸ hrestart⟩

end Host

namespace Small

/-- The others unregister all factories, and the second component refuses to start. -/
def unhelpful : Surroundings where
  found _ h := { h with registry := {} }
  reply _ := answersBut "b"

theorem unhelpful_spares : unhelpful.Spares 0 0 "p" 0 :=
  ⟨fun _ _ ↦ rfl, fun _ _ ↦ rfl, fun _ _ ↦ rfl⟩

/-- The process is stopped, and stays stopped because it cannot be started again. -/
theorem created_stops_then_starts : unhelpful.Spares 0 0 "p" 0 ∧
    created.host.Accessible 0 0 "p" 0 ∧
    (created.host.processes.get 0).Declares [("a", component "a"), ("b", component "b")] ∧
    (∀ reason, (created.host.processes.get 0).status ≠ .failed reason) ∧
    (∃ res log h', (Host.stopProcess 0 0 "p").run.amid unhelpful [] created.host =
        some (res, log, h') ∧
      Stopping 0 "p" (created.host.processes.get 0) [("a", component "a"), ("b", component "b")]
        (withoutNotes (exchangesIn log)) (h'.processes.get 0) res ∧
      callsIn (exchangesIn log) = [(.stop, component "b"), (.stop, component "a")]) ∧
    ∃ res log h', (Host.restartProcess 0 0 "p").run.amid unhelpful [] created.host =
        some (res, log, h') ∧
      Restarting 0 "p" (created.host.processes.get 0)
        [("a", component "a"), ("b", component "b")] (withoutNotes (exchangesIn log))
        (h'.processes.get 0) res ∧
      callsIn (exchangesIn log) = [(.stop, component "b"), (.stop, component "a"),
        (.start, component "a"), (.start, component "b"), (.stop, component "a")] := by
  have hh : created.host.Accessible 0 0 "p" 0 :=
    ⟨Manager.find_eq_ok (by decide +kernel), by decide +kernel, by decide +kernel⟩
  have hstatus : (created.host.processes.get 0).status = .initialized := by decide +kernel
  have hfine (reason : String) : (created.host.processes.get 0).status ≠ .failed reason := by
    rw [hstatus]
    nofun
  have hstopped : (Host.stopProcess 0 0 "p").run.EndsAmid unhelpful (fun log _ _ ↦
      callsIn (exchangesIn log) = [(.stop, component "b"), (.stop, component "a")])
      [] created.host := .of_map (by decide +kernel)
  have hrestarted : (Host.restartProcess 0 0 "p").run.EndsAmid unhelpful (fun log _ _ ↦
      callsIn (exchangesIn log) = [(.stop, component "b"), (.stop, component "a"),
        (.start, component "a"), (.start, component "b"), (.stop, component "a")])
      [] created.host := .of_map (by decide +kernel)
  obtain ⟨⟨res, log, h', hends, hstop⟩, hrestart⟩ :=
    Host.restartProcess_stops_then_starts unhelpful_spares hh created_declares
  obtain ⟨res', log', h'', hends', hrestart⟩ := hrestart hfine
  exact ⟨unhelpful_spares, hh, created_declares, hfine,
    ⟨res, log, h', hends, hstop, hstopped.of_amid hends⟩,
    res', log', h'', hends', hrestart, hrestarted.of_amid hends'⟩

end Small

end ComponentHost
