import ComponentHost.Proofs.Surroundings

/-!
How a process is started: all of it, or nothing of it.

A process has a component for each name of its declaration (`Process.Declares`), from the moment it
is recorded on (`Traffic.Reachable.declares`). The components are started in declared order. If one
refuses, those started before it are stopped again, the latest first, and all of them, even where
some refuse that too; the caller is told of the component that did not start and why, and the
process is left in the status it had (`Starting`). This is so whatever happens on the host
meanwhile, as long as the others leave the process alone (`Host.startProcess_all_or_nothing`).
-/

set_option autoImplicit false

namespace ComponentHost

/-! ### Declared components -/

/-- The declared components of a process, in declared order: there is one under each name that the
declaration has, and it is the one that the process keeps under this name. -/
structure Process.Declares (P : Process) (cs : List (String × Component)) : Prop where
  named : cs.map Prod.fst = P.config.components.map (·.name)
  kept : ∀ x ∈ cs, P.components.get? x.1 = some x.2

namespace Process

variable {P : Process} {cs : List (String × Component)}

/-- Listing the components of a process gives those that it declares. -/
theorem Declares.ordered_eq (h : P.Declares cs) : P.ordered = cs := by
  have hnames : P.names = cs.map Prod.fst := h.named.symm
  have hkept : ∀ x ∈ cs, (P.component? x.1).map (fun c ↦ (x.1, c)) = some x := by
    intro x hx
    rw [component?, h.kept x hx]
    rfl
  rw [ordered, hnames, List.filterMap_map]
  calc cs.filterMap _ = cs.filterMap some := List.filterMap_congr hkept
    _ = cs := List.filterMap_some

/-- In which status a process is makes no difference to what it declares. -/
theorem Declares.withStatus (h : P.Declares cs) (status : ProcessStatus) :
    { P with status }.Declares cs := ⟨h.named, h.kept⟩

theorem IsComplete.declares (h : P.IsComplete) : P.Declares P.components where
  named := h.named
  kept x hx := by
    rw [← h.ordered] at hx
    obtain ⟨name, -, hname⟩ := List.mem_filterMap.mp hx
    obtain ⟨c, hc, rfl⟩ := Option.map_eq_some_iff.mp hname
    exact hc

end Process

/-- Every process declares the components that it was recorded with. -/
theorem Traffic.Reachable.declares {s : Traffic} (hs : s.Reachable) {p : ProcessRef}
    (hp : p < s.host.processes.count) : (s.process p).Declares (s.process p).components :=
  (hs.isComplete hp).declares

/-! ### Starting -/

/-- What is told, apart from notes, to start a process that was found as it is given and has these
components, what becomes of the process, and how it ends. -/
inductive Starting (ctx : ContextRef) (id : String) (P : Process)
    (cs : List (String × Component)) : List Exchange → Process → Except Error Unit → Prop where
  | started :
      Starting ctx id P cs
        (told (turns .start ctx (successes cs)) ++
          told (announced Topic.processStarted { P with status := .running }))
        { P with status := .running } (.ok ())
  | rolledBack {before after : List (String × Component)} {name : String} {c : Component}
      {e : Error} {stops : List (Component × Except Error Unit)}
      (hcs : cs = before ++ (name, c) :: after)
      (hstops : stops.map Prod.fst = before.reverse.map Prod.snd) :
      Starting ctx id P cs
        (told (turns .start ctx (successes before ++ [(c, .error e)])) ++
          told (turns .stop ctx stops))
        P (.error (.componentStartFailed id name e))

namespace Section.Does

variable {P : Process} {cs : List (String × Component)} {ctx : ContextRef} {id : String}
  {ds : List Deed} {res : Except Error Unit}

/-- A section that is to start a process which has not failed. -/
theorem starting (h : Section.Does { P with locked := true } (.start ctx id) ds res)
    (hcs : P.ordered = cs) (hfine : ∀ reason, P.status ≠ .failed reason) :
    Starting ctx id P cs (withoutNotes (told ds)) (P.after ds) res := by
  rw [← told_account, ← P.after_account, ← hcs]
  cases h with
  | rejected hfailed =>
    obtain ⟨reason, hreason⟩ := Process.exists_reason hfailed
    exact absurd hreason (hfine reason)
  | startFailed _ hfails =>
    obtain ⟨hordered, hstops, hds⟩ := hfails
    rw [hds, told_append, P.after_append, P.after_turns, P.after_turns]
    exact .rolledBack hordered (by simpa using hstops)
  | started _ hds =>
    rw [hds, told_append, told_became, P.after_append, P.after_turns]
    exact .started

end Section.Does

/-- Assumes: a process that is recorded with these components, has not failed, and is not locked; a
context that is not cancelled when the call begins to work on the process; and others who leave the
process alone. All its components are started, in declared order, or those that were started are
stopped again and it stays as it was. -/
theorem Host.startProcess_all_or_nothing {w : Surroundings} {m : ManagerRef} {ctx : ContextRef}
    {id : String} {p : ProcessRef} {h : Host} {cs : List (String × Component)}
    (hfind : (h.managers.get m).find id = .ok p) (hcs : (h.processes.get p).Declares cs)
    (hfine : ∀ reason, (h.processes.get p).status ≠ .failed reason)
    (hfree : (h.processes.get p).locked = false) (hctx : h.contexts.isCancelled ctx = false)
    (hrecord : w.KeepsAtFirst fun g ↦ (g.managers.get m).find id)
    (hflag : w.KeepsAtFirst fun g ↦ g.contexts.isCancelled ctx)
    (hprocess : w.Keeps fun g ↦ g.processes.get p) :
    ∃ res log h', (startProcess m ctx id).run.amid w [] h = some (res, log, h') ∧
      Starting ctx id (h.processes.get p) cs (withoutNotes (exchangesIn log)) (h'.processes.get p)
        res := by
  have hfound : ((w.found [] h).managers.get m).find id = .ok p := (hrecord [] h rfl).trans hfind
  have hchecked : (w.found [.acted (w.found [] h) (w.found [] h)]
      (w.found [] h)).contexts.isCancelled ctx = false :=
    ((hflag _ _ rfl).trans (hflag [] h rfl)).trans hctx
  have hvisited : (startProcess m ctx id).run.EndsAmid w _ [] h :=
    visit_endsAmid (.start ctx id) hprocess hfree hfound
  refine hvisited.mono ?_
  rintro log' h' res ⟨g, rfl, -, -, hvisit⟩
  rw [List.nil_append, hchecked, if_neg Bool.false_ne_true] at hvisit
  obtain ⟨ds, hdoes, htold, hget⟩ := hvisit
  rw [htold, hget]
  exact hdoes.starting hcs.ordered_eq hfine

namespace Small

/-- The second component refuses to start, and none can be stopped. -/
def answersStuck : (call : Call) → call.Reply
  | .lifecycle .stop _ _ => .error (.internal "stuck")
  | call => answersBut "b" call

/-- As soon as the first component is called, the others cancel the context and have the manager
forget the process. -/
def restless : Surroundings where
  found log h :=
    if (exchangesIn log).isEmpty then h
    else { h.forgetting 0 "p" with contexts := h.contexts.cancel 0 }
  reply _ := answersStuck

theorem restless_keepsAtFirst {β : Type} (f : Host → β) : restless.KeepsAtFirst f := by
  intro log h hlog
  simp [restless, hlog]

theorem created_declares :
    (created.host.processes.get 0).Declares [("a", component "a"), ("b", component "b")] := by
  have hcomponents : (created.process 0).components =
      [("a", component "a"), ("b", component "b")] := by decide +kernel
  exact hcomponents ▸ created_reachable.declares (by decide +kernel)

/-- The first component is started, the second refuses, and the first is to be stopped. -/
theorem created_rolls_back : (created.host.managers.get 0).find "p" = .ok 0 ∧
    (created.host.processes.get 0).Declares [("a", component "a"), ("b", component "b")] ∧
    (∀ reason, (created.host.processes.get 0).status ≠ .failed reason) ∧
    (created.host.processes.get 0).locked = false ∧ created.host.contexts.isCancelled 0 = false ∧
    (restless.KeepsAtFirst fun g ↦ (g.managers.get 0).find "p") ∧
    (restless.KeepsAtFirst fun g ↦ g.contexts.isCancelled 0) ∧
    (restless.Keeps fun g ↦ g.processes.get 0) ∧
    ∃ res log h', (Host.startProcess 0 0 "p").run.amid restless [] created.host =
        some (res, log, h') ∧
      Starting 0 "p" (created.host.processes.get 0)
        [("a", component "a"), ("b", component "b")] (withoutNotes (exchangesIn log))
        (h'.processes.get 0) res ∧
      callsIn (exchangesIn log) =
        [(.start, component "a"), (.start, component "b"), (.stop, component "a")] := by
  have hfind : (created.host.managers.get 0).find "p" = .ok 0 :=
    Manager.find_eq_ok (by decide +kernel)
  have hstatus : (created.host.processes.get 0).status = .initialized := by decide +kernel
  have hfine (reason : String) : (created.host.processes.get 0).status ≠ .failed reason := by
    rw [hstatus]
    nofun
  have hfree : (created.host.processes.get 0).locked = false := by decide +kernel
  have hctx : created.host.contexts.isCancelled 0 = false := by decide +kernel
  have hkeeps : restless.Keeps fun g ↦ g.processes.get 0 := by
    intro log h
    simp only [restless]
    split <;> rfl
  have hcalls : (Host.startProcess 0 0 "p").run.EndsAmid restless (fun log _ _ ↦
      callsIn (exchangesIn log) =
        [(.start, component "a"), (.start, component "b"), (.stop, component "a")])
      [] created.host := .of_map (by decide +kernel)
  obtain ⟨res, log, h', hends, hstarting⟩ := Host.startProcess_all_or_nothing hfind
    created_declares hfine hfree hctx (restless_keepsAtFirst _) (restless_keepsAtFirst _) hkeeps
  exact ⟨hfind, created_declares, hfine, hfree, hctx, restless_keepsAtFirst _,
    restless_keepsAtFirst _, hkeeps, res, log, h', hends, hstarting, hcalls.of_amid hends⟩

end Small

end ComponentHost
