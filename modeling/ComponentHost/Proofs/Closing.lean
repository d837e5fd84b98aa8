import ComponentHost.Proofs.Listing
import ComponentHost.Proofs.Operations
import ComponentHost.Proofs.Stopping

/-!
What the host's own plugin stops at its end, with nobody else at work on it.

Each process that runs, and then each service that was started, has its turn (`Attempt`). How a
process is stopped is told by `Halts`, and a service by `Dismisses`; nothing that goes wrong in one
attempt keeps the plugin from the next. `Host.Closes` puts together all that is done. The others are
taken to leave alone what there is to stop (`Surroundings.Settled`), but they may cancel contexts.

While the context is not cancelled every process that runs is asked to stop
(`Host.stopOperations_in_order`). But stopping a process begins with a look at the context: the
processes whose turn comes after it was cancelled are let go of as they are, running, without being
asked (`Host.stopOperations_asks_or_forsakes`).
-/

set_option autoImplicit false

namespace ComponentHost

/-- The others leave alone what there is to stop. They may cancel contexts. -/
structure Surroundings.Settled (w : Surroundings) : Prop where
  managers : w.Keeps Host.managers
  processes : w.Keeps Host.processes
  plugins : w.Keeps Host.operationsPlugins
  registry : w.Keeps Host.registry

theorem Surroundings.undisturbed_settled (reply : (c : Call) → c.Reply) :
    (undisturbed reply).Settled :=
  ⟨undisturbed_keeps _ _, undisturbed_keeps _ _, undisturbed_keeps _ _, undisturbed_keeps _ _⟩

/-! ### Attempts -/

/-- One of those to be stopped has its turn: how the host was found, what was told apart from notes,
and how it ended. -/
structure Attempt where
  found : Host
  told : List Exchange
  outcome : Except Error Unit

/-- What was told in all attempts. -/
def toldIn (xs : List Attempt) : List Exchange := xs.flatMap Attempt.told

@[simp] theorem toldIn_nil : toldIn [] = [] := rfl

@[simp] theorem toldIn_cons (x : Attempt) (xs : List Attempt) :
    toldIn (x :: xs) = x.told ++ toldIn xs := rfl

@[simp] theorem toldIn_append (xs ys : List Attempt) : toldIn (xs ++ ys) = toldIn xs ++ toldIn ys :=
  List.flatMap_append

/-- Just these things had been told when the attempt had its turn. -/
def Attempt.HadTurn (x : Attempt) (xs : List Exchange) (log : List Feat) : Prop :=
  ∃ before, before ++ [.acted x.found x.found] <+: log ∧ withoutNotes (exchangesIn before) = xs

theorem Attempt.HadTurn.later {x : Attempt} {xs : List Exchange} {log log' : List Feat}
    (hx : x.HadTurn xs log) (hgrown : log <+: log') : x.HadTurn xs log' := by
  obtain ⟨before, hbefore, htold⟩ := hx
  exact ⟨before, hbefore.trans hgrown, htold⟩

theorem Attempt.HadTurn.looked {x : Attempt} {xs : List Exchange} {log : List Feat}
    (hx : x.HadTurn xs log) : .acted x.found x.found ∈ log := by
  obtain ⟨before, hbefore, -⟩ := hx
  exact hbefore.subset (List.mem_append_right _ (List.mem_singleton_self _))

/-- The first failure. -/
def firstError : List Attempt → Option Error
  | [] => none
  | x :: rest =>
    match x.outcome with
    | .ok _ => firstError rest
    | .error e => some e

theorem firstError_append (xs ys : List Attempt) :
    firstError (xs ++ ys) = (firstError xs).or (firstError ys) := by
  induction xs with
  | nil => rfl
  | cons x xs ih =>
    rw [List.cons_append, firstError, firstError, ih]
    cases x.outcome <;> rfl

/-- The failure to be answered after one more attempt: it counts if there was none before. -/
def Attempt.failure (x : Attempt) (first : Option Error) : Option Error :=
  match x.outcome with
  | .ok _ => first
  | .error e => some (first.getD e)

theorem Attempt.failure_or (x : Attempt) (first : Option Error) (xs : List Attempt) :
    (x.failure first).or (firstError xs) = first.or (firstError (x :: xs)) := by
  rw [failure, firstError]
  cases x.outcome <;> cases first <;> rfl

/-- The answer to somebody who is told of the first failure only. -/
def concluding : Option Error → Except Error Unit
  | none => .ok ()
  | some e => .error e

/-- How a process that was found as it is given and has these components is stopped, and what
becomes of it. If the context is cancelled no component is called. -/
inductive Halts (ctx : ContextRef) (P : Process) (cs : List (String × Component)) :
    Attempt → Process → Prop where
  | calledOff {g : Host} (hctx : g.contexts.isCancelled ctx = true) :
      Halts ctx P cs ⟨g, [], .error .cancelled⟩ P
  | stopped {g : Host} (hctx : g.contexts.isCancelled ctx = false) :
      Halts ctx P cs ⟨g, told (turns .stop ctx (successes cs.reverse)) ++
        told (announced Topic.processStopped { P with status := .stopped }), .ok ()⟩
        { P with status := .stopped }
  | failed {g : Host} {before after : List (String × Component)} {name : String} {c : Component}
      {e : Error} (hctx : g.contexts.isCancelled ctx = false)
      (hcs : cs.reverse = before ++ (name, c) :: after) :
      Halts ctx P cs ⟨g, told (turns .stop ctx (successes before ++ [(c, .error e)])),
        .error (.componentStopFailed P.id name e)⟩ P

/-- How a service is stopped that was started under an identifier. -/
inductive Dismisses (ctx : ContextRef) (r : Registry) (id : String) : Attempt → Prop where
  | called {g : Host} {c : Component} (hservice : r.service id = .ok c)
      (answer : Except Error Unit) :
      Dismisses ctx r id ⟨g, told (turn .stop ctx (c, answer)), answer⟩
  | unresolved {g : Host} {e : Error} (hservice : r.service id = .error e) :
      Dismisses ctx r id ⟨g, [], .error e⟩

/-- A section that is to stop a process. -/
theorem Section.Does.halting {P : Process} {ctx : ContextRef} {ds : List Deed} {g : Host}
    {res : Except Error Unit} (h : Section.Does { P with locked := true } (.stop ctx P.id) ds res)
    (hctx : g.contexts.isCancelled ctx = false) :
    Halts ctx P P.ordered ⟨g, withoutNotes (told ds), res⟩ (P.after ds) := by
  have hstop := h.stopping rfl
  generalize withoutNotes (told ds) = xs, P.after ds = P' at hstop
  cases hstop with
  | stopped => exact .stopped hctx
  | refused hcs => exact .failed hctx hcs

namespace Host

/-- What is to be stopped, but for the processes, is the same. -/
structure SameSetting (h h' : Host) : Prop where
  recorded : ∀ m, (h'.managers.get m).recorded = (h.managers.get m).recorded
  plugins : h'.operationsPlugins = h.operationsPlugins
  registry : h'.registry = h.registry

theorem SameSetting.refl (h : Host) : h.SameSetting h := ⟨fun _ ↦ rfl, rfl, rfl⟩

theorem SameSetting.trans {h h' h'' : Host} (hh : h.SameSetting h') (hh' : h'.SameSetting h'') :
    h.SameSetting h'' :=
  ⟨fun m ↦ (hh'.recorded m).trans (hh.recorded m), hh'.plugins.trans hh.plugins,
    hh'.registry.trans hh.registry⟩

theorem SameSetting.relinquished {h h' : Host} (hh : h.SameSetting h') (m : ManagerRef)
    (owners : Nat → Nat) : h.SameSetting { h' with
      managers := h'.managers.modify m fun x ↦ { x with owners := owners x.owners } } where
  recorded m' := by
    rw [← hh.recorded]
    by_cases hm : m' = m <;> simp [hm]
  plugins := hh.plugins
  registry := hh.registry

end Host

namespace Surroundings.Settled

variable {w : Surroundings} {h h' : Host} {p : ProcessRef}

/-- Working on a process leaves all else as it is. -/
theorem sameSetting (hw : w.Settled) (hdrift : w.Drifts (Host.SameBut p) h h') :
    h.SameSetting h' ∧ ∀ q ≠ p, h'.processes.get q = h.processes.get q := by
  refine ⟨⟨fun m ↦ ?_, hdrift.kept hw.plugins fun g g' hg ↦ ?_,
    hdrift.kept hw.registry fun g g' hg ↦ ?_⟩, fun q hq ↦ ?_⟩
  · refine hdrift.kept (hw.managers.comp fun x ↦ (x.get m).recorded) fun g g' hg ↦ ?_
    rw [hg.rest]
  · rw [hg.rest]
  · rw [hg.rest]
  · exact hdrift.kept (hw.processes.comp (·.get q)) fun g g' hg ↦ hg.others q hq

theorem found_sameSetting (hw : w.Settled) (log : List Feat) (h : Host) :
    h.SameSetting (w.found log h) :=
  ⟨fun m ↦ by rw [hw.managers], hw.plugins log h, hw.registry log h⟩

end Surroundings.Settled

namespace Host

variable {w : Surroundings} {log : List Feat} {h : Host} {m : ManagerRef} {ctx : ContextRef}
  {p : ProcessRef}

/-- A process can be worked on: it is found under its identifier, and not locked. -/
structure Free (m : ManagerRef) (h : Host) (p : ProcessRef) : Prop where
  find : (h.managers.get m).find (h.processes.get p).id = .ok p
  unlocked : (h.processes.get p).locked = false

theorem Free.of_kept {h' : Host} (hfree : Free m h p)
    (hrecorded : (h'.managers.get m).recorded = (h.managers.get m).recorded)
    (hkept : h'.processes.get p = h.processes.get p) : Free m h' p where
  find := by
    have hfind := hfree.find
    rw [Manager.find] at hfind ⊢
    rwa [hrecorded, hkept]
  unlocked := hkept ▸ hfree.unlocked

/-- Processes have been stopped in order, each in an attempt of its own, and nothing but them has
changed. -/
structure StopsAll (ctx : ContextRef) (h : Host) (log : List Feat) (ps : List ProcessRef)
    (xs : List Attempt) (log' : List Feat) (h' : Host) : Prop where
  halts : List.Forall₂ (fun p x ↦
    Halts ctx (h.processes.get p) (h.processes.get p).ordered x (h'.processes.get p)) ps xs
  turns : ∀ xs₁ x xs₂, xs = xs₁ ++ x :: xs₂ →
    x.HadTurn (withoutNotes (exchangesIn log) ++ toldIn xs₁) log'
  told : withoutNotes (exchangesIn log') = withoutNotes (exchangesIn log) ++ toldIn xs
  others : ∀ q ∉ ps, h'.processes.get q = h.processes.get q

namespace StopsAll

variable {h' h'' : Host} {log' log'' : List Feat} {ps : List ProcessRef} {x : Attempt}
  {xs : List Attempt}

theorem nil (ctx : ContextRef) (h : Host) (log : List Feat) : StopsAll ctx h log [] [] log h where
  halts := .nil
  turns xs₁ x xs₂ hxs := by simp at hxs
  told := (List.append_nil _).symm
  others _ _ := rfl

theorem single (hhalts : Halts ctx (h.processes.get p) (h.processes.get p).ordered x
      (h'.processes.get p))
    (hturn : x.HadTurn (withoutNotes (exchangesIn log)) log')
    (htold : withoutNotes (exchangesIn log') = withoutNotes (exchangesIn log) ++ x.told)
    (hothers : ∀ q ≠ p, h'.processes.get q = h.processes.get q) :
    StopsAll ctx h log [p] [x] log' h' where
  halts := .cons hhalts .nil
  turns xs₁ y xs₂ hxs := by
    obtain ⟨rfl, hy⟩ | ⟨_, rfl, hnil⟩ := List.cons_eq_append_iff.mp hxs
    · cases hy
      simpa using hturn
    · simp at hnil
  told := by simpa using htold
  others q hq := hothers q fun hqp ↦ hq (hqp ▸ List.mem_cons_self)

/-- One process is stopped before the others. -/
theorem cons (hp : StopsAll ctx h log [p] [x] log' h') (hps : StopsAll ctx h' log' ps xs log'' h'')
    (hnew : p ∉ ps) (hgrown : log' <+: log'') :
    StopsAll ctx h log (p :: ps) (x :: xs) log'' h'' where
  halts := by
    have hhead : Halts ctx (h.processes.get p) (h.processes.get p).ordered x
        (h'.processes.get p) := by
      cases hp.halts with
      | cons hhalts _ => exact hhalts
    obtain ⟨hlength, hzip⟩ := List.forall₂_iff_zip.mp hps.halts
    refine .cons (by rwa [hps.others p hnew]) (List.forall₂_iff_zip.mpr ⟨hlength, ?_⟩)
    intro q y hqy
    have hq : q ∉ [p] := fun hmem ↦
      hnew (List.mem_singleton.mp hmem ▸ (List.of_mem_zip hqy).1)
    have hhalts := hzip hqy
    rwa [hp.others q hq] at hhalts
  turns xs₁ y xs₂ hxs := by
    obtain ⟨rfl, hy⟩ | ⟨xs₁', rfl, hxs'⟩ := List.cons_eq_append_iff.mp hxs
    · cases hy
      exact (hp.turns [] x [] rfl).later hgrown
    · have hturn := hps.turns xs₁' y xs₂ hxs'
      rw [hp.told, List.append_assoc, ← toldIn_append] at hturn
      exact hturn
  told := by
    rw [hps.told, hp.told, List.append_assoc]
    simp
  others q hq := by
    rw [hps.others q fun hmem ↦ hq (List.mem_cons_of_mem _ hmem),
      hp.others q fun hmem ↦ hq (List.mem_singleton.mp hmem ▸ List.mem_cons_self)]

/-- An act before that leaves the processes alone makes no difference. -/
theorem of_acted {g : Host} (hps : StopsAll ctx h' (log ++ [.acted g h']) ps xs log' h'')
    (hkept : h'.processes = h.processes) : StopsAll ctx h log ps xs log' h'' where
  halts := hkept ▸ hps.halts
  turns := by simpa using hps.turns
  told := by simpa using hps.told
  others := hkept ▸ hps.others

/-- An act after that leaves the processes alone makes no difference. -/
theorem acted {g : Host} (hps : StopsAll ctx h log ps xs log' h')
    (hkept : h''.processes = h'.processes) :
    StopsAll ctx h log ps xs (log' ++ [.acted g h'']) h'' where
  halts := hkept ▸ hps.halts
  turns xs₁ x xs₂ hxs := (hps.turns xs₁ x xs₂ hxs).later (List.prefix_append ..)
  told := by simpa using hps.told
  others := hkept ▸ hps.others

end StopsAll

theorem stopProcess_stopsAll (hw : w.Settled) (hfree : Free m h p) :
    (stopProcess m ctx (h.processes.get p).id).run.EndsAmid w (fun log' h' res ↦
      ∃ x : Attempt, res = x.outcome ∧ StopsAll ctx h log [p] [x] log' h' ∧ h.SameSetting h')
      log h := by
  have hprocess : w.Keeps (·.processes.get p) := hw.processes.comp (·.get p)
  have hfind : ((w.found log h).managers.get m).find (h.processes.get p).id = .ok p := by
    rw [hw.managers]
    exact hfree.find
  have hvisited : (stopProcess m ctx (h.processes.get p).id).run.EndsAmid w _ log h :=
    visit_endsAmid (.stop ctx (h.processes.get p).id) hprocess hfree.unlocked hfind
  refine hvisited.mono ?_
  rintro log' h' res ⟨g, hg, hlooked, hdrift, hvisit⟩
  obtain ⟨hsame, hothers⟩ := hw.sameSetting hdrift
  have hturn {xs : List Exchange} {res : Except Error Unit} : Attempt.HadTurn ⟨g, xs, res⟩
      (withoutNotes (exchangesIn log)) log' :=
    ⟨log ++ [.acted (w.found log h) (w.found log h)], by simpa using hlooked, by simp⟩
  cases hctx : g.contexts.isCancelled ctx with
  | true =>
    rw [hctx, if_pos rfl] at hvisit
    obtain ⟨rfl, htold, rfl⟩ := hvisit
    have hkept : h'.processes.get p = h.processes.get p := by
      rw [hg]
      exact (hprocess _ _).trans (hprocess _ _)
    have hhalts : Halts ctx (h.processes.get p) (h.processes.get p).ordered
        ⟨h', [], .error .cancelled⟩ (h'.processes.get p) := hkept ▸ .calledOff hctx
    exact ⟨_, rfl, .single hhalts hturn (by simp [htold]) hothers, hsame⟩
  | false =>
    rw [hctx, if_neg Bool.false_ne_true] at hvisit
    obtain ⟨ds, hdoes, htold, hget⟩ := hvisit
    have hhalts : Halts ctx (h.processes.get p) (h.processes.get p).ordered
        ⟨g, withoutNotes (told ds), res⟩ (h'.processes.get p) := hget ▸ hdoes.halting hctx
    exact ⟨_, rfl, .single hhalts hturn (by rw [htold, withoutNotes_append]) hothers, hsame⟩

/-- Those of some processes that run. -/
def running (h : Host) (ps : List ProcessRef) : List ProcessRef :=
  ps.filter fun p ↦ (h.processes.get p).status = .running

theorem running_cons_of_pos {ps : List ProcessRef}
    (hrunning : (h.processes.get p).status = .running) : h.running (p :: ps) = p :: h.running ps :=
  List.filter_cons_of_pos (by simpa using hrunning)

theorem running_cons_of_neg {ps : List ProcessRef}
    (hrunning : (h.processes.get p).status ≠ .running) : h.running (p :: ps) = h.running ps :=
  List.filter_cons_of_neg (by simpa using hrunning)

theorem mem_running_cons {ps : List ProcessRef} {q : ProcessRef} (p : ProcessRef)
    (hq : q ∈ h.running ps) : q ∈ h.running (p :: ps) :=
  ((List.sublist_cons_self p ps).filter _).subset hq

theorem running_congr {h' : Host} {ps : List ProcessRef}
    (hps : ∀ p ∈ ps, h'.processes.get p = h.processes.get p) : h'.running ps = h.running ps :=
  List.filter_congr fun p hp ↦ by rw [hps p hp]

/-- The processes of a manager that run, in the order of their numbers. -/
def runningOf (h : Host) (m : ManagerRef) : List ProcessRef := h.running (h.listed m)

theorem mem_runningOf : p ∈ h.runningOf m ↔ h.Runs m p := by
  rw [runningOf, running, List.mem_filter, decide_eq_true_iff, Runs]

/-- What is recorded and the processes are the same. -/
structure SameProcesses (m : ManagerRef) (h h' : Host) : Prop where
  recorded : (h'.managers.get m).recorded = (h.managers.get m).recorded
  processes : h'.processes = h.processes

theorem SameProcesses.listed {h' : Host} (hsame : SameProcesses m h h') :
    h'.listed m = h.listed m := by
  rw [Host.listed, Host.listed, sorted, sorted, hsame.recorded, hsame.processes]

theorem SameProcesses.runningOf {h' : Host} (hsame : SameProcesses m h h') :
    h'.runningOf m = h.runningOf m := by
  rw [Host.runningOf, hsame.listed]
  exact running_congr fun p _ ↦ by rw [hsame.processes]

theorem found_sameProcesses (hw : w.Settled) (m : ManagerRef) (log : List Feat) (h : Host) :
    SameProcesses m h (w.found log h) := ⟨by rw [hw.managers], hw.processes log h⟩

/-- All processes of a manager that run can be worked on, one after the other. -/
structure AllFree (m : ManagerRef) (h : Host) : Prop where
  nodup : (h.listed m).Nodup
  free : ∀ p ∈ h.runningOf m, Free m h p

theorem AllFree.of_same {h' : Host} (hall : AllFree m h) (hsame : SameProcesses m h h') :
    AllFree m h' where
  nodup := hsame.listed ▸ hall.nodup
  free p hp := (hall.free p (hsame.runningOf ▸ hp)).of_kept hsame.recorded (by rw [hsame.processes])

theorem stopRunning_stopsAll (hw : w.Settled) (first : Option Error) {ps : List ProcessRef}
    (hnodup : ps.Nodup) (hfree : ∀ p ∈ h.running ps, Free m h p) :
    (stopRunning m ctx first ps).EndsAmid w (fun log' h' res ↦ ∃ xs : List Attempt,
      res = first.or (firstError xs) ∧ StopsAll ctx h log (h.running ps) xs log' h' ∧
        h.SameSetting h') log h := by
  induction ps generalizing log h first with
  | nil => exact .done ⟨[], by simp [firstError], .nil ctx h log, .refl h⟩
  | cons p rest ih =>
    obtain ⟨hp, hrest⟩ := List.nodup_cons.mp hnodup
    have hprocesses : (w.found log h).processes = h.processes := hw.processes log h
    -- those that are still to be stopped are as they were when the first was looked at
    have hgoes (first : Option Error) {log₁ : List Feat} {h₁ : Host}
        (hsetting : h.SameSetting h₁)
        (hkept : ∀ q ∈ rest, h₁.processes.get q = h.processes.get q) :
        (stopRunning m ctx first rest).EndsAmid w (fun log' h' res ↦ ∃ xs : List Attempt,
          res = first.or (firstError xs) ∧ StopsAll ctx h₁ log₁ (h.running rest) xs log' h' ∧
            h.SameSetting h') log₁ h₁ := by
      have hsame : h₁.running rest = h.running rest := running_congr hkept
      refine (ih first hrest fun q hq ↦ ?_).mono ?_
      · have hmem : q ∈ h.running rest := hsame ▸ hq
        exact (hfree q (mem_running_cons p hmem)).of_kept (hsetting.recorded m)
          (hkept q (List.mem_of_mem_filter hmem))
      · rintro log' h' res ⟨xs, hres, hxs, hset⟩
        exact ⟨xs, hres, hsame ▸ hxs, hsetting.trans hset⟩
    refine .gets ?_
    have hfound := hw.found_sameSetting log h
    rw [hprocesses]
    by_cases hrunning : (h.processes.get p).status = .running
    · rw [if_pos hrunning, running_cons_of_pos hrunning]
      have hmem : p ∈ h.running (p :: rest) := by
        rw [running_cons_of_pos hrunning]
        exact List.mem_cons_self
      have hfree₁ : Free m (w.found log h) p :=
        (hfree p hmem).of_kept (hfound.recorded m) (by rw [hprocesses])
      rw [← hprocesses]
      refine .bind ((stopProcess_stopsAll hw hfree₁).mono ?_)
      rintro log₁ h₁ res ⟨x, rfl, hx, hset⟩
      have hnew : p ∉ h.running rest := fun hmem ↦ hp (List.mem_of_mem_filter hmem)
      have hnext : (stopRunning m ctx (x.failure first) rest).EndsAmid w (fun log' h' res ↦
          ∃ xs : List Attempt, res = first.or (firstError xs) ∧
            StopsAll ctx h log (p :: h.running rest) xs log' h' ∧ h.SameSetting h') log₁ h₁ := by
        refine (hgoes _ (hfound.trans hset) fun q hq ↦ ?_).growing.mono ?_
        · rw [hx.others q fun hqp ↦ hp (List.mem_singleton.mp hqp ▸ hq), hprocesses]
        · rintro log' h' _ ⟨⟨xs, rfl, hxs, hset'⟩, hgrown⟩
          have hall := (hx.cons hxs hnew hgrown).of_acted hprocesses
          exact ⟨x :: xs, x.failure_or first xs, hall, hset'⟩
      cases hx' : x.outcome with
      | ok u => simpa only [Attempt.failure, hx'] using hnext
      | error e => simpa only [Attempt.failure, hx'] using hnext
    · rw [if_neg hrunning, running_cons_of_neg hrunning]
      refine (hgoes first hfound fun q _ ↦ by rw [hprocesses]).mono ?_
      rintro log' h' res ⟨xs, hres, hxs, hset⟩
      exact ⟨xs, hres, hxs.of_acted hprocesses, hset⟩

/-! ### Services -/

/-- A service is looked up, and called if there is one. -/
theorem performService_endsAmid {phase : Phase} {id : String}
    {Q : List Feat → Host → Except Error Unit → Prop} (hregistry : w.Keeps Host.registry)
    (hcalled : ∀ c answer, h.registry.service id = .ok c →
      Q (log ++ [.acted (w.found log h) (w.found log h), .said (.asked (.lifecycle phase c ctx)),
        .said (.answered (.lifecycle phase c ctx) answer)]) (w.found log h) answer)
    (hunresolved : ∀ e, h.registry.service id = .error e →
      Q (log ++ [.acted (w.found log h) (w.found log h)]) (w.found log h) (.error e)) :
    (performService phase ctx id).run.EndsAmid w Q log h := by
  refine .andThen (inspect_endsAmid ?_)
  rw [hregistry]
  cases hservice : h.registry.service id with
  | error e => exact hunresolved e hservice
  | ok c =>
    refine .call fun answer ↦ .done ?_
    simpa using hcalled c answer hservice

theorem performService_dismisses (hregistry : w.Keeps Host.registry) (id : String) :
    (performService .stop ctx id).run.EndsAmid w (fun log' h' res ↦ ∃ x : Attempt,
      res = x.outcome ∧ Dismisses ctx h.registry id x ∧
        withoutNotes (exchangesIn log') = withoutNotes (exchangesIn log) ++ x.told ∧
        h' = w.found log h) log h := by
  refine performService_endsAmid hregistry (fun c answer hservice ↦ ?_) fun e hservice ↦ ?_
  · refine ⟨_, rfl, .called (g := w.found log h) hservice answer, ?_, rfl⟩
    simp [turn, Exchange.call, Call.isNote]
  · exact ⟨_, rfl, .unresolved (g := w.found log h) hservice, by simp, rfl⟩

/-- Services have been stopped in order, each in an attempt of its own, and no process was
touched. -/
structure DismissesAll (ctx : ContextRef) (h : Host) (log : List Feat) (ids : List String)
    (xs : List Attempt) (log' : List Feat) (h' : Host) : Prop where
  dismisses : List.Forall₂ (Dismisses ctx h.registry) ids xs
  told : withoutNotes (exchangesIn log') = withoutNotes (exchangesIn log) ++ toldIn xs
  processes : h'.processes = h.processes

/-- Nothing differs but what plugins keep in mind. -/
def SameButPlugins (h h' : Host) : Prop := h' = { h with operationsPlugins := h'.operationsPlugins }

/-- Services have been stopped in order, each in an attempt of its own, the plugin has none left,
and all else is as the others have made it. -/
structure Clears (w : Surroundings) (ref : PluginRef) (ctx : ContextRef) (ids : List String)
    (xs : List Attempt) (h : Host) (log : List Feat) (h' : Host) (log' : List Feat) : Prop where
  dismisses : List.Forall₂ (Dismisses ctx h.registry) ids xs
  told : withoutNotes (exchangesIn log') = withoutNotes (exchangesIn log) ++ toldIn xs
  plugin : h'.operationsPlugins.get ref = { h.operationsPlugins.get ref with started := [] }
  drift : w.Drifts SameButPlugins h h'

variable {ref : PluginRef}

/-- Services are stopped in order, whatever comes of it, as long as the others leave them and the
plugin alone. -/
theorem stopServices_clears (hregistry : w.Keeps Host.registry)
    (hplugin : w.Keeps (·.operationsPlugins.get ref)) (first : Option Error) {ids : List String}
    (hids : (h.operationsPlugins.get ref).started = ids) :
    (stopServices ref ctx first ids).EndsAmid w (fun log' h' res ↦ ∃ xs : List Attempt,
      res = first.or (firstError xs) ∧ Clears w ref ctx ids xs h log h' log') log h := by
  induction ids generalizing log h first with
  | nil =>
    refine .done ⟨[], by simp [firstError], .nil, (List.append_nil _).symm, ?_, .refl⟩
    rw [← hids]
  | cons id rest ih =>
    refine .modify (.bind ((performService_dismisses hregistry id).mono ?_))
    rintro log₁ h₁ _ ⟨x, rfl, hx, htold, hh₁⟩
    have hsame : h₁.registry = h.registry := by
      rw [hh₁, hregistry]
      exact hregistry log h
    have hdata : h₁.operationsPlugins.get ref =
        { h.operationsPlugins.get ref with started := rest } := by
      rw [hh₁]
      refine (hplugin _ _).trans ?_
      simp only [Store.get_modify_self]
      exact congrArg ({ · with started := rest }) (hplugin log h)
    have hdrift : w.Drifts SameButPlugins h h₁ := by
      rw [hh₁]
      refine .trans (.found log h) (.trans (.acted ?_) (.found _ _))
      rfl
    have hnext : (stopServices ref ctx (x.failure first) rest).EndsAmid w (fun log' h' res ↦
        ∃ xs : List Attempt, res = first.or (firstError xs) ∧
          Clears w ref ctx (id :: rest) xs h log h' log') log₁ h₁ := by
      refine (ih _ (by rw [hdata])).mono ?_
      rintro log' h' _ ⟨xs, rfl, hxs⟩
      refine ⟨x :: xs, x.failure_or first xs, ?_⟩
      exact {
        dismisses := .cons (hregistry log h ▸ hx) (hsame ▸ hxs.dismisses)
        told := by simp [hxs.told, htold]
        plugin := by rw [hxs.plugin, hdata]
        drift := hdrift.trans hxs.drift }
    cases hx' : x.outcome with
    | ok u => simpa only [Attempt.failure, hx'] using hnext
    | error e => simpa only [Attempt.failure, hx'] using hnext

/-- All services that were started are stopped, the latest first. -/
theorem stopStarted_clears (hregistry : w.Keeps Host.registry)
    (hplugin : w.Keeps (·.operationsPlugins.get ref)) :
    (stopStarted ref ctx).EndsAmid w (fun log' h' res ↦ ∃ xs : List Attempt,
      res = firstError xs ∧ Clears w ref ctx (h.operationsPlugins.get ref).started xs h log h' log')
      log h := by
  have hfound : (w.found log h).operationsPlugins.get ref = h.operationsPlugins.get ref :=
    hplugin log h
  refine .gets ?_
  rw [hfound]
  refine (stopServices_clears hregistry hplugin none (by rw [hfound])).mono ?_
  rintro log' h' res ⟨xs, hres, hxs⟩
  refine ⟨xs, by simpa using hres, ?_⟩
  exact {
    dismisses := hregistry log h ▸ hxs.dismisses
    told := by simpa using hxs.told
    plugin := by rw [hxs.plugin, hfound]
    drift := .trans (.found log h) hxs.drift }

/-! ### The host's own plugin -/

theorem stopListed_stopsAll (hw : w.Settled) (hall : AllFree m h) :
    (stopListed m ctx).EndsAmid w (fun log' h' res ↦ ∃ xs : List Attempt,
      res = firstError xs ∧ StopsAll ctx h log (h.runningOf m) xs log' h' ∧ h.SameSetting h')
      log h := by
  have hsame := found_sameProcesses hw m log h
  have hfound := hw.found_sameSetting log h
  refine .gets (.bind ?_)
  have hall₁ := hall.of_same hsame
  refine (stopRunning_stopsAll hw none hall₁.nodup hall₁.free).mono ?_
  rintro log₁ h₁ _ ⟨xs, rfl, hxs, hset⟩
  rw [← runningOf, hsame.runningOf] at hxs
  have hkept : (w.found log₁ h₁).processes = h₁.processes := hw.processes log₁ h₁
  refine .modify (.done ⟨xs, rfl, (hxs.of_acted hsame.processes).acted hkept, ?_⟩)
  exact (hfound.trans (hset.trans (hw.found_sameSetting log₁ h₁))).relinquished m (· - 1)

theorem stopManaged_stopsAll (hw : w.Settled) (hall : AllFree m h) :
    (stopManaged ref ctx m).EndsAmid w (fun log' h' res ↦ ∃ xs : List Attempt,
      res = firstError xs ∧ StopsAll ctx h log (h.runningOf m) xs log' h' ∧
        h'.registry = h.registry ∧
          h'.operationsPlugins.get ref = { h.operationsPlugins.get ref with manager := none })
      log h := by
  have hsame := found_sameProcesses hw m log h
  rw [stopManaged_eq]
  refine .modify ?_
  -- the plugin has let go of its manager, and all else is as it was
  generalize hh₁ : ({ w.found log h with operationsPlugins := _ } : Host) = h₁
  have hsame₁ : SameProcesses m h h₁ := hh₁ ▸ ⟨hsame.recorded, hsame.processes⟩
  refine (stopListed_stopsAll hw (hall.of_same hsame₁)).mono ?_
  rintro log' h' _ ⟨xs, rfl, hxs, hset⟩
  rw [hsame₁.runningOf] at hxs
  refine ⟨xs, rfl, hxs.of_acted hsame₁.processes, ?_, ?_⟩
  · rw [hset.registry, ← hh₁]
    exact hw.registry log h
  · simp only [hset.plugins, ← hh₁, Store.get_modify_self, hw.plugins log h]

theorem stopRest_dismissesAll (hw : w.Settled) (first : Option Error) :
    (stopRest ref ctx first).run.EndsAmid w (fun log' h' res ↦ ∃ ys : List Attempt,
      res = concluding (first.or (firstError ys)) ∧
        DismissesAll ctx h log (h.operationsPlugins.get ref).started ys log' h' ∧
          h'.operationsPlugins.get ref =
            { h.operationsPlugins.get ref with attached := false, started := [] }) log h := by
  refine .andThen (.lift ((stopStarted_clears hw.registry (hw.plugins.comp (·.get ref))).mono ?_))
  rintro log₁ h₁ _ ⟨ys, rfl, hys⟩
  refine .andThen (.lift (.modify (.done ?_)))
  generalize hh' : ({ w.found log₁ h₁ with operationsPlugins := _ } : Host) = h'
  have hdismisses {g : Host} : DismissesAll ctx h log (h.operationsPlugins.get ref).started ys
      (log₁ ++ [.acted g h']) h' := {
    dismisses := hys.dismisses
    told := by simpa using hys.told
    processes := by
      rw [← hh']
      exact (hw.processes _ _).trans (hys.drift.kept hw.processes fun g g' hg ↦ by rw [hg]) }
  have hplugin : h'.operationsPlugins.get ref =
      { h.operationsPlugins.get ref with attached := false, started := [] } := by
    simp only [← hh', Store.get_modify_self, hw.plugins log₁ h₁, hys.plugin]
  cases hfirst : first.or (firstError ys) with
  | none => exact .done ⟨ys, by rw [hfirst, concluding], hdismisses, hplugin⟩
  | some e => exact .done ⟨ys, by rw [hfirst, concluding], hdismisses, hplugin⟩

theorem requireAttached_endsAmid {Q : List Feat → Host → Except Error OperationsPlugin → Prop}
    (hattached : ((w.found log h).operationsPlugins.get ref).attached = true)
    (hQ : Q (log ++ [.acted (w.found log h) (w.found log h)]) (w.found log h)
      (.ok ((w.found log h).operationsPlugins.get ref))) :
    (requireAttached ref).run.EndsAmid w Q log h := by
  refine .andThen (.lift (.act (.done ?_)))
  simp only [hattached]
  exact .done hQ

/-- These are the processes of a manager that run, each once, in the order of their numbers. -/
structure ListsRunning (h : Host) (m : ManagerRef) (ps : List ProcessRef) : Prop where
  nodup : ps.Nodup
  all : ∀ p, p ∈ ps ↔ h.Runs m p
  ordered : ps.Pairwise fun p q ↦ (h.processes.get p).seq ≤ (h.processes.get q).seq
  /-- If the numbers increase this is the order in which the processes were recorded. -/
  recorded : (h.seqs m).Pairwise (· < ·) → ps.Sublist (h.recorded m)

theorem listsRunning_runningOf (hnodup : (h.listed m).Nodup) :
    h.ListsRunning m (h.runningOf m) where
  nodup := hnodup.filter _
  all _ := mem_runningOf
  ordered := (h.lists_listed m).ordered.filter _
  recorded hseqs := by
    rw [runningOf, listed_eq_recorded hseqs]
    exact List.filter_sublist

/-- All that a stop of the host's own plugin is to do: those processes of its manager that run are
stopped in their order, each of these components, and then the services it has started, the latest
first, each in an attempt of its own and whatever has come of the others; no other process is
touched, and the plugin has nothing left. -/
structure Closes (ref : PluginRef) (m : ManagerRef) (ctx : ContextRef) (h : Host)
    (cs : ProcessRef → List (String × Component)) (ps : List ProcessRef) (xs ys : List Attempt)
    (log : List Feat) (h' : Host) : Prop where
  lists : h.ListsRunning m ps
  halts : List.Forall₂ (fun p x ↦ Halts ctx (h.processes.get p) (cs p) x (h'.processes.get p)) ps xs
  turns : ∀ xs₁ x xs₂, xs = xs₁ ++ x :: xs₂ → x.HadTurn (toldIn xs₁) log
  dismisses : List.Forall₂ (Dismisses ctx h.registry) (h.operationsPlugins.get ref).started ys
  told : withoutNotes (exchangesIn log) = toldIn (xs ++ ys)
  others : ∀ p, ¬h.Runs m p → h'.processes.get p = h.processes.get p
  plugin : h'.operationsPlugins.get ref =
    { h.operationsPlugins.get ref with manager := none, attached := false, started := [] }

/-- The host's own plugin is set up, with a manager of its own, and nobody is at work on a process
of this manager that runs. -/
structure Closable (h : Host) (ref : PluginRef) (m : ManagerRef) : Prop where
  attached : (h.operationsPlugins.get ref).attached = true
  manager : (h.operationsPlugins.get ref).manager = some m
  tidy : h.Tidy
  idle : ∀ p, h.Runs m p → (h.processes.get p).locked = false

theorem Tidy.nodup_listed (hh : h.Tidy) : (h.listed m).Nodup := by
  refine (h.sorted_perm _).nodup_iff.mpr ((List.Nodup.of_map _ (hh.distinct m)).map_on ?_)
  -- a process is recorded under one identifier only, its own
  rintro ⟨id, p⟩ hp ⟨id', q⟩ hq (rfl : p = q)
  rw [← (hh.named m id p hp).2, ← (hh.named m id' p hq).2]

theorem Closable.allFree (hh : h.Closable ref m) : AllFree m h where
  nodup := hh.tidy.nodup_listed
  free p hp := by
    have hruns := mem_runningOf.mp hp
    exact ⟨hh.tidy.find_of_runs hruns, hh.idle p hruns⟩

variable {cs : ProcessRef → List (String × Component)}

theorem stopOperations_closes (hw : w.Settled) (hh : h.Closable ref m)
    (hcs : ∀ p, h.Runs m p → (h.processes.get p).ordered = cs p) :
    (stopOperations ref ctx).run.EndsAmid w (fun log' h' res ↦ ∃ ps xs ys,
      Closes ref m ctx h cs ps xs ys log' h' ∧ res = concluding (firstError (xs ++ ys))) [] h := by
  have hsame := found_sameProcesses hw m [] h
  have hfound := hw.found_sameSetting [] h
  rw [stopOperations_eq]
  refine .andThen (requireAttached_endsAmid (by rw [hfound.plugins, hh.attached]) ?_)
  simp only [hfound.plugins, hh.manager]
  refine .andThen (.lift ((stopManaged_stopsAll hw (hh.allFree.of_same hsame)).mono ?_))
  rintro log₁ h₁ _ ⟨xs, rfl, hxs, hregistry₁, hplugin₁⟩
  rw [hsame.runningOf] at hxs
  have hxs := hxs.of_acted hsame.processes
  refine (stopRest_dismissesAll hw _).growing.mono ?_
  rintro log' h' _ ⟨⟨ys, rfl, hys, hplugin'⟩, hgrown⟩
  refine ⟨h.runningOf m, xs, ys, ?_, by rw [firstError_append]⟩
  exact {
    lists := listsRunning_runningOf hh.tidy.nodup_listed
    halts := by
      obtain ⟨hlength, hzip⟩ := List.forall₂_iff_zip.mp hxs.halts
      refine List.forall₂_iff_zip.mpr ⟨hlength, fun {p x} hpx ↦ ?_⟩
      rw [← hcs p (mem_runningOf.mp (List.of_mem_zip hpx).1), hys.processes]
      exact hzip hpx
    turns := fun xs₁ x xs₂ hsplit ↦ (hxs.turns xs₁ x xs₂ hsplit).later hgrown
    dismisses := by
      have hdismisses := hys.dismisses
      rwa [hregistry₁, hplugin₁, hfound.registry, hfound.plugins] at hdismisses
    told := by
      rw [hys.told, hxs.told, toldIn_append]
      rfl
    others := fun p hp ↦ by
      rw [hys.processes]
      exact hxs.others p fun hmem ↦ hp (mem_runningOf.mp hmem)
    plugin := by rw [hplugin', hplugin₁, hfound.plugins] }

theorem Minds.contexts {h' : Host} (hh : h.Minds ref h') : h'.contexts = h.contexts := by
  cases hh with
  | touches hh => rw [hh.eq_with]
  | keeps f => rfl

/-- If the others leave the context alone then every attempt finds it as it was at first. -/
theorem found_isCancelled {res : Except Error Unit} {log : List Feat} {h' : Host}
    {ps : List ProcessRef} {xs ys : List Attempt}
    (hflag : w.Keeps fun g ↦ g.contexts.isCancelled ctx)
    (hends : (stopOperations ref ctx).run.amid w [] h = some (res, log, h'))
    (hcloses : Closes ref m ctx h cs ps xs ys log h') {x : Attempt} (hx : x ∈ xs) :
    x.found.contexts.isCancelled ctx = h.contexts.isCancelled ctx := by
  obtain ⟨xs₁, xs₂, hsplit⟩ := List.append_of_mem hx
  have hlooked : .acted x.found x.found ∈ log := (hcloses.turns xs₁ x xs₂ hsplit).looked
  have hdrift : w.Drifts (Minds ref) h x.found :=
    (((stopOperations_acts ctx).drifts hends).2 _ _ hlooked).resolve_left List.not_mem_nil
  exact hdrift.kept hflag fun g g' hg ↦ by rw [hg.contexts]

/-- Assumes: the plugin is set up and nobody is at work on what it is to stop, the processes that
run declare these components, the others leave all that alone, and the context is not cancelled
before or meanwhile. Then every process of the manager that runs is stopped in its turn, in reverse
declared order as far as its components can be stopped, and so is every service that was started;
the first failure of all is answered. -/
theorem stopOperations_in_order (hh : h.Closable ref m)
    (hcs : ∀ p, h.Runs m p → (h.processes.get p).Declares (cs p)) (hw : w.Settled)
    (hctx : h.contexts.isCancelled ctx = false)
    (hflag : w.Keeps fun g ↦ g.contexts.isCancelled ctx) :
    ∃ res log h' ps xs ys, (stopOperations ref ctx).run.amid w [] h = some (res, log, h') ∧
      Closes ref m ctx h cs ps xs ys log h' ∧
      (∀ x ∈ xs, x.found.contexts.isCancelled ctx = false) ∧
        res = concluding (firstError (xs ++ ys)) := by
  have hcloses : (stopOperations ref ctx).run.EndsAmid w _ [] h :=
    stopOperations_closes hw hh fun p hp ↦ (hcs p hp).ordered_eq
  obtain ⟨res, log, h', hends, ps, xs, ys, hcloses, hres⟩ := hcloses
  exact ⟨res, log, h', ps, xs, ys, hends, hcloses, fun x hx ↦
    (found_isCancelled hflag hends hcloses hx).trans hctx, hres⟩

end Host

namespace Small

/-- A process of two components that runs if its number is even. -/
def numbered (p : ProcessRef) : Process :=
  { id := if p = 0 then "p" else if p = 1 then "q" else "r"
    config
    components := [("a", component "a"), ("b", component "b")]
    status := if p % 2 = 0 then .running else .initialized
    createdAt := .epoch
    seq := .ofNat (p + 1) }

/-- A host with three processes, whose own plugin has started the services with these identifiers;
the only service there is has the identifier `s`. -/
def hostAtWork (contexts : Contexts) (services : List String) : Host :=
  { contexts
    registry := { components := [("s", { component "a" with kind := .service })] }
    managers := ⟨1, fun _ ↦ { generator := 0, recorded := [("r", 2), ("p", 0), ("q", 1)] }⟩
    processes := ⟨3, numbered⟩
    operationsPlugins :=
      ⟨1, fun _ ↦ { generator := 0, attached := true, manager := some 0, started := services }⟩ }

theorem hostAtWork_closable (contexts : Contexts) (services : List String) :
    (hostAtWork contexts services).Closable 0 0 where
  attached := rfl
  manager := rfl
  tidy := by
    have hdistinct : ["r", "p", "q"].Nodup := by decide
    have hnamed : ∀ x ∈ [("r", 2), ("p", 0), ("q", 1)], x.2 < 3 ∧ (numbered x.2).id = x.1 := by
      decide
    exact ⟨fun _ ↦ hdistinct, fun _ id p hmem ↦ hnamed (id, p) hmem⟩
  idle _ _ := rfl

theorem numbered_declares (p : ProcessRef) :
    (numbered p).Declares [("a", component "a"), ("b", component "b")] where
  named := rfl
  kept := by
    show ∀ x ∈ [("a", component "a"), ("b", component "b")],
      Table.get? [("a", component "a"), ("b", component "b")] x.1 = some x.2
    decide +kernel

theorem hostAtWork_listed (contexts : Contexts) (services : List String) {h : Host}
    (hsame : Host.SameProcesses 0 (hostAtWork contexts services) h) : h.listed 0 = [0, 1, 2] := by
  rw [hsame.listed]
  show (hostAtWork contexts services).sorted [2, 0, 1] = _
  simp [Host.sorted, hostAtWork, numbered, List.mergeSort]

/-- The last component of each process that runs refuses, and so does the service. -/
theorem hostAtWork_calls : (Host.stopOperations 0 0).run.EndsAmid (.undisturbed answersStuck)
    (fun log _ _ ↦ callsIn (exchangesIn log) = [(.stop, component "b"), (.stop, component "b"),
      (.stop, { component "a" with kind := .service })]) [] (hostAtWork .empty ["gone", "s"]) := by
  rw [Host.stopOperations_eq]
  refine .andThen (Host.requireAttached_endsAmid rfl ?_)
  refine .andThen (.lift (.modify (.gets (.bind ?_))))
  -- sorting the processes is not for the kernel to compute; all that comes after it is
  rw [hostAtWork_listed .empty ["gone", "s"] (by exact ⟨rfl, rfl⟩)]
  exact ⟨_, _, _, rfl, _, _, _, rfl, _, _, _, rfl, by decide +kernel⟩

/-- Nothing can be stopped, and one of the services is gone. -/
theorem hostAtWork_closes : (hostAtWork .empty ["gone", "s"]).Closable 0 0 ∧
    (∀ p, (hostAtWork .empty ["gone", "s"]).Runs 0 p →
      ((hostAtWork .empty ["gone", "s"]).processes.get p).Declares
        [("a", component "a"), ("b", component "b")]) ∧
    (Surroundings.undisturbed answersStuck).Settled ∧
    (hostAtWork .empty ["gone", "s"]).contexts.isCancelled 0 = false ∧
    ((Surroundings.undisturbed answersStuck).Keeps fun g ↦ g.contexts.isCancelled 0) ∧
    ∃ res log h' ps xs ys, (Host.stopOperations 0 0).run.amid (.undisturbed answersStuck) []
        (hostAtWork .empty ["gone", "s"]) = some (res, log, h') ∧
      Host.Closes 0 0 0 (hostAtWork .empty ["gone", "s"])
        (fun _ ↦ [("a", component "a"), ("b", component "b")]) ps xs ys log h' ∧
      (∀ x ∈ xs, x.found.contexts.isCancelled 0 = false) ∧
      res = concluding (firstError (xs ++ ys)) ∧
      callsIn (exchangesIn log) = [(.stop, component "b"), (.stop, component "b"),
        (.stop, { component "a" with kind := .service })] := by
  have hh := hostAtWork_closable .empty ["gone", "s"]
  have hcs (p : ProcessRef) : (hostAtWork .empty ["gone", "s"]).Runs 0 p →
      ((hostAtWork .empty ["gone", "s"]).processes.get p).Declares
        [("a", component "a"), ("b", component "b")] := fun _ ↦ numbered_declares p
  have hw := Surroundings.undisturbed_settled answersStuck
  have hflag := Surroundings.undisturbed_keeps answersStuck fun g ↦ g.contexts.isCancelled 0
  obtain ⟨res, log, h', ps, xs, ys, hends, hcloses, hfound, hres⟩ :=
    Host.stopOperations_in_order hh hcs hw rfl hflag
  exact ⟨hh, hcs, hw, rfl, hflag, res, log, h', ps, xs, ys, hends, hcloses, hfound, hres,
    hostAtWork_calls.of_amid hends⟩

end Small

/-! ### Cancelled contexts -/

/-- The last of its declared components that a process has is asked to stop. -/
def AsksLast (ctx : ContextRef) (P : Process) (x : Attempt) : Prop :=
  ∀ before config after c, P.config.components = before ++ config :: after →
    P.components.get? config.name = some c →
    (∀ later ∈ after, P.components.get? later.name = none) →
      .asked (.lifecycle .stop c ctx) ∈ x.told

theorem Process.getLast?_ordered {P : Process} {before after : List ComponentConfig}
    {config : ComponentConfig} {c : Component}
    (hsplit : P.config.components = before ++ config :: after)
    (hc : P.components.get? config.name = some c)
    (hafter : ∀ later ∈ after, P.components.get? later.name = none) :
    P.ordered.getLast? = some (config.name, c) := by
  have hnames : P.names = before.map (·.name) ++ config.name :: after.map (·.name) := by
    rw [names, ProcessConfig.names, hsplit, List.map_append, List.map_cons]
  have hnone : (after.map (·.name)).filterMap
      (fun name ↦ (P.component? name).map fun c ↦ (name, c)) = [] := by
    refine List.filterMap_eq_nil_iff.mpr fun name hname ↦ ?_
    obtain ⟨later, hlater, rfl⟩ := List.mem_map.mp hname
    rw [component?, hafter later hlater]
    rfl
  rw [ordered, hnames, List.filterMap_append,
    List.filterMap_cons_some (b := (config.name, c)) (by rw [component?, hc]; rfl), hnone]
  exact List.getLast?_concat ..

/-- Nobody is asked anything, and the process is left as it is. -/
def Forsakes (P : Process) (x : Attempt) (P' : Process) : Prop := x.told = [] ∧ P' = P

namespace Halts

variable {ctx : ContextRef} {P P' : Process} {x : Attempt}

theorem asksLast (hx : Halts ctx P P.ordered x P')
    (hctx : x.found.contexts.isCancelled ctx = false) : AsksLast ctx P x := by
  intro before config after c hsplit hc hafter
  have hlast := Process.getLast?_ordered hsplit hc hafter
  rw [← List.head?_reverse] at hlast
  cases hx with
  | calledOff hcancelled =>
    rw [hcancelled] at hctx
    cases hctx
  | stopped =>
    obtain ⟨rest, hrest⟩ := List.head?_eq_some_iff.mp hlast
    simp [hrest, successes]
  | @failed _ before after name c' e _ hcs =>
    rw [hcs] at hlast
    cases before with
    | nil =>
      cases hlast
      simp [successes]
    | cons first before =>
      cases hlast
      simp [successes]

theorem forsakes {cs : List (String × Component)} (hx : Halts ctx P cs x P')
    (hctx : x.found.contexts.isCancelled ctx = true) :
    Forsakes P x P' := by
  cases hx with
  | calledOff => exact ⟨rfl, rfl⟩
  | stopped hnot =>
    rw [hnot] at hctx
    cases hctx
  | failed hnot =>
    rw [hnot] at hctx
    cases hctx

end Halts

theorem toldIn_of_cancelled {ctx : ContextRef} {P P' : ProcessRef → Process}
    {cs : ProcessRef → List (String × Component)} {ps : List ProcessRef} {xs : List Attempt}
    (hxs : List.Forall₂ (fun p x ↦ Halts ctx (P p) (cs p) x (P' p)) ps xs)
    (hctx : ∀ x ∈ xs, x.found.contexts.isCancelled ctx = true) : toldIn xs = [] := by
  induction hxs with
  | nil => rfl
  | @cons p x ps xs hx _ ih =>
    have hnothing := (hx.forsakes (hctx x List.mem_cons_self)).1
    rw [toldIn_cons, hnothing, ih fun y hy ↦ hctx y (List.mem_cons_of_mem _ hy)]
    rfl

/-- Assumes: the plugin is set up and nobody is at work on what it is to stop, and the others leave
all that alone, but for contexts. Then each process that runs has its turn, and its last component
is asked to stop if the context is not cancelled by then; if it is, then the process is left running
while the plugin lets go of its manager. -/
theorem Host.stopOperations_asks_or_forsakes {w : Surroundings} {ref : PluginRef} {m : ManagerRef}
    {ctx : ContextRef} {h : Host} (hh : h.Closable ref m) (hw : w.Settled) :
    ∃ res log h' ps xs ys, (stopOperations ref ctx).run.amid w [] h = some (res, log, h') ∧
      Closes ref m ctx h (fun p ↦ (h.processes.get p).ordered) ps xs ys log h' ∧
        List.Forall₂ (fun p x ↦
          if x.found.contexts.isCancelled ctx then
            Forsakes (h.processes.get p) x (h'.processes.get p)
          else AsksLast ctx (h.processes.get p) x) ps xs := by
  have hcloses : (stopOperations ref ctx).run.EndsAmid w _ [] h :=
    stopOperations_closes hw hh fun _ _ ↦ rfl
  obtain ⟨res, log, h', hends, ps, xs, ys, hcloses, hres⟩ := hcloses
  refine ⟨res, log, h', ps, xs, ys, hends, hcloses, hcloses.halts.imp fun p x hx ↦ ?_⟩
  split
  · rename_i hctx
    exact hx.forsakes hctx
  · rename_i hctx
    exact hx.asksLast (Bool.eq_false_of_not_eq_true hctx)

namespace Small

/-- The others cancel the context as soon as anybody is asked to stop. -/
def impatient : Surroundings where
  found log h :=
    if (exchangesIn log).isEmpty then h else { h with contexts := h.contexts.cancel 0 }
  reply _ := answers

theorem impatient_settled : impatient.Settled := by
  constructor <;> intro log h <;> simp only [impatient] <;> split <;> rfl

/-- The first process is stopped, and the second is not. -/
theorem hostAtWork_forsakes : (hostAtWork .empty []).Closable 0 0 ∧ impatient.Settled ∧
    ∃ res log h' ps xs ys, (Host.stopOperations 0 0).run.amid impatient []
        (hostAtWork .empty []) = some (res, log, h') ∧
      Host.Closes 0 0 0 (hostAtWork .empty [])
        (fun p ↦ ((hostAtWork .empty []).processes.get p).ordered) ps xs ys log h' ∧
      List.Forall₂ (fun p x ↦
        if x.found.contexts.isCancelled 0 then
          Forsakes ((hostAtWork .empty []).processes.get p) x (h'.processes.get p)
        else AsksLast 0 ((hostAtWork .empty []).processes.get p) x) ps xs := by
  have hh := hostAtWork_closable .empty []
  exact ⟨hh, impatient_settled, Host.stopOperations_asks_or_forsakes hh impatient_settled⟩

/-- If the context is cancelled from the beginning then processes that run are let go of without
being asked to stop. -/
theorem forsaken_when_cancelled :
    ¬ ∀ (w : Surroundings) (ref : PluginRef) (m : ManagerRef) (ctx : ContextRef) (h : Host),
      h.Closable ref m → w.Settled →
      ∃ res log h', (Host.stopOperations ref ctx).run.amid w [] h = some (res, log, h') ∧
        ∀ p, h.Runs m p → ∀ name c, (h.processes.get p).ordered.getLast? = some (name, c) →
          .asked (.lifecycle .stop c ctx) ∈ exchangesIn log := by
  intro hall
  have hh := hostAtWork_closable (Contexts.cancel .empty 0) []
  have hw := Surroundings.undisturbed_settled answers
  obtain ⟨res, log, h', hends, hasks⟩ := hall (.undisturbed answers) 0 0 0 _ hh hw
  have hcloses : (Host.stopOperations 0 0).run.EndsAmid _ _ [] _ :=
    Host.stopOperations_closes hw hh fun _ _ ↦ rfl
  obtain ⟨_, _, _, hends', ps, xs, ys, hcloses, -⟩ := hcloses
  cases hends.symm.trans hends'
  have hxs : toldIn xs = [] := toldIn_of_cancelled hcloses.halts fun x hx ↦
    Host.found_isCancelled (Surroundings.undisturbed_keeps _ _) hends hcloses hx
  have hys : List.Forall₂ (Dismisses 0 (hostAtWork .empty []).registry) [] ys := hcloses.dismisses
  cases hys
  have hruns : (hostAtWork (Contexts.cancel .empty 0) []).Runs 0 0 :=
    ⟨Host.mem_listed.mpr ⟨"p", by decide⟩, rfl⟩
  have hasked := hasks 0 hruns "b" (component "b") rfl
  have hnothing : withoutNotes (exchangesIn log) = [] := by rw [hcloses.told, List.append_nil, hxs]
  exact List.filter_eq_nil_iff.mp hnothing _ hasked rfl

end Small

end ComponentHost
