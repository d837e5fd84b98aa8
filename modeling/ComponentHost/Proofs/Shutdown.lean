import ComponentHost.Host.Collaborators
import ComponentHost.Proofs.Effects
import ComponentHost.Proofs.InPlace
import ComponentHost.Proofs.Onboarding

/-!
The end of the host's own plugin, while operations on processes are at work.

When the plugin is stopped, alone or with the whole host, it stops those processes that its manager
has recorded and that are running when their turn comes. If it succeeds then every process was seen
not to run after the plugin had let go of its manager (`SeenAtRest`). But nothing keeps an operation
that is at work from putting a process into running later: what runs in the end is just what was
woken like that (`Crowd.runs_iff_wokenBehind`).
-/

set_option autoImplicit false

namespace ComponentHost

/-! ### Plugins that end -/

/-- The plugin is the host's own one with this number. -/
def Plugin.IsOwn (plugin : Plugin) (ref : PluginRef) : Prop :=
  plugin.builtin = true ∧ plugin.ref = ref

namespace Host

/-- What the host's own plugins do when they are called to stop or released. -/
def ending? : (c : Call) → Option (Prog Host c.Reply)
  | .plugin .stop plugin ctx =>
    if plugin.builtin then some (operationsPhase .stop plugin.ref ctx).run else none
  | .release plugin => if plugin.builtin then some (releaseOperations plugin.ref) else none
  | _ => none

end Host

namespace Prog

variable {α β : Type}

/-- The program in which the host's own plugins that end do so in place. -/
def ending : Prog Host α → Prog Host α
  | .done a => .done a
  | .act f k => .act f fun h ↦ (k h).ending
  | .await claim k => .await claim k.ending
  | .call c k =>
    match Host.ending? c with
    | some x => x.bind fun r ↦ (k r).ending
    | none => .call c fun r ↦ (k r).ending

theorem ending_eq_inPlace (x : Prog Host α) : x.ending = x.inPlace Host.ending? := by
  induction x with
  | done a => rfl
  | act f k ih => simp only [ending, inPlace, ih]
  | await claim k ih => simp only [ending, inPlace, ih]
  | call c k ih => cases hc : Host.ending? c <;> simp [ending, inPlace, hc, ih]

theorem ending_call_of_some {c : Call} {k : c.Reply → Prog Host α} {x : Prog Host c.Reply}
    (hx : Host.ending? c = some x) : (Prog.call c k).ending = x.bind fun r ↦ (k r).ending := by
  simp only [ending_eq_inPlace, inPlace_call_of_some hx]

theorem ending_call_of_none {c : Call} {k : c.Reply → Prog Host α} (hx : Host.ending? c = none) :
    (Prog.call c k).ending = .call c fun r ↦ (k r).ending := by
  simp only [ending_eq_inPlace, inPlace_call_of_none hx]

theorem ending_bind (x : Prog Host α) (g : α → Prog Host β) :
    (x.bind g).ending = x.ending.bind fun a ↦ (g a).ending := by
  simp only [ending_eq_inPlace, inPlace_bind]

theorem Acts.ending {G : Host → Host → Prop} {x : Prog Host α} (hx : x.Acts G)
    (hG : ∀ (c : Call) y, Host.ending? c = some y → y.Acts G) : x.ending.Acts G :=
  ending_eq_inPlace x ▸ hx.inPlace hG

end Prog

namespace Host

/-- The second half of stopping all plugins. -/
def conclude (report : StopReport) : Prog Host (Except Error Unit) := do
  Prog.modify fun h ↦ { h with plugins := settle report.outcomes h.plugins }
  match report.firstError with
  | some e => return .error e
  | none => return .ok ()

theorem stopAll_ending (ctx : ContextRef) :
    (stopAll ctx).run.ending = takePlugins.bind fun pending ↦
      (stopPlugins ctx {} pending).ending.bind conclude := by
  refine (Prog.ending_bind takePlugins _).trans (congrArg _ (funext fun pending ↦ ?_))
  refine (Prog.ending_bind (stopPlugins ctx {} pending) _).trans ?_
  refine congrArg _ (funext fun ⟨outcomes, firstError⟩ ↦ ?_)
  cases firstError <;> rfl

/-! ### Managers and processes -/

/-- Managers and processes are touched by one action at most. -/
def Works (wakes : Prop) (h h' : Host) : Prop :=
  h.Touches wakes h' ∨ h'.managers = h.managers ∧ h'.processes = h.processes

/-- Records stay tidy, and processes keep their identifiers. -/
structure Continues (h h' : Host) : Prop where
  tidy : h.Tidy → h'.Tidy
  count_le : h.processes.count ≤ h'.processes.count
  id_eq : ∀ p < h.processes.count, (h'.processes.get p).id = (h.processes.get p).id

variable {wakes : Prop} {h h' h'' : Host} {m : ManagerRef} {p : ProcessRef}

theorem Continues.of_same (hmanagers : h'.managers = h.managers)
    (hprocesses : h'.processes = h.processes) : h.Continues h' where
  tidy htidy := htidy.of_same hmanagers hprocesses
  count_le := hprocesses ▸ Nat.le_refl _
  id_eq p _ := by rw [hprocesses]

theorem Continues.refl (h : Host) : h.Continues h := .of_same rfl rfl

theorem Continues.trans (hh : h.Continues h') (hh' : h'.Continues h'') : h.Continues h'' where
  tidy htidy := hh'.tidy (hh.tidy htidy)
  count_le := Nat.le_trans hh.count_le hh'.count_le
  id_eq p hp := (hh'.id_eq p (Nat.lt_of_lt_of_le hp hh.count_le)).trans (hh.id_eq p hp)

theorem Touches.continues (hh : h.Touches wakes h') : h.Continues h' :=
  ⟨hh.tidy, hh.count_le, fun _ hp ↦ (hh.process_kept hp).1⟩

theorem Works.mono {wakes' : Prop} (hh : h.Works wakes h') (hw : wakes → wakes') :
    h.Works wakes' h' := hh.imp_left fun htouches ↦ htouches.mono hw

theorem Works.continues (hh : h.Works wakes h') : h.Continues h' := by
  obtain htouches | ⟨hmanagers, hprocesses⟩ := hh
  · exact htouches.continues
  · exact .of_same hmanagers hprocesses

/-- A process does not begin to run unless something wakes it. -/
theorem Works.wakes_of_runs (hh : h.Works wakes h') (htidy : h.Tidy) (hbefore : ¬h.Runs m p)
    (hafter : h'.Runs m p) : wakes := by
  obtain htouches | ⟨hmanagers, hprocesses⟩ := hh
  · exact htouches.wakes_of_runs htidy hbefore hafter
  · refine absurd ?_ hbefore
    rwa [Runs, listed, sorted, hmanagers, hprocesses] at hafter

variable {ref : PluginRef}

theorem Minds.works (hh : h.Minds ref h') : h.Works False h' := by
  cases hh with
  | touches htouches => exact .inl htouches
  | keeps f => exact .inr ⟨rfl, rfl⟩

theorem releaseOperations_acts (ref : PluginRef) : (releaseOperations ref).Acts (Minds ref) := by
  refine .bind (pluginData_acts ref) fun x ↦ .bind ?_ fun _ ↦ modifyPlugin_acts _
  cases hx : x.manager with
  | none =>
    simp only [relinquishOwn, hx]
    exact .done _
  | some m =>
    simp only [relinquishOwn, hx]
    exact (relinquish_acts m).mono fun _ _ ↦ .touches

/-- When a plugin ends it minds its own. -/
theorem minds_of_ending? {c : Call} {y : Prog Host c.Reply} (hy : ending? c = some y) :
    ∃ plugin : Plugin, plugin.builtin = true ∧
      (c = .release plugin ∨ ∃ ctx, c = .plugin .stop plugin ctx) ∧ y.Acts (Minds plugin.ref) := by
  unfold ending? at hy
  split at hy
  · rename_i plugin ctx
    split at hy
    · rename_i hbuiltin
      cases hy
      exact ⟨plugin, hbuiltin, .inr ⟨ctx, rfl⟩, stopOperations_acts ctx⟩
    · cases hy
  · rename_i plugin
    split at hy
    · rename_i hbuiltin
      cases hy
      exact ⟨plugin, hbuiltin, .inl rfl, releaseOperations_acts plugin.ref⟩
    · cases hy
  · cases hy

theorem stopPlugins_acts (ctx : ContextRef) (report : StopReport) (ps : List (Nat × Plugin)) :
    (stopPlugins ctx report ps).Acts (Works False) := by
  induction ps generalizing report with
  | nil => exact .done _
  | cons x rest ih =>
    obtain ⟨i, plugin⟩ := x
    refine .call fun res ↦ ?_
    cases res with
    | ok _ => exact .call fun _ ↦ .call fun _ ↦ ih _
    | error e => exact .call fun _ ↦ .call fun _ ↦ ih _

theorem stopAll_acts (ctx : ContextRef) : (stopAll ctx).run.Acts (Works False) := by
  refine .bind (x := takePlugins) (.act (fun h ↦ .inr ⟨rfl, rfl⟩) fun _ ↦ .done _) fun pending ↦ ?_
  refine .bind (stopPlugins_acts ctx {} pending) fun report ↦ ?_
  refine .bind (.act (fun h ↦ .inr ⟨rfl, rfl⟩) fun _ ↦ .done _) fun _ ↦ ?_
  cases report.firstError <;> exact .done _

end Host

/-! ### Clients -/

/-- What clients come for who work on processes or close the host. -/
inductive ClosingErrand where
  | operate (action : ProcessAction) (m : Option ManagerRef) (ctx : ContextRef) (data : Json)
  /-- One of the host's own plugins is stopped. -/
  | stop (ref : PluginRef) (ctx : ContextRef)
  /-- All plugins are stopped. -/
  | shutdown (ctx : ContextRef)

abbrev ClosingOutcome := Except Error (Option Json)

namespace ClosingErrand

def action : ClosingErrand → Action (Option Json)
  | .operate action m ctx data => do
    return some (← Host.holding m fun m ↦ Host.processAction action m ctx data)
  | .stop ref ctx => do
    Host.operationsPhase .stop ref ctx
    return none
  | .shutdown ctx => do
    ExceptT.mk (Host.stopAll ctx).run.ending
    return none

instance : Errand ClosingErrand ClosingOutcome where
  program e := e.action.run
  spared before after := { after with
    managers := before.managers
    processes := before.processes
    plugins := before.plugins
    operationsPlugins := before.operationsPlugins }

/-- The client may put processes into running. -/
def Wakes : ClosingErrand → Prop
  | .operate action _ _ _ => action.Wakes
  | _ => False

/-- The client works on processes. -/
def Operates : ClosingErrand → Prop
  | .operate _ _ _ _ => True
  | _ => False

/-- The client has the host's own plugin with this number stopped. -/
def Closes (ref : PluginRef) (h : Host) : ClosingErrand → Prop
  | .operate _ _ _ _ => False
  | .stop ref' _ => ref' = ref
  | .shutdown _ => ∃ x ∈ Host.held h.plugins, x.2.IsOwn ref

theorem operate_acts (action : ProcessAction) (m : Option ManagerRef) (ctx : ContextRef)
    (data : Json) : (operate action m ctx data).action.run.Acts (Host.Touches action.Wakes) :=
  .andThen (Host.holding_acts m fun m ↦ Host.processAction_acts action m ctx data) fun _ ↦ .done _

theorem acts (e : ClosingErrand) : e.action.run.Acts (Host.Works e.Wakes) := by
  cases e with
  | operate action m ctx data => exact (operate_acts action m ctx data).mono fun _ _ ↦ .inl
  | stop ref ctx =>
    refine .andThen ?_ fun _ ↦ .done _
    exact (Host.stopOperations_acts ctx).mono fun _ _ (hh : Host.Minds ref _ _) ↦ hh.works
  | shutdown ctx =>
    refine .andThen (x := ExceptT.mk (Host.stopAll ctx).run.ending) ?_ fun _ ↦ .done _
    refine (Host.stopAll_acts ctx).ending fun c y hy ↦ ?_
    obtain ⟨plugin, -, -, hacts⟩ := Host.minds_of_ending? hy
    exact hacts.mono fun _ _ hh ↦ hh.works

end ClosingErrand

/-! ### What is seen by the one who closes -/

/-- What is relied on by a client that closes. -/
structure Host.Undisturbed (h h' : Host) : Prop where
  plugins : h'.plugins = h.plugins
  operationsPlugins : h'.operationsPlugins = h.operationsPlugins
  continues : h.Continues h'

theorem Host.Undisturbed.refl (h : Host) : h.Undisturbed h := ⟨rfl, rfl, .refl h⟩

theorem Host.Undisturbed.trans {h h' h'' : Host} (hh : h.Undisturbed h')
    (hh' : h'.Undisturbed h'') : h.Undisturbed h'' :=
  ⟨hh'.plugins.trans hh.plugins, hh'.operationsPlugins.trans hh.operationsPlugins,
    hh.continues.trans hh'.continues⟩

theorem Host.Touches.undisturbed {wakes : Prop} {h h' : Host} (hh : h.Touches wakes h') :
    h.Undisturbed h' :=
  ⟨by rw [hh.eq_with], by rw [hh.eq_with], hh.continues⟩

/-- Who closes the host relies on nobody else's touching the plugins. -/
def closing : Manner := .relying Host.Undisturbed .refl .trans

theorem closing_isFree : closing.IsFree := ⟨fun _ _ _ ↦ trivial, fun _ _ ↦ trivial, fun _ ↦ trivial⟩

section Seeing

variable {α : Type} {ref : PluginRef} {m : ManagerRef} {q : ProcessRef} {id : String}
  {ctx : ContextRef} {log : List Feat} {h : Host}

/-- After an act since the plugin had let go of its manager the process did not run. -/
def SeenAtRest (ref : PluginRef) (m : ManagerRef) (q : ProcessRef) (log : List Feat) : Prop :=
  ∃ x ∈ actsIn log, (x.1.operationsPlugins.get ref).manager = none ∧ ¬x.2.Runs m q

theorem SeenAtRest.append (hlog : SeenAtRest ref m q log) (more : List Feat) :
    SeenAtRest ref m q (log ++ more) := by
  obtain ⟨x, hx, hseen⟩ := hlog
  exact ⟨x, by simp [hx], hseen⟩

theorem seenAtRest_acted {h' : Host} (log : List Feat)
    (hnone : (h.operationsPlugins.get ref).manager = none) (hrest : ¬h'.Runs m q) :
    SeenAtRest ref m q (log ++ [.acted h h']) :=
  ⟨(h, h'), by simp, hnone, hrest⟩

/-- What has been seen is not forgotten. -/
theorem SeenAtRest.stays {x : Prog Host α} (hlog : SeenAtRest ref m q log) :
    x.Abides closing (fun log _ _ ↦ SeenAtRest ref m q log) log h :=
  .of_log (P := SeenAtRest ref m q) closing_isFree (fun _ more hlog ↦ hlog.append more) hlog

theorem SeenAtRest.abides {R : α → Prop} {x : Prog Host α} (hlog : SeenAtRest ref m q log) :
    x.Abides closing (fun log _ a ↦ R a → SeenAtRest ref m q log) log h :=
  hlog.stays.mono fun _ _ _ hlog _ ↦ hlog

/-- The plugin has let go of its manager, and the process goes by an identifier. -/
structure LetGo (ref : PluginRef) (q : ProcessRef) (id : String) (h : Host) : Prop where
  manager : (h.operationsPlugins.get ref).manager = none
  tidy : h.Tidy
  lt : q < h.processes.count
  named : (h.processes.get q).id = id

theorem LetGo.undisturbed {h' : Host} (hq : LetGo ref q id h) (hh : h.Undisturbed h') :
    LetGo ref q id h' where
  manager := by rw [hh.operationsPlugins, hq.manager]
  tidy := hh.continues.tidy hq.tidy
  lt := Nat.lt_of_lt_of_le hq.lt hh.continues.count_le
  named := (hh.continues.id_eq q hq.lt).trans hq.named

/-- Who touches no plugin leaves it at that. -/
theorem LetGo.abides {x : Prog Host α} (hx : x.Acts (Host.Touches False))
    (hq : LetGo ref q id h) : x.Abides closing (fun _ h _ ↦ LetGo ref q id h) log h :=
  Prog.Acts.keeps (hx.mono fun _ _ hh hq ↦ LetGo.undisturbed hq hh.undisturbed) closing_isFree
    (fun _ _ hh hq ↦ LetGo.undisturbed hq hh) hq

/-- A process whose identifier stands for another, or for none, does not run. -/
theorem LetGo.not_runs (hq : LetGo ref q id h) (hfind : (h.managers.get m).find id ≠ .ok q) :
    ¬h.Runs m q := fun hruns ↦ hfind (hq.named ▸ hq.tidy.find_of_runs hruns)

/-- A process that could be stopped was seen at rest: it did not have its identifier any more, or
was put into stopped. -/
theorem stopProcess_abides (hq : LetGo ref q id h) :
    (Host.stopProcess m ctx id).run.Abides closing
      (fun log _ r ↦ r = .ok () → SeenAtRest ref m q log) log h := by
  refine .andThen (Host.abides_inspect fun g hg ↦ ⟨trivial, ?_⟩)
  have hqg : LetGo ref q id g := hq.undisturbed hg
  by_cases hfind : (g.managers.get m).find id = .ok q
  · rw [hfind]
    refine .andThen (Host.abides_inspect fun g₂ hg₂ ↦ ⟨trivial, ?_⟩)
    cases g₂.contexts.check ctx with
    | error e => exact fun hr ↦ by cases hr
    | ok _ =>
      refine Host.abides_exclusively closing_isFree fun h₃ h₄ hh₃ hlock ↦ ?_
      have htouches : h₃.Touches False h₄ := .of_lock? hlock
      have hq₄ := ((hqg.undisturbed hg₂).undisturbed hh₃).undisturbed htouches.undisturbed
      refine .andThen (.lift fun g₅ hg₅ ↦ ⟨trivial, .andThen ?_⟩)
      refine ((hq₄.undisturbed hg₅).abides (Host.stopEach_acts _)).mono fun log h r hq ↦ ?_
      cases r with
      | error e => exact fun _ _ hr ↦ by cases hr
      | ok _ =>
        refine .andThen (.lift fun g₆ hg₆ ↦ ⟨trivial, ?_⟩)
        have hstopped : ¬(g₆.withStatus q .stopped).Runs m q := fun hruns ↦ by
          simpa using hruns.2
        have hseen := seenAtRest_acted log (hq.undisturbed hg₆).manager hstopped
        simp only [Prog.abides_done]
        exact hseen.stays.mono fun log h r hseen h' _ _ ↦ hseen.append _
  · have hseen := seenAtRest_acted log hqg.manager (hqg.not_runs hfind)
    cases (g.managers.get m).find id with
    | error e => exact fun _ ↦ hseen
    | ok p => exact hseen.abides

/-- The turn of a process: what has been seen by then is not forgotten, and if it is the turn of
this one then either it fails to be stopped or it has been seen at rest. -/
theorem turn_abides (hq : LetGo ref q id h) (p : ProcessRef) :
    (Host.stopProcess m ctx (h.processes.get p).id).run.Abides closing
      (fun log' h' r ↦ LetGo ref q id h' ∧ (SeenAtRest ref m q log → SeenAtRest ref m q log') ∧
        (p = q → r = .ok () → SeenAtRest ref m q log')) log h := by
  have hkept : (Host.stopProcess m ctx (h.processes.get p).id).run.Abides closing
      (fun log' _ _ ↦ SeenAtRest ref m q log → SeenAtRest ref m q log') log h :=
    .of_log closing_isFree (fun _ more hkept hseen ↦ (hkept hseen).append more) fun hseen ↦ hseen
  have hturn : (Host.stopProcess m ctx (h.processes.get p).id).run.Abides closing
      (fun log' _ r ↦ p = q → r = .ok () → SeenAtRest ref m q log') log h := by
    by_cases hpq : p = q
    · rw [hpq, hq.named]
      exact (stopProcess_abides hq).mono fun _ _ _ hseen _ ↦ hseen
    · exact .of_forall closing_isFree fun _ _ _ heq ↦ absurd heq hpq
  exact (hq.abides (Host.stopProcess_acts m ctx _)).and (hkept.and hturn)

/-- The processes in a list are dealt with in order. Either this one has been seen at rest, or its
turn comes, or something has failed. -/
theorem stopRunning_abides {first : Option Error} {ps : List ProcessRef} (hq : LetGo ref q id h)
    (hdue : first = none → SeenAtRest ref m q log ∨ q ∈ ps) :
    (Host.stopRunning m ctx first ps).Abides closing
      (fun log _ r ↦ r = none → SeenAtRest ref m q log) log h := by
  induction ps generalizing first log h with
  | nil => exact fun hnone ↦ (hdue hnone).resolve_right List.not_mem_nil
  | cons p rest ih =>
    refine .bind fun g hg ↦ ⟨trivial, ?_⟩
    have hqg : LetGo ref q id g := hq.undisturbed hg
    -- what is due after the turn of `p`
    have hlater {log' : List Feat} (hkept : SeenAtRest ref m q log → SeenAtRest ref m q log')
        (hturn : p = q → SeenAtRest ref m q log') (hnone : first = none) :
        SeenAtRest ref m q log' ∨ q ∈ rest := by
      obtain hseen | hmem := hdue hnone
      · exact .inl (hkept hseen)
      · obtain rfl | hrest := List.mem_cons.mp hmem
        · exact .inl (hturn rfl)
        · exact .inr hrest
    by_cases hrunning : (g.processes.get p).status = .running
    · simp only [Prog.abides_done, if_pos hrunning]
      refine .bind ((turn_abides hqg p).mono ?_)
      rintro log' h' r ⟨hq', hkept, hturn⟩
      cases r with
      | ok _ => exact ih hq' (hlater (fun hseen ↦ hkept (hseen.append _)) fun hpq ↦ hturn hpq rfl)
      | error e => exact ih hq' fun hnone ↦ by cases hnone
    · simp only [Prog.abides_done, if_neg hrunning]
      refine ih hqg (hlater (fun hseen ↦ hseen.append _) fun hpq ↦ ?_)
      subst hpq
      exact seenAtRest_acted log hqg.manager fun hruns ↦ hrunning hruns.2

/-- Whoever has stopped what runs has seen every process at rest, if nothing has failed. -/
theorem stopListed_abides (hnone : (h.operationsPlugins.get ref).manager = none) (htidy : h.Tidy)
    (q : ProcessRef) :
    (Host.stopListed m ctx).Abides closing (fun log _ r ↦ r = none → SeenAtRest ref m q log)
      log h := by
  refine .bind fun g hg ↦ ⟨trivial, ?_⟩
  have hnone' : (g.operationsPlugins.get ref).manager = none := by rw [hg.operationsPlugins, hnone]
  have htidy' : g.Tidy := hg.continues.tidy htidy
  by_cases hmem : q ∈ g.listed m
  · obtain ⟨id, hrecorded⟩ := Host.mem_listed.mp hmem
    obtain ⟨hlt, hid⟩ := htidy'.named m id q hrecorded
    have hq : LetGo ref q id g := ⟨hnone', htidy', hlt, hid⟩
    refine .bind ((stopRunning_abides hq fun _ ↦ .inr hmem).mono fun log h r hseen ↦ ?_)
    exact .bind fun h' _ ↦ ⟨trivial, fun hr ↦ (hseen hr).append _⟩
  · have hseen := seenAtRest_acted log hnone' (m := m) (q := q) fun hruns ↦ hmem hruns.1
    exact hseen.abides

/-- A failure so far is a failure in the end. -/
theorem stopRest_abides {first : Option Error} (hfirst : first = none → SeenAtRest ref m q log) :
    (Host.stopRest ref ctx first).run.Abides closing
      (fun log _ r ↦ r = .ok () → SeenAtRest ref m q log) log h := by
  cases first with
  | none => exact (hfirst rfl).abides
  | some e =>
    refine .andThen (.lift (.of_forall closing_isFree fun log h second ↦ ?_))
    exact .andThen (.lift fun h' _ ↦ ⟨trivial, fun hr ↦ by cases hr⟩)

/-- If the plugin could be stopped then every process was seen at rest. -/
theorem stopOperations_abides (hmanager : (h.operationsPlugins.get ref).manager = some m)
    (htidy : h.Tidy) (q : ProcessRef) :
    (Host.stopOperations ref ctx).run.Abides closing
      (fun log _ r ↦ r = .ok () → SeenAtRest ref m q log) log h := by
  rw [Host.stopOperations_eq]
  refine .andThen (Host.requireAttached_abides closing_isFree (fun h' hh' ↦ ?_) (fun g hg _ ↦ ?_)
    fun _ _ _ hr ↦ by cases hr)
  · rw [hh'.operationsPlugins]
  · simp only [hmanager, Host.stopManaged_eq]
    refine .andThen (.lift (.bind fun g₂ hg₂ ↦ ⟨trivial, ?_⟩))
    have htidy₂ : g₂.Tidy := hg₂.continues.tidy (hg.continues.tidy htidy)
    have hminds : g₂.Minds ref { g₂ with
      operationsPlugins := g₂.operationsPlugins.modify ref fun x ↦ { x with manager := none } } :=
      .keeps _
    refine (stopListed_abides ?_ (hminds.works.continues.tidy htidy₂) q).mono
      fun log h first hseen ↦ stopRest_abides hseen
    simp

/-! The plugins are stopped in order. -/

/-- The plugin has its manager still. -/
structure Due (ref : PluginRef) (m : ManagerRef) (h : Host) : Prop where
  manager : (h.operationsPlugins.get ref).manager = some m
  tidy : h.Tidy

theorem Due.undisturbed {h' : Host} (hdue : Due ref m h) (hh : h.Undisturbed h') : Due ref m h' :=
  ⟨by rw [hh.operationsPlugins, hdue.manager], hh.continues.tidy hdue.tidy⟩

/-- Another plugin keeps other data. -/
theorem Due.minds {ref' : PluginRef} {h' : Host} (hdue : Due ref m h) (hh : h.Minds ref' h')
    (hne : ref ≠ ref') : Due ref m h' := by
  refine ⟨?_, hh.works.continues.tidy hdue.tidy⟩
  cases hh with
  | touches hh => rw [hh.undisturbed.operationsPlugins, hdue.manager]
  | keeps f => simp [hne, hdue.manager]

/-- Whatever has been answered and done at a call, the rest abides. -/
theorem ending_call_abides {c : Call} {k : c.Reply → Prog Host α} {Q : List Feat → Host → α → Prop}
    (hk : ∀ log h r, (k r).ending.Abides closing Q log h) :
    (Prog.call c k).ending.Abides closing Q log h := by
  cases hy : Host.ending? c with
  | none =>
    rw [Prog.ending_call_of_none hy]
    exact ⟨trivial, fun r ↦ hk _ _ r⟩
  | some y =>
    rw [Prog.ending_call_of_some hy]
    exact .bind (.of_forall closing_isFree fun log h r ↦ hk log h r)

/-- Nor is it settled by what another plugin does at its end. -/
theorem Due.ending_call_abides (hdue : Due ref m h) {c : Call} {k : c.Reply → Prog Host α}
    {Q : List Feat → Host → α → Prop}
    (hc : ∀ y, Host.ending? c = some y → ∃ ref' ≠ ref, y.Acts (Host.Minds ref'))
    (hk : ∀ log h r, Due ref m h → (k r).ending.Abides closing Q log h) :
    (Prog.call c k).ending.Abides closing Q log h := by
  cases hy : Host.ending? c with
  | none =>
    rw [Prog.ending_call_of_none hy]
    exact ⟨trivial, fun r ↦ hk _ _ r hdue⟩
  | some y =>
    obtain ⟨ref', hne, hacts⟩ := hc y hy
    rw [Prog.ending_call_of_some hy]
    have hkept : y.Abides closing (fun _ h _ ↦ Due ref m h) log h :=
      (hacts.mono fun _ _ hh hdue ↦ Due.minds hdue hh hne.symm).keeps closing_isFree
        (fun _ _ hh hdue ↦ Due.undisturbed hdue hh) hdue
    exact .bind (hkept.mono fun log h r hdue ↦ hk log h r hdue)

/-- What is done when another plugin ends is minding another one's data. -/
theorem exists_minds_of_not_isOwn {plugin : Plugin} (hnot : ¬plugin.IsOwn ref) {c : Call}
    (hc : c = .release plugin ∨ ∃ ctx, c = .plugin .stop plugin ctx) {y : Prog Host c.Reply}
    (hy : Host.ending? c = some y) : ∃ ref' ≠ ref, y.Acts (Host.Minds ref') := by
  obtain ⟨P, hbuiltin, hP, hacts⟩ := Host.minds_of_ending? hy
  obtain rfl : P = plugin := by
    obtain rfl | ⟨_, rfl⟩ := hc
    · obtain hP | ⟨_, hP⟩ := hP <;> cases hP
      rfl
    · obtain hP | ⟨_, hP⟩ := hP <;> cases hP
      rfl
  exact ⟨P.ref, fun href ↦ hnot ⟨hbuiltin, href⟩, hacts⟩

/-- Once something has failed this is reported. -/
theorem stopPlugins_failed {report : Host.StopReport} (hfailed : report.firstError ≠ none)
    (ps : List (Nat × Plugin)) :
    (Host.stopPlugins ctx report ps).ending.Abides closing (fun _ _ r ↦ r.firstError ≠ none)
      log h := by
  induction ps generalizing report log h with
  | nil => exact hfailed
  | cons x rest ih =>
    obtain ⟨i, plugin⟩ := x
    refine ending_call_abides (c := .plugin .stop plugin ctx) fun log h r ↦ ?_
    cases r with
    | ok _ =>
      exact ending_call_abides fun _ _ _ ↦ ending_call_abides fun _ _ _ ↦ ih hfailed
    | error e =>
      exact ending_call_abides fun _ _ _ ↦ ending_call_abides fun _ _ _ ↦ ih (by simp)

/-- If nothing has failed when the plugins have been stopped then every process was seen at rest. -/
theorem stopPlugins_abides {report : Host.StopReport} {ps : List (Nat × Plugin)}
    (hdue : Due ref m h) (hmem : ∃ x ∈ ps, x.2.IsOwn ref) (q : ProcessRef) :
    (Host.stopPlugins ctx report ps).ending.Abides closing
      (fun log _ r ↦ r.firstError = none → SeenAtRest ref m q log) log h := by
  induction ps generalizing report log h with
  | nil =>
    obtain ⟨x, hx, -⟩ := hmem
    cases hx
  | cons x rest ih =>
    obtain ⟨i, plugin⟩ := x
    have hfailed (e : Error) {log : List Feat} {h : Host} (outcomes : List (Nat × PluginState)) :
        (Host.stopPlugins ctx ⟨outcomes, some e⟩ rest).ending.Abides closing
          (fun log _ r ↦ r.firstError = none → SeenAtRest ref m q log) log h :=
      (stopPlugins_failed (by simp) rest).mono fun _ _ _ hfailed hnone ↦ absurd hnone hfailed
    by_cases hown : plugin.IsOwn ref
    · have hstop : Host.ending? (.plugin .stop plugin ctx) =
          some (Host.stopOperations ref ctx).run := by
        simp [Host.ending?, Host.operationsPhase, hown.1, hown.2]
      change (Prog.call (.plugin .stop plugin ctx) _).ending.Abides _ _ _ _
      rw [Prog.ending_call_of_some hstop]
      refine .bind ((stopOperations_abides hdue.manager hdue.tidy q).mono fun log h r hseen ↦ ?_)
      cases r with
      | ok _ => exact (hseen rfl).abides
      | error e =>
        exact ending_call_abides fun _ _ _ ↦ ending_call_abides fun _ _ _ ↦ hfailed _ _
    · have hrest : ∃ x ∈ rest, x.2.IsOwn ref := by
        obtain ⟨x, hx, hx'⟩ := hmem
        obtain rfl | hx := List.mem_cons.mp hx
        · exact absurd hx' hown
        · exact ⟨x, hx, hx'⟩
      refine hdue.ending_call_abides (c := .plugin .stop plugin ctx)
        (fun _ ↦ exists_minds_of_not_isOwn hown (.inr ⟨ctx, rfl⟩)) fun log h r hdue ↦ ?_
      cases r with
      | ok _ =>
        refine hdue.ending_call_abides (fun _ hy ↦ by cases hy) fun log h _ hdue ↦ ?_
        exact hdue.ending_call_abides (fun _ ↦ exists_minds_of_not_isOwn hown (.inl rfl))
          fun log h _ hdue ↦ ih hdue hrest
      | error e =>
        exact ending_call_abides fun _ _ _ ↦ ending_call_abides fun _ _ _ ↦ hfailed _ _

/-- If all plugins could be stopped then every process of this one was seen at rest. -/
theorem stopAll_abides (hdue : Due ref m h) (hheld : ∃ x ∈ Host.held h.plugins, x.2.IsOwn ref)
    (q : ProcessRef) :
    (Host.stopAll ctx).run.ending.Abides closing
      (fun log _ r ↦ r = .ok () → SeenAtRest ref m q log) log h := by
  rw [Host.stopAll_ending]
  refine .bind fun g hg ↦ ⟨trivial, ?_⟩
  obtain ⟨hmanager, htidy⟩ := hdue.undisturbed hg
  have hdue' : Due ref m g.releasing := ⟨hmanager, htidy.of_same rfl rfl⟩
  have hheld' : ∃ x ∈ Host.held g.plugins, x.2.IsOwn ref := hg.plugins ▸ hheld
  refine .bind ((stopPlugins_abides hdue' hheld' q).mono fun log h report hseen ↦ ?_)
  refine .bind fun g' _ ↦ ⟨trivial, ?_⟩
  cases hfirst : report.firstError with
  | none => exact fun _ ↦ (hseen hfirst).append _
  | some e => exact fun hr ↦ by cases hr

/-- Whoever could close the host has seen every process of the plugin at rest. -/
theorem ClosingErrand.abides {e : ClosingErrand} (hdue : Due ref m h) (hcloses : e.Closes ref h)
    (q : ProcessRef) :
    e.action.run.Abides closing (fun log _ r ↦ ∀ y, r = .ok y → SeenAtRest ref m q log) [] h := by
  cases e with
  | operate => exact hcloses.elim
  | stop ref' ctx =>
    subst hcloses
    refine .andThen ((stopOperations_abides hdue.manager hdue.tidy q).mono fun log h r hseen ↦ ?_)
    cases r with
    | ok _ => exact fun _ _ ↦ hseen rfl
    | error e => exact fun _ hr ↦ by cases hr
  | shutdown ctx =>
    refine .andThen (x := ExceptT.mk (Host.stopAll ctx).run.ending)
      ((stopAll_abides hdue hcloses q).mono fun log h r hseen ↦ ?_)
    cases r with
    | ok _ => exact fun _ _ ↦ hseen rfl
    | error e => exact fun _ hr ↦ by cases hr

end Seeing

theorem ClosingErrand.Closes.undisturbed {e : ClosingErrand} {ref : PluginRef} {h h' : Host}
    (hcloses : e.Closes ref h) (hh : h.Undisturbed h') : e.Closes ref h' := by
  cases e with
  | operate => exact hcloses
  | stop => exact hcloses
  | shutdown ctx => rwa [Closes, hh.plugins]

/-! ### Runs -/

namespace Crowd

open ClosingErrand

/-- Only those come who work on processes. -/
def Operating (_ : Crowd ClosingErrand ClosingOutcome) : Move ClosingErrand → Prop
  | .arrive (.operate _ _ _ _) => True
  | .arrive _ => False
  | _ => True

variable {s t u v : Crowd ClosingErrand ClosingOutcome} {h : Host}
  {n : Move ClosingErrand} {e : ClosingErrand} {y : Option Json}
  {ref : PluginRef} {m : ManagerRef} {q : ProcessRef}

instance (s : Crowd ClosingErrand ClosingOutcome) (n : Move ClosingErrand) :
    Decidable (s.Operating n) := by
  unfold Operating
  split <;> infer_instance

theorem operates_of_operating (u : Crowd ClosingErrand ClosingOutcome) (e : ClosingErrand)
    (h : u.Operating (.arrive e)) : e.Operates := by
  cases e with
  | operate => trivial
  | stop | shutdown => exact h.elim

theorem allBut_of_operating (hs : Later Operating { host := h } s) :
    s.AllBut (fun _ ↦ False) Operates :=
  (allBut_start _ _ h).later operates_of_operating hs

/-- The next move is that of a client who may put processes into running. -/
def WakesNext (s : Crowd ClosingErrand ClosingOutcome) (n : Move ClosingErrand) : Prop :=
  ∃ k c, n = .proceed k ∧ s.clients[k]? = some c ∧ c.errand.Wakes

theorem Later.works (hs : Later Freely { host := h } s) (hstep : s.step n = some t) :
    s.host.Works (s.WakesNext n) t.host := by
  cases happens_of_step hstep with
  | arrived | changed | asked | answered => exact .inr ⟨rfl, rfl⟩
  | @acted k e x rest h' hk hx =>
    have hworks : s.host.Works e.Wakes h' := hs.act_of e.acts hk hx
    exact hworks.mono fun hwakes ↦ ⟨k, _, rfl, hk, hwakes⟩

theorem Later.tidy (hs : Later Freely { host := h } s) (htidy : h.Tidy) : s.host.Tidy :=
  (hs.hosts .refl .trans fun hu _ hstep ↦ (hu.works hstep).continues).tidy htidy

/-- Whoever works on processes leaves the plugins alone. -/
theorem Later.undisturbed (hs : Later Freely { host := h } s) (hstep : s.step n = some t)
    (hn : s.MovesAs Operates n) : s.host.Undisturbed t.host := by
  cases happens_of_step hstep with
  | arrived | asked | answered => exact .refl _
  | changed => exact ⟨rfl, rfl, .of_same rfl rfl⟩
  | @acted k e x rest h' hk hx =>
    cases e with
    | operate action m ctx data =>
      have htouches : s.host.Touches action.Wakes h' :=
        hs.act_of (operate_acts action m ctx data) hk hx
      exact htouches.undisturbed
    | stop | shutdown => exact (hn k _ rfl hk).elim

theorem Later.undisturbed_of_operating (hs : Later Operating { host := h } s) :
    h.Undisturbed s.host :=
  hs.hosts .refl .trans fun hu _ hstep ↦ hu.freely.undisturbed hstep fun k c _ hk ↦
    (allBut_of_operating hu k c hk).resolve_left id

/-- A client has seen, since the plugin had let go of its manager, that the process does not run, or
has put it into stopped. -/
def PutsAtRest (i : Nat) (ref : PluginRef) (m : ManagerRef) (q : ProcessRef)
    (u v : Crowd ClosingErrand ClosingOutcome) : Prop :=
  u.step (.proceed i) = some v ∧ (u.host.operationsPlugins.get ref).manager = none ∧
    ¬v.host.Runs m q

/-- A client who carries out an operation has put the process into running. -/
def Wakens (m : ManagerRef) (q : ProcessRef) (u v : Crowd ClosingErrand ClosingOutcome) : Prop :=
  ∃ k action m' ctx data task, u.clients[k]? = some ⟨.operate action m' ctx data, task⟩ ∧
    action.Wakes ∧ u.step (.proceed k) = some v ∧ ¬u.host.Runs m q ∧ v.host.Runs m q

/-- The process runs all the time. -/
def KeepsRunning (m : ManagerRef) (q : ProcessRef)
    (u v : Crowd ClosingErrand ClosingOutcome) : Prop :=
  Later (fun x n ↦ Operating x n ∧ x.host.Runs m q) u v ∧ v.host.Runs m q

/-- Whoever has closed the host has left every process at rest at some time. -/
theorem Later.exists_putsAtRest (hunused : h.Unused)
    (hmanager : (h.operationsPlugins.get ref).manager = some m) (hcloses : e.Closes ref h)
    (hs : Later Operating { host := h } s) (ht : Later Operating (s.joined e) t)
    (hok : t.finished? s.clients.length = some (e, .ok y)) (q : ProcessRef) :
    ∃ u v, Later Operating (s.joined e) u ∧ PutsAtRest s.clients.length ref m q u v ∧
      Later Operating v t := by
  have hsame : h.Undisturbed s.host := hs.undisturbed_of_operating
  have hdue : Due ref m s.host := Due.undisturbed ⟨hmanager, hunused.tidy⟩ hsame
  have hcloses' : e.Closes ref s.host := hcloses.undisturbed hsame
  obtain ⟨task, htask, hstands⟩ := hs.freely.stands_among (allBut_of_operating hs)
    (fun _ hi ↦ hi.elim) operates_of_operating ht (ClosingErrand.abides hdue hcloses' q)
    Later.undisturbed
  obtain rfl : task = .going (.done (.ok y)) := by
    simpa using htask.symm.trans (getElem?_of_finished? hok)
  obtain ⟨-, -, hseen⟩ := hstands.done
  obtain ⟨x, hx, hnone, hrest⟩ := hseen y rfl
  obtain ⟨u, v, hu, -, hstep, hv, huhost, hvhost⟩ :=
    ht.exists_act_joined (hs.nobodyElse (nobodyElse_start h)) hx
  exact ⟨u, v, hu, ⟨hstep, huhost ▸ hnone, hvhost ▸ hrest⟩, hv⟩

/-- An operation has put the process into running when the client `i` had already left it at rest,
and it has run since. -/
def WokenBehind (i : Nat) (ref : PluginRef) (m : ManagerRef) (q : ProcessRef)
    (s t : Crowd ClosingErrand ClosingOutcome) : Prop :=
  ∃ u v w x, Later Operating s u ∧ PutsAtRest i ref m q u v ∧ Later Operating v w ∧
    Wakens m q w x ∧ KeepsRunning m q x t

/-- Assumes: a client has the host's own plugin stopped, with success, while others work on
processes. What runs then is just what was woken behind its back. -/
theorem runs_iff_wokenBehind (hunused : h.Unused)
    (hmanager : (h.operationsPlugins.get ref).manager = some m) (hcloses : e.Closes ref h)
    (hs : Later Operating { host := h } s) (ht : Later Operating (s.joined e) t)
    (hok : t.finished? s.clients.length = some (e, .ok y)) (q : ProcessRef) :
    t.host.Runs m q ↔ WokenBehind s.clients.length ref m q (s.joined e) t := by
  constructor
  · intro hruns
    obtain ⟨u, v, hu, hrest, hv⟩ := hs.exists_putsAtRest hunused hmanager hcloses ht hok q
    obtain ⟨w, x, n, hw, -, hstep, hnot, hx, hkeeps⟩ :=
      hv.exists_last (P := fun s ↦ s.host.Runs m q) hrest.2.2 hruns
    have huv : Next Freely u v := ⟨_, trivial, hrest.1⟩
    have hrun : Later Freely { host := h } w :=
      (((hs.freely.trans (later_joined s e)).trans hu.freely).tail huv).trans hw.freely
    obtain ⟨k, c, rfl, hk, hwakes⟩ :=
      (hrun.works hstep).wakes_of_runs (hrun.tidy hunused.tidy) hnot hx
    refine ⟨u, v, w, x, hu, hrest, hw, ?_, hkeeps, hruns⟩
    obtain ⟨e', task⟩ := c
    cases e' with
    | operate action m' ctx data =>
      exact ⟨k, action, m', ctx, data, task, hk, hwakes, hstep, hnot, hx⟩
    | stop | shutdown => exact hwakes.elim
  · rintro ⟨u, v, w, x, -, -, -, -, -, hruns⟩
    exact hruns

/-- Nobody comes any more. -/
def InFlight (_ : Crowd ClosingErrand ClosingOutcome) : Move ClosingErrand → Prop
  | .arrive _ => False
  | _ => True

instance (s : Crowd ClosingErrand ClosingOutcome) (n : Move ClosingErrand) :
    Decidable (s.InFlight n) := by
  unfold InFlight
  split <;> infer_instance

end Crowd

/-! ### A process that is started meanwhile -/

namespace Small

open Crowd

/-- A host whose own plugin has a manager of processes. -/
def hostToClose : Host :=
  { host with
    operationsPlugins := ⟨1, fun _ ↦ { generator := 0, attached := true, manager := some 0 }⟩
    plugins := [⟨"zi.runtime", .started, .epoch, some ⟨0, "zi.runtime", true⟩⟩] }

theorem hostToClose_unused : hostToClose.Unused := ⟨host_unused.no_process, host_unused.no_record⟩

/-- A process is created; another client begins to start it and has called its first component. -/
def halfStarted : Crowd ClosingErrand ClosingOutcome :=
  ({ host := hostToClose } : Crowd ClosingErrand _).after <|
    [.arrive (.operate .create (some 0) 0 (ProcessConfig.codec.encode config))] ++
      Move.plays 0 answers 40 ++
        [.arrive (.operate .start (some 0) 0 (.ofEntries [("process_id", .str "p")]))] ++
          List.replicate 10 (.proceed 1)

/-- The host is closed, and then the process has been started. -/
def startedMeanwhile (e : ClosingErrand) : Crowd ClosingErrand ClosingOutcome :=
  (halfStarted.joined e).after (Move.plays 2 answers 20 ++ Move.plays 1 answers 40)

theorem later_halfStarted : Later Operating { host := hostToClose } halfStarted :=
  later_of_allows (by decide +kernel)

/-- Who closes the host then returns nothing. -/
theorem finished?_startedMeanwhile {e : ClosingErrand}
    {A : Crowd ClosingErrand ClosingOutcome → Crowd.Move ClosingErrand → Prop}
    (hlater : Later A (halfStarted.joined e) (startedMeanwhile e))
    (hdone : ((startedMeanwhile e).finished? halfStarted.clients.length).map
      (fun x ↦ x.2.map Option.isNone) = some (.ok true)) :
    (startedMeanwhile e).finished? halfStarted.clients.length = some (e, .ok none) := by
  refine hlater.finished?_joined ?_
  obtain ⟨⟨e', o⟩, hfinished, ho⟩ := Option.map_eq_some_iff.mp hdone
  obtain _ | _ | _ := o <;> cases ho
  rw [hfinished, Option.map_some]

theorem shutdown_runs_iff_wokenBehind :
    hostToClose.Unused ∧ (hostToClose.operationsPlugins.get 0).manager = some 0 ∧
      (ClosingErrand.shutdown 0).Closes 0 hostToClose ∧
        Later Operating { host := hostToClose } halfStarted ∧
          Later Operating (halfStarted.joined (.shutdown 0)) (startedMeanwhile (.shutdown 0)) ∧
            (startedMeanwhile (.shutdown 0)).finished? halfStarted.clients.length =
              some (.shutdown 0, .ok none) ∧
              ∀ q, (startedMeanwhile (.shutdown 0)).host.Runs 0 q ↔
                WokenBehind halfStarted.clients.length 0 0 q (halfStarted.joined (.shutdown 0))
                  (startedMeanwhile (.shutdown 0)) := by
  have hcloses : (ClosingErrand.shutdown 0).Closes 0 hostToClose :=
    ⟨(0, ⟨0, "zi.runtime", true⟩), by decide +kernel, rfl, rfl⟩
  have hlater : Later Operating (halfStarted.joined (.shutdown 0))
      (startedMeanwhile (.shutdown 0)) := later_of_allows (by decide +kernel)
  have hok : (startedMeanwhile (.shutdown 0)).finished? halfStarted.clients.length =
      some (.shutdown 0, .ok none) := finished?_startedMeanwhile hlater (by decide +kernel)
  exact ⟨hostToClose_unused, rfl, hcloses, later_halfStarted, hlater, hok,
    runs_iff_wokenBehind hostToClose_unused rfl hcloses later_halfStarted hlater hok⟩

/-- Something may be running when the host's own plugin has been stopped and all operations that
were at work have ended. -/
theorem running_when_closed :
    ¬ ∀ (h : Host) (ref : PluginRef) (m : ManagerRef) (e : ClosingErrand)
        (s t : Crowd ClosingErrand ClosingOutcome) (y : Option Json),
      h.Unused → (h.operationsPlugins.get ref).manager = some m → e.Closes ref h →
      Later Operating { host := h } s → Later InFlight (s.joined e) t →
      t.finished? s.clients.length = some (e, .ok y) →
      (∀ i < t.clients.length, (t.finished? i).isSome) → ∀ q, ¬t.host.Runs m q := by
  intro hall
  have hlater : Later InFlight (halfStarted.joined (.stop 0 0)) (startedMeanwhile (.stop 0 0)) :=
    later_of_allows (by decide +kernel)
  have hok : (startedMeanwhile (.stop 0 0)).finished? halfStarted.clients.length =
      some (.stop 0 0, .ok none) := finished?_startedMeanwhile hlater (by decide +kernel)
  have hruns : (startedMeanwhile (.stop 0 0)).host.Runs 0 0 := by decide +kernel
  exact hall hostToClose 0 0 (.stop 0 0) halfStarted _ none hostToClose_unused rfl rfl
    later_halfStarted hlater hok (by decide +kernel) 0 hruns

end Small

end ComponentHost
