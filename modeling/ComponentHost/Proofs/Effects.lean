import ComponentHost.Host.OperationsPlugin
import ComponentHost.Proofs.Stages
import ComponentHost.Proofs.Crowd
import ComponentHost.Proofs.Tables

/-!
What those make of the host who work on processes.

`Host.Touches wakes h h'` says once what one action of them can be: a process is locked or unlocked,
or put into a status; a manager counts, records, forgets, or is kept available by more or fewer
parties. Only where `wakes` is true a process may begin to run. Operations on processes do nothing
else (`Host.processAction_acts`), and when the host's own plugin starts and stops it wakes nothing
(`Host.stopOperations_acts`).

What is recorded stays tidy meanwhile (`Host.Tidy`), and a process does not begin to run but where
something wakes it (`Host.Touches.wakes_of_runs`).
-/

set_option autoImplicit false

namespace ComponentHost

namespace Host

/-! ### Running processes -/

theorem mem_listed {h : Host} {m : ManagerRef} {p : ProcessRef} :
    p ∈ h.listed m ↔ ∃ id, (id, p) ∈ (h.managers.get m).recorded := by
  rw [listed, (h.sorted_perm _).mem_iff, List.mem_map]
  exact ⟨fun ⟨x, hx, hp⟩ ↦ ⟨x.1, hp ▸ hx⟩, fun ⟨id, hmem⟩ ↦ ⟨_, hmem, rfl⟩⟩

/-- A process that the manager has recorded is running. -/
def Runs (h : Host) (m : ManagerRef) (p : ProcessRef) : Prop :=
  p ∈ h.listed m ∧ (h.processes.get p).status = .running

instance (h : Host) (m : ManagerRef) (p : ProcessRef) : Decidable (h.Runs m p) := by
  unfold Runs
  infer_instance

/-- A manager has no two records with one identifier, and records a process under its own. -/
structure Tidy (h : Host) : Prop where
  distinct : ∀ m, ((h.managers.get m).recorded.map Prod.fst).Nodup
  named : ∀ m id p, (id, p) ∈ (h.managers.get m).recorded →
    p < h.processes.count ∧ (h.processes.get p).id = id

theorem Unused.tidy {h : Host} (hunused : h.Unused) : h.Tidy := by
  refine ⟨fun m ↦ ?_, fun m id p hmem ↦ ?_⟩
  · rw [hunused.no_record]
    exact List.nodup_nil
  · rw [hunused.no_record] at hmem
    cases hmem

theorem Tidy.of_same {h h' : Host} (hh : h.Tidy) (hmanagers : h'.managers = h.managers)
    (hprocesses : h'.processes = h.processes) : h'.Tidy where
  distinct m := hmanagers ▸ hh.distinct m
  named m id p hmem := by
    rw [hmanagers] at hmem
    rw [hprocesses]
    exact hh.named m id p hmem

/-- A process that runs is found under its identifier. -/
theorem Tidy.find_of_runs {h : Host} {m : ManagerRef} {p : ProcessRef} (hh : h.Tidy)
    (hruns : h.Runs m p) : (h.managers.get m).find (h.processes.get p).id = .ok p := by
  obtain ⟨id, hmem⟩ := mem_listed.mp hruns.1
  obtain ⟨-, rfl⟩ := hh.named m id p hmem
  rw [Manager.find, (Table.get?_eq_some_iff (hh.distinct m)).mpr hmem]

/-! ### Single actions -/

/-- What a single action makes of managers and processes. -/
inductive Touches (wakes : Prop) (h : Host) : Host → Prop where
  | nothing : Touches wakes h h
  | locked (p : ProcessRef) (locked : Bool) :
      Touches wakes h { h with processes := h.processes.modify p ({ · with locked }) }
  | became (p : ProcessRef) {status : ProcessStatus} (hstatus : status = .running → wakes) :
      Touches wakes h (h.withStatus p status)
  | counted (m : ManagerRef) : Touches wakes h (h.counted m)
  | recorded (m : ManagerRef) {P : Process}
      (hfree : (h.managers.get m).recorded.contains P.id = false) (hP : P.status = .initialized) :
      Touches wakes h (h.recording m P)
  | forgot (m : ManagerRef) (id : String) : Touches wakes h (h.forgetting m id)
  | owned (m : ManagerRef) (owners : Nat → Nat) :
      Touches wakes h { h with
        managers := h.managers.modify m fun x ↦ { x with owners := owners x.owners } }

variable {wakes : Prop} {h h' : Host} {m : ManagerRef} {p : ProcessRef}

namespace Touches

theorem mono {wakes' : Prop} (hh : h.Touches wakes h') (hw : wakes → wakes') :
    h.Touches wakes' h' := by
  cases hh with
  | nothing => exact .nothing
  | locked p b => exact .locked p b
  | became p hstatus => exact .became p fun hrunning ↦ hw (hstatus hrunning)
  | counted m => exact .counted m
  | recorded m hfree hP => exact .recorded m hfree hP
  | forgot m id => exact .forgot m id
  | owned m owners => exact .owned m owners

theorem eq_with (hh : h.Touches wakes h') :
    h' = { h with managers := h'.managers, processes := h'.processes } := by
  cases hh <;> rfl

/-- What becomes of the records of a manager: nothing, or one is dropped, or a new process that is
initialized gets one under an identifier that is free. -/
theorem recorded_cases (hh : h.Touches wakes h') (m : ManagerRef) :
    (h'.managers.get m).recorded = (h.managers.get m).recorded ∨
      (∃ id, (h'.managers.get m).recorded = (h.managers.get m).recorded.erase id) ∨
      ∃ P : Process, (h.managers.get m).recorded.contains P.id = false ∧ P.status = .initialized ∧
        (h'.managers.get m).recorded = (h.managers.get m).recorded.bind P.id h.processes.count ∧
        h'.processes = (h.processes.add P).2 := by
  cases hh with
  | nothing | locked | became => exact .inl rfl
  | counted m' | owned m' =>
    refine .inl ?_
    by_cases hm : m = m' <;> simp [Host.counted, hm]
  | forgot m' id =>
    by_cases hm : m = m'
    · exact .inr (.inl ⟨id, by simp [forgetting, hm]⟩)
    · exact .inl (by simp [forgetting, hm])
  | @recorded m' P hfree hP =>
    by_cases hm : m = m'
    · exact .inr (.inr ⟨P, hm ▸ hfree, hP, by simp [recording, hm], rfl⟩)
    · exact .inl (by simp [recording, hm])

/-- What is recorded was recorded before, or is a new process that is initialized. -/
theorem mem_recorded (hh : h.Touches wakes h') {id : String}
    (hmem : (id, p) ∈ (h'.managers.get m).recorded) :
    (id, p) ∈ (h.managers.get m).recorded ∨
      p < h'.processes.count ∧ (h'.processes.get p).id = id ∧
        (h'.processes.get p).status = .initialized := by
  obtain hsame | ⟨id', herase⟩ | ⟨P, -, hP, hbind, hprocesses⟩ := hh.recorded_cases m
  · exact .inl (hsame ▸ hmem)
  · exact .inl (List.mem_of_mem_filter (herase ▸ hmem))
  · rw [hbind] at hmem
    refine (List.mem_append.mp hmem).imp_right fun hnew ↦ ?_
    cases List.mem_singleton.mp hnew
    rw [hprocesses, Store.get_add_self]
    exact ⟨Nat.lt_succ_self _, rfl, hP⟩

theorem distinct (hh : h.Touches wakes h')
    (hdistinct : ((h.managers.get m).recorded.map Prod.fst).Nodup) :
    ((h'.managers.get m).recorded.map Prod.fst).Nodup := by
  obtain hsame | ⟨id', herase⟩ | ⟨P, hfree, -, hbind, -⟩ := hh.recorded_cases m
  · exact hsame ▸ hdistinct
  · exact herase ▸ Table.erase_map_fst_nodup hdistinct id'
  · exact hbind ▸ Table.bind_map_fst_nodup hdistinct hfree _

theorem count_le (hh : h.Touches wakes h') : h.processes.count ≤ h'.processes.count := by
  cases hh with
  | recorded => exact Nat.le_succ _
  | _ => exact Nat.le_refl _

/-- A process keeps its identifier, and is not put into running unless something wakes it. -/
theorem process_kept (hh : h.Touches wakes h') (hp : p < h.processes.count) :
    (h'.processes.get p).id = (h.processes.get p).id ∧
      ((h'.processes.get p).status = .running →
        (h.processes.get p).status = .running ∨ wakes) := by
  cases hh with
  | nothing | counted | forgot | owned => exact ⟨rfl, .inl⟩
  | locked q b => by_cases hpq : p = q <;> simp_all
  | became q hstatus =>
    by_cases hpq : p = q
    · subst hpq
      simpa using fun hrunning ↦ .inr (hstatus hrunning)
    · simpa [get_withStatus_ne _ _ hpq] using .inl
  | @recorded m P hfree hP =>
    have hget := Store.get_add_ne h.processes P (Nat.ne_of_lt hp)
    exact ⟨congrArg Process.id hget, fun hrunning ↦ .inl (congrArg Process.status hget ▸ hrunning)⟩

theorem tidy (hh : h.Touches wakes h') (htidy : h.Tidy) : h'.Tidy where
  distinct m := hh.distinct (htidy.distinct m)
  named m id p hmem := by
    obtain hold | ⟨hlt, hid, -⟩ := hh.mem_recorded hmem
    · obtain ⟨hlt, hid⟩ := htidy.named m id p hold
      exact ⟨Nat.lt_of_lt_of_le hlt hh.count_le, (hh.process_kept hlt).1.trans hid⟩
    · exact ⟨hlt, hid⟩

/-- A process does not begin to run unless something wakes it. -/
theorem wakes_of_runs (hh : h.Touches wakes h') (htidy : h.Tidy) (hbefore : ¬h.Runs m p)
    (hafter : h'.Runs m p) : wakes := by
  obtain ⟨hlisted, hrunning⟩ := hafter
  obtain ⟨id, hmem⟩ := mem_listed.mp hlisted
  obtain hold | ⟨-, -, hinitialized⟩ := hh.mem_recorded hmem
  · have hlt := (htidy.named m id p hold).1
    refine ((hh.process_kept hlt).2 hrunning).resolve_left fun hstatus ↦ ?_
    exact hbefore ⟨mem_listed.mpr ⟨id, hold⟩, hstatus⟩
  · rw [hinitialized] at hrunning
    cases hrunning

theorem of_lock? (hlock : lock? p h = some h') : h.Touches wakes h' := by
  simp only [lock?] at hlock
  split at hlock
  · cases hlock
  · cases hlock
    exact .locked p true

theorem of_deal {r : Request} {b b' : Baggage} (hdeal : Deal r h b h' b') :
    h.Touches wakes h' := by
  cases hdeal with
  | nothing | found | dropped => exact .nothing
  | counted => exact .counted _
  | recorded hfree hnew => exact .recorded _ hfree hnew.initialized
  | removed => exact .forgot _ _

end Touches

/-! ### Lifecycle calls -/

variable {α : Type} {ctx : ContextRef} {id : String} {G : Host → Host → Prop}

theorem log_acts (level : LogLevel) (message : String) (entries : Entries) :
    (log level message entries).run.Acts G := .call fun _ ↦ .done _

theorem announce_acts (hG : ∀ h, G h h) (topic : String) (p : ProcessRef) :
    (announce topic p).run.Acts G :=
  .andThen (.act hG fun _ ↦ .done _) fun _ ↦ .call fun _ ↦ .done _

theorem setStatus_acts {status : ProcessStatus} (hG : ∀ h, G h (h.withStatus p status)) :
    (setStatus p status).run.Acts G := .act hG fun _ ↦ .done _

theorem rollback_acts (cs : List (String × Component)) : (rollback ctx id cs).run.Acts G := by
  induction cs with
  | nil => exact .done _
  | cons x rest ih =>
    refine .andThen (.rescue (.call fun _ ↦ .done _) fun e ↦ .call fun _ ↦ .done _) fun _ ↦ ih

theorem startEach_acts (started cs : List (String × Component)) :
    (startEach ctx id started cs).run.Acts G := by
  induction cs generalizing started with
  | nil => exact .done _
  | cons x rest ih =>
    refine .andThen (.rescue (.call fun _ ↦ .done _) fun e ↦ ?_) fun _ ↦ ih _
    exact .andThen (log_acts _ _ _) fun _ ↦ .andThen (rollback_acts started) fun _ ↦ .done _

theorem stopEach_acts (cs : List (String × Component)) : (stopEach ctx id cs).run.Acts G := by
  induction cs with
  | nil => exact .done _
  | cons x rest ih =>
    refine .andThen (.rescue (.call fun _ ↦ .done _) fun e ↦ ?_) fun _ ↦ ih
    exact .andThen (log_acts _ _ _) fun _ ↦ .done _

end Host

/-- The acts of a section: it looks, and puts its process into a status, into running only if it is
to start it. -/
theorem Section.body_acts {G : Host → Host → Prop} (sec : Section) (p : ProcessRef)
    (hlook : ∀ h, G h h) (hbecame : ∀ h status, (status = .running → sec.target = .running) →
      G h (h.withStatus p status)) : (sec.body p).run.Acts G := by
  have hgets {β : Type} (f : Host → β) : (Prog.gets f).Acts G := .act hlook fun _ ↦ .done _
  have htold (level : LogLevel) (message : String) (entries : Entries) (topic : String) :
      (Host.log level message entries >>= fun _ ↦ Host.announce topic p : Action Unit).run.Acts G :=
    .andThen (Host.log_acts _ _ _) fun _ ↦ Host.announce_acts hlook _ _
  cases sec with
  | start ctx id =>
    refine .andThen (hgets _) fun _ ↦ .andThen (.lift (hgets _)) fun P ↦ ?_
    refine .andThen (Host.startEach_acts [] _) fun _ ↦ ?_
    exact .andThen (Host.setStatus_acts fun h ↦ hbecame h _ fun _ ↦ rfl) fun _ ↦ htold _ _ _ _
  | stop ctx id =>
    refine .andThen (.lift (hgets _)) fun P ↦ .andThen (Host.stopEach_acts _) fun _ ↦ ?_
    exact .andThen (Host.setStatus_acts fun h ↦ hbecame h _ nofun) fun _ ↦ htold _ _ _ _
  | fail id reason =>
    exact .andThen (Host.setStatus_acts fun h ↦ hbecame h _ nofun) fun _ ↦ htold _ _ _ _

namespace Prog.AtLarge

variable {α : Type} {r : Request} {Q : Baggage → α → Prop} {b : Baggage} {x : Prog Host α}

/-- The acts of a client at large, and in its sections. -/
theorem acts_of {G : Host → Host → Prop} (hx : x.AtLarge r Q b)
    (hdeal : ∀ h b h' b', Deal r h b h' b' → G h h')
    (hlocked : ∀ h p locked,
      G h { h with processes := h.processes.modify p ({ · with locked }) })
    (hbecame : ∀ sec ∈ r.sections, ∀ h p status,
      (status = .running → sec.target = .running) → G h (h.withStatus p status)) : x.Acts G := by
  induction hx with
  | done => exact .done _
  | act after hdealt _ ih => exact .act (fun h ↦ hdeal _ _ _ _ (hdealt h)) ih
  | call _ _ _ _ ih => exact .call ih
  | @visit p sec next hsec _ ih =>
    refine .await (fun h h' hlock ↦ ?_) (.bind ?_ fun res ↦ .act (fun h ↦ hlocked h p false) ?_)
    · simp only [Host.lock?] at hlock
      split at hlock
      · cases hlock
      · cases hlock
        exact hlocked h p true
    · exact sec.body_acts p (fun h ↦ hdeal h {} h {} .nothing) fun h status ↦
        hbecame sec hsec h p status
    · exact fun _ ↦ ih res

/-- What a client at large does, and in its sections, touches managers and processes only. -/
theorem acts {wakes : Prop} (hx : x.AtLarge r Q b)
    (hwakes : ∀ sec ∈ r.sections, sec.target = .running → wakes) :
    x.Acts (Host.Touches wakes) :=
  hx.acts_of (fun _ _ _ _ ↦ .of_deal) (fun _ p locked ↦ .locked p locked)
    fun sec hsec _ p _ hstatus ↦ .became p fun h ↦ hwakes sec hsec (hstatus h)

end Prog.AtLarge

/-! ### Operations -/

/-- Operations of this kind put a process into running. -/
def ProcessAction.Wakes (action : ProcessAction) : Prop := action = .start ∨ action = .restart

namespace Host

variable {wakes : Prop} {m : ManagerRef} {ctx : ContextRef} {id : String}

theorem snapshotOf_acts (m : ManagerRef) (id : String) :
    (snapshotOf m id).run.Acts (Touches wakes) :=
  .andThen (.act (fun _ ↦ .nothing) fun _ ↦ .done _) fun _ ↦
    .andThen (.act (fun _ ↦ .nothing) fun _ ↦ .done _) fun _ ↦ .done _

theorem stopProcess_acts (m : ManagerRef) (ctx : ContextRef) (id : String) :
    (stopProcess m ctx id).run.Acts (Touches wakes) := by
  have hatLarge := stopProcess_atLarge (r := .stop m ctx id) (b := {}) rfl ⟨rfl, rfl⟩
    List.mem_cons_self rfl
  refine hatLarge.acts fun sec hsec hrunning ↦ ?_
  cases List.mem_singleton.mp hsec
  cases hrunning

/-- An operation on processes touches managers and processes only, and wakes only to start. -/
theorem processAction_acts (action : ProcessAction) (m : ManagerRef) (ctx : ContextRef)
    (data : Json) : (processAction action m ctx data).run.Acts (Touches action.Wakes) := by
  cases action with
  | create =>
    refine .andThen (.done _) fun config ↦ .andThen ?_ fun p ↦ ?_
    · exact (createProcess_atLarge (b := {}) m ctx config rfl).acts fun sec hsec ↦ by cases hsec
    · exact .andThen (.act (fun _ ↦ .nothing) fun _ ↦ .done _) fun P ↦ .done _
  | start =>
    refine .andThen (.done _) fun id ↦ .andThen ?_ fun _ ↦ snapshotOf_acts m id
    exact (startProcess_atLarge (r := .start m ctx id) (b := {}) rfl ⟨rfl, rfl⟩
      List.mem_cons_self rfl).acts
      fun _ _ _ ↦ .inl rfl
  | stop =>
    exact .andThen (.done _) fun id ↦ .andThen (stopProcess_acts m ctx id) fun _ ↦
      snapshotOf_acts m id
  | restart =>
    refine .andThen (.done _) fun id ↦ .andThen ?_ fun _ ↦ snapshotOf_acts m id
    have hatLarge := restartProcess_atLarge (r := .restart m ctx id) (b := {}) rfl
      ⟨rfl, rfl⟩ List.mem_cons_self (List.mem_cons_of_mem _ List.mem_cons_self) rfl
    exact hatLarge.acts fun _ _ _ ↦ .inr rfl
  | remove =>
    refine .andThen (.done _) fun id ↦ .andThen ?_ fun _ ↦ .done _
    exact (removeProcess_atLarge (b := {}) m id rfl).acts fun sec hsec ↦ by cases hsec
  | get =>
    simp only [processAction]
    split
    · exact snapshotOf_acts m _
    · exact .act (fun _ ↦ .nothing) fun _ ↦ .done _

theorem holding_acts {α : Type} {body : ManagerRef → Action α} (m : Option ManagerRef)
    (hbody : ∀ m, (body m).run.Acts (Touches wakes)) :
    (holding m body).run.Acts (Touches wakes) := by
  cases m with
  | none => exact .done _
  | some m =>
    refine .bind (x := (acquire m).run) (.act (fun h ↦ ?_) fun _ ↦ .done _) fun res ↦ ?_
    · by_cases howners : (h.managers.get m).owners = 0
      · simpa [howners] using .nothing
      · simpa [howners] using .owned m (· + 1)
    · cases res with
      | error e => exact .done _
      | ok _ => exact .bind (hbody m) fun res ↦ .act (fun h ↦ .owned m (· - 1)) fun _ ↦ .done _

theorem relinquish_acts (m : ManagerRef) : (relinquish m).Acts (Touches wakes) :=
  .act (fun _ ↦ .owned m (· - 1)) fun _ ↦ .done _

theorem stopRunning_acts (m : ManagerRef) (ctx : ContextRef) (first : Option Error)
    (ps : List ProcessRef) : (stopRunning m ctx first ps).Acts (Touches wakes) := by
  induction ps generalizing first with
  | nil => exact .done _
  | cons p rest ih =>
    refine .bind (.act (fun _ ↦ .nothing) fun _ ↦ .done _) fun P ↦ ?_
    by_cases hrunning : P.status = .running
    · rw [if_pos hrunning]
      refine .bind (stopProcess_acts m ctx P.id) fun res ↦ ?_
      cases res with
      | ok _ => exact ih first
      | error e => exact ih _
    · rw [if_neg hrunning]
      exact ih first

/-- The processes that run are stopped, and the manager is let go. -/
def stopListed (m : ManagerRef) (ctx : ContextRef) : Prog Host (Option Error) := do
  let processes ← Prog.gets fun h ↦ h.listed m
  let first ← stopRunning m ctx none processes
  relinquish m
  return first

theorem stopListed_acts (m : ManagerRef) (ctx : ContextRef) :
    (stopListed m ctx).Acts (Touches wakes) :=
  .bind (.act (fun _ ↦ .nothing) fun _ ↦ .done _) fun ps ↦
    .bind (stopRunning_acts m ctx none ps) fun _ ↦ .bind (relinquish_acts m) fun _ ↦ .done _

/-! ### The host's own plugin -/

/-- What the own plugin makes of the host when it starts or stops: it wakes no process, and keeps
data of its own. -/
inductive Minds (ref : PluginRef) (h : Host) : Host → Prop where
  | touches {h' : Host} (hh : h.Touches False h') : Minds ref h h'
  | keeps (f : OperationsPlugin → OperationsPlugin) :
      Minds ref h { h with operationsPlugins := h.operationsPlugins.modify ref f }

variable {ref : PluginRef} {h : Host}

theorem pluginData_acts (ref' : PluginRef) : (pluginData ref').Acts (Minds ref) :=
  .act (fun _ ↦ .touches .nothing) fun _ ↦ .done _

theorem modifyPlugin_acts (f : OperationsPlugin → OperationsPlugin) :
    (modifyPlugin ref f).Acts (Minds ref) := .act (fun _ ↦ .keeps f) fun _ ↦ .done _

theorem requireAttached_acts (ref' : PluginRef) : (requireAttached ref').run.Acts (Minds ref) := by
  refine .andThen (.lift (pluginData_acts ref')) fun x ↦ ?_
  by_cases hx : x.attached <;> simp only [hx] <;> exact .done _

/-- Who may rely on nobody else's touching the plugin finds it as it was. -/
theorem requireAttached_abides {M : Manner} {log : List Feat}
    {Q : List Feat → Host → Except Error OperationsPlugin → Prop} (hM : M.IsFree)
    (hrely : ∀ h', M.rely h h' → h'.operationsPlugins.get ref = h.operationsPlugins.get ref)
    (hok : ∀ h', M.rely h h' → (h.operationsPlugins.get ref).attached = true →
      Q (log ++ [.acted h' h']) h' (.ok (h.operationsPlugins.get ref)))
    (herror : ∀ h' e, (h.operationsPlugins.get ref).attached = false →
      Q (log ++ [.acted h' h']) h' (.error e)) :
    (requireAttached ref).run.Abides M Q log h := by
  refine .andThen (.lift fun h' hh' ↦ ⟨hM.act _ _ _, ?_⟩)
  simp only [hrely h' hh', Prog.abides_done]
  cases hattached : (h.operationsPlugins.get ref).attached with
  | false => exact herror h' _ hattached
  | true => exact hok h' hh' hattached

theorem performService_acts (phase : Phase) (ctx : ContextRef) (id : String) :
    (performService phase ctx id).run.Acts (Minds ref) :=
  .andThen (.act (fun _ ↦ .touches .nothing) fun _ ↦ .done _) fun _ ↦ .call fun _ ↦ .done _

theorem stopServices_acts (ctx : ContextRef) (first : Option Error) (ids : List String) :
    (stopServices ref ctx first ids).Acts (Minds ref) := by
  induction ids generalizing first with
  | nil => exact .done _
  | cons id rest ih =>
    refine .bind (modifyPlugin_acts _) fun _ ↦ .bind (performService_acts .stop ctx id) fun res ↦ ?_
    cases res with
    | ok _ => exact ih first
    | error e => exact ih _

theorem stopStarted_acts (ctx : ContextRef) : (stopStarted ref ctx).Acts (Minds ref) :=
  .bind (pluginData_acts ref) fun _ ↦ stopServices_acts ctx none _

/-- What is done when a service does not start. -/
def giveUp (ref : PluginRef) (ctx : ContextRef) (id : String) (e : Error) : Action Unit := do
  let x ← .of (pluginData ref)
  log .warning "service autostart failed, stopping started services" (fields [
    ("service_id", .str id), ("rolled_back", .ofNat x.started.length),
    ("error", .str e.message)])
  match ← .of (stopStarted ref ctx) with
  | some rollbackError =>
    diagnose .warn
      ("rollback stop of autostarted services failed: " ++ rollbackError.message)
  | none => pure ()
  throw e

theorem startServices_cons (ref : PluginRef) (ctx : ContextRef) (id : String) (rest : List String) :
    startServices ref ctx (id :: rest) =
      tryCatch (performService .start ctx id) (giveUp ref ctx id) >>= fun _ ↦
        log .info "service started" (fields [("service_id", .str id)]) >>= fun _ ↦
          Action.of (modifyPlugin ref fun x ↦ { x with started := id :: x.started }) >>= fun _ ↦
            startServices ref ctx rest := rfl

theorem startServices_acts (ctx : ContextRef) (ids : List String) :
    (startServices ref ctx ids).run.Acts (Minds ref) := by
  induction ids with
  | nil => exact .done _
  | cons id rest ih =>
    rw [startServices_cons]
    refine .andThen (.rescue (performService_acts .start ctx id) fun e ↦ ?_) fun _ ↦ ?_
    · refine .andThen (.lift (pluginData_acts ref)) fun x ↦ ?_
      refine .andThen (.call fun _ ↦ .done _) fun _ ↦ ?_
      refine .andThen (.lift (stopStarted_acts ctx)) fun failure ↦ ?_
      cases failure with
      | none => exact .done _
      | some e' => exact .andThen (.call fun _ ↦ .done _) fun _ ↦ .done _
    · refine .andThen (.call fun _ ↦ .done _) fun _ ↦ ?_
      exact .andThen (.lift (modifyPlugin_acts _)) fun _ ↦ ih

theorem stopManaged_eq (ref : PluginRef) (ctx : ContextRef) (m : ManagerRef) :
    stopManaged ref ctx m =
      (modifyPlugin ref fun x ↦ { x with manager := none }).bind fun _ ↦ stopListed m ctx := rfl

theorem stopManaged_acts (m : ManagerRef) (ctx : ContextRef) :
    (stopManaged ref ctx m).Acts (Minds ref) :=
  .bind (modifyPlugin_acts _) fun _ ↦ (stopListed_acts m ctx).mono fun _ _ ↦ .touches

/-- The second half of stopping: the services, and the answer. -/
def stopRest (ref : PluginRef) (ctx : ContextRef) (first : Option Error) : Action Unit := do
  let second ← .of (stopStarted ref ctx)
  .of (modifyPlugin ref fun x ↦ { x with attached := false })
  match first.or second with
  | some e => throw e
  | none => return ()

theorem stopOperations_eq (ref : PluginRef) (ctx : ContextRef) :
    stopOperations ref ctx = requireAttached ref >>= fun x ↦
      match x.manager with
      | some m => Action.of (stopManaged ref ctx m) >>= stopRest ref ctx
      | none => stopRest ref ctx none := rfl

theorem stopRest_acts (ctx : ContextRef) (first : Option Error) :
    (stopRest ref ctx first).run.Acts (Minds ref) := by
  refine .andThen (.lift (stopStarted_acts ctx)) fun second ↦ ?_
  refine .andThen (.lift (modifyPlugin_acts _)) fun _ ↦ ?_
  cases first.or second <;> exact .done _

theorem stopOperations_acts (ctx : ContextRef) :
    (stopOperations ref ctx).run.Acts (Minds ref) := by
  rw [stopOperations_eq]
  refine .andThen (requireAttached_acts ref) fun x ↦ ?_
  cases x.manager with
  | none => exact stopRest_acts ctx none
  | some m => exact .andThen (.lift (stopManaged_acts m ctx)) (stopRest_acts ctx)

theorem startOperations_acts (ctx : ContextRef) :
    (startOperations ref ctx).run.Acts (Minds ref) :=
  .andThen (requireAttached_acts ref) fun _ ↦
    .andThen (.lift (.act (fun _ ↦ .touches .nothing) fun _ ↦ .done _)) fun ids ↦
      startServices_acts ctx ids

end Host

end ComponentHost
