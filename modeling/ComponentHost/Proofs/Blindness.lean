import ComponentHost.Host.Collaborators
import ComponentHost.Proofs.Effects
import ComponentHost.Proofs.Scope

/-!
Hosts that differ in the logger and the bus only.

Two hosts are alike if they differ in nothing but the logger, what it has written, and the bus
(`Host.Alike`). Every computation of a host does the same on hosts that are alike, and leaves them
alike: it keeps to `Host.observerScope`. The one exception is publishing an event, which looks at
the bus to find the handlers; so of the host's own collaborators all but the bus keep to the scope
(`Host.answer?_blind`).
-/

set_option autoImplicit false

namespace ComponentHost

/-! ### Hosts that are alike -/

/-- The hosts differ in nothing but the logger, what it has written, and the bus. -/
def Host.Alike (h h' : Host) : Prop :=
  ∃ logger lines bus, h' = { h with logger, lines, bus }

namespace Host.Alike

variable {h h' h'' : Host}

theorem refl (h : Host) : h.Alike h := ⟨_, _, _, rfl⟩

theorem symm (hh : h.Alike h') : h'.Alike h := by
  obtain ⟨logger, lines, bus, rfl⟩ := hh
  exact ⟨_, _, _, rfl⟩

theorem trans (hh : h.Alike h') (hh' : h'.Alike h'') : h.Alike h'' := by
  obtain ⟨logger, lines, bus, rfl⟩ := hh
  obtain ⟨logger', lines', bus', rfl⟩ := hh'
  exact ⟨_, _, _, rfl⟩

end Host.Alike

/-- An event is given to a handler. -/
def Call.isDelivery : Call → Bool
  | .deliver _ _ => true
  | _ => false

namespace Host

open Prog

/-- What looks at neither the logger nor the bus, and gives no event to a handler. -/
def observerScope : Scope Host where
  alike := Alike
  call c := c.isDelivery = false

variable {α : Type}

/-! ### Steps of a host -/

/-- A step that does the same whatever the logger and the bus. -/
theorem act_keepsTo {f : Host → Host} {k : Host → Prog Host α}
    (hf : ∀ h logger lines bus, f { h with logger, lines, bus } =
      { f h with logger, lines, bus })
    (hk : ∀ (h : Host) logger lines bus, k { h with logger, lines, bus } = k h)
    (hrest : ∀ h, (k h).KeepsTo observerScope) : (Prog.act f k).KeepsTo observerScope := by
  rintro h h' ⟨logger, lines, bus, rfl⟩
  exact ⟨⟨logger, lines, bus, hf h logger lines bus⟩, trivial, (hk h logger lines bus).symm,
    hrest h⟩

theorem inspect_keepsTo {f : Host → Except Error α}
    (hf : ∀ (h : Host) logger lines bus, f { h with logger, lines, bus } = f h) :
    (inspect f).run.KeepsTo observerScope :=
  act_keepsTo (fun _ _ _ _ ↦ rfl) (fun h _ _ _ ↦ congrArg Prog.done (hf h _ _ _)) fun _ ↦ trivial

theorem gets_keepsTo {f : Host → α}
    (hf : ∀ (h : Host) logger lines bus, f { h with logger, lines, bus } = f h) :
    (Prog.gets f).KeepsTo observerScope :=
  act_keepsTo (fun _ _ _ _ ↦ rfl) (fun h _ _ _ ↦ congrArg Prog.done (hf h _ _ _)) fun _ ↦ trivial

theorem modify_keepsTo {f : Host → Host}
    (hf : ∀ h logger lines bus, f { h with logger, lines, bus } =
      { f h with logger, lines, bus }) : (Prog.modify f).KeepsTo observerScope :=
  act_keepsTo hf (fun _ _ _ _ ↦ rfl) fun _ ↦ trivial

theorem update_keepsTo {f : Host → α × Host}
    (hf : ∀ h logger lines bus, f { h with logger, lines, bus } =
      ((f h).1, { (f h).2 with logger, lines, bus })) : (Prog.update f).KeepsTo observerScope :=
  act_keepsTo (fun h _ _ _ ↦ congrArg Prod.snd (hf h _ _ _))
    (fun h _ _ _ ↦ congrArg (fun y ↦ Prog.done y.1) (hf h _ _ _)) fun _ ↦ trivial

/-- A change that may fail. -/
theorem attempt_keepsTo {f : Host → Except Error (α × Host)}
    (hf : ∀ (h : Host) logger lines bus, f { h with logger, lines, bus } =
      (f h).map fun y ↦ (y.1, { y.2 with logger, lines, bus })) :
    (attempt f).run.KeepsTo observerScope := by
  refine update_keepsTo fun h logger lines bus ↦ ?_
  rw [hf]
  cases f h with
  | ok y => rfl
  | error e => rfl

theorem ask_keepsTo {c : Call} (hc : c.isDelivery = false) :
    (Prog.ask c).KeepsTo observerScope := .ask hc

theorem observerScope_takesNotes : observerScope.TakesNotes := by
  intro c hc
  cases c with
  | deliver => cases hc
  | _ => rfl

/-! ### Processes -/

theorem observerScope_covers (p : ProcessRef) : observerScope.Covers p where
  get_eq := by
    rintro h h' ⟨logger, lines, bus, rfl⟩
    rfl
  modify := by
    rintro f h h' ⟨logger, lines, bus, rfl⟩ -
    exact ⟨⟨_, _, _, rfl⟩, trivial⟩
  call h h' c _ hfor := by
    cases c with
    | deliver => exact hfor.elim
    | _ => rfl

theorem observerScope_reaches (m : ManagerRef) (id : String) : observerScope.Reaches m id where
  find_eq := by
    rintro h h' ⟨logger, lines, bus, rfl⟩
    rfl
  covers _ _ p _ _ := observerScope_covers p

theorem observerScope_forgets (m : ManagerRef) (id : String) : observerScope.Forgets m id := by
  rintro h h' ⟨logger, lines, bus, rfl⟩
  exact ⟨⟨_, _, _, rfl⟩, trivial⟩

theorem observerScope_sees (ctx : ContextRef) : observerScope.Sees ctx := by
  rintro h h' ⟨logger, lines, bus, rfl⟩
  rfl

theorem reached_observerScope (cs : List (String × Component)) : Reached observerScope cs :=
  fun _ _ _ _ ↦ rfl

section

variable {m : ManagerRef} {ctx : ContextRef} {id : String}

theorem rollback_blind (cs : List (String × Component)) :
    (rollback ctx id cs).run.KeepsTo observerScope :=
  rollback_keepsTo observerScope_takesNotes (reached_observerScope cs)

theorem log_blind (level : LogLevel) (message : String) (entries : Entries) :
    (log level message entries).run.KeepsTo observerScope :=
  log_keepsTo observerScope_takesNotes level message entries

theorem diagnose_blind (level : LineLevel) (message : String) :
    (diagnose level message).run.KeepsTo observerScope :=
  diagnose_keepsTo observerScope_takesNotes level message

theorem announce_blind (topic : String) (p : ProcessRef) :
    (announce topic p).run.KeepsTo observerScope := announce_keepsTo (observerScope_covers p) topic

theorem prepare_blind (config : ComponentConfig) :
    (prepare ctx id config).run.KeepsTo observerScope := by
  refine .andThen (inspect_keepsTo fun _ _ _ _ ↦ rfl) fun f ↦ ?_
  refine .rescue (.andThen (ask_keepsTo rfl) fun c ↦ ?_) fun e ↦ trivial
  exact .andThen (ask_keepsTo rfl) fun _ ↦ trivial

theorem prepareAll_blind (prepared : List (String × Component)) (configs : List ComponentConfig) :
    (prepareAll ctx id prepared configs).run.KeepsTo observerScope := by
  induction configs generalizing prepared with
  | nil => trivial
  | cons config rest ih =>
    refine .andThen (.rescue (prepare_blind config) fun e ↦ ?_) fun c ↦ ih _
    refine .andThen (log_blind _ _ _) fun _ ↦ ?_
    exact .andThen (rollback_blind prepared) fun _ ↦ trivial

theorem recordProcess_blind (P : Process) : (recordProcess m P).run.KeepsTo observerScope := by
  refine .lift (update_keepsTo fun h logger lines bus ↦ ?_)
  by_cases htaken : (h.managers.get m).recorded.contains P.id = true
  · simp only [htaken, if_true]
  · simp only [htaken]
    rfl

theorem createProcess_blind (config : ProcessConfig) :
    (createProcess m ctx config).run.KeepsTo observerScope := by
  refine .andThen (x := Action.ofExcept config.validate) trivial fun _ ↦ ?_
  refine .andThen (checkContext_keepsTo (observerScope_sees ctx)) fun _ ↦ ?_
  refine .andThen (.lift (gets_keepsTo fun _ _ _ _ ↦ rfl)) fun generator ↦ ?_
  refine .andThen (ask_keepsTo (c := .generateId generator) rfl) fun id ↦ ?_
  refine .andThen (prepareAll_blind [] config.components) fun prepared ↦ ?_
  refine .andThen (.lift (update_keepsTo fun _ _ _ _ ↦ rfl)) fun seq ↦ ?_
  refine .andThen (.lift (gets_keepsTo fun _ _ _ _ ↦ rfl)) fun now ↦ ?_
  refine .andThen (recordProcess_blind _) fun recorded ↦ ?_
  cases recorded with
  | none => exact .andThen (rollback_blind prepared) fun _ ↦ trivial
  | some p =>
    refine .andThen (log_blind _ _ _) fun _ ↦ ?_
    exact .andThen (announce_blind _ p) fun _ ↦ trivial

theorem createProcesses_blind (configs : List ProcessConfig) :
    (createProcesses m ctx configs).run.KeepsTo observerScope := by
  induction configs with
  | nil => trivial
  | cons config rest ih =>
    exact .andThen (createProcess_blind config) fun p ↦ .andThen ih fun _ ↦ trivial

end

end Host

/-- What a client asks of a manager of processes does the same whatever the logger and the bus. -/
theorem Request.blind (r : Request) : r.program.KeepsTo Host.observerScope := by
  have habout {m : ManagerRef} {id : String} (hr : r.IsAbout m id) :
      r.program.KeepsTo Host.observerScope :=
    keepsTo hr Host.observerScope_takesNotes (Host.observerScope_reaches m id)
      (fun _ ↦ Host.observerScope_forgets m id) fun ctx _ ↦ Host.observerScope_sees ctx
  cases r with
  | create m ctx config => exact .andThen (Host.createProcess_blind config) fun _ ↦ trivial
  | start | stop | restart | markFailed | remove => exact habout ⟨rfl, rfl⟩

namespace Host

open Prog

variable {m : ManagerRef} {ctx : ContextRef} {id : String} {ref : PluginRef}

/-! ### The registry -/

theorem registerFactory_blind (id : String) (f : Factory) :
    (registerFactory id f).run.KeepsTo observerScope := by
  refine .andThen (attempt_keepsTo fun h _ _ _ ↦ ?_) fun _ ↦ diagnose_blind _ _
  cases h.registry.bindFactory id f <;> rfl

theorem record_blind (id : String) (c : Component) : (record id c).run.KeepsTo observerScope := by
  refine .andThen (attempt_keepsTo fun h _ _ _ ↦ ?_) fun _ ↦ ?_
  · cases h.registry.bindComponent id c <;> rfl
  · exact .andThen (diagnose_blind _ _) fun _ ↦ trivial

theorem createComponent_blind (config : ComponentConfig) :
    (createComponent config).run.KeepsTo observerScope := by
  refine .andThen (inspect_keepsTo fun _ _ _ _ ↦ rfl) fun f ↦ ?_
  exact .andThen (ask_keepsTo (c := .create f config) rfl) fun c ↦ record_blind _ c

theorem removeComponent_blind (id : String) :
    (removeComponent id).run.KeepsTo observerScope := by
  refine attempt_keepsTo fun h _ _ _ ↦ ?_
  cases h.registry.removeComponent id <;> rfl

theorem dispatch_blind (data : Json) : (dispatch ctx id data).run.KeepsTo observerScope := by
  refine .andThen (inspect_keepsTo fun _ _ _ _ ↦ rfl) fun c ↦ ?_
  refine .andThen (diagnose_blind _ _) fun _ ↦ ?_
  refine .rescue (ask_keepsTo (c := .execute c ctx data) rfl) fun e ↦ ?_
  exact .andThen (diagnose_blind _ _) fun _ ↦ trivial

/-! ### Operations -/

theorem relinquish_blind (m : ManagerRef) : (relinquish m).KeepsTo observerScope :=
  modify_keepsTo fun _ _ _ _ ↦ rfl

theorem acquire_blind (m : ManagerRef) : (acquire m).run.KeepsTo observerScope := by
  refine attempt_keepsTo fun h _ _ _ ↦ ?_
  by_cases hgone : (h.managers.get m).owners = 0
  · simp only [hgone, if_true]
    rfl
  · simp only [hgone, if_false]
    rfl

theorem holding_blind {α : Type} {body : ManagerRef → Action α}
    (hbody : ∀ m, (body m).run.KeepsTo observerScope) (m : Option ManagerRef) :
    (holding m body).run.KeepsTo observerScope := by
  cases m with
  | none => trivial
  | some m =>
    refine .bind (acquire_blind m) fun res ↦ ?_
    cases res with
    | error e => trivial
    | ok u => exact .bind (hbody m) fun r ↦ .bind (relinquish_blind m) fun _ ↦ trivial

theorem snapshot_blind (p : ProcessRef) : (snapshot p).run.KeepsTo observerScope :=
  .andThen (.lift (gets_keepsTo fun _ _ _ _ ↦ rfl)) fun _ ↦ trivial

theorem snapshotOf_blind (m : ManagerRef) (id : String) :
    (snapshotOf m id).run.KeepsTo observerScope :=
  .andThen (inspect_keepsTo fun _ _ _ _ ↦ rfl) fun p ↦ snapshot_blind p

theorem startProcess_blind : (startProcess m ctx id).run.KeepsTo observerScope :=
  startProcess_keepsTo observerScope_takesNotes (observerScope_reaches m id)
    (observerScope_sees ctx)

theorem stopProcess_blind : (stopProcess m ctx id).run.KeepsTo observerScope :=
  stopProcess_keepsTo observerScope_takesNotes (observerScope_reaches m id)
    (observerScope_sees ctx)

theorem processAction_blind (action : ProcessAction) (m : ManagerRef) (data : Json) :
    (processAction action m ctx data).run.KeepsTo observerScope := by
  have hid {f : String → Action Json} (hf : ∀ id, (f id).run.KeepsTo observerScope) :
      (Action.ofExcept (data.requiredText "process_id") >>= f).run.KeepsTo observerScope :=
    .andThen (x := Action.ofExcept _) trivial hf
  cases action with
  | create =>
    refine .andThen (x := Action.ofExcept (ProcessConfig.codec.read data)) trivial fun config ↦ ?_
    exact .andThen (createProcess_blind config) fun p ↦ snapshot_blind p
  | start => exact hid fun id ↦ .andThen startProcess_blind fun _ ↦ snapshotOf_blind m id
  | stop => exact hid fun id ↦ .andThen stopProcess_blind fun _ ↦ snapshotOf_blind m id
  | restart =>
    refine hid fun id ↦ .andThen ?_ fun _ ↦ snapshotOf_blind m id
    exact restartProcess_keepsTo observerScope_takesNotes (observerScope_reaches m id)
      (observerScope_sees ctx)
  | remove =>
    refine hid fun id ↦ .andThen ?_ fun _ ↦ trivial
    exact removeProcess_keepsTo observerScope_takesNotes (observerScope_reaches m id)
      (observerScope_forgets m id)
  | get =>
    simp only [processAction]
    split
    · exact snapshotOf_blind m _
    · exact inspect_keepsTo fun _ _ _ _ ↦ rfl

theorem service_blind (phase : Phase) (ctx : ContextRef) (id : String) :
    (performService phase ctx id).run.KeepsTo observerScope :=
  .andThen (inspect_keepsTo fun _ _ _ _ ↦ rfl) fun c ↦
    ask_keepsTo (c := .lifecycle phase c ctx) rfl

theorem serviceAction_blind (action : ServiceAction) (attached : Bool) (data : Json) :
    (serviceAction action attached ctx data).run.KeepsTo observerScope := by
  have hperform (phase : Phase) (id : String) (answer : Json) : (do
      perform phase (← service id) ctx
      return answer : Action Json).run.KeepsTo observerScope := by
    refine .andThen (inspect_keepsTo fun _ _ _ _ ↦ rfl) fun c ↦ ?_
    exact .andThen (ask_keepsTo (c := .lifecycle phase c ctx) rfl) fun _ ↦ trivial
  have hid {f : String → Action Json} (hf : ∀ id, (f id).run.KeepsTo observerScope) :
      (Action.ofExcept (data.requiredText "service_id") >>= f).run.KeepsTo observerScope :=
    .andThen (x := Action.ofExcept _) trivial hf
  cases attached with
  | false => trivial
  | true =>
    cases action with
    | create =>
      refine .andThen (x := Action.ofExcept (ComponentConfig.codec.read data)) trivial
        fun config ↦ ?_
      exact .andThen (createComponent_blind config) fun c ↦ trivial
    | start => exact hid fun id ↦ hperform .start id _
    | stop => exact hid fun id ↦ hperform .stop id _

/-! ### The host's own plugin -/

theorem pluginData_blind (ref : PluginRef) : (pluginData ref).KeepsTo observerScope :=
  gets_keepsTo fun _ _ _ _ ↦ rfl

theorem modifyPlugin_blind (ref : PluginRef) (f : OperationsPlugin → OperationsPlugin) :
    (modifyPlugin ref f).KeepsTo observerScope := modify_keepsTo fun _ _ _ _ ↦ rfl

theorem relinquishOwn_blind (x : OperationsPlugin) : (relinquishOwn x).KeepsTo observerScope := by
  unfold relinquishOwn
  cases x.manager with
  | none => trivial
  | some m => exact relinquish_blind m

theorem requireAttached_blind (ref : PluginRef) :
    (requireAttached ref).run.KeepsTo observerScope := by
  refine .andThen (.lift (pluginData_blind ref)) fun x ↦ ?_
  cases x.attached <;> trivial

theorem setUpOperations_blind (ref : PluginRef) :
    (setUpOperations ref).run.KeepsTo observerScope := by
  refine .lift (.bind (pluginData_blind ref) fun x ↦ ?_)
  refine .bind (update_keepsTo fun _ _ _ _ ↦ rfl) fun m ↦ ?_
  exact .bind (relinquishOwn_blind x) fun _ ↦ modifyPlugin_blind ref _

theorem createEach_blind (configs : List ComponentConfig) :
    (createEach configs).run.KeepsTo observerScope := by
  induction configs with
  | nil => trivial
  | cons config rest ih => exact .andThen (createComponent_blind config) fun _ ↦ ih

theorem registerOperations_blind (ref : PluginRef) :
    (registerOperations ref).run.KeepsTo observerScope := by
  refine .andThen (requireAttached_blind ref) fun x ↦ ?_
  have hregister : (do
      registerFactory processActionsFactory (.processActions x.manager)
      registerFactory serviceActionsFactory (.serviceActions true)
      createEach (ProcessAction.all.map processOperationConfig)
      createEach (ServiceAction.all.map serviceOperationConfig) : Action Unit).run.KeepsTo
        observerScope :=
    .andThen (registerFactory_blind _ _) fun _ ↦ .andThen (registerFactory_blind _ _) fun _ ↦
      .andThen (createEach_blind _) fun _ ↦ createEach_blind _
  by_cases hx : x.manager.isNone = true
  · rw [if_pos hx]
    trivial
  · rw [if_neg hx]
    exact hregister

theorem stopServices_blind (first : Option Error) (ids : List String) :
    (stopServices ref ctx first ids).KeepsTo observerScope := by
  induction ids generalizing first with
  | nil => trivial
  | cons id rest ih =>
    refine .bind (modifyPlugin_blind ref _) fun _ ↦ .bind (service_blind .stop ctx id) fun res ↦ ?_
    cases res with
    | ok u => exact ih first
    | error e => exact ih _

theorem stopStarted_blind : (stopStarted ref ctx).KeepsTo observerScope :=
  .bind (pluginData_blind ref) fun x ↦ stopServices_blind none x.started

theorem giveUp_blind (e : Error) : (giveUp ref ctx id e).run.KeepsTo observerScope := by
  refine .andThen (.lift (pluginData_blind ref)) fun x ↦ .andThen (log_blind _ _ _) fun _ ↦ ?_
  refine .andThen (.lift stopStarted_blind) fun failure ↦ ?_
  cases failure with
  | none => trivial
  | some e' => exact .andThen (diagnose_blind _ _) fun _ ↦ trivial

theorem startServices_blind (ids : List String) :
    (startServices ref ctx ids).run.KeepsTo observerScope := by
  induction ids with
  | nil => trivial
  | cons id rest ih =>
    rw [startServices_cons]
    refine .andThen (.rescue (service_blind .start ctx id) fun e ↦ giveUp_blind e) fun _ ↦ ?_
    refine .andThen (log_blind _ _ _) fun _ ↦ ?_
    exact .andThen (.lift (modifyPlugin_blind ref _)) fun _ ↦ ih

theorem startOperations_blind : (startOperations ref ctx).run.KeepsTo observerScope := by
  refine .andThen (requireAttached_blind ref) fun _ ↦ ?_
  exact .andThen (.lift (gets_keepsTo fun _ _ _ _ ↦ rfl)) fun ids ↦ startServices_blind ids

theorem stopRunning_blind (first : Option Error) (ps : List ProcessRef) :
    (stopRunning m ctx first ps).KeepsTo observerScope := by
  induction ps generalizing first with
  | nil => trivial
  | cons p rest ih =>
    refine .bind (gets_keepsTo fun _ _ _ _ ↦ rfl) fun P ↦ ?_
    by_cases hrunning : P.status = .running
    · rw [if_pos hrunning]
      refine .bind stopProcess_blind fun res ↦ ?_
      cases res with
      | ok u => exact ih first
      | error e => exact ih _
    · rw [if_neg hrunning]
      exact ih first

theorem stopManaged_blind : (stopManaged ref ctx m).KeepsTo observerScope := by
  refine .bind (modifyPlugin_blind ref _) fun _ ↦ ?_
  refine .bind (gets_keepsTo fun _ _ _ _ ↦ rfl) fun ps ↦ ?_
  exact .bind (stopRunning_blind none ps) fun _ ↦ .bind (relinquish_blind m) fun _ ↦ trivial

theorem stopRest_blind (first : Option Error) :
    (stopRest ref ctx first).run.KeepsTo observerScope := by
  refine .andThen (.lift stopStarted_blind) fun second ↦ ?_
  refine .andThen (.lift (modifyPlugin_blind ref _)) fun _ ↦ ?_
  cases first.or second <;> trivial

theorem stopOperations_blind : (stopOperations ref ctx).run.KeepsTo observerScope := by
  rw [stopOperations_eq]
  refine .andThen (requireAttached_blind ref) fun x ↦ ?_
  cases x.manager with
  | none => exact stopRest_blind none
  | some m => exact .andThen (.lift stopManaged_blind) fun first ↦ stopRest_blind first

theorem operationsPhase_blind (phase : PluginPhase) (ref : PluginRef) (ctx : ContextRef) :
    (operationsPhase phase ref ctx).run.KeepsTo observerScope := by
  cases phase with
  | setUp => exact setUpOperations_blind ref
  | registerResources => exact registerOperations_blind ref
  | start => exact startOperations_blind
  | stop => exact stopOperations_blind

theorem releaseOperations_blind (ref : PluginRef) :
    (releaseOperations ref).KeepsTo observerScope :=
  .bind (pluginData_blind ref) fun x ↦ .bind (relinquishOwn_blind x) fun _ ↦
    modifyPlugin_blind ref _

/-! ### Plugins -/

theorem runPhases_blind (plugin : Plugin) (reached : PluginState)
    (phases : List (PluginPhase × PluginState)) :
    (runPhases ctx plugin reached phases).KeepsTo observerScope := by
  induction phases generalizing reached with
  | nil => trivial
  | cons x rest ih =>
    refine .bind (ask_keepsTo (c := .plugin x.1 plugin ctx) rfl) fun res ↦ ?_
    cases res with
    | ok u => exact ih x.2
    | error e => trivial

theorem addPlugin_blind (ctx : ContextRef) (plugin : Plugin) :
    (addPlugin ctx plugin).run.KeepsTo observerScope := by
  refine .andThen (.lift (runPhases_blind plugin .added onboarding)) fun outcome ↦ ?_
  cases outcome with
  | error x =>
    refine .andThen (log_blind _ _ _) fun _ ↦ ?_
    exact .andThen (.lift (ask_keepsTo (c := .release plugin) rfl)) fun _ ↦ trivial
  | ok u =>
    exact .andThen (.lift (update_keepsTo fun _ _ _ _ ↦ rfl)) fun position ↦ log_blind _ _ _

theorem stopPlugins_blind (report : StopReport) (plugins : List (Nat × Plugin)) :
    (stopPlugins ctx report plugins).KeepsTo observerScope := by
  induction plugins generalizing report with
  | nil => trivial
  | cons x rest ih =>
    refine .bind (ask_keepsTo (c := .plugin .stop x.2 ctx) rfl) fun res ↦ ?_
    cases res with
    | ok u | error e =>
      refine .bind (ask_keepsTo (c := .line _) rfl) fun _ ↦ ?_
      exact .bind (ask_keepsTo (c := .release x.2) rfl) fun _ ↦ ih _

theorem stopAll_blind (ctx : ContextRef) : (stopAll ctx).run.KeepsTo observerScope := by
  refine Prog.KeepsTo.bind (update_keepsTo fun _ _ _ _ ↦ rfl) fun pending ↦ ?_
  refine .bind (stopPlugins_blind {} pending) fun report ↦ ?_
  refine .bind (modify_keepsTo fun _ _ _ _ ↦ rfl) fun _ ↦ ?_
  cases report.firstError <;> trivial

/-! ### The host's own collaborators -/

theorem buildOwn?_blind {factory : Factory} {config : ComponentConfig}
    {x : Prog Host (Except Error Component)} (hx : buildOwn? factory config = some x) :
    x.KeepsTo observerScope := by
  cases factory with
  | external => cases hx
  | passive | processActions | serviceActions =>
    cases hx
    exact update_keepsTo fun _ _ _ _ ↦ rfl

theorem executeOwn?_blind {c : Component} {data : Json} {x : Prog Host (Except Error Json)}
    (hx : executeOwn? c ctx data = some x) : x.KeepsTo observerScope := by
  unfold executeOwn? at hx
  split at hx
  · cases hx
    exact holding_blind (fun m ↦ processAction_blind _ m data) _
  · cases hx
    exact serviceAction_blind _ _ data
  · cases hx
    trivial
  · cases hx

/-- Of the host's own collaborators all but the bus do the same whatever the logger and the bus. -/
theorem answer?_blind {c : Call} {x : Prog Host c.Reply}
    (hc : ∀ topic payload, c ≠ .publish topic payload) (hx : answer? c = some x) :
    x.KeepsTo observerScope := by
  cases c with
  | create factory config => exact buildOwn?_blind hx
  | lifecycle phase c ctx =>
    simp only [answer?] at hx
    split at hx
    · cases hx
    · cases hx
      trivial
  | execute c ctx data => exact executeOwn?_blind hx
  | plugin phase plugin ctx =>
    simp only [answer?] at hx
    split at hx
    · cases hx
      exact operationsPhase_blind phase plugin.ref ctx
    · cases hx
  | release plugin =>
    cases hx
    split
    · exact releaseOperations_blind plugin.ref
    · trivial
  | generateId generator =>
    cases hx
    exact update_keepsTo fun _ _ _ _ ↦ rfl
  | publish topic payload => exact absurd rfl (hc topic payload)
  | deliver => cases hx
  | log record =>
    cases hx
    rintro h h' ⟨logger, lines, bus, rfl⟩
    exact ⟨⟨_, _, _, rfl⟩, trivial, rfl, trivial⟩
  | line line =>
    cases hx
    rintro h h' ⟨logger, lines, bus, rfl⟩
    exact ⟨⟨_, _, _, rfl⟩, trivial, rfl, trivial⟩

end Host

end ComponentHost
