import ComponentHost.Proofs.Blindness
import ComponentHost.Proofs.Company
import ComponentHost.Proofs.Onboarding
import ComponentHost.Proofs.Registration

/-!
Loggers and event buses only observe.

Two companies are alike if their hosts differ in the logger and the bus only, if components,
factories and plugins keep the same, and if the same has passed but for the events that handlers
were given (`Company.Alike`). What handlers keep may be anything.

The main result is about two companies that are alike, where no component and no plugin looks at the
logger or the bus, and no handler calls anything (`Outside.Overlooks`). Whatever calls are made, one
after the other, they return in both or in neither, with the same results and with companies that
are alike after each of them (`Company.serves_alike`).

All that looks at the bus is publishing, and it leads to a company like the one before
(`Company.exists_publishes`). All else keeps to one scope (`Company.observerScope`), and so leads to
companies that are alike.
-/

set_option autoImplicit false

namespace ComponentHost

/-! ### Calls -/

/-- What a call answers. -/
inductive Reply where
  | nothing
  | factory (f : Factory)
  | component (c : Option Component)
  | ids (ids : List String)
  | process (p : Option ProcessRef)
  | processes (ps : List ProcessRef)
  | report (v : Json)
  | plugins (infos : List PluginInfo)
  | state (s : Option PluginState)

/-- A call on a system, on one of its process managers, or on one of its plugins. -/
inductive SystemCall where
  | registry (call : RegistryCall)
  | factory (id : String)
  | component (id : String)
  | operation (id : String)
  | service (id : String)
  | factoryIds
  | componentIds
  /-- A call on a process manager. -/
  | request (r : Request)
  | createAll (m : ManagerRef) (ctx : ContextRef) (configs : List ProcessConfig)
  | snapshot (m : ManagerRef) (id : String)
  | snapshots (m : ManagerRef)
  /-- A plugin is taken on, or all are stopped. -/
  | plugin (call : PluginCall)
  | plugins
  | pluginState (name : String)
  | runPhase (phase : PluginPhase) (P : Plugin) (ctx : ContextRef)
  | dispatch (ctx : ContextRef) (id : String) (data : Json)
  | cancel (ctx : ContextRef)

namespace SystemCall

def action : SystemCall → Action Reply
  | .registry call => do return .component (← call.action)
  | .factory id => do return .factory (← Host.factory id)
  | .component id => do return .component (← Host.component id)
  | .operation id => do return .component (← Host.operation id)
  | .service id => do return .component (← Host.service id)
  | .factoryIds => Host.inspect fun h ↦ .ok (.ids h.registry.factoryIds)
  | .componentIds => Host.inspect fun h ↦ .ok (.ids h.registry.componentIds)
  | .request r => do return .process (← r.action)
  | .createAll m ctx configs => do return .processes (← Host.createProcesses m ctx configs)
  | .snapshot m id => do return .report (← Host.snapshotOf m id)
  | .snapshots m => Host.inspect fun h ↦ .ok (.report (.arr ((h.listed m).map fun p ↦
      ProcessSnapshot.codec.encode (h.processes.get p).snapshot)))
  | .plugin call => do
    call.action
    return .nothing
  | .plugins => Host.inspect fun h ↦ .ok (.plugins (h.plugins.map PluginEntry.info))
  | .pluginState name => Host.inspect fun h ↦ .ok (.state (h.pluginState? name))
  | .runPhase phase P ctx => do
    Host.runPhase phase P ctx
    return .nothing
  | .dispatch ctx id data => do return .report (← Host.dispatch ctx id data)
  | .cancel ctx => do
    .of (Host.cancelContext ctx)
    return .nothing

/-- What is done when the call is made. -/
def program (call : SystemCall) : Prog Host (Except Error Reply) := call.action.run

/-- A look that is answered. -/
theorem look_blind {α : Type} {x : Action α} {f : α → Reply}
    (hx : x.run.KeepsTo Host.observerScope) :
    (do return f (← x) : Action Reply).run.KeepsTo Host.observerScope := .andThen hx fun _ ↦ trivial

theorem cancelContext_blind (ctx : ContextRef) :
    (Host.cancelContext ctx).KeepsTo Host.observerScope := by
  refine Prog.KeepsTo.bind (Host.gets_keepsTo fun _ _ _ _ ↦ rfl) fun refs ↦ ?_
  induction refs with
  | nil => trivial
  | cons ref rest ih => exact .bind (Host.modify_keepsTo fun _ _ _ _ ↦ rfl) fun _ ↦ ih

/-- Whatever is called does the same whatever the logger and the bus. -/
theorem blind (call : SystemCall) : call.program.KeepsTo Host.observerScope := by
  have hinspect {α : Type} {f : Host → Except Error α}
      (hf : ∀ (h : Host) logger lines bus, f { h with logger, lines, bus } = f h) :
      (Host.inspect f).run.KeepsTo Host.observerScope := Host.inspect_keepsTo hf
  cases call with
  | registry call =>
    refine look_blind ?_
    cases call with
    | registerFactory id f => exact .andThen (Host.registerFactory_blind id f) fun _ ↦ trivial
    | create config => exact .andThen (Host.createComponent_blind config) fun _ ↦ trivial
    | register c => exact .andThen (Host.record_blind c.id c) fun _ ↦ trivial
    | remove id => exact .andThen (Host.removeComponent_blind id) fun _ ↦ trivial
  | factory | component | operation | service => exact look_blind (hinspect fun _ _ _ _ ↦ rfl)
  | factoryIds | componentIds | snapshots | plugins | pluginState =>
    exact hinspect fun _ _ _ _ ↦ rfl
  | request r => exact look_blind r.blind
  | createAll m ctx configs => exact look_blind (Host.createProcesses_blind configs)
  | snapshot m id => exact look_blind (Host.snapshotOf_blind m id)
  | plugin call =>
    refine .andThen ?_ fun _ ↦ trivial
    cases call with
    | add ctx plugin => exact Host.addPlugin_blind ctx plugin
    | stopAll ctx => exact Host.stopAll_blind ctx
  | runPhase phase P ctx =>
    exact .andThen (Host.ask_keepsTo (c := .plugin phase P ctx) rfl) fun _ ↦ trivial
  | dispatch ctx id data => exact look_blind (Host.dispatch_blind data)
  | cancel ctx => exact .andThen (.lift (cancelContext_blind ctx)) fun _ ↦ trivial

end SystemCall

/-! ### Companies that are alike -/

/-- Whatever the computation changes looks the same, and it neither waits nor calls. -/
def Prog.GoesUnnoticed {σ α : Type} (S : Scope σ) : Prog σ α → Prop
  | .done _ => True
  | .act f k => ∀ s, S.alike s (f s) ∧ (k s).GoesUnnoticed S
  | .await _ _ | .call _ _ => False

namespace Outside

variable {ω υ : Type}

/-- What a component, a factory or a plugin from outside sees of the host and of what is kept:
neither the logger nor the bus, nor what handlers keep. -/
def observerScope (ω υ : Type) : Scope (Host × ω × υ) where
  alike y y' := y.1.Alike y'.1 ∧ y.2.1 = y'.2.1
  call c := c.isDelivery = false

/-- No component, factory or plugin looks at the logger or the bus, and no handler calls anything or
changes anything but what observers have. -/
structure Overlooks (ext : Outside (ω × υ)) : Prop where
  blind : ∀ c, c.isDelivery = false → Host.answer? c = none → (ext c).KeepsTo (observerScope ω υ)
  handlers : ∀ handler event, (ext (.deliver handler event)).GoesUnnoticed (observerScope ω υ)

end Outside

namespace Company

variable {ω υ α : Type}

/-- What has passed, but for the events that handlers were given. -/
def business (w : Company ω) : List Exchange := w.passed.filter fun x ↦ !x.call.isDelivery

/-- The hosts are alike, components, factories and plugins keep the same, and the same has passed
but for the events. -/
structure Alike (w w' : Company (ω × υ)) : Prop where
  host : w.host.Alike w'.host
  others : w.others.1 = w'.others.1
  business : w.business = w'.business

namespace Alike

variable {w w' w'' : Company (ω × υ)}

theorem refl (w : Company (ω × υ)) : w.Alike w := ⟨.refl _, rfl, rfl⟩

theorem symm (hw : w.Alike w') : w'.Alike w := ⟨hw.host.symm, hw.others.symm, hw.business.symm⟩

theorem trans (hw : w.Alike w') (hw' : w'.Alike w'') : w.Alike w'' :=
  ⟨hw.host.trans hw'.host, hw.others.trans hw'.others, hw.business.trans hw'.business⟩

theorem noted (hw : w.Alike w') (x : Exchange) : (w.noted x).Alike (w'.noted x) := by
  refine ⟨hw.host, hw.others, ?_⟩
  have hbusiness := hw.business
  simp only [Company.business, Company.noted, List.filter_cons] at hbusiness ⊢
  rw [hbusiness]

/-- Giving an event to a handler is not noticed. -/
theorem noted_of_isDelivery (hw : w.Alike w') {x : Exchange} (hx : x.call.isDelivery = true) :
    w.Alike (w'.noted x) := by
  refine ⟨hw.host, hw.others, ?_⟩
  rw [hw.business]
  simp [Company.business, Company.noted, hx]

end Alike

/-- What sees neither the logger nor the bus, nor what handlers keep. -/
def observerScope (ω υ : Type) : Scope (Company (ω × υ)) where
  alike := Alike
  call c := c.isDelivery = false

theorem program_keepsTo {x : Prog Host α} (hx : x.KeepsTo Host.observerScope) :
    (program x).KeepsTo (observerScope ω υ) :=
  hx.within (fun _ _ hw ↦ hw.host)
    (fun _ _ _ _ hw hh _ ↦ ⟨⟨hh, hw.others, hw.business⟩, trivial⟩) fun _ hc ↦ hc

theorem foreign_keepsTo {x : Prog (Host × ω × υ) α} (hx : x.KeepsTo (Outside.observerScope ω υ)) :
    (foreign x).KeepsTo (observerScope ω υ) :=
  hx.within (S := Outside.observerScope ω υ) (fun _ _ hw ↦ ⟨hw.host, hw.others⟩)
    (fun _ _ _ _ hw hy _ ↦ ⟨⟨hy.1, hy.2, hw.business⟩, trivial⟩) fun _ hc ↦ hc

variable {ext : Outside (ω × υ)} {w w' v : Company (ω × υ)}

/-- Whoever is called and not the bus does the same in companies that are alike. -/
theorem environment_keepsTo (hext : ext.Overlooks) {c : Call} (hc : c.isDelivery = false)
    (hpublish : ∀ topic payload, c ≠ .publish topic payload) :
    (environment ext c).KeepsTo (observerScope ω υ) := by
  have hanswering : (answering ext c).KeepsTo (observerScope ω υ) := by
    unfold answering
    split
    · rename_i x hx
      exact program_keepsTo (Host.answer?_blind hpublish hx)
    · rename_i hout
      exact foreign_keepsTo (hext.blind c hc hout)
  have hnote {β : Type} {x : Exchange} {y : Prog (Company (ω × υ)) β}
      (hy : y.KeepsTo (observerScope ω υ)) :
      (Prog.act (·.noted x) fun _ ↦ y).KeepsTo (observerScope ω υ) :=
    fun _ _ hw ↦ ⟨Alike.noted hw x, trivial, rfl, hy⟩
  exact hnote (.bind hanswering fun r ↦ hnote trivial)

/-! ### Publishing -/

/-- What goes unnoticed ends, in a company like the one before. -/
theorem exists_leads_of_unnoticed {x : Prog (Host × ω × υ) α}
    (hx : x.GoesUnnoticed (Outside.observerScope ω υ)) (w : Company (ω × υ)) :
    ∃ a v, Prog.Leads (environment ext) (foreign x) w a v ∧ w.Alike v := by
  induction x generalizing w with
  | done a => exact ⟨a, w, Prog.leads_done_iff.mpr ⟨rfl, rfl⟩, .refl w⟩
  | act f k ih =>
    obtain ⟨⟨hhost, hothers⟩, hrest⟩ := hx (w.host, w.others)
    let u : Company (ω × υ) :=
      { w with host := (f (w.host, w.others)).1, others := (f (w.host, w.others)).2 }
    have hu : w.Alike u := ⟨hhost, hothers, rfl⟩
    obtain ⟨a, v, hleads, hv⟩ := ih _ hrest u
    exact ⟨a, v, Prog.leads_act_iff.mpr hleads, hu.trans hv⟩
  | await | call => exact hx.elim

theorem exists_delivers (hext : ext.Overlooks) (event : Event) (subscriptions : List Subscription)
    (w : Company (ω × υ)) :
    ∃ v, Ends ext (Host.deliverAll event subscriptions) w () v ∧ w.Alike v := by
  induction subscriptions generalizing w with
  | nil => exact ⟨w, ends_done_iff.mpr ⟨rfl, rfl⟩, .refl w⟩
  | cons s rest ih =>
    let asked := w.noted (.asked (.deliver s.handler event))
    obtain ⟨u, v, hleads, hv⟩ : ∃ u v, Prog.Leads (environment ext) _ asked u v ∧ asked.Alike v :=
      exists_leads_of_unnoticed (hext.handlers s.handler event) asked
    have hreplies := (replies_iff_of_outside (c := .deliver s.handler event) rfl).mpr hleads
    obtain ⟨v', hends, hv'⟩ := ih (v.noted (.answered (.deliver s.handler event) u))
    refine ⟨v', ends_call_iff.mpr ⟨u, v, hreplies, hends⟩, .trans ?_ hv'⟩
    have hasked := (Alike.refl w).noted_of_isDelivery (x := .asked (.deliver s.handler event)) rfl
    exact (hasked.trans hv).noted_of_isDelivery rfl

/-- Publishing ends, in a company like the one before. -/
theorem exists_publishes (hext : ext.Overlooks) (topic : String) (payload : Json)
    (w : Company (ω × υ)) :
    ∃ v, Prog.Leads (environment ext) (environment ext (.publish topic payload)) w () v ∧
      ((w.noted (.asked (.publish topic payload))).noted
        (.answered (.publish topic payload) ())).Alike v := by
  obtain ⟨v, hends, hv⟩ := exists_delivers hext ⟨topic, payload, w.host.now⟩
    (w.host.bus.receivers topic) (w.noted (.asked (.publish topic payload)))
  refine ⟨v.noted (.answered (.publish topic payload) ()), ?_, hv.noted _⟩
  have hpublishes : Ends ext (Host.publish topic payload)
      (w.noted (.asked (.publish topic payload))) () v := ends_act_iff.mpr hends
  have hreplies := (replies_iff_of_answer? (c := .publish topic payload) rfl).mpr hpublishes
  refine Prog.leads_act_iff.mpr (Prog.leads_bind_iff.mpr ⟨(), v, hreplies, ?_⟩)
  exact Prog.leads_act_iff.mpr (Prog.leads_done_iff.mpr ⟨rfl, rfl⟩)

/-- Publishing in companies that are alike leads to companies that are alike. -/
theorem alike_of_publish (hext : ext.Overlooks) {topic : String} {payload : Json} {u : Unit}
    (hw : w.Alike w')
    (h : Prog.Leads (environment ext) (environment ext (.publish topic payload)) w u v) :
    ∃ v', Prog.Leads (environment ext) (environment ext (.publish topic payload)) w' u v' ∧
      v.Alike v' := by
  obtain ⟨v₁, hleads, hv₁⟩ := exists_publishes hext topic payload w
  obtain ⟨v', hleads', hv'⟩ := exists_publishes hext topic payload w'
  obtain ⟨rfl, rfl⟩ := h.unique hleads
  exact ⟨v', hleads', hv₁.symm.trans (((hw.noted _).noted _).trans hv')⟩

/-! ### Whole runs -/

/-- What does the same whatever the logger and the bus ends so in all companies that are alike, and
leads to companies that are alike. -/
theorem Ends.alike {x : Prog Host α} {a : α} (hext : ext.Overlooks)
    (hx : x.KeepsTo Host.observerScope) (hw : w.Alike w') (h : Ends ext x w a v) :
    ∃ v', Ends ext x w' a v' ∧ v.Alike v' := by
  refine Prog.KeepsTo.exists_leads (S := observerScope ω υ) (fun c hc ↦ ?_) (program_keepsTo hx)
    hw h
  cases c with
  | publish topic payload => exact .inr fun _ _ _ _ hs hleads ↦ alike_of_publish hext hs hleads
  | deliver => cases hc
  | _ => exact .inl (environment_keepsTo hext rfl nofun)

/-- The calls are made one after the other; what they return, and the companies after each. -/
inductive Serves (ext : Outside ω) : Company ω → List SystemCall →
    List (Except Error Reply × Company ω) → Prop where
  | nil {w : Company ω} : Serves ext w [] []
  | cons {w w' : Company ω} {call : SystemCall} {rest : List SystemCall} {o : Except Error Reply}
      {served : List (Except Error Reply × Company ω)} (hcall : Ends ext call.program w o w')
      (hrest : Serves ext w' rest served) : Serves ext w (call :: rest) ((o, w') :: served)

theorem Serves.unique {ω : Type} {ext : Outside ω} {w : Company ω} {calls : List SystemCall}
    {served served' : List (Except Error Reply × Company ω)} (h : Serves ext w calls served)
    (h' : Serves ext w calls served') : served = served' := by
  induction h generalizing served' with
  | nil =>
    cases h'
    rfl
  | cons hcall _ ih =>
    cases h' with
    | cons hcall' hrest' =>
      obtain ⟨rfl, rfl⟩ := hcall.unique hcall'
      rw [ih hrest']

theorem Serves.alike {calls : List SystemCall}
    {served : List (Except Error Reply × Company (ω × υ))} (hext : ext.Overlooks)
    (hw : w.Alike w') (h : Serves ext w calls served) :
    ∃ served', Serves ext w' calls served' ∧
      List.Forall₂ (fun y y' ↦ y.1 = y'.1 ∧ y.2.Alike y'.2) served served' := by
  induction h generalizing w' with
  | nil => exact ⟨[], .nil, .nil⟩
  | @cons w u call rest o served hcall hrest ih =>
    obtain ⟨u', hcall', hu⟩ := hcall.alike hext call.blind hw
    obtain ⟨served', hrest', hserved⟩ := ih hu
    exact ⟨(o, u') :: served', .cons hcall' hrest', .cons ⟨rfl, hu⟩ hserved⟩

/-- Calls that are made one after the other in two companies that are alike, where nobody but
handlers has to do with the logger or the bus and handlers call nothing, return in both or in
neither; they return the same, and after each of them the companies are alike. -/
theorem serves_alike {calls : List SystemCall} (hext : ext.Overlooks) (hw : w.Alike w') :
    ((∃ served, Serves ext w calls served) ↔ ∃ served', Serves ext w' calls served') ∧
      ∀ served served', Serves ext w calls served → Serves ext w' calls served' →
        List.Forall₂ (fun y y' ↦ y.1 = y'.1 ∧ y.2.Alike y'.2) served served' := by
  refine ⟨⟨?_, ?_⟩, fun served served' h h' ↦ ?_⟩
  · rintro ⟨served, h⟩
    obtain ⟨served', h', -⟩ := h.alike hext hw
    exact ⟨served', h'⟩
  · rintro ⟨served', h'⟩
    obtain ⟨served, h, -⟩ := h'.alike hext hw.symm
    exact ⟨served, h⟩
  · obtain ⟨served'', h'', halike⟩ := h.alike hext hw
    rwa [h'.unique h'']

end Company

namespace Small

/-- All goes well, and the handler counts the events it is given. -/
def counting : Outside (Unit × Nat)
  | .deliver _ _ => .act (fun y ↦ (y.1, (), y.2.2 + 1)) fun _ ↦ .done ()
  | c => .done (answers c)

theorem counting_overlooks : counting.Overlooks where
  blind c hc _ := by
    cases c with
    | deliver => cases hc
    | _ => trivial
  handlers _ _ y := ⟨⟨.refl _, rfl⟩, trivial⟩

/-- The process is created, records are kept, and the bus is off. -/
def silent : Company (Unit × Nat) where
  host := { created.host with logger := .memory [], bus.active := false }
  others := ((), 0)

/-- Records are written as lines, and the handler has subscribed to everything. -/
def watched : Company (Unit × Nat) where
  host := { created.host with bus := (({} : EventBus).subscribe Topic.all 0).2 }
  others := ((), 0)

/-- The process is started, an operation that is not there is dispatched, and the process is
removed. -/
def visits : List SystemCall :=
  [.request (.start 0 0 "p"), .dispatch 0 "p" .null, .request (.remove 0 "p")]

/-- All three calls return, with and without an observer, who is told of two events. -/
theorem serves_visits :
    (((∃ served, Company.Serves counting silent visits served) ↔
        ∃ served', Company.Serves counting watched visits served') ∧
      ∀ served served', Company.Serves counting silent visits served →
        Company.Serves counting watched visits served' →
          List.Forall₂ (fun y y' ↦ y.1 = y'.1 ∧ y.2.Alike y'.2) served served') ∧
      ∃ served, Company.Serves counting watched visits served ∧
        served.map (·.2.others.2) = [1, 1, 2] :=
  ⟨Company.serves_alike counting_overlooks ⟨⟨_, _, _, rfl⟩, rfl, rfl⟩,
    _, .cons ⟨200, rfl⟩ (.cons ⟨200, rfl⟩ (.cons ⟨200, rfl⟩ .nil)), rfl⟩

end Small

end ComponentHost
