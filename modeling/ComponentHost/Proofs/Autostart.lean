import ComponentHost.Proofs.Effects
import ComponentHost.Proofs.Registration
import Mathlib.Data.List.Forall2
import Mathlib.Data.List.ReduceOption

/-!
The services that the host's own plugin starts, and those it stops.

The plugin keeps in mind the identifiers of the services it has started, not the services. What it
stops at its end is what these identifiers stand for by then, each when its turn comes
(`StopsByIdentifier`). As long as nothing is removed that has one of them these are the services
started, in reverse order; but a service that was removed in between is not stopped, and one that
has taken its identifier is.
-/

set_option autoImplicit false

namespace ComponentHost

/-! ### Resolving identifiers -/

/-- What identifiers stand for as services, each on a host of its own; those that stand for none are
passed over. -/
def resolved (hosts : List Host) (ids : List String) : List Component :=
  (List.zipWith (fun h id ↦ (h.registry.service id).toOption) hosts ids).reduceOption

@[simp] theorem resolved_nil (hosts : List Host) : resolved hosts [] = [] := by
  simp [resolved]

theorem resolved_cons (h : Host) (hosts : List Host) (id : String) (ids : List String) :
    resolved (h :: hosts) (id :: ids) =
      (h.registry.service id).toOption.toList ++ resolved hosts ids := by
  cases hid : (h.registry.service id).toOption <;> simp [resolved, hid, List.reduceOption]

/-- Where every host knows the services, they are what the identifiers stand for. -/
theorem resolved_eq {hosts : List Host} {ids : List String} {cs : List Component}
    (hlength : hosts.length = ids.length)
    (hcs : List.Forall₂ (fun id c ↦ ∀ h ∈ hosts, h.registry.service id = .ok c) ids cs) :
    resolved hosts ids = cs := by
  induction hosts generalizing ids cs with
  | nil =>
    obtain rfl := List.eq_nil_of_length_eq_zero hlength.symm
    cases hcs
    rfl
  | cons h rest ih =>
    cases hcs with
    | nil => cases hlength
    | @cons id c ids cs hc hcs =>
      have hrest : resolved rest ids = cs :=
        ih (by simpa using hlength) (hcs.imp fun _ _ hall g hg ↦ hall g (List.mem_cons_of_mem _ hg))
      rw [resolved_cons, hc h List.mem_cons_self, hrest]
      rfl

/-! ### What has started, and what was found -/

/-- The component that has started. -/
def Exchange.started? : Exchange → Option Component
  | .answered (.lifecycle .start c _) (.ok _) => some c
  | _ => none

/-- The components that have started, the earliest first. -/
def startedIn (xs : List Exchange) : List Component := xs.filterMap Exchange.started?

/-- The hosts that were found, one at each act. -/
def foundIn (log : List Feat) : List Host := (actsIn log).map Prod.fst

@[simp] theorem foundIn_append (xs ys : List Feat) :
    foundIn (xs ++ ys) = foundIn xs ++ foundIn ys := by
  simp [foundIn]

@[simp] theorem foundIn_acted (h h' : Host) (xs : List Feat) :
    foundIn (.acted h h' :: xs) = h :: foundIn xs := rfl

@[simp] theorem foundIn_said (x : Exchange) (xs : List Feat) :
    foundIn (.said x :: xs) = foundIn xs := rfl

@[simp] theorem foundIn_nil : foundIn [] = [] := rfl

/-! ### Clients -/

/-- What clients of the registry and of the host's own plugin come for. -/
inductive ServiceErrand where
  | registry (call : RegistryCall)
  | start (ref : PluginRef) (ctx : ContextRef)
  | stop (ref : PluginRef) (ctx : ContextRef)

/-- The own plugin has the same data, and the system the same configuration. -/
def Host.SameData (ref : PluginRef) (h h' : Host) : Prop :=
  h'.operationsPlugins.get ref = h.operationsPlugins.get ref ∧ h'.configuration = h.configuration

/-- A call of the registry changes nothing else. -/
theorem RegistryCall.acts_only (call : RegistryCall) :
    call.action.run.Acts fun h h' ↦ h' = { h with registry := h'.registry } := by
  have hchange {α β : Type} (change : Host → Except Error β) (answer : β → α)
      (registry : β → Registry) :
      (Host.attempt fun h ↦ change h >>= fun y ↦
        return (answer y, { h with registry := registry y })).run.Acts
          fun h h' ↦ h' = { h with registry := h'.registry } := by
    refine Host.attempt_acts (fun h a h' hf ↦ ?_) fun h ↦ rfl
    cases hy : change h with
    | error e =>
      rw [hy] at hf
      cases hf
    | ok y =>
      rw [hy] at hf
      cases hf
      rfl
  have hrecord (id : String) (c : Component) :
      (Host.record id c).run.Acts fun h h' ↦ h' = { h with registry := h'.registry } :=
    .andThen (hchange (fun h ↦ h.registry.bindComponent id c) (fun _ ↦ ()) fun r ↦ r) fun _ ↦
      .andThen (.call fun _ ↦ .done _) fun _ ↦ .done _
  cases call with
  | registerFactory id f =>
    exact .andThen (.andThen
      (hchange (fun h ↦ h.registry.bindFactory id f) (fun _ ↦ ()) fun r ↦ r) fun _ ↦
        .call fun _ ↦ .done _) fun _ ↦ .done _
  | create config =>
    refine .andThen (.andThen (.act (fun _ ↦ rfl) fun _ ↦ .done _) fun f ↦ ?_) fun _ ↦ .done _
    exact .andThen (.call fun _ ↦ .done _) fun c ↦ hrecord config.id c
  | register c => exact .andThen (hrecord c.id c) fun _ ↦ .done _
  | remove id =>
    exact .andThen (hchange (fun h ↦ h.registry.removeComponent id) Prod.fst Prod.snd) fun _ ↦
      .done _

namespace ServiceErrand

def action : ServiceErrand → Action (Option Component)
  | .registry call => call.action
  | .start ref ctx => do
    Host.operationsPhase .start ref ctx
    return none
  | .stop ref ctx => do
    Host.operationsPhase .stop ref ctx
    return none

instance : Errand ServiceErrand RegistryOutcome where
  program e := e.action.run
  spared before after := { after with
    configuration := before.configuration
    registry := before.registry
    operationsPlugins := before.operationsPlugins }

/-- The client asks something of the registry. -/
def AsksRegistry : ServiceErrand → Prop
  | .registry _ => True
  | _ => False

theorem heedsRegistry : HeedsRegistry ServiceErrand where
  spared _ _ := rfl
  acts e := by
    have hminds {ref : PluginRef} (h h' : Host) (hh : h.Minds ref h') :
        Registry.Step h.registry h'.registry := by
      cases hh with
      | touches hh =>
        rw [hh.eq_with]
        exact .same
      | keeps f => exact .same
    cases e with
    | registry call => exact RegistryCall.heedsRegistry.acts call
    | start ref ctx => exact .andThen ((Host.startOperations_acts ctx).mono hminds) fun _ ↦ .done _
    | stop ref ctx => exact .andThen ((Host.stopOperations_acts ctx).mono hminds) fun _ ↦ .done _

/-- Who relies on nobody else's touching the plugin. -/
def manner (ref : PluginRef) : Manner :=
  .relying (Host.SameData ref) (fun _ ↦ ⟨rfl, rfl⟩)
    fun h h' ↦ ⟨h'.1.trans h.1, h'.2.trans h.2⟩

variable {ref : PluginRef} {ctx : ContextRef} {log : List Feat} {h : Host} {x : OperationsPlugin}

theorem manner_isFree : (manner ref).IsFree :=
  ⟨fun _ _ _ ↦ trivial, fun _ _ ↦ trivial, fun _ ↦ trivial⟩

/-! ### Starting -/

/-- The plugin remembers the identifiers, and has started what they stood for. -/
structure Started (ref : PluginRef) (x : OperationsPlugin) (ids : List String) (log : List Feat)
    (h : Host) : Prop where
  data : h.operationsPlugins.get ref = { x with started := ids.reverse }
  instances : List.Forall₂ (fun id c ↦ ∃ g ∈ foundIn log, g.registry.service id = .ok c) ids
    (startedIn (exchangesIn log))

/-- Where a service does not start the whole start fails. -/
theorem giveUp_abides {Q : List Feat → Host → Except Error Unit → Prop} {id : String} {e : Error}
    (hQ : ∀ log h, Q log h (.error e)) :
    (Host.giveUp ref ctx id e).run.Abides (manner ref) Q log h := by
  refine .andThen (.lift fun h' _ ↦ ⟨trivial, .andThen ⟨trivial, fun _ ↦ ?_⟩⟩)
  refine .andThen (.lift (.of_forall manner_isFree fun log h failure ↦ ?_))
  cases failure with
  | none => exact hQ _ _
  | some e' => exact .andThen ⟨trivial, fun _ ↦ hQ _ _⟩

/-- One more service has started. -/
theorem Started.add {before : List String} {id : String} {c : Component} {h' g : Host}
    {more : List Feat} (h₀ : Started ref x before log h)
    (hdata : h'.operationsPlugins.get ref =
      { h.operationsPlugins.get ref with started := id :: (h.operationsPlugins.get ref).started })
    (hfound : g ∈ foundIn more) (hservice : g.registry.service id = .ok c)
    (hmore : startedIn (exchangesIn more) = [c]) :
    Started ref x (before ++ [id]) (log ++ more) h' where
  data := by simp [hdata, h₀.data]
  instances := by
    have hbefore : List.Forall₂ (fun id c ↦ ∃ g ∈ foundIn (log ++ more),
        g.registry.service id = .ok c) before (startedIn (exchangesIn log)) :=
      h₀.instances.imp fun _ _ ⟨g, hg, hc⟩ ↦ ⟨g, by simp [hg], hc⟩
    rw [exchangesIn_append, startedIn, List.filterMap_append]
    refine List.rel_append hbefore ?_
    change List.Forall₂ _ [id] (startedIn (exchangesIn more))
    exact hmore ▸ .cons ⟨g, by simp [hfound], hservice⟩ .nil

theorem startServices_abides {before rest : List String} (h₀ : Started ref x before log h) :
    (Host.startServices ref ctx rest).run.Abides (manner ref)
      (fun log h res ↦ ∀ u, res = .ok u → Started ref x (before ++ rest) log h) log h := by
  induction rest generalizing before log h with
  | nil => exact fun _ _ ↦ (List.append_nil before).symm ▸ h₀
  | cons id rest ih =>
    rw [Host.startServices_cons]
    refine .andThen (.rescue fun h₁ hh₁ ↦ ⟨trivial, ?_⟩)
    cases hservice : h₁.registry.service id with
    | error e =>
      simp only [hservice]
      exact giveUp_abides fun _ _ _ hu ↦ by cases hu
    | ok c =>
      simp only [hservice]
      refine ⟨trivial, fun res ↦ ?_⟩
      cases res with
      | error e => exact giveUp_abides fun _ _ _ hu ↦ by cases hu
      | ok _ =>
        refine .andThen ⟨trivial, fun _ ↦ .andThen (.lift fun h₂ hh₂ ↦ ⟨trivial, ?_⟩)⟩
        have hsame : h₂.operationsPlugins.get ref = h.operationsPlugins.get ref :=
          hh₂.1.trans hh₁.1
        have hdata : (h₂.operationsPlugins.modify ref fun x ↦
            { x with started := id :: x.started }).get ref =
              { h.operationsPlugins.get ref with
                started := id :: (h.operationsPlugins.get ref).started } := by
          rw [Store.get_modify_self, hsame]
        rw [List.append_cons before]
        simp only [List.append_assoc log]
        exact ih (h₀.add (g := h₁) hdata (by simp) hservice rfl)

theorem start_abides (hstarted : (h.operationsPlugins.get ref).started = []) :
    (start ref ctx).action.run.Abides (manner ref)
      (fun log h' o ↦ ∀ y, o = .ok y → (h.operationsPlugins.get ref).attached = true ∧
        Started ref (h.operationsPlugins.get ref) (Host.autostart h.configuration) log h')
      [] h := by
  refine .andThen (.andThen (Host.requireAttached_abides manner_isFree (fun _ hh' ↦ hh'.1)
    (fun h₁ hh₁ hattached ↦ ?_) ?_))
  · refine .andThen (.lift fun h₂ hh₂ ↦ ⟨trivial, ?_⟩)
    have hsame : Host.SameData ref h h₂ := ⟨hh₂.1.trans hh₁.1, hh₂.2.trans hh₁.2⟩
    simp only [Prog.abides_done, hsame.2]
    have hnothing : Started ref (h.operationsPlugins.get ref) [] [.acted h₁ h₁, .acted h₂ h₂] h₂ :=
      ⟨by rw [hsame.1, List.reverse_nil, ← hstarted], .nil⟩
    refine (startServices_abides hnothing).mono fun log h' res hres ↦ ?_
    cases res with
    | error e => exact fun _ hy ↦ by cases hy
    | ok u => exact fun _ _ ↦ ⟨hattached, hres u rfl⟩
  · exact fun _ _ _ _ hy ↦ by cases hy

/-! ### Stopping -/

/-- The component belongs to a process that the manager had recorded. -/
def IsManaged (m : Option ManagerRef) (hosts : List Host) (c : Component) : Prop :=
  ∃ m' ∈ m, ∃ g ∈ hosts, ∃ g' ∈ hosts, ∃ id p, (g.managers.get m').find id = .ok p ∧
    c ∈ (g'.processes.get p).ordered.map Prod.snd

theorem IsManaged.mono {m : Option ManagerRef} {hosts hosts' : List Host} {c : Component}
    (hc : IsManaged m hosts c) (hsubset : hosts ⊆ hosts') : IsManaged m hosts' c := by
  obtain ⟨m', hm, g, hg, g', hg', hrest⟩ := hc
  exact ⟨m', hm, g, hsubset hg, g', hsubset hg', hrest⟩

/-- Components were only called to stop, and only those of processes of the manager. -/
def StopsManaged (m : Option ManagerRef) (log : List Feat) : Prop :=
  ∀ y ∈ callsIn (exchangesIn log), y.1 = .stop ∧ IsManaged m (foundIn log) y.2

namespace StopsManaged

variable {m : Option ManagerRef}

theorem acted (hlog : StopsManaged m log) (h h' : Host) :
    StopsManaged m (log ++ [.acted h h']) := by
  intro y hy
  obtain ⟨hstop, hmanaged⟩ := hlog y (by simpa using hy)
  exact ⟨hstop, hmanaged.mono (by simp)⟩

theorem said (hlog : StopsManaged m log) {c : Call} (r : c.Reply)
    (hc : ∀ y, (Exchange.asked c).calling? = some y → y.1 = .stop ∧ IsManaged m (foundIn log) y.2) :
    StopsManaged m (log ++ [.said (.asked c), .said (.answered c r)]) := by
  intro y hy
  have hfound : foundIn (log ++ [.said (.asked c), .said (.answered c r)]) = foundIn log := by
    simp
  rw [hfound]
  rw [exchangesIn_append, callsIn, List.filterMap_append, List.mem_append] at hy
  obtain hy | hy := hy
  · exact hlog y hy
  · obtain ⟨x, hx, hy⟩ := List.mem_filterMap.mp hy
    obtain rfl | rfl : x = .asked c ∨ x = .answered c r := by simpa using hx
    · exact hc y hy
    · cases hy

end StopsManaged

variable {m : Option ManagerRef} {id : String}

theorem stopEach_abides {cs : List (String × Component)} (hlog : StopsManaged m log)
    (hcs : ∀ c ∈ cs.map Prod.snd, IsManaged m (foundIn log) c) :
    (Host.stopEach ctx id cs).run.Abides (manner ref) (fun log _ _ ↦ StopsManaged m log) log h := by
  induction cs generalizing log h with
  | nil => exact hlog
  | cons y rest ih =>
    obtain ⟨name, c⟩ := y
    have hcall (r : Except Error Unit) := hlog.said (c := .lifecycle .stop c ctx) r fun y hy ↦ by
      cases hy
      exact ⟨rfl, hcs c List.mem_cons_self⟩
    refine .andThen (.rescue ⟨trivial, fun r ↦ ?_⟩)
    cases r with
    | ok _ => exact ih (hcall _) fun c' hc' ↦ (hcs c' (List.mem_cons_of_mem _ hc')).mono (by simp)
    | error e =>
      exact .andThen ⟨trivial, fun _ ↦ (hcall _).said _ fun _ hy ↦ by cases hy⟩

/-- Stopping a process calls its components and nothing else. -/
theorem stopProcess_abides {m : ManagerRef} (hlog : StopsManaged (some m) log) :
    (Host.stopProcess m ctx id).run.Abides (manner ref) (fun log _ _ ↦ StopsManaged (some m) log)
      log h := by
  refine .andThen (Host.abides_inspect fun g _ ↦ ⟨trivial, ?_⟩)
  cases hfind : (g.managers.get m).find id with
  | error e => exact hlog.acted g g
  | ok p =>
    refine .andThen (Host.abides_inspect fun h₂ _ ↦ ⟨trivial, ?_⟩)
    cases h₂.contexts.check ctx with
    | error e => exact (hlog.acted g g).acted h₂ h₂
    | ok _ =>
      refine Host.abides_exclusively manner_isFree fun h₃ h₄ _ _ ↦ ?_
      refine .andThen (.lift fun g' _ ↦ ⟨trivial, .andThen ?_⟩)
      refine (stopEach_abides (m := some m) ?_ fun c hc ↦ ?_).mono fun log h r hstopped ↦ ?_
      · exact (((hlog.acted g g).acted h₂ h₂).acted h₃ h₄).acted g' g'
      · refine ⟨m, rfl, g, by simp, g', by simp, id, p, hfind, ?_⟩
        rwa [List.map_reverse, List.mem_reverse] at hc
      · cases r with
        | error e => exact fun h' _ ↦ hstopped.acted _ _
        | ok _ =>
          refine .andThen (.lift fun h' _ ↦ ⟨trivial, .andThen ⟨trivial, fun _ ↦ ?_⟩⟩)
          refine .andThen (.lift fun h'' _ ↦ ⟨trivial, trivial, fun _ h₅ _ ↦ ?_⟩)
          exact (((((hstopped.acted _ _).said _ (by simp [Exchange.calling?])).acted _ _).said _
            (by simp [Exchange.calling?]))).acted _ _

theorem stopRunning_abides {m : ManagerRef} {first : Option Error} {ps : List ProcessRef}
    (hlog : StopsManaged (some m) log) :
    (Host.stopRunning m ctx first ps).Abides (manner ref) (fun log _ _ ↦ StopsManaged (some m) log)
      log h := by
  induction ps generalizing first log h with
  | nil => exact hlog
  | cons p rest ih =>
    refine .bind fun h' _ ↦ ⟨trivial, ?_⟩
    by_cases hrunning : (h'.processes.get p).status = .running
    · simp only [Prog.abides_done, if_pos hrunning]
      refine .bind ((stopProcess_abides (hlog.acted _ _)).mono fun log h r hstopped ↦ ?_)
      cases r with
      | ok _ => exact ih hstopped
      | error e => exact ih hstopped
    · simp only [Prog.abides_done, if_neg hrunning]
      exact ih (hlog.acted _ _)

theorem stopListed_abides {m : ManagerRef} (hlog : StopsManaged (some m) log) :
    (Host.stopListed m ctx).Abides (manner ref) (fun log _ _ ↦ StopsManaged (some m) log)
      log h := by
  refine .bind fun h' _ ↦ ⟨trivial, .bind ?_⟩
  refine (stopRunning_abides (hlog.acted h' h')).mono fun log h first hstopped ↦ ?_
  exact .bind fun h'' _ ↦ ⟨trivial, hstopped.acted _ _⟩

/-- Each identifier is looked up when its turn comes, and what it stands for is called to stop. -/
theorem stopServices_abides {Q : List Feat → Host → Option Error → Prop} {ids : List String}
    {first : Option Error}
    (hQ : ∀ hosts more h a, hosts.length = ids.length → hosts.Sublist (foundIn more) →
      callsIn (exchangesIn more) = (resolved hosts ids).map (Prod.mk .stop) →
        Q (log ++ more) h a) :
    (Host.stopServices ref ctx first ids).Abides (manner ref) Q log h := by
  induction ids generalizing first log h with
  | nil =>
    have hnothing := hQ [] [] h first rfl .slnil rfl
    rwa [List.append_nil] at hnothing
  | cons id rest ih =>
    refine .bind fun h₁ _ ↦ ⟨trivial, .bind fun g _ ↦ ⟨trivial, ?_⟩⟩
    -- the turn of this identifier, and then those of the others
    have hturn (turn : List Feat) (hfirst : foundIn turn = [h₁, g])
        (hcalled : callsIn (exchangesIn turn) =
          (g.registry.service id).toOption.toList.map (Prod.mk .stop)) :
        ∀ hosts more h a, hosts.length = rest.length → hosts.Sublist (foundIn more) →
          callsIn (exchangesIn more) = (resolved hosts rest).map (Prod.mk .stop) →
            Q (log ++ turn ++ more) h a := by
      intro hosts more h a hlength hfound hcalls
      rw [List.append_assoc]
      refine hQ (g :: hosts) (turn ++ more) h a (by simp [hlength]) ?_ ?_
      · rw [foundIn_append, hfirst]
        exact .cons _ (.cons_cons _ hfound)
      · rw [exchangesIn_append, callsIn_append, hcalled, hcalls, resolved_cons, List.map_append]
    cases hservice : g.registry.service id with
    | error e =>
      simp only [hservice, List.append_assoc log]
      exact ih (hturn _ rfl (by rw [hservice]; rfl))
    | ok c =>
      simp only [hservice, List.append_assoc log]
      refine ⟨trivial, fun r ↦ ?_⟩
      simp only [List.append_assoc log]
      cases r with
      | ok _ => exact ih (hturn _ rfl (by rw [hservice]; rfl))
      | error e => exact ih (hturn _ rfl (by rw [hservice]; rfl))

/-- What has become of the plugin when it is stopped: after the processes of its manager it has
stopped, in order, what its identifiers stand for. -/
def Stopped (m : Option ManagerRef) (ids : List String) (log : List Feat) : Prop :=
  ∃ before after hosts, exchangesIn log = before ++ after ∧
    (∀ y ∈ callsIn before, y.1 = .stop ∧ IsManaged m (foundIn log) y.2) ∧
      hosts.length = ids.length ∧ hosts.Sublist (foundIn log) ∧
        callsIn after = (resolved hosts ids).map (Prod.mk .stop)

theorem stopRest_abides {ids : List String} {first : Option Error} (hlog : StopsManaged m log)
    (hstarted : (h.operationsPlugins.get ref).started = ids) :
    (Host.stopRest ref ctx first).run.Abides (manner ref) (fun log _ _ ↦ Stopped m ids log)
      log h := by
  refine .andThen (.lift (.bind fun h₁ hh₁ ↦ ⟨trivial, ?_⟩))
  have hsame : (h₁.operationsPlugins.get ref).started = ids := by rw [hh₁.1, hstarted]
  simp only [Prog.abides_done, hsame]
  refine stopServices_abides fun hosts more h₂ second hlength hfound hcalls ↦ ?_
  refine .andThen (.lift fun h₃ _ ↦ ⟨trivial, ?_⟩)
  have hstopped (h₄ : Host) : Stopped m ids (log ++ [.acted h₁ h₁] ++ more ++ [.acted h₃ h₄]) := by
    refine ⟨exchangesIn log, exchangesIn more, hosts, by simp, fun y hy ↦ ?_, hlength, ?_, hcalls⟩
    · obtain ⟨hstop, hmanaged⟩ := hlog y hy
      exact ⟨hstop, hmanaged.mono (by simp)⟩
    · simp only [foundIn_append]
      exact (hfound.trans (List.sublist_append_right ..)).trans (List.sublist_append_left ..)
  cases first.or second <;> exact hstopped _

theorem stopOperations_abides {ids : List String}
    (hattached : (h.operationsPlugins.get ref).attached = true)
    (hstarted : (h.operationsPlugins.get ref).started = ids) :
    (Host.stopOperations ref ctx).run.Abides (manner ref)
      (fun log _ _ ↦ Stopped (h.operationsPlugins.get ref).manager ids log) [] h := by
  rw [Host.stopOperations_eq]
  refine .andThen (Host.requireAttached_abides manner_isFree (fun _ hh' ↦ hh'.1)
    (fun h₁ hh₁ _ ↦ ?_) fun _ _ hnot ↦ ?_)
  · have hsame : (h₁.operationsPlugins.get ref).started = ids := by rw [hh₁.1, hstarted]
    have hnothing {m : Option ManagerRef} : StopsManaged m [.acted h₁ h₁] := by
      simp [StopsManaged, callsIn]
    cases hm : (h.operationsPlugins.get ref).manager with
    | none =>
      simp only [hm]
      exact stopRest_abides hnothing hsame
    | some m =>
      simp only [hm, Host.stopManaged_eq]
      refine .andThen (.lift (.bind fun h₂ hh₂ ↦ ⟨trivial, ?_⟩))
      -- from here on nothing touches what the plugin remembers
      have hkeeps : (Host.stopListed m ctx).Acts fun h h' ↦
          (h.operationsPlugins.get ref).started = ids →
            (h'.operationsPlugins.get ref).started = ids :=
        (Host.stopListed_acts m ctx).mono fun h h' (hh : h.Touches False h') hids ↦ by
          rwa [hh.eq_with]
      have hmodified : ((h₂.operationsPlugins.modify ref fun x ↦
          { x with manager := none }).get ref).started = ids := by
        rw [Store.get_modify_self, hh₂.1]
        exact hsame
      refine ((stopListed_abides (hnothing.acted _ _)).and (hkeeps.keeps manner_isFree
        (fun h h' hh' hids ↦ ?_) hmodified)).mono fun log h first hstopped ↦ ?_
      · rw [hh'.1, hids]
      · exact stopRest_abides hstopped.1 hstopped.2
  · rw [hattached] at hnot
    cases hnot

theorem stop_abides {ids : List String} (hattached : (h.operationsPlugins.get ref).attached = true)
    (hstarted : (h.operationsPlugins.get ref).started = ids) :
    (stop ref ctx).action.run.Abides (manner ref)
      (fun log _ _ ↦ Stopped (h.operationsPlugins.get ref).manager ids log) [] h := by
  refine .andThen ((stopOperations_abides hattached hstarted).mono fun log h' res hstopped ↦ ?_)
  cases res <;> exact hstopped

end ServiceErrand

/-! ### Runs -/

theorem Registry.service_eq_ok_iff {r : Registry} {id : String} {c : Component} :
    r.service id = .ok c ↔ r.component id = .ok c ∧ c.kind = .service := by
  unfold service component
  cases r.components.get? id with
  | none => simp
  | some c' =>
    by_cases hkind : c'.kind = .service
    · simp only [if_pos hkind, Except.ok.injEq]
      exact ⟨fun h ↦ ⟨h, h ▸ hkind⟩, And.left⟩
    · simp only [if_neg hkind, Except.ok.injEq, reduceCtorEq, false_iff, not_and]
      exact fun h ↦ h ▸ hkind

namespace Crowd

open ServiceErrand

/-- Only those come who ask something of the registry. -/
def Registering (_ : Crowd ServiceErrand RegistryOutcome) : Move ServiceErrand → Prop
  | .arrive (.registry _) => True
  | .arrive _ => False
  | _ => True

instance (s : Crowd ServiceErrand RegistryOutcome) (m : Move ServiceErrand) :
    Decidable (s.Registering m) := by
  unfold Registering
  split <;> infer_instance

variable {s s₀ t u v : Crowd ServiceErrand RegistryOutcome} {h : Host} {i : Nat}
  {m : Move ServiceErrand} {P : Nat → Prop} {ref : PluginRef}

theorem asksRegistry_of_registering (u : Crowd ServiceErrand RegistryOutcome) (e : ServiceErrand)
    (h : u.Registering (.arrive e)) : e.AsksRegistry := by
  cases e with
  | registry call => trivial
  | start | stop => exact h.elim

theorem allBut_of_registering (hs : Later Registering { host := h } s) :
    s.AllBut (fun _ ↦ False) ServiceErrand.AsksRegistry :=
  (allBut_start _ _ h).later asksRegistry_of_registering hs

/-- Whoever asks something of the registry leaves the plugin alone. -/
theorem Later.sameData (hs : Later Freely { host := h } s) (hstep : s.step m = some t)
    (hm : s.MovesAs ServiceErrand.AsksRegistry m) : Host.SameData ref s.host t.host := by
  cases happens_of_step hstep with
  | arrived | changed | asked | answered => exact ⟨rfl, rfl⟩
  | @acted i e x rest h' hi hx =>
    cases e with
    | registry call =>
      have honly : h' = { s.host with registry := h'.registry } := hs.act_of call.acts_only hi hx
      rw [honly]
      exact ⟨rfl, rfl⟩
    | start | stop => exact (hm i _ rfl hi).elim

theorem Later.sameData_of_registering (hs : Later Registering { host := h } s) :
    Host.SameData ref h s.host := by
  refine hs.hosts (R := Host.SameData ref) (fun _ ↦ ⟨rfl, rfl⟩)
    (fun h h' ↦ ⟨h'.1.trans h.1, h'.2.trans h.2⟩) fun hu _ hstep ↦ hu.freely.sameData hstep ?_
  exact fun i c _ hi ↦ (allBut_of_registering hu i c hi).resolve_left id

/-- Of the host's own plugin with the manager `m`, one client has started the services named by
`ids`, beginning after `s₀`, and another has stopped it, beginning at `s`. What passed with the
latter is first `before`, and then `after`; it has found the plugin's identifiers standing for
something on `hosts`. -/
structure StopsByIdentifier (s₀ s t : Crowd ServiceErrand RegistryOutcome) (m : Option ManagerRef)
    (ids : List String) (before after : List Exchange) (hosts : List Host) : Prop where
  /-- One after the other, what the identifiers stood for has started. -/
  started : List.Forall₂ (fun id c ↦ ∃ g ∈ foundIn (t.feats s₀.clients.length),
    g.registry.service id = .ok c) ids (startedIn (t.exchangesOf s₀.clients.length))
  exchanges : t.exchangesOf s.clients.length = before ++ after
  /-- To begin with, components of processes were stopped, and nothing else. -/
  managed : ∀ y ∈ callsIn before, y.1 = .stop ∧ IsManaged m (foundIn (t.feats s.clients.length)) y.2
  /-- Then what the identifiers stood for by then was called to stop, in reverse order. -/
  stopped : callsIn after = (resolved hosts ids.reverse).map (Prod.mk .stop)
  length_hosts : hosts.length = ids.length
  found : hosts.Sublist (foundIn (t.feats s.clients.length))
  met : ∀ g ∈ hosts, ∃ u, Later Freely s u ∧ Later Freely u t ∧ u.host = g
  /-- These are the services that had started, unless something was removed in between that had one
  of the identifiers. -/
  kept : (∀ id ∈ ids, t.removals id = s₀.removals id) →
    callsIn after = (startedIn (t.exchangesOf s₀.clients.length)).reverse.map (Prod.mk .stop)

/-- A host that a client has found since it came is that of a state in between. -/
theorem Later.exists_found {e : ServiceErrand} {g : Host} (hs : s.NobodyElse)
    (hlater : Later Freely (s.joined e) t) (hg : g ∈ foundIn (t.feats s.clients.length)) :
    ∃ u, Later Freely s u ∧ Later Freely u t ∧ u.host = g := by
  obtain ⟨x, hx, rfl⟩ := List.mem_map.mp hg
  obtain ⟨u, v, hsu, hA, hstep, hvt, hu, -⟩ := hlater.exists_act_joined hs hx
  have huv : Next Freely u v := ⟨_, hA, hstep⟩
  exact ⟨u, (later_joined s e).trans hsu, .head huv hvt, hu⟩

/-- A service that was known stays so as long as nothing is removed that has its identifier. -/
theorem Later.service_stays {id : String} {c : Component} (hs₀ : Later Freely { host := h } s₀)
    (hs : Later Freely s₀ s) (hsu : Later Freely s u) (hut : Later Freely u t)
    (hkept : t.removals id = s₀.removals id) (hc : s.host.registry.service id = .ok c) :
    u.host.registry.service id = .ok c := by
  have hheeds := ServiceErrand.heedsRegistry
  obtain ⟨hcomponent, hkind⟩ := Registry.service_eq_ok_iff.mp hc
  have hbefore := (hs₀.component_stays hheeds hs id).1
  have hbetween := (hs₀.trans hs).component_stays hheeds hsu id
  have hafter := ((hs₀.trans hs).trans hsu).component_stays hheeds hut id
  have hstays := hbetween.2 (by omega) c hcomponent
  exact Registry.service_eq_ok_iff.mpr ⟨hstays, hkind⟩

variable {ctx ctx' : ContextRef} {y : Option Component} {o : RegistryOutcome}

/-- A client has started what the identifiers of the configuration stood for. -/
theorem Later.has_started (hnew : (h.operationsPlugins.get ref).started = [])
    (hs₀ : Later Registering { host := h } s₀)
    (hs : Later Registering (s₀.joined (.start ref ctx)) s)
    (hstart : s.finished? s₀.clients.length = some (.start ref ctx, .ok y)) :
    (h.operationsPlugins.get ref).attached = true ∧
      Started ref (h.operationsPlugins.get ref) (Host.autostart h.configuration)
        (s.feats s₀.clients.length) s.host := by
  have hsame : Host.SameData ref h s₀.host := hs₀.sameData_of_registering
  obtain ⟨task, htask, hstands⟩ := hs₀.freely.stands_among (allBut_of_registering hs₀)
    (fun _ hi ↦ hi.elim) asksRegistry_of_registering hs (start_abides (by rw [hsame.1, hnew]))
    Later.sameData
  obtain rfl : task = .going (.done (.ok y)) := by
    simpa using htask.symm.trans (getElem?_of_finished? hstart)
  obtain ⟨g, hg, hstarted⟩ := hstands.done
  obtain ⟨hattached, hdata, hinstances⟩ := hstarted y rfl
  rw [hsame.1] at hattached hdata
  rw [hsame.2] at hdata hinstances
  exact ⟨hattached, hg.1.trans hdata, hinstances⟩

/-- A client has stopped what the identifiers stood for that the plugin remembered. -/
theorem Later.has_stopped (hs : Later Freely { host := h } s)
    (hbut : s.AllBut P ServiceErrand.AsksRegistry)
    (hfinished : ∀ i, P i → ∃ y, s.finished? i = some y)
    (hattached : (s.host.operationsPlugins.get ref).attached = true)
    (ht : Later Registering (s.joined (.stop ref ctx')) t)
    (hstop : t.finished? s.clients.length = some (.stop ref ctx', o)) :
    Stopped (s.host.operationsPlugins.get ref).manager (s.host.operationsPlugins.get ref).started
      (t.feats s.clients.length) := by
  obtain ⟨task, htask, hstands⟩ := hs.stands_among hbut hfinished asksRegistry_of_registering ht
    (stop_abides hattached rfl) Later.sameData
  obtain rfl : task = .going (.done o) := by
    simpa using htask.symm.trans (getElem?_of_finished? hstop)
  obtain ⟨-, -, hstopped⟩ := hstands.done
  exact hstopped

/-- What the host's own plugin stops is what the identifiers of the services it has started stand
for by then. -/
theorem stopsByIdentifier (hnew : (h.operationsPlugins.get ref).started = [])
    (hs₀ : Later Registering { host := h } s₀)
    (hs : Later Registering (s₀.joined (.start ref ctx)) s)
    (hstart : s.finished? s₀.clients.length = some (.start ref ctx, .ok y))
    (ht : Later Registering (s.joined (.stop ref ctx')) t)
    (hstop : t.finished? s.clients.length = some (.stop ref ctx', o)) :
    ∃ before after hosts, StopsByIdentifier s₀ s t (h.operationsPlugins.get ref).manager
      (Host.autostart h.configuration) before after hosts := by
  have hrun₁ : Later Freely s₀ s := (later_joined s₀ _).trans hs.freely
  have hrun₂ : Later Freely s t := (later_joined s _).trans ht.freely
  have hnobody₀ : s₀.NobodyElse := hs₀.nobodyElse (nobodyElse_start h)
  have hnobody : s.NobodyElse := hrun₁.nobodyElse hnobody₀
  obtain ⟨hattached, hdata, hinstances⟩ := Later.has_started hnew hs₀ hs hstart
  have hbut : s.AllBut (fun i ↦ False ∨ i = s₀.clients.length) ServiceErrand.AsksRegistry :=
    ((allBut_of_registering hs₀).joined _).later asksRegistry_of_registering hs
  have hstopped := (hs₀.freely.trans hrun₁).has_stopped hbut
    (fun i hi ↦ ⟨_, (hi.resolve_left id) ▸ hstart⟩) (by rw [hdata, hattached]) ht hstop
  rw [hdata] at hstopped
  obtain ⟨before, after, hosts, hexchanges, hmanaged, hlength, hfound, hcalls⟩ := hstopped
  have hfeats : t.feats s₀.clients.length = s.feats s₀.clients.length :=
    (hrun₂.finished? hstart).2
  have hmet (g : Host) (hg : g ∈ hosts) : ∃ u, Later Freely s u ∧ Later Freely u t ∧ u.host = g :=
    ht.freely.exists_found hnobody (hfound.subset hg)
  refine ⟨before, after, hosts, ?_, hexchanges, hmanaged, hcalls, ?_, hfound, hmet, fun hkept ↦ ?_⟩
  · rw [exchangesOf, hfeats]
    exact hinstances
  · rw [hlength, List.length_reverse]
  · rw [hcalls, exchangesOf, hfeats]
    refine congrArg _ (resolved_eq hlength (List.forall₂_reverse_iff.mpr ?_))
    refine ((List.forall₂_and_left _ _).mpr ⟨hkept, hinstances⟩).imp ?_
    rintro id c ⟨hid, g, hg, hc⟩ g' hg'
    obtain ⟨u, hsu, hus, rfl⟩ := hs.freely.exists_found hnobody₀ hg
    obtain ⟨u', hsu', hut', rfl⟩ := hmet g' hg'
    exact Later.service_stays hs₀.freely hsu (hus.trans hsu') hut' hid hc

end Crowd

/-! ### A service that takes the place of another -/

namespace Small

open Crowd

/-- A service, with its number and its identifier. -/
def service (ref : InstanceRef) (id : String) : Component :=
  ⟨ref, ⟨id, id, ""⟩, .service, false, .external⟩

/-- A host whose own plugin has been set up, with two services it is to start. -/
def hostWithServices : Host :=
  { configuration :=
      ⟨false, false, .ofEntries [("autostart_services", .arr [.str "a", .str "b"])]⟩
    registry := { components := [("a", service 0 "a"), ("b", service 1 "b")] }
    operationsPlugins := ⟨1, fun _ ↦ { generator := 0, attached := true, manager := some 0 }⟩ }

/-- Nobody has come yet. -/
def beforeStart : Crowd ServiceErrand RegistryOutcome := { host := hostWithServices }

/-- The services have been started, and one has been removed; another has taken its place. -/
def exchanged : Crowd ServiceErrand RegistryOutcome :=
  (beforeStart.joined (.start 0 0)).after <|
    Move.plays 0 answers 20 ++ [.arrive (.registry (.remove "a"))] ++ Move.plays 1 answers 5 ++
      [.arrive (.registry (.register (service 2 "a")))] ++ Move.plays 2 answers 5

/-- The plugin has been stopped. -/
def stoppedServices : Crowd ServiceErrand RegistryOutcome :=
  (exchanged.joined (.stop 0 0)).after (Move.plays 3 answers 30)

theorem later_exchanged : Later Registering (beforeStart.joined (.start 0 0)) exchanged :=
  later_of_allows (by decide +kernel)

theorem later_stoppedServices : Later Registering (exchanged.joined (.stop 0 0)) stoppedServices :=
  later_of_allows (by decide +kernel)

theorem finished?_exchanged :
    exchanged.finished? beforeStart.clients.length = some (.start 0 0, .ok none) :=
  later_exchanged.finished?_joined (by decide +kernel)

theorem finished?_stoppedServices :
    stoppedServices.finished? exchanged.clients.length = some (.stop 0 0, .ok none) :=
  later_stoppedServices.finished?_joined (by decide +kernel)

theorem length_exchanged : exchanged.clients.length = 3 := by decide +kernel

theorem exchanged_stopsByIdentifier :
    (hostWithServices.operationsPlugins.get 0).started = [] ∧
      exchanged.finished? 0 = some (.start 0 0, .ok none) ∧
        stoppedServices.finished? 3 = some (.stop 0 0, .ok none) ∧
          ∃ before after hosts, StopsByIdentifier beforeStart exchanged stoppedServices
            (hostWithServices.operationsPlugins.get 0).manager
              (Host.autostart hostWithServices.configuration) before after hosts :=
  ⟨by rfl, finished?_exchanged, length_exchanged ▸ finished?_stoppedServices,
    stopsByIdentifier (by rfl) .refl later_exchanged finished?_exchanged later_stoppedServices
      finished?_stoppedServices⟩

/-- The services that are stopped need not be those that were started. -/
theorem not_stopped_as_started :
    ¬ ∀ (h : Host) (ref : PluginRef) (ctx ctx' : ContextRef)
        (s₀ s t : Crowd ServiceErrand RegistryOutcome) (y : Option Component) (o : RegistryOutcome),
      (h.operationsPlugins.get ref).started = [] → Later Registering { host := h } s₀ →
      Later Registering (s₀.joined (.start ref ctx)) s →
      s.finished? s₀.clients.length = some (.start ref ctx, .ok y) →
      Later Registering (s.joined (.stop ref ctx')) t →
      t.finished? s.clients.length = some (.stop ref ctx', o) →
      ∃ before after, t.exchangesOf s.clients.length = before ++ after ∧
        (∀ z ∈ callsIn before, z.1 = .stop ∧ ServiceErrand.IsManaged
          (h.operationsPlugins.get ref).manager (foundIn (t.feats s.clients.length)) z.2) ∧
        callsIn after =
          (startedIn (t.exchangesOf s₀.clients.length)).reverse.map (Prod.mk .stop) := by
  intro hall
  obtain ⟨before, after, hexchanges, hmanaged, hafter⟩ := hall hostWithServices 0 0 0 beforeStart
    exchanged stoppedServices none (.ok none) (by rfl) .refl later_exchanged finished?_exchanged
    later_stoppedServices finished?_stoppedServices
  rw [length_exchanged] at hexchanges hmanaged
  have hcalls : callsIn (stoppedServices.exchangesOf 3) =
      [(.stop, service 1 "b"), (.stop, service 2 "a")] := by decide +kernel
  have hstarted : startedIn (stoppedServices.exchangesOf beforeStart.clients.length) =
      [service 0 "a", service 1 "b"] := by decide +kernel
  have hunused : ∀ g ∈ foundIn (stoppedServices.feats 3), (g.managers.get 0).recorded = [] := by
    decide +kernel
  -- no process was there to be stopped
  have hbefore : callsIn before = [] := by
    refine List.eq_nil_iff_forall_not_mem.mpr fun z hz ↦ ?_
    obtain ⟨-, m, hm, g, hg, g', -, id, p, hfind, -⟩ := hmanaged z hz
    obtain rfl : 0 = m := Option.some.inj hm
    have hrecorded := Manager.mem_of_find hfind
    rw [hunused g hg] at hrecorded
    cases hrecorded
  rw [hexchanges, callsIn_append, hbefore, List.nil_append, hafter, hstarted] at hcalls
  exact absurd hcalls (by decide +kernel)

end Small

end ComponentHost
