import ComponentHost.Host.Plugins
import ComponentHost.Proofs.Crowd

/-!
What those do who take a plugin on, and those who stop all of them.

Taking a plugin on calls its phases in order as long as they succeed, and then adds one entry to the
list (`PluginCall.addManner`). Stopping all takes every plugin out of its entry in one action, asks
one after the other to stop, the latest first, and then writes down in one more action what has
become of each (`PluginCall.stopManner`).
-/

set_option autoImplicit false

namespace ComponentHost

/-! ### Calls of phases -/

/-- Something that happens to a plugin. -/
inductive PhaseEvent where
  | called (phase : PluginPhase)
  | returned (phase : PluginPhase) (result : Except Error Unit)

/-- What passes to a plugin or back from it. -/
def Exchange.phaseEvent? : Exchange → Option (Plugin × PhaseEvent)
  | .asked (.plugin phase P _) => some (P, .called phase)
  | .answered (.plugin phase P _) r => some (P, .returned phase r)
  | _ => none

/-- Who answers at once is no plugin. -/
theorem Call.phaseEvent?_eq_none {c : Call} (hc : c.suspends = false) :
    (Exchange.asked c).phaseEvent? = none ∧
      ∀ r, (Exchange.answered c r).phaseEvent? = none := by
  cases c <;> first | exact ⟨rfl, fun _ ↦ rfl⟩ | cases hc

def Feat.phaseEvent? : Feat → Option (Plugin × PhaseEvent)
  | .acted _ _ => none
  | .said x => x.phaseEvent?

/-- What has happened to plugins. -/
def eventsIn (log : List Feat) : List (Plugin × PhaseEvent) := log.filterMap Feat.phaseEvent?

@[simp] theorem eventsIn_nil : eventsIn [] = [] := rfl

@[simp] theorem eventsIn_append (xs ys : List Feat) :
    eventsIn (xs ++ ys) = eventsIn xs ++ eventsIn ys := List.filterMap_append

@[simp] theorem eventsIn_acted (h h' : Host) (xs : List Feat) :
    eventsIn (.acted h h' :: xs) = eventsIn xs := rfl

@[simp] theorem eventsIn_said (x : Exchange) (xs : List Feat) :
    eventsIn (.said x :: xs) = x.phaseEvent?.toList ++ eventsIn xs := by
  cases hx : x.phaseEvent? <;> simp [eventsIn, Feat.phaseEvent?, hx]

/-- What has happened to one plugin. -/
def historyIn (events : List (Plugin × PhaseEvent)) (P : Plugin) : List PhaseEvent :=
  (events.filter (·.1 = P)).map Prod.snd

@[simp] theorem historyIn_nil (P : Plugin) : historyIn [] P = [] := rfl

@[simp] theorem historyIn_append (xs ys : List (Plugin × PhaseEvent)) (P : Plugin) :
    historyIn (xs ++ ys) P = historyIn xs P ++ historyIn ys P := by
  simp [historyIn]

theorem historyIn_cons (x : Plugin × PhaseEvent) (xs : List (Plugin × PhaseEvent)) (P : Plugin) :
    historyIn (x :: xs) P = if x.1 = P then x.2 :: historyIn xs P else historyIn xs P := by
  by_cases hx : x.1 = P <;> simp [historyIn, hx]

@[simp] theorem historyIn_map (P : Plugin) (events : List PhaseEvent) :
    historyIn (events.map (Prod.mk P)) P = events := by
  simp [historyIn, List.filter_map, Function.comp_def]

/-- Phases are called in this order, each at most once and only if those before it have succeeded;
nothing is called after a failure. -/
def Follows : List PluginPhase → List PhaseEvent → Prop
  | [], events => events = []
  | phase :: rest, events =>
    events = [] ∨ events = [.called phase] ∨
      (∃ e, events = [.called phase, .returned phase (.error e)]) ∨
      ∃ more, events = .called phase :: .returned phase (.ok ()) :: more ∧ Follows rest more

theorem Follows.nil (phases : List PluginPhase) : Follows phases [] := by
  cases phases with
  | nil => rfl
  | cons phase rest => exact .inl rfl

theorem follows_called (phase : PluginPhase) (rest : List PluginPhase) :
    Follows (phase :: rest) [.called phase] := .inr (.inl rfl)

theorem follows_returned (phase : PluginPhase) (rest : List PluginPhase) (r : Except Error Unit) :
    Follows (phase :: rest) [.called phase, .returned phase r] := by
  cases r with
  | ok _ => exact .inr (.inr (.inr ⟨[], rfl, .nil rest⟩))
  | error e => exact .inr (.inr (.inl ⟨e, rfl⟩))

theorem Follows.append {phases : List PluginPhase} {events : List PhaseEvent}
    (h : Follows phases events) (more : List PluginPhase) : Follows (phases ++ more) events := by
  induction phases generalizing events with
  | nil =>
    obtain rfl : events = [] := h
    exact .nil more
  | cons phase rest ih =>
    obtain hnil | hcalled | hfailed | ⟨later, hevents, hlater⟩ := h
    · exact .inl hnil
    · exact .inr (.inl hcalled)
    · exact .inr (.inr (.inl hfailed))
    · exact .inr (.inr (.inr ⟨later, hevents, ih hlater⟩))

/-- The phases have been called, and each has succeeded. -/
def succeeded (phases : List PluginPhase) : List PhaseEvent :=
  phases.flatMap fun phase ↦ [.called phase, .returned phase (.ok ())]

@[simp] theorem succeeded_cons (phase : PluginPhase) (rest : List PluginPhase) :
    succeeded (phase :: rest) = .called phase :: .returned phase (.ok ()) :: succeeded rest := rfl

theorem length_succeeded (phases : List PluginPhase) :
    (succeeded phases).length = 2 * phases.length := by
  induction phases with
  | nil => rfl
  | cons phase rest ih =>
    rw [succeeded_cons, List.length_cons, List.length_cons, List.length_cons, ih]
    omega

/-- Nothing follows the last phase. -/
theorem Follows.eq_succeeded {phases : List PluginPhase} {events : List PhaseEvent}
    (h : Follows phases events) (hsucceeded : succeeded phases <+: events) :
    events = succeeded phases := by
  induction phases generalizing events with
  | nil => exact h
  | cons phase rest ih =>
    obtain ⟨more, rfl⟩ := hsucceeded
    obtain hnil | hcalled | ⟨e, hfailed⟩ | ⟨later, hevents, hlater⟩ := h
    · cases hnil
    · cases hcalled
    · cases hfailed
    · obtain rfl : succeeded rest ++ more = later := by simpa using hevents
      rw [succeeded_cons, List.cons_append, List.cons_append, ih hlater ⟨more, rfl⟩]

/-- After some phases that have succeeded the others may follow. -/
theorem Follows.after_succeeded {after : List PluginPhase} {events : List PhaseEvent}
    (h : Follows after events) (before : List PluginPhase) :
    Follows (before ++ after) (succeeded before ++ events) := by
  induction before with
  | nil => exact h
  | cons phase rest ih => exact .inr (.inr (.inr ⟨_, rfl, ih⟩))

/-! ### The list of plugins -/

namespace Host

/-- The plugin is added to the list. -/
def tracking (P : Plugin) (h : Host) : Host :=
  { h with plugins := h.plugins ++ [⟨P.name, .started, h.now, some P⟩] }

/-- The plugins not yet released, with their places, the latest first. -/
def held (plugins : List PluginEntry) : List (Nat × Plugin) :=
  (plugins.mapIdx fun i e ↦ e.plugin.map fun p ↦ (i, p)).reverse.filterMap id

/-- Every plugin is released. -/
def releasing (h : Host) : Host :=
  { h with plugins := h.plugins.map fun e ↦ { e with plugin := none } }

theorem mem_held {plugins : List PluginEntry} {k : Nat} {P : Plugin} :
    (k, P) ∈ held plugins ↔ ∃ e, plugins[k]? = some e ∧ e.plugin = some P := by
  simp only [held, List.mem_filterMap, List.mem_reverse, List.mem_mapIdx, id]
  constructor
  · rintro ⟨x, ⟨i, hi, rfl⟩, hx⟩
    obtain ⟨Q, hQ, heq⟩ := Option.map_eq_some_iff.mp hx
    cases heq
    exact ⟨_, List.getElem?_eq_getElem hi, hQ⟩
  · rintro ⟨e, he, hP⟩
    obtain ⟨hk, rfl⟩ := List.getElem?_eq_some_iff.mp he
    exact ⟨_, ⟨k, hk, rfl⟩, by rw [hP]; rfl⟩

theorem held_pairwise (plugins : List PluginEntry) :
    (held plugins).Pairwise fun x y ↦ y.1 < x.1 := by
  rw [held, List.pairwise_filterMap, List.pairwise_reverse, List.pairwise_iff_getElem]
  intro i j hi hj hij x hx y hy
  simp only [List.getElem_mapIdx, id, Option.map_eq_some_iff] at hx hy
  obtain ⟨P, -, rfl⟩ := hx
  obtain ⟨Q, -, rfl⟩ := hy
  exact hij

theorem settle_cons (x : Nat × PluginState) (rest : List (Nat × PluginState))
    (plugins : List PluginEntry) :
    settle (x :: rest) plugins = settle rest (plugins.modify x.1 ({ · with state := x.2 })) := rfl

@[simp] theorem length_settle (outcomes : List (Nat × PluginState)) (plugins : List PluginEntry) :
    (settle outcomes plugins).length = plugins.length := by
  induction outcomes generalizing plugins with
  | nil => rfl
  | cons x rest ih => rw [settle_cons, ih, List.length_modify]

/-- Who has been released stays so, and who has not. -/
theorem plugin_settle (outcomes : List (Nat × PluginState)) (plugins : List PluginEntry) (k : Nat) :
    (settle outcomes plugins)[k]?.map (·.plugin) = plugins[k]?.map (·.plugin) := by
  induction outcomes generalizing plugins with
  | nil => rfl
  | cons x rest ih =>
    rw [settle_cons, ih, List.getElem?_modify]
    cases plugins[k]? with
    | none => rfl
    | some e => by_cases hk : x.1 = k <;> simp [hk]

theorem mem_held_settle {outcomes : List (Nat × PluginState)} {plugins : List PluginEntry}
    {x : Nat × Plugin} : x ∈ held (settle outcomes plugins) ↔ x ∈ held plugins := by
  have hsame := plugin_settle outcomes plugins x.1
  rw [mem_held, mem_held]
  constructor
  · rintro ⟨e, he, hP⟩
    rw [he] at hsame
    obtain ⟨e', he', heq⟩ := Option.map_eq_some_iff.mp hsame.symm
    exact ⟨e', he', heq.trans hP⟩
  · rintro ⟨e, he, hP⟩
    rw [he] at hsame
    obtain ⟨e', he', heq⟩ := Option.map_eq_some_iff.mp hsame
    exact ⟨e', he', heq.trans hP⟩

theorem getElem?_settle_of_notMem {outcomes : List (Nat × PluginState)} {k : Nat}
    (hk : k ∉ outcomes.map Prod.fst) (plugins : List PluginEntry) :
    (settle outcomes plugins)[k]? = plugins[k]? := by
  induction outcomes generalizing plugins with
  | nil => rfl
  | cons x rest ih =>
    obtain ⟨hne, hrest⟩ : k ≠ x.1 ∧ k ∉ rest.map Prod.fst := by simpa using hk
    rw [settle_cons, ih hrest, List.getElem?_modify_ne _ _ (Ne.symm hne)]

theorem getElem?_settle_of_mem {outcomes : List (Nat × PluginState)} {k : Nat} {state : PluginState}
    (hnodup : (outcomes.map Prod.fst).Nodup) (hmem : (k, state) ∈ outcomes)
    (plugins : List PluginEntry) :
    (settle outcomes plugins)[k]? = plugins[k]?.map ({ · with state }) := by
  induction outcomes generalizing plugins with
  | nil => cases hmem
  | cons x rest ih =>
    obtain ⟨hnot, hrest⟩ := List.nodup_cons.mp hnodup
    rw [settle_cons]
    cases hmem with
    | head =>
      rw [getElem?_settle_of_notMem hnot, List.getElem?_modify_eq]
      rfl
    | tail _ hmem =>
      have hne : x.1 ≠ k := fun h ↦ hnot (h ▸ List.mem_map_of_mem hmem)
      rw [ih hrest hmem, List.getElem?_modify_ne _ _ hne]

end Host

/-- What a plugin that answers so to its stop has come to. -/
def settledAs : Except Error Unit → PluginState
  | .ok () => .stopped
  | .error e => .stopFailed e.message

/-- What has become of plugins that were released in this order and have answered so. -/
def outcomes (released : List (Nat × Plugin)) (stops : List (Plugin × Except Error Unit)) :
    List (Nat × PluginState) :=
  List.zipWith (fun x y ↦ (x.1, settledAs y.2)) released stops

theorem outcomes_map_fst {released : List (Nat × Plugin)}
    {stops : List (Plugin × Except Error Unit)}
    (hstops : released.map Prod.snd = stops.map Prod.fst) :
    (outcomes released stops).map Prod.fst = released.map Prod.fst := by
  induction released generalizing stops with
  | nil => rfl
  | cons x rest ih =>
    cases stops with
    | nil => cases hstops
    | cons y stops =>
      obtain ⟨-, hrest⟩ := List.cons.inj hstops
      exact congrArg (x.1 :: ·) (ih hrest)

/-- What is written down of a plugin is its own answer. -/
theorem exists_outcome {released : List (Nat × Plugin)} {stops : List (Plugin × Except Error Unit)}
    (hstops : released.map Prod.snd = stops.map Prod.fst) {k : Nat} {P : Plugin}
    (hmem : (k, P) ∈ released) :
    ∃ r, (P, r) ∈ stops ∧ (k, settledAs r) ∈ outcomes released stops := by
  induction released generalizing stops with
  | nil => cases hmem
  | cons x rest ih =>
    cases stops with
    | nil => cases hstops
    | cons y stops =>
      obtain ⟨hfirst, hrest⟩ := List.cons.inj hstops
      cases hmem with
      | head =>
        obtain rfl : P = y.1 := hfirst
        exact ⟨y.2, List.mem_cons_self, List.mem_cons_self⟩
      | tail _ hmem =>
        obtain ⟨r, hr, houtcome⟩ := ih hrest hmem
        exact ⟨r, List.mem_cons_of_mem _ hr, List.mem_cons_of_mem _ houtcome⟩

/-! ### Clients -/

/-- What a client asks of the manager of plugins. -/
inductive PluginCall where
  | add (ctx : ContextRef) (plugin : Plugin)
  | stopAll (ctx : ContextRef)

abbrev PluginOutcome := Except Error Unit

namespace PluginCall

def action : PluginCall → Action Unit
  | .add ctx plugin => Host.addPlugin ctx plugin
  | .stopAll ctx => Host.stopAll ctx

/-- The plugin that the client brings. -/
def brings? : PluginCall → Option PluginRef
  | .add _ plugin => some plugin.ref
  | .stopAll _ => none

instance : Errand PluginCall PluginOutcome where
  program e := e.action.run
  spared before after := { after with plugins := before.plugins }

/-- The phases of taking a plugin on. -/
def onboardingPhases : List PluginPhase := [.setUp, .registerResources, .start]

/-- The phases of a plugin have been called, and each has succeeded. -/
def passed (P : Plugin) (phases : List PluginPhase) : List (Plugin × PhaseEvent) :=
  (succeeded phases).map (Prod.mk P)

/-- Plugins were asked to stop, and have answered so. -/
def stopped (stops : List (Plugin × Except Error Unit)) : List (Plugin × PhaseEvent) :=
  stops.flatMap fun x ↦ [(x.1, .called .stop), (x.1, .returned .stop x.2)]

theorem historyIn_stopped_of_notMem {stops : List (Plugin × Except Error Unit)} {P : Plugin}
    (hP : P ∉ stops.map Prod.fst) : historyIn (stopped stops) P = [] := by
  induction stops with
  | nil => rfl
  | cons x rest ih =>
    obtain ⟨hne, hrest⟩ : P ≠ x.1 ∧ P ∉ rest.map Prod.fst := by simpa using hP
    change historyIn ((x.1, .called .stop) :: (x.1, .returned .stop x.2) :: stopped rest) P = []
    rw [historyIn_cons, if_neg hne.symm, historyIn_cons, if_neg hne.symm, ih hrest]

theorem historyIn_stopped_of_mem {stops : List (Plugin × Except Error Unit)} {P : Plugin}
    {r : Except Error Unit} (hnodup : (stops.map Prod.fst).Nodup) (hmem : (P, r) ∈ stops) :
    historyIn (stopped stops) P = [.called .stop, .returned .stop r] := by
  induction stops with
  | nil => cases hmem
  | cons x rest ih =>
    obtain ⟨hnot, hrest⟩ := List.nodup_cons.mp hnodup
    change historyIn ((x.1, .called .stop) :: (x.1, .returned .stop x.2) :: stopped rest) P = _
    cases hmem with
    | head =>
      rw [historyIn_cons, if_pos rfl, historyIn_cons, if_pos rfl, historyIn_stopped_of_notMem hnot]
    | tail _ hmem =>
      have hne : x.1 ≠ P := fun h ↦ hnot (h ▸ List.mem_map_of_mem hmem)
      rw [historyIn_cons, if_neg hne, historyIn_cons, if_neg hne, ih hrest hmem]

/-- How a client takes a plugin on. -/
def addManner (P : Plugin) : Manner :=
  { Manner.alert
      (fun log h h' ↦ actsIn log = [] ∧ eventsIn log = passed P onboardingPhases ∧
        h' = h.tracking P)
      (fun log c ↦ c.suspends = false ∨ actsIn log = [] ∧ ∃ before phase after ctx,
        c = .plugin phase P ctx ∧ onboardingPhases = before ++ phase :: after ∧
          eventsIn log = passed P before) with
    wait := fun _ ↦ False }

/-- How a client stops all plugins. -/
def stopManner : Manner :=
  { Manner.alert
      (fun log h h' ↦ log = [] ∧ h' = h.releasing ∨
        ∃ h₀ stops, actsIn log = [(h₀, h₀.releasing)] ∧ eventsIn log = stopped stops ∧
          (Host.held h₀.plugins).map Prod.snd = stops.map Prod.fst ∧
          h' = { h with
            plugins := Host.settle (outcomes (Host.held h₀.plugins) stops) h.plugins })
      (fun log c ↦ ∃ h₀, actsIn log = [(h₀, h₀.releasing)] ∧
        (c.suspends = false ∨ ∃ stops Q rest ctx, c = .plugin .stop Q ctx ∧
          eventsIn log = stopped stops ∧
          (Host.held h₀.plugins).map Prod.snd = stops.map Prod.fst ++ Q :: rest)) with
    wait := fun _ ↦ False }

variable {ctx : ContextRef} {P : Plugin} {log : List Feat} {h : Host}

@[simp] theorem passed_append (xs ys : List PluginPhase) :
    passed P (xs ++ ys) = passed P xs ++ passed P ys := by
  simp [passed, succeeded]

theorem runPhases_abides {Q : List Feat → Host → Except (PluginState × Error) Unit → Prop}
    (before : List PluginPhase) {rest : List (PluginPhase × PluginState)} (reached : PluginState)
    (hphases : onboardingPhases = before ++ rest.map Prod.fst) (hacts : actsIn log = [])
    (hevents : eventsIn log = passed P before)
    (hok : ∀ log, actsIn log = [] → eventsIn log = passed P onboardingPhases → Q log h (.ok ()))
    (herror : ∀ log e, eventsIn log ≠ passed P onboardingPhases → Q log h (.error e)) :
    (Host.runPhases ctx P reached rest).Abides (addManner P) Q log h := by
  induction rest generalizing log before reached with
  | nil =>
    rw [List.map_nil, List.append_nil] at hphases
    exact hok log hacts (hphases ▸ hevents)
  | cons x rest ih =>
    refine ⟨.inr ⟨hacts, before, x.1, rest.map Prod.fst, ctx, rfl, hphases, hevents⟩, fun res ↦ ?_⟩
    cases res with
    | ok _ =>
      have hmore : onboardingPhases = (before ++ [x.1]) ++ rest.map Prod.fst := by
        rw [hphases, List.append_assoc]
        rfl
      refine ih _ x.2 hmore (by simp [hacts]) ?_
      rw [eventsIn_append, hevents, passed_append]
      rfl
    | error e =>
      refine herror _ _ ?_
      simp [hevents, hphases, Exchange.phaseEvent?, passed, succeeded]

theorem add_abides :
    (add ctx P).action.run.Abides (addManner P)
      (fun log _ _ ↦ eventsIn log = passed P onboardingPhases → actsIn log ≠ []) [] h := by
  refine .andThen (.lift (runPhases_abides [] .added rfl rfl rfl (fun log hacts hevents ↦ ?_)
    fun log e hevents ↦ ?_))
  · refine .andThen fun h' _ ↦ ⟨⟨hacts, hevents, rfl⟩, ?_⟩
    exact Host.abides_log (fun _ ↦ .inl rfl) fun record ↦ by simp
  · refine .andThen (Host.abides_log (fun _ ↦ .inl rfl) fun record ↦ ?_)
    refine .andThen ⟨.inl rfl, fun _ hpassed ↦ absurd ?_ hevents⟩
    simpa [Exchange.phaseEvent?] using hpassed

theorem outcomes_append {done : List (Nat × Plugin)} {stops : List (Plugin × Except Error Unit)}
    (hdone : done.map Prod.snd = stops.map Prod.fst) (x : Nat × Plugin)
    (y : Plugin × Except Error Unit) :
    outcomes (done ++ [x]) (stops ++ [y]) = outcomes done stops ++ [(x.1, settledAs y.2)] := by
  have hlength : done.length = stops.length := by simpa using congrArg List.length hdone
  rw [outcomes, List.zipWith_append hlength]
  rfl

/-- Plugins are stopped one after the other, whatever they answer. -/
theorem stopPlugins_abides {Q : List Feat → Host → Host.StopReport → Prop} {h₀ : Host}
    {done rest : List (Nat × Plugin)} {stops : List (Plugin × Except Error Unit)}
    {report : Host.StopReport} (hheld : Host.held h₀.plugins = done ++ rest)
    (hacts : actsIn log = [(h₀, h₀.releasing)]) (hevents : eventsIn log = stopped stops)
    (hdone : done.map Prod.snd = stops.map Prod.fst)
    (hreport : report.outcomes = outcomes done stops)
    (hQ : ∀ log stops report, actsIn log = [(h₀, h₀.releasing)] → eventsIn log = stopped stops →
      (Host.held h₀.plugins).map Prod.snd = stops.map Prod.fst →
      report.outcomes = outcomes (Host.held h₀.plugins) stops → Q log h report) :
    (Host.stopPlugins ctx report rest).Abides stopManner Q log h := by
  induction rest generalizing log done stops report with
  | nil =>
    rw [List.append_nil] at hheld
    exact hQ log stops report hacts hevents (hheld ▸ hdone) (hheld ▸ hreport)
  | cons x rest ih =>
    obtain ⟨i, P⟩ := x
    have hplugins : (Host.held h₀.plugins).map Prod.snd =
        stops.map Prod.fst ++ P :: rest.map Prod.snd := by
      rw [hheld, List.map_append, hdone]
      rfl
    have hheld' : Host.held h₀.plugins = (done ++ [(i, P)]) ++ rest := by
      rw [hheld, List.append_assoc]
      rfl
    refine ⟨⟨h₀, hacts, .inr ⟨stops, P, _, ctx, rfl, hevents, hplugins⟩⟩, fun res ↦ ?_⟩
    have hdone' : (done ++ [(i, P)]).map Prod.snd = (stops ++ [(P, res)]).map Prod.fst := by
      simp [hdone]
    cases res with
    | ok _ =>
      refine ⟨⟨h₀, by simpa using hacts, .inl rfl⟩, fun _ ↦ ?_⟩
      refine ⟨⟨h₀, by simpa using hacts, .inl rfl⟩, fun _ ↦ ?_⟩
      refine ih hheld' (by simpa using hacts) ?_ hdone' ?_
      · simp [hevents, Exchange.phaseEvent?, stopped]
      · rw [hreport, outcomes_append hdone]
        rfl
    | error e =>
      refine ⟨⟨h₀, by simpa using hacts, .inl rfl⟩, fun _ ↦ ?_⟩
      refine ⟨⟨h₀, by simpa using hacts, .inl rfl⟩, fun _ ↦ ?_⟩
      refine ih hheld' (by simpa using hacts) ?_ hdone' ?_
      · simp [hevents, Exchange.phaseEvent?, stopped]
      · rw [hreport, outcomes_append hdone]
        rfl

theorem stopAll_abides :
    (stopAll ctx).action.run.Abides stopManner (fun log _ _ ↦ (actsIn log).length = 2) [] h := by
  refine .bind (x := Host.takePlugins) fun h₀ _ ↦ ⟨.inl ⟨rfl, rfl⟩, ?_⟩
  have hheld : Host.held h₀.plugins = ([] : List (Nat × Plugin)) ++ Host.held h₀.plugins := rfl
  have hnothing : ([] : List (Nat × Plugin)).map Prod.snd =
      ([] : List (Plugin × Except Error Unit)).map Prod.fst := rfl
  refine .bind (stopPlugins_abides hheld rfl rfl hnothing rfl
    fun log stops report hacts hevents hstops hreport ↦ ?_)
  intro h' _
  refine ⟨.inr ⟨h₀, stops, hacts, hevents, hstops, ?_⟩, ?_⟩
  · rw [hreport]
  · cases report.firstError <;> simp [hacts]

end PluginCall

end ComponentHost
