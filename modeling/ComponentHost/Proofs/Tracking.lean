import ComponentHost.Proofs.Onboarding
import Mathlib.Data.List.Nodup

/-!
The list of plugins over whole runs.

A plugin is brought by one client, who calls its phases and then adds it to the list; there it stays
until some client who stops all takes it, and that client alone calls its stop and writes down what
has become of it. Where a plugin is, and what has happened to it by then, is told by
`Crowd.Placed`; no step leads anywhere else (`Crowd.Later.roll`).

`Crowd.Tracked s t` says what follows for a state `s` of a run and any later one `t`.
-/

set_option autoImplicit false

namespace ComponentHost

namespace Feat

/-- The plugins that something has added to the list. -/
def tracked : Feat → List Plugin
  | .acted h h' => (h'.plugins.drop h.plugins.length).filterMap (·.plugin)
  | .said _ => []

/-- The plugins that something has taken out of the list, with their places. -/
def released : Feat → List (Nat × Plugin)
  | .acted h h' => (Host.held h.plugins).filter (· ∉ Host.held h'.plugins)
  | .said _ => []

theorem tracked_tracking (P : Plugin) (h : Host) : (Feat.acted h (h.tracking P)).tracked = [P] := by
  simp [tracked, Host.tracking]

/-- Nothing is added to a list that does not get longer. -/
theorem tracked_of_length_eq {h h' : Host} (hlength : h'.plugins.length = h.plugins.length) :
    (Feat.acted h h').tracked = [] := by
  rw [tracked, ← hlength, List.drop_length]
  rfl

theorem released_of_subset {h h' : Host}
    (hsubset : ∀ x ∈ Host.held h.plugins, x ∈ Host.held h'.plugins) :
    (Feat.acted h h').released = [] := by
  simpa [released] using hsubset

theorem held_releasing (h : Host) : Host.held h.releasing.plugins = [] := by
  refine List.eq_nil_iff_forall_not_mem.mpr fun x hx ↦ ?_
  obtain ⟨e, he, hplugin⟩ := Host.mem_held.mp hx
  rw [Host.releasing, List.getElem?_map] at he
  obtain ⟨e', -, rfl⟩ := Option.map_eq_some_iff.mp he
  cases hplugin

theorem released_releasing (h : Host) :
    (Feat.acted h h.releasing).released = Host.held h.plugins := by
  simp [released, held_releasing]

theorem released_tracking (P : Plugin) (h : Host) :
    (Feat.acted h (h.tracking P)).released = [] := by
  refine released_of_subset fun x hx ↦ ?_
  obtain ⟨e, he, hplugin⟩ := Host.mem_held.mp hx
  refine Host.mem_held.mpr ⟨e, ?_, hplugin⟩
  rw [Host.tracking, List.getElem?_append_left (List.getElem?_eq_some_iff.mp he).1, he]

end Feat

namespace Crowd

variable {s t : Crowd PluginCall PluginOutcome} {i j k : Nat} {P : Plugin}

/-- The plugins that were added to the list, in order. -/
def roster (s : Crowd PluginCall PluginOutcome) : List Plugin :=
  s.past.reverse.flatMap fun x ↦ x.2.tracked

/-- The plugins that a client has taken out of the list, with their places. -/
def taken (s : Crowd PluginCall PluginOutcome) (i : Nat) : List (Nat × Plugin) :=
  (s.feats i).flatMap Feat.released

/-- What has happened to a plugin, the earliest first. -/
def historyOf (s : Crowd PluginCall PluginOutcome) (P : Plugin) : List PhaseEvent :=
  historyIn (eventsIn (s.past.reverse.map Prod.snd)) P

/-- The tracked plugins as they are listed. -/
def listing (s : Crowd PluginCall PluginOutcome) : List PluginInfo :=
  s.host.plugins.map PluginEntry.info

/-- A client is there to take the plugin on. -/
def Brings (s : Crowd PluginCall PluginOutcome) (i : Nat) (P : Plugin) : Prop :=
  ∃ ctx task, s.clients[i]? = some ⟨.add ctx P, task⟩

/-- A client is there to stop all plugins. -/
def Stops (s : Crowd PluginCall PluginOutcome) (j : Nat) : Prop :=
  ∃ ctx task, s.clients[j]? = some ⟨.stopAll ctx, task⟩

/-- Whoever comes brings a plugin that nobody has brought before. -/
def Fresh (s : Crowd PluginCall PluginOutcome) : Move PluginCall → Prop
  | .arrive (.add _ P) => ∀ c ∈ s.clients, c.errand.brings? ≠ some P.ref
  | _ => True

instance (s : Crowd PluginCall PluginOutcome) (m : Move PluginCall) : Decidable (s.Fresh m) := by
  unfold Fresh
  split <;> infer_instance

theorem roster_moved (i : Nat) (e : PluginCall) (feat : Feat) (h : Host)
    (task : Task PluginOutcome) : (s.moved i e feat h task).roster = s.roster ++ feat.tracked := by
  simp [roster, moved]

theorem historyOf_moved (i : Nat) (e : PluginCall) (feat : Feat) (h : Host)
    (task : Task PluginOutcome) (P : Plugin) :
    (s.moved i e feat h task).historyOf P =
      s.historyOf P ++ historyIn (eventsIn [feat]) P := by
  simp [historyOf, moved]

theorem taken_eq (s : Crowd PluginCall PluginOutcome) (i : Nat) :
    s.taken i = (actsIn (s.feats i)).flatMap fun x ↦ (Feat.acted x.1 x.2).released := by
  unfold taken
  induction s.feats i with
  | nil => rfl
  | cons x rest ih =>
    cases x with
    | acted h h' => rw [List.flatMap_cons, ih, actsIn_acted, List.flatMap_cons]
    | said x => exact ih

theorem brings_moved {e : PluginCall} {task : Task PluginOutcome}
    (hi : s.clients[i]? = some ⟨e, task⟩) (feat : Feat) (h : Host) (task' : Task PluginOutcome) :
    (s.moved i e feat h task').Brings j P ↔ s.Brings j P := by
  by_cases hij : i = j
  · subst hij
    simp [Brings, getElem?_moved hi, hi]
  · simp [Brings, moved, List.getElem?_set_ne hij]

theorem stops_moved {e : PluginCall} {task : Task PluginOutcome}
    (hi : s.clients[i]? = some ⟨e, task⟩) (feat : Feat) (h : Host) (task' : Task PluginOutcome) :
    (s.moved i e feat h task').Stops j ↔ s.Stops j := by
  by_cases hij : i = j
  · subst hij
    simp [Stops, getElem?_moved hi, hi]
  · simp [Stops, moved, List.getElem?_set_ne hij]

/-- Where a plugin is, and what has happened to it. -/
inductive Placed (s : Crowd PluginCall PluginOutcome) (P : Plugin) : Prop where
  | unknown (hbrings : ∀ i, ¬s.Brings i P) (hroster : P ∉ s.roster) (hhistory : s.historyOf P = [])
  /-- It is being taken on, or that has failed. -/
  | adding {i : Nat} (hbrings : s.Brings i P) (hroster : P ∉ s.roster)
      (hacts : actsIn (s.feats i) = [])
      (hevents : eventsIn (s.feats i) = (s.historyOf P).map (Prod.mk P))
      (hfollows : Follows PluginCall.onboardingPhases (s.historyOf P))
  /-- It is in the list. -/
  | held {i k : Nat} {added : Timestamp} (hbrings : s.Brings i P) (hacts : actsIn (s.feats i) ≠ [])
      (hroster : s.roster[k]? = some P)
      (hentry : s.host.plugins[k]? = some ⟨P.name, .started, added, some P⟩)
      (hfree : ∀ j k', (k', P) ∉ s.taken j)
      (hhistory : s.historyOf P = succeeded PluginCall.onboardingPhases)
  /-- A client has taken it out of the list, and stops it. -/
  | stopping {i j k : Nat} {added : Timestamp} {state : PluginState} (hbrings : s.Brings i P)
      (hacts : actsIn (s.feats i) ≠ []) (hroster : s.roster[k]? = some P)
      (hentry : s.host.plugins[k]? = some ⟨P.name, state, added, none⟩)
      (hstops : s.Stops j) (htaken : ∀ j' k', (k', P) ∈ s.taken j' ↔ j' = j ∧ k' = k)
      (hhistory : s.historyOf P =
        succeeded PluginCall.onboardingPhases ++ historyIn (eventsIn (s.feats j)) P)
      (hfollows : Follows [.stop] (historyIn (eventsIn (s.feats j)) P))
      (hstate : (actsIn (s.feats j)).length = 1 ∧ state = .started ∨
        (actsIn (s.feats j)).length = 2 ∧ ∃ r, state = settledAs r ∧
          historyIn (eventsIn (s.feats j)) P = [.called .stop, .returned .stop r])

/-- The list is in order. -/
structure Roll (s : Crowd PluginCall PluginOutcome) : Prop where
  placed : ∀ P, s.Placed P
  unique : ∀ {i j P P'}, s.Brings i P → s.Brings j P' → P.ref = P'.ref → i = j ∧ P = P'
  nodup : s.roster.Nodup
  length_eq : s.host.plugins.length = s.roster.length
  roster_of_taken : ∀ {j k P}, (k, P) ∈ s.taken j → s.roster[k]? = some P

/-! ### Steps that only say something -/

theorem Brings.eq {P' : Plugin} (h : s.Brings i P) (h' : s.Brings i P') : P = P' := by
  obtain ⟨ctx, task, hi⟩ := h
  obtain ⟨ctx', task', hi'⟩ := h'
  cases Option.some.inj (hi.symm.trans hi')
  rfl

/-- A plugin is where it was if nothing has happened that is about it. -/
theorem Placed.of_same (h : s.Placed P) (hbrings : ∀ i, t.Brings i P ↔ s.Brings i P)
    (hstops : ∀ j, s.Stops j → t.Stops j)
    (hroster : t.roster = s.roster) (hplugins : t.host.plugins = s.host.plugins)
    (hhistory : t.historyOf P = s.historyOf P)
    (hacts : ∀ i, actsIn (t.feats i) = actsIn (s.feats i))
    (hevents : ∀ i, historyIn (eventsIn (t.feats i)) P = historyIn (eventsIn (s.feats i)) P)
    (hadder : ∀ i, s.Brings i P → eventsIn (t.feats i) = eventsIn (s.feats i)) : t.Placed P := by
  have htaken (j : Nat) : t.taken j = s.taken j := by rw [taken_eq, taken_eq, hacts]
  cases h with
  | unknown hb hr hh =>
    exact .unknown (fun i hi ↦ hb i ((hbrings i).mp hi)) (hroster ▸ hr) (hhistory.trans hh)
  | adding hb hr ha he hf =>
    refine .adding ((hbrings _).mpr hb) (hroster ▸ hr) ((hacts _).trans ha) ?_ (hhistory ▸ hf)
    rw [hadder _ hb, he, hhistory]
  | held hb ha hr he hf hh =>
    refine .held ((hbrings _).mpr hb) (hacts _ ▸ ha) (hroster ▸ hr) (hplugins ▸ he) ?_
      (hhistory.trans hh)
    exact fun j k' ↦ htaken j ▸ hf j k'
  | @stopping i j k _ _ hb ha hr he hs ht hh hf hst =>
    refine .stopping ((hbrings _).mpr hb) (hacts _ ▸ ha) (hroster ▸ hr) (hplugins ▸ he)
      (hstops j hs) (fun j' k' ↦ htaken j' ▸ ht j' k') ?_ ?_ ?_
    · rw [hhistory, hh, hevents]
    · rw [hevents]
      exact hf
    · rw [hacts, hevents]
      exact hst

section Said

variable {e : PluginCall} {task : Task PluginOutcome} {x : Exchange}

@[simp] theorem actsIn_moved_said (i : Nat) (e : PluginCall) (x : Exchange) (h : Host)
    (task : Task PluginOutcome) (j : Nat) :
    actsIn ((s.moved i e (.said x) h task).feats j) = actsIn (s.feats j) := by
  rw [feats_moved]
  split <;> simp

@[simp] theorem roster_said (i : Nat) (e : PluginCall) (x : Exchange) (h : Host)
    (task : Task PluginOutcome) : (s.moved i e (.said x) h task).roster = s.roster := by
  rw [roster_moved]
  exact List.append_nil _

@[simp] theorem taken_said (i : Nat) (e : PluginCall) (x : Exchange) (h : Host)
    (task : Task PluginOutcome) (j : Nat) :
    (s.moved i e (.said x) h task).taken j = s.taken j := by
  rw [taken_eq, taken_eq, actsIn_moved_said]

/-- What was said is not about the plugin. -/
theorem Placed.said (hP : s.Placed P) (hi : s.clients[i]? = some ⟨e, task⟩)
    (hx : ∀ Q ev, x.phaseEvent? = some (Q, ev) → Q ≠ P ∧ ¬s.Brings i P)
    (task' : Task PluginOutcome) : (s.moved i e (.said x) s.host task').Placed P := by
  have hnothing : historyIn x.phaseEvent?.toList P = [] := by
    cases hevent : x.phaseEvent? with
    | none => rfl
    | some y => simp [historyIn_cons, (hx y.1 y.2 hevent).1]
  refine hP.of_same (fun j ↦ brings_moved hi ..) (fun j ↦ (stops_moved hi ..).mpr)
    (roster_said ..) rfl ?_
    (fun j ↦ actsIn_moved_said ..) (fun j ↦ ?_) fun j hj ↦ ?_
  · simp [historyOf_moved, hnothing]
  · rw [feats_moved]
    split <;> simp [hnothing]
  · rw [feats_moved]
    split
    · rename_i hij
      subst hij
      cases hevent : x.phaseEvent? with
      | none => simp [hevent]
      | some y => exact absurd hj (hx y.1 y.2 hevent).2
    · simp

/-- The list stays in order if every plugin is placed after something was said. -/
theorem Roll.said (hs : s.Roll) (hi : s.clients[i]? = some ⟨e, task⟩) {task' : Task PluginOutcome}
    (hplaced : ∀ P, (s.moved i e (.said x) s.host task').Placed P) :
    (s.moved i e (.said x) s.host task').Roll where
  placed := hplaced
  unique h h' := hs.unique ((brings_moved hi ..).mp h) ((brings_moved hi ..).mp h')
  nodup := by simpa using hs.nodup
  length_eq := by
    rw [roster_said]
    exact hs.length_eq
  roster_of_taken h := by
    rw [roster_said]
    exact hs.roster_of_taken (by simpa using h)

/-- A plugin that a client takes on, who has not added it, is being taken on. -/
theorem Roll.adding (hs : s.Roll) (hbrings : s.Brings i P) (hacts : actsIn (s.feats i) = []) :
    P ∉ s.roster ∧ eventsIn (s.feats i) = (s.historyOf P).map (Prod.mk P) := by
  cases hs.placed P with
  | unknown hb => exact absurd hbrings (hb i)
  | adding hb hr ha he hf =>
    obtain ⟨rfl, -⟩ := hs.unique hb hbrings rfl
    exact ⟨hr, he⟩
  | held hb ha | stopping hb ha =>
    obtain ⟨rfl, -⟩ := hs.unique hb hbrings rfl
    exact absurd hacts ha

/-- A phase of a plugin that is being taken on is called, or returns. -/
theorem Roll.said_adding (hs : s.Roll) (hi : s.clients[i]? = some ⟨e, task⟩)
    (hbrings : s.Brings i P) (hacts : actsIn (s.feats i) = []) {events : List PhaseEvent}
    {event : PhaseEvent} (hevents : eventsIn (s.feats i) = events.map (Prod.mk P))
    (hx : x.phaseEvent? = some (P, event))
    (hfollows : Follows PluginCall.onboardingPhases (events ++ [event]))
    (task' : Task PluginOutcome) : (s.moved i e (.said x) s.host task').Roll := by
  obtain ⟨hroster, hhistory⟩ := hs.adding hbrings hacts
  have heq : s.historyOf P = events := by
    simpa using congrArg (historyIn · P) (hhistory.symm.trans hevents)
  have hhistory' : (s.moved i e (.said x) s.host task').historyOf P = events ++ [event] := by
    rw [historyOf_moved, heq]
    simp [hx, historyIn_cons]
  refine hs.said hi fun P' ↦ ?_
  by_cases hPP' : P' = P
  · subst hPP'
    refine .adding ((brings_moved hi ..).mpr hbrings) (by simpa using hroster)
      ((actsIn_moved_said ..).trans hacts) ?_ (hhistory' ▸ hfollows)
    rw [hhistory', feats_moved_self, eventsIn_append, hevents]
    simp [hx]
  · refine (hs.placed P').said hi (fun Q ev hQ ↦ ?_) task'
    obtain rfl : P = Q := by simpa [hx] using congrArg (Option.map Prod.fst) hQ
    exact ⟨fun h ↦ hPP' h.symm, fun h ↦ hPP' (h.eq hbrings)⟩

/-- A plugin that was taken out of the list is asked to stop, or answers. -/
theorem Roll.said_stopping (hs : s.Roll) (hi : s.clients[j]? = some ⟨e, task⟩)
    (hnobody : ∀ P, ¬s.Brings j P) (htaken : (k, P) ∈ s.taken j)
    (hacts : (actsIn (s.feats j)).length = 1) {event : PhaseEvent}
    (hx : x.phaseEvent? = some (P, event))
    (hfollows : Follows [.stop] (historyIn (eventsIn (s.feats j)) P ++ [event]))
    (task' : Task PluginOutcome) : (s.moved j e (.said x) s.host task').Roll := by
  refine hs.said hi fun P' ↦ ?_
  by_cases hPP' : P' = P
  · subst hPP'
    cases hs.placed P' with
    | unknown _ hr | adding _ hr =>
      exact absurd (List.mem_of_getElem? (hs.roster_of_taken htaken)) hr
    | held _ _ _ _ hf => exact absurd htaken (hf j k)
    | stopping hb ha hr he hstops ht hh _ hst =>
      obtain ⟨rfl, rfl⟩ := (ht j k).mp htaken
      have hevents : historyIn (eventsIn ((s.moved j e (.said x) s.host task').feats j)) P' =
          historyIn (eventsIn (s.feats j)) P' ++ [event] := by
        simp [hx, historyIn_cons]
      refine .stopping ((brings_moved hi ..).mpr hb) (by simpa using ha) (by simpa using hr) he
        ((stops_moved hi ..).mpr hstops) (by simpa using ht) ?_ (hevents ▸ hfollows) ?_
      · rw [historyOf_moved, hh, hevents, List.append_assoc]
        simp [hx, historyIn_cons]
      · obtain ⟨hone, hstate⟩ | ⟨htwo, -⟩ := hst
        · exact .inl ⟨by simpa using hone, hstate⟩
        · omega
  · refine (hs.placed P').said hi (fun Q ev hQ ↦ ?_) task'
    obtain rfl : P = Q := by simpa [hx] using congrArg (Option.map Prod.fst) hQ
    exact ⟨fun h ↦ hPP' h.symm, hnobody P'⟩

end Said

/-! ### Steps on the list -/

section Acted

variable {e : PluginCall} {task task' : Task PluginOutcome} {h h' : Host}

theorem actsIn_moved_acted (i : Nat) (e : PluginCall) (h h' h'' : Host)
    (task : Task PluginOutcome) (j : Nat) :
    actsIn ((s.moved i e (.acted h h') h'' task).feats j) =
      actsIn (s.feats j) ++ if i = j then [(h, h')] else [] := by
  rw [feats_moved]
  split <;> simp

@[simp] theorem eventsIn_moved_acted (i : Nat) (e : PluginCall) (h h' h'' : Host)
    (task : Task PluginOutcome) (j : Nat) :
    eventsIn ((s.moved i e (.acted h h') h'' task).feats j) = eventsIn (s.feats j) := by
  rw [feats_moved]
  split <;> simp

@[simp] theorem historyOf_acted (i : Nat) (e : PluginCall) (h h' h'' : Host)
    (task : Task PluginOutcome) (P : Plugin) :
    (s.moved i e (.acted h h') h'' task).historyOf P = s.historyOf P := by
  rw [historyOf_moved]
  exact List.append_nil _

theorem taken_acted (i : Nat) (e : PluginCall) (h h' h'' : Host) (task : Task PluginOutcome)
    (j : Nat) :
    (s.moved i e (.acted h h') h'' task).taken j =
      s.taken j ++ if i = j then (Feat.acted h h').released else [] := by
  rw [taken_eq, taken_eq, actsIn_moved_acted, List.flatMap_append]
  split <;> simp

/-- Who has not acted has taken nothing. -/
theorem taken_eq_nil (hacts : actsIn (s.feats i) = []) : s.taken i = [] := by
  rw [taken_eq, hacts]
  rfl

/-- A plugin is where it was if a client acts who has nothing to do with it. -/
theorem Placed.acted (hP : s.Placed P) (hi : s.clients[i]? = some ⟨e, task⟩)
    (hbrings : ¬s.Brings i P) (hfree : ∀ k, (k, P) ∉ s.taken i)
    (hroster : ∀ Q ∈ (Feat.acted s.host h').tracked, Q ≠ P)
    (hreleased : ∀ k, (k, P) ∉ (Feat.acted s.host h').released)
    (hentries : ∀ (k : Nat) entry, s.roster[k]? = some P → s.host.plugins[k]? = some entry →
      h'.plugins[k]? = some entry) :
    (s.moved i e (.acted s.host h') h' task').Placed P := by
  have hother {j : Nat} (hj : i ≠ j) : actsIn ((s.moved i e (.acted s.host h') h' task').feats j) =
      actsIn (s.feats j) := by
    rw [actsIn_moved_acted, if_neg hj, List.append_nil]
  have hbringer {j : Nat} (hj : s.Brings j P) : i ≠ j := by
    rintro rfl
    exact hbrings hj
  have hnot (hP : P ∉ s.roster) : P ∉ (s.moved i e (.acted s.host h') h' task').roster := by
    rw [roster_moved, List.mem_append, not_or]
    exact ⟨hP, fun h ↦ hroster P h rfl⟩
  have hkeep {k : Nat} (hk : s.roster[k]? = some P) :
      (s.moved i e (.acted s.host h') h' task').roster[k]? = some P := by
    rw [roster_moved, List.getElem?_append_left (List.getElem?_eq_some_iff.mp hk).1, hk]
  have htaken (j k : Nat) : (k, P) ∈ (s.moved i e (.acted s.host h') h' task').taken j ↔
      (k, P) ∈ s.taken j := by
    rw [taken_acted]
    split <;> simp [hreleased]
  cases hP with
  | unknown hb hr hh =>
    exact .unknown (fun j hj ↦ hb j ((brings_moved hi ..).mp hj)) (hnot hr) (by simpa using hh)
  | adding hb hr ha he hf =>
    refine .adding ((brings_moved hi ..).mpr hb) (hnot hr) ?_ (by simpa using he)
      (by simpa using hf)
    rw [hother (hbringer hb), ha]
  | held hb ha hr he hf hh =>
    refine .held ((brings_moved hi ..).mpr hb) ?_ (hkeep hr) (hentries _ _ hr he)
      (fun j k ↦ (htaken j k).not.mpr (hf j k)) (by simpa using hh)
    rwa [hother (hbringer hb)]
  | @stopping i' j k _ _ hb ha hr he hs ht hh hf hst =>
    have hij : i ≠ j := by
      rintro rfl
      exact hfree k ((ht i k).mpr ⟨rfl, rfl⟩)
    refine .stopping ((brings_moved hi ..).mpr hb) ?_ (hkeep hr) (hentries _ _ hr he)
      ((stops_moved hi ..).mpr hs) (fun j' k' ↦ (htaken j' k').trans (ht j' k'))
      (by simpa using hh) (by simpa using hf) ?_
    · rwa [hother (hbringer hb)]
    · simpa [hother hij] using hst

/-- A plugin that has gone through all phases is added to the list. -/
theorem Roll.tracked (hs : s.Roll) (hi : s.clients[i]? = some ⟨e, task⟩) (hbrings : s.Brings i P)
    (hacts : actsIn (s.feats i) = [])
    (hevents : eventsIn (s.feats i) = PluginCall.passed P PluginCall.onboardingPhases) :
    (s.moved i e (.acted s.host (s.host.tracking P)) (s.host.tracking P) task').Roll := by
  obtain ⟨hroster, hhistory⟩ := hs.adding hbrings hacts
  have heq : s.historyOf P = succeeded PluginCall.onboardingPhases := by
    simpa [PluginCall.passed] using congrArg (historyIn · P) (hhistory.symm.trans hevents)
  have hroster' :
      (s.moved i e (.acted s.host (s.host.tracking P)) (s.host.tracking P) task').roster =
        s.roster ++ [P] := by
    rw [roster_moved, Feat.tracked_tracking]
  have htaken (j : Nat) :
      (s.moved i e (.acted s.host (s.host.tracking P)) (s.host.tracking P) task').taken j =
        s.taken j := by
    rw [taken_acted, Feat.released_tracking]
    simp
  refine ⟨fun Q ↦ ?_, fun h h' ↦ hs.unique ((brings_moved hi ..).mp h) ((brings_moved hi ..).mp h'),
    ?_, ?_, fun {j k Q} h ↦ ?_⟩
  · by_cases hQP : Q = P
    · subst hQP
      have hentry : (s.host.tracking Q).plugins[s.roster.length]? =
          some ⟨Q.name, .started, s.host.now, some Q⟩ := by
        rw [Host.tracking, ← hs.length_eq, List.getElem?_concat_length]
      refine .held ((brings_moved hi ..).mpr hbrings) (by simp) ?_ hentry (fun j k' hmem ↦ ?_) ?_
      · rw [hroster', List.getElem?_concat_length]
      · rw [htaken] at hmem
        exact hroster (List.mem_of_getElem? (hs.roster_of_taken hmem))
      · rw [historyOf_acted, heq]
    · refine (hs.placed Q).acted hi (fun h ↦ hQP (h.eq hbrings)) (by simp [taken_eq_nil hacts]) ?_
        (by simp [Feat.released_tracking]) fun k entry _ hk ↦ ?_
      · rw [Feat.tracked_tracking]
        intro Q' hQ'
        rw [List.mem_singleton.mp hQ']
        exact Ne.symm hQP
      · change (s.host.plugins ++ _)[k]? = _
        rw [List.getElem?_append_left (List.getElem?_eq_some_iff.mp hk).1, hk]
  · rw [hroster']
    exact List.Nodup.append hs.nodup (List.nodup_singleton _)
      (List.disjoint_singleton.mpr hroster)
  · rw [hroster', List.length_append, ← hs.length_eq]
    exact List.length_append
  · have hQ := hs.roster_of_taken (htaken j ▸ h)
    rw [hroster', List.getElem?_append_left (List.getElem?_eq_some_iff.mp hQ).1, hQ]

/-- A plugin is at one place of the list only. -/
theorem Roll.place_eq (hs : s.Roll) {k' : Nat} (hk : s.roster[k]? = some P)
    (hk' : s.roster[k']? = some P) : k = k' :=
  (List.getElem?_inj (List.getElem?_eq_some_iff.mp hk).1 hs.nodup).mp (hk.trans hk'.symm)

/-- Nobody takes a plugin twice. -/
theorem Roll.distinct (hs : s.Roll) {plugins : List PluginEntry}
    (htaken : s.taken j = Host.held plugins) : ((Host.held plugins).map Prod.snd).Nodup := by
  refine List.Nodup.map_on (fun x hx y hy hxy ↦ Prod.ext ?_ hxy)
    ((Host.held_pairwise _).imp fun h hxy ↦ Nat.ne_of_gt h (congrArg Prod.fst hxy))
  rw [← htaken] at hx hy
  exact hs.place_eq (hs.roster_of_taken hx) (hxy ▸ hs.roster_of_taken hy)

/-- A plugin that is in the list has been taken by nobody. -/
theorem Roll.of_held (hs : s.Roll) (hheld : (k, P) ∈ Host.held s.host.plugins) :
    s.roster[k]? = some P ∧ ∀ j k', (k', P) ∉ s.taken j := by
  obtain ⟨entry, hentry, hplugin⟩ := Host.mem_held.mp hheld
  have hlt : k < s.roster.length := hs.length_eq ▸ (List.getElem?_eq_some_iff.mp hentry).1
  obtain ⟨Q, hQ⟩ : ∃ Q, s.roster[k]? = some Q := ⟨_, List.getElem?_eq_getElem hlt⟩
  cases hs.placed Q with
  | unknown _ hr | adding _ hr => exact absurd (List.mem_of_getElem? hQ) hr
  | held hb ha hr he hf =>
    obtain rfl := hs.place_eq hQ hr
    cases Option.some.inj (hentry.symm.trans he)
    cases hplugin
    exact ⟨hQ, hf⟩
  | stopping hb ha hr he =>
    obtain rfl := hs.place_eq hQ hr
    cases Option.some.inj (hentry.symm.trans he)
    cases hplugin

/-- A client takes all plugins out of the list. -/
theorem Roll.released (hs : s.Roll) (hi : s.clients[j]? = some ⟨e, task⟩) (hstops : s.Stops j)
    (hnobody : ∀ P, ¬s.Brings j P) (hfeats : s.feats j = []) :
    (s.moved j e (.acted s.host s.host.releasing) s.host.releasing task').Roll := by
  have hlength : s.host.releasing.plugins.length = s.host.plugins.length := List.length_map _
  have hnothing : s.taken j = [] := taken_eq_nil (by rw [hfeats]; rfl)
  have hroster :
      (s.moved j e (.acted s.host s.host.releasing) s.host.releasing task').roster = s.roster := by
    rw [roster_moved, Feat.tracked_of_length_eq hlength, List.append_nil]
  have htaken (j' : Nat) :
      (s.moved j e (.acted s.host s.host.releasing) s.host.releasing task').taken j' =
        s.taken j' ++ if j = j' then Host.held s.host.plugins else [] := by
    rw [taken_acted, Feat.released_releasing]
  have hentry {k : Nat} {entry : PluginEntry} (hk : s.host.plugins[k]? = some entry) :
      s.host.releasing.plugins[k]? = some { entry with plugin := none } := by
    rw [Host.releasing, List.getElem?_map, hk]
    rfl
  refine ⟨fun P ↦ ?_, fun h h' ↦ hs.unique ((brings_moved hi ..).mp h) ((brings_moved hi ..).mp h'),
    hroster ▸ hs.nodup, ?_, fun {j' k P} h ↦ ?_⟩
  · by_cases hheld : ∃ k, (k, P) ∈ Host.held s.host.plugins
    · obtain ⟨k, hheld⟩ := hheld
      obtain ⟨hr', hf'⟩ := hs.of_held hheld
      cases hs.placed P with
      | unknown _ hr | adding _ hr => exact absurd (List.mem_of_getElem? hr') hr
      | stopping _ _ _ _ _ ht => exact absurd ((ht _ _).mpr ⟨rfl, rfl⟩) (hf' _ _)
      | held hb ha hr he hf hh =>
        obtain rfl := hs.place_eq hr' hr
        have hevents : historyIn (eventsIn
            ((s.moved j e (.acted s.host s.host.releasing) s.host.releasing task').feats j)) P =
            [] := by
          simp [hfeats]
        refine .stopping ((brings_moved hi ..).mpr hb) ?_ (hroster ▸ hr) (hentry he)
          ((stops_moved hi ..).mpr hstops) (fun j' k' ↦ ?_) ?_ (hevents ▸ .nil _)
          (.inl ⟨by simp [hfeats], rfl⟩)
        · rw [actsIn_moved_acted]
          simp [ha]
        · rw [htaken]
          constructor
          · intro hmem
            obtain hmem | hmem := List.mem_append.mp hmem
            · exact absurd hmem (hf j' k')
            · split at hmem
              · rename_i hjj'
                exact ⟨hjj'.symm, (hs.place_eq hr (hs.of_held hmem).1).symm⟩
              · cases hmem
          · rintro ⟨rfl, rfl⟩
            simp [hheld]
        · rw [hevents, historyOf_acted, hh, List.append_nil]
    · refine (hs.placed P).acted hi (hnobody P) (by simp [hnothing]) ?_ (fun k h ↦ ?_)
        fun k entry hr hk ↦ ?_
      · simp [Feat.tracked_of_length_eq hlength]
      · exact hheld ⟨k, Feat.released_releasing _ ▸ h⟩
      · cases hplugin : entry.plugin with
        | none =>
          rw [hentry hk, ← hplugin]
        | some Q =>
          have hmem : (k, Q) ∈ Host.held s.host.plugins := Host.mem_held.mpr ⟨entry, hk, hplugin⟩
          obtain rfl : Q = P := Option.some.inj ((hs.of_held hmem).1.symm.trans hr)
          exact absurd ⟨k, hmem⟩ hheld
  · rw [hroster, ← hs.length_eq]
    exact hlength
  · rw [hroster]
    rw [htaken] at h
    obtain h | h := List.mem_append.mp h
    · exact hs.roster_of_taken h
    · split at h
      · exact (hs.of_held h).1
      · cases h

/-- Who has only taken the plugins has taken those that were there. -/
theorem taken_of_acts {h₀ : Host} (hacts : actsIn (s.feats j) = [(h₀, h₀.releasing)]) :
    s.taken j = Host.held h₀.plugins := by
  rw [taken_eq, hacts]
  simp [Feat.released_releasing]

/-- A client writes down what has become of the plugins it has taken. -/
theorem Roll.settled (hs : s.Roll) (hi : s.clients[j]? = some ⟨e, task⟩)
    (hnobody : ∀ P, ¬s.Brings j P) {h₀ : Host} {stops : List (Plugin × Except Error Unit)}
    (hacts : actsIn (s.feats j) = [(h₀, h₀.releasing)])
    (hevents : eventsIn (s.feats j) = PluginCall.stopped stops)
    (hstops : (Host.held h₀.plugins).map Prod.snd = stops.map Prod.fst)
    (hh' : h' = { s.host with
      plugins := Host.settle (outcomes (Host.held h₀.plugins) stops) s.host.plugins }) :
    (s.moved j e (.acted s.host h') h' task').Roll := by
  have hplugins : h'.plugins =
      Host.settle (outcomes (Host.held h₀.plugins) stops) s.host.plugins := by rw [hh']
  have hlength : h'.plugins.length = s.host.plugins.length := by
    rw [hplugins, Host.length_settle]
  have htaken := taken_of_acts hacts
  have hreleased : (Feat.acted s.host h').released = [] :=
    Feat.released_of_subset fun x hx ↦ hplugins ▸ Host.mem_held_settle.mpr hx
  have htaken' (j' : Nat) : (s.moved j e (.acted s.host h') h' task').taken j' = s.taken j' := by
    rw [taken_acted, hreleased]
    simp
  have hroster : (s.moved j e (.acted s.host h') h' task').roster = s.roster := by
    rw [roster_moved, Feat.tracked_of_length_eq hlength, List.append_nil]
  have hplaces : ((outcomes (Host.held h₀.plugins) stops).map Prod.fst).Nodup := by
    rw [outcomes_map_fst hstops, List.nodup_iff_pairwise_ne, List.pairwise_map]
    exact (Host.held_pairwise _).imp fun h ↦ Nat.ne_of_gt h
  have hdistinct : (stops.map Prod.fst).Nodup := hstops ▸ hs.distinct htaken
  refine ⟨fun P ↦ ?_, fun h h' ↦ hs.unique ((brings_moved hi ..).mp h) ((brings_moved hi ..).mp h'),
    hroster ▸ hs.nodup, ?_, fun {j' k P} h ↦ ?_⟩
  · by_cases hP : ∃ k, (k, P) ∈ s.taken j
    · obtain ⟨k, hP⟩ := hP
      obtain ⟨r, hr, houtcome⟩ := exists_outcome hstops (htaken ▸ hP)
      have hhistory : historyIn (eventsIn (s.feats j)) P = [.called .stop, .returned .stop r] := by
        rw [hevents]
        exact PluginCall.historyIn_stopped_of_mem hdistinct hr
      cases hs.placed P with
      | unknown _ hr | adding _ hr => exact absurd (List.mem_of_getElem? (hs.roster_of_taken hP)) hr
      | held _ _ _ _ hf => exact absurd hP (hf j k)
      | @stopping _ _ _ added _ hb ha hr he hs ht hh hf =>
        obtain ⟨rfl, rfl⟩ := (ht j k).mp hP
        have hentry : h'.plugins[k]? = some ⟨P.name, settledAs r, added, none⟩ := by
          rw [hplugins, Host.getElem?_settle_of_mem hplaces houtcome, he]
          rfl
        refine .stopping ((brings_moved hi ..).mpr hb) ?_ (hroster ▸ hr) hentry
          ((stops_moved hi ..).mpr hs) (fun j' k' ↦ htaken' j' ▸ ht j' k') (by simpa using hh)
          (by simpa using hf) (.inr ?_)
        · rw [actsIn_moved_acted]
          simp [ha]
        · exact ⟨by simp [hacts], r, rfl, by simpa using hhistory⟩
    · refine (hs.placed P).acted hi (hnobody P) (fun k h ↦ hP ⟨k, h⟩) ?_ (by simp [hreleased])
        fun k entry hr hk ↦ ?_
      · simp [Feat.tracked_of_length_eq hlength]
      · rw [hplugins, Host.getElem?_settle_of_notMem, hk]
        rw [outcomes_map_fst hstops, ← htaken]
        intro hmem
        obtain ⟨⟨k', Q⟩, hQ, rfl⟩ := List.mem_map.mp hmem
        obtain rfl : Q = P := Option.some.inj ((hs.roster_of_taken hQ).symm.trans hr)
        exact hP ⟨_, hQ⟩
  · rw [hroster, ← hs.length_eq]
    exact hlength
  · rw [hroster]
    exact hs.roster_of_taken (htaken' j' ▸ h)

end Acted

/-! ### Runs -/

theorem brings_joined {e : PluginCall} : (s.joined e).Brings i P ↔
    s.Brings i P ∨ i = s.clients.length ∧ ∃ ctx, e = .add ctx P := by
  unfold Brings joined
  constructor
  · rintro ⟨ctx, task, hi⟩
    obtain hlt | hle := Nat.lt_or_ge i s.clients.length
    · rw [List.getElem?_append_left hlt] at hi
      exact .inl ⟨ctx, task, hi⟩
    · rw [List.getElem?_append_right hle] at hi
      obtain ⟨hlt, heq⟩ := List.getElem?_eq_some_iff.mp hi
      obtain hzero : i - s.clients.length = 0 := by simpa using hlt
      simp only [hzero, List.getElem_cons_zero] at heq
      cases heq
      exact .inr ⟨by omega, ctx, rfl⟩
  · rintro (⟨ctx, task, hi⟩ | ⟨rfl, ctx, rfl⟩)
    · exact ⟨ctx, task, by rw [List.getElem?_append_left (List.getElem?_eq_some_iff.mp hi).1, hi]⟩
    · exact ⟨ctx, _, List.getElem?_concat_length⟩

/-- A new client comes, who brings a new plugin if any. -/
theorem Roll.joined (hs : s.Roll) {e : PluginCall} (hnew : s.feats s.clients.length = [])
    (hfresh : s.Fresh (.arrive e)) : (s.joined e).Roll := by
  have hfresh {ctx : ContextRef} {P P' : Plugin} {i : Nat} (he : e = .add ctx P)
      (hi : s.Brings i P') : P'.ref ≠ P.ref := by
    obtain ⟨ctx', task, hi⟩ := hi
    subst he
    exact fun href ↦ hfresh _ (List.mem_of_getElem? hi) (congrArg some href)
  refine ⟨fun P ↦ ?_, fun {i j P P'} hP hP' href ↦ ?_, hs.nodup, hs.length_eq, hs.roster_of_taken⟩
  · by_cases he : ∃ ctx, e = .add ctx P
    · obtain ⟨ctx, rfl⟩ := he
      have hnobody (i : Nat) : ¬s.Brings i P := fun hi ↦ hfresh rfl hi rfl
      cases hs.placed P with
      | adding hb | held hb | stopping hb => exact absurd hb (hnobody _)
      | unknown _ hr hh =>
        have hfeats : (s.joined (.add ctx P)).feats s.clients.length = [] := hnew
        have hhistory : (s.joined (.add ctx P)).historyOf P = [] := hh
        refine .adding (brings_joined.mpr (.inr ⟨rfl, ctx, rfl⟩)) hr ?_ ?_ (hhistory ▸ .nil _)
        · rw [hfeats]
          rfl
        · rw [hfeats, hhistory]
          rfl
    · refine (hs.placed P).of_same (fun i ↦ ?_) (fun j ⟨ctx, task, hj⟩ ↦ ⟨ctx, task, ?_⟩)
        rfl rfl rfl (fun _ ↦ rfl) (fun _ ↦ rfl) fun _ _ ↦ rfl
      · rw [brings_joined]
        exact or_iff_left fun h ↦ he h.2
      · exact (List.getElem?_append_left (List.getElem?_eq_some_iff.mp hj).1).trans hj
  · obtain hP | ⟨hi, ctx, hP⟩ := brings_joined.mp hP
    · obtain hP' | ⟨-, ctx', hP'⟩ := brings_joined.mp hP'
      · exact hs.unique hP hP' href
      · exact absurd href (hfresh hP' hP)
    · obtain hP' | ⟨hj, ctx', hP'⟩ := brings_joined.mp hP'
      · exact absurd href.symm (hfresh hP hP')
      · cases hP.symm.trans hP'
        exact ⟨hi.trans hj.symm, rfl⟩

section Later

variable {A : Crowd PluginCall PluginOutcome → Move PluginCall → Prop} {h : Host}
  {ctx : ContextRef} {task : Task PluginOutcome}

theorem Later.stands_add (hlater : Later A { host := h } s)
    (hi : s.clients[i]? = some ⟨.add ctx P, task⟩) :
    s.Stands (PluginCall.addManner P) (fun log _ _ ↦
      eventsIn log = PluginCall.passed P PluginCall.onboardingPhases → actsIn log ≠ []) i task :=
  hlater.stands (nobodyElse_start h) rfl (fun _ ↦ PluginCall.add_abides) (fun _ _ _ _ ↦ trivial) _
    hi rfl

theorem Later.stands_stopAll (hlater : Later A { host := h } s)
    (hi : s.clients[i]? = some ⟨.stopAll ctx, task⟩) :
    s.Stands PluginCall.stopManner (fun log _ _ ↦ (actsIn log).length = 2) i task :=
  hlater.stands (nobodyElse_start h) rfl (fun _ ↦ PluginCall.stopAll_abides) (fun _ _ _ _ ↦ trivial)
    _ hi rfl

theorem not_brings_of_stopAll (hi : s.clients[i]? = some ⟨.stopAll ctx, task⟩) (P : Plugin) :
    ¬s.Brings i P := by
  rintro ⟨ctx', task', hi'⟩
  cases hi.symm.trans hi'

/-- Only plugins are told and tell anything of plugins. -/
theorem Roll.said_nothing (hs : s.Roll) {e : PluginCall} {x : Exchange}
    (hi : s.clients[i]? = some ⟨e, task⟩) (hx : x.phaseEvent? = none) (task' : Task PluginOutcome) :
    (s.moved i e (.said x) s.host task').Roll :=
  hs.said hi fun P ↦ (hs.placed P).said hi (by simp [hx]) task'

/-- The plugin whose turn it is to be stopped is one that was taken, and has not been asked. -/
theorem Roll.asks (hs : s.Roll) {plugins : List PluginEntry}
    {stops : List (Plugin × Except Error Unit)} {rest : List Plugin}
    (htaken : s.taken j = Host.held plugins)
    (hplugins : (Host.held plugins).map Prod.snd = stops.map Prod.fst ++ P :: rest) :
    (∃ k, (k, P) ∈ s.taken j) ∧ historyIn (PluginCall.stopped stops) P = [] := by
  constructor
  · have hmem : P ∈ (Host.held plugins).map Prod.snd := by simp [hplugins]
    obtain ⟨⟨k, P'⟩, hk, rfl⟩ := List.mem_map.mp hmem
    exact ⟨k, htaken ▸ hk⟩
  · have hdistinct := hs.distinct htaken
    rw [hplugins] at hdistinct
    refine PluginCall.historyIn_stopped_of_notMem fun hmem ↦ ?_
    exact List.disjoint_of_nodup_append hdistinct hmem List.mem_cons_self

/-- A client makes a call. -/
theorem Later.roll_asked (hlater : Later A { host := h } s) (hs : s.Roll) {e : PluginCall}
    {c : Call} {k : c.Reply → Prog Host PluginOutcome}
    (hi : s.clients[i]? = some ⟨e, .going (.call c k)⟩) :
    (s.moved i e (.said (.asked c)) s.host (.asking c k)).Roll := by
  cases e with
  | add ctx P =>
    obtain hquiet | ⟨hacts, before, phase, after, ctx', rfl, hphases, hevents⟩ :=
      (hlater.stands_add hi).call
    · exact hs.said_nothing hi (Call.phaseEvent?_eq_none hquiet).1 _
    · refine hs.said_adding hi ⟨ctx, _, hi⟩ hacts hevents rfl ?_ _
      rw [hphases]
      exact (follows_called phase after).after_succeeded before
  | stopAll ctx =>
    obtain ⟨h₀, hacts, hquiet | ⟨stops, P, rest, ctx', rfl, hevents, hplugins⟩⟩ :=
      (hlater.stands_stopAll hi).call
    · exact hs.said_nothing hi (Call.phaseEvent?_eq_none hquiet).1 _
    · obtain ⟨⟨k, hk⟩, hnothing⟩ := hs.asks (taken_of_acts hacts) hplugins
      refine hs.said_stopping hi (not_brings_of_stopAll hi) hk (by rw [hacts]; rfl) rfl ?_ _
      rw [hevents, hnothing]
      exact follows_called .stop []

/-- A client is given the answer to its call. -/
theorem Later.roll_answered (hlater : Later A { host := h } s) (hs : s.Roll) {e : PluginCall}
    {c : Call} {k : c.Reply → Prog Host PluginOutcome} (hi : s.clients[i]? = some ⟨e, .asking c k⟩)
    (r : c.Reply) : (s.moved i e (.said (.answered c r)) s.host (.going (k r))).Roll := by
  cases e with
  | add ctx P =>
    obtain - | ⟨-, hlog, hquiet | ⟨hacts, before, phase, after, ctx', rfl, hphases, hevents⟩, -⟩ :=
      hlater.stands_add hi
    · exact hs.said_nothing hi ((Call.phaseEvent?_eq_none hquiet).2 r) _
    · have hevents' : eventsIn (s.feats i) =
          (succeeded before ++ [PhaseEvent.called phase]).map (Prod.mk P) := by
        rw [hlog, eventsIn_append, hevents, List.map_append]
        rfl
      refine hs.said_adding hi ⟨ctx, _, hi⟩ (by simpa [hlog] using hacts) hevents' rfl ?_ _
      rw [hphases, List.append_assoc]
      exact (follows_returned phase after r).after_succeeded before
  | stopAll ctx =>
    obtain - | ⟨-, hlog, ⟨h₀, hacts, hquiet | ⟨stops, P, rest, ctx', rfl, hevents, hplugins⟩⟩, -⟩ :=
      hlater.stands_stopAll hi
    · exact hs.said_nothing hi ((Call.phaseEvent?_eq_none hquiet).2 r) _
    · have hacts' : actsIn (s.feats i) = [(h₀, h₀.releasing)] := by simpa [hlog] using hacts
      obtain ⟨⟨k, hk⟩, hnothing⟩ := hs.asks (taken_of_acts hacts') hplugins
      refine hs.said_stopping hi (not_brings_of_stopAll hi) hk (by rw [hacts']; rfl) rfl ?_ _
      have hcalled : historyIn (eventsIn (s.feats i)) P = [.called .stop] := by
        rw [hlog, eventsIn_append, hevents, historyIn_append, hnothing]
        simp [Exchange.phaseEvent?, historyIn_cons]
      rw [hcalled]
      exact follows_returned .stop [] r

/-- A client does something with the list. -/
theorem Later.roll_acted (hlater : Later A { host := h } s) (hs : s.Roll) {e : PluginCall}
    {x rest : Prog Host PluginOutcome} {h' : Host} (hi : s.clients[i]? = some ⟨e, .going x⟩)
    (hx : x.next? s.host = some (h', rest)) :
    (s.moved i e (.acted s.host h') h' (.going rest)).Roll := by
  cases e with
  | add ctx P =>
    obtain ⟨hacts, hevents, rfl⟩ := (hlater.stands_add hi).act hx
    exact hs.tracked hi ⟨ctx, _, hi⟩ hacts hevents
  | stopAll ctx =>
    obtain ⟨hfeats, rfl⟩ | ⟨h₀, stops, hacts, hevents, hstops, hh'⟩ :=
      (hlater.stands_stopAll hi).act hx
    · exact hs.released hi ⟨ctx, _, hi⟩ (not_brings_of_stopAll hi) hfeats
    · exact hs.settled hi (not_brings_of_stopAll hi) hacts hevents hstops hh'

/-- The list is in order throughout every run. -/
theorem Later.roll (hlater : Later Fresh { host := h } s) (hempty : h.plugins = []) : s.Roll := by
  induction hlater with
  | refl =>
    refine ⟨fun P ↦ .unknown ?_ (by simp [roster]) rfl, ?_, by simp [roster], ?_, ?_⟩
    · rintro i ⟨ctx, task, hi⟩
      cases hi
    · rintro i j P P' ⟨ctx, task, hi⟩
      cases hi
    · rw [hempty]
      rfl
    · intro j k P hmem
      cases hmem
  | @tail u v hlater hnext ih =>
    obtain ⟨m, hfresh, hstep⟩ := hnext
    cases happens_of_step hstep with
    | @arrived e =>
      have habsent : u.clients[u.clients.length]? = none := List.getElem?_eq_none (Nat.le_refl _)
      exact ih.joined (Later.nobodyElse hlater (nobodyElse_start h) _ habsent) hfresh
    | changed =>
      refine ⟨fun P ↦ ?_, ih.unique, ih.nodup, ih.length_eq, ih.roster_of_taken⟩
      exact (ih.placed P).of_same (fun _ ↦ Iff.rfl) (fun _ ↦ id) rfl rfl rfl (fun _ ↦ rfl)
        (fun _ ↦ rfl) fun _ _ ↦ rfl
    | acted hi hx => exact Later.roll_acted hlater ih hi hx
    | asked hi => exact Later.roll_asked hlater ih hi
    | answered hi => exact Later.roll_answered hlater ih hi _

/-- Who has written down what became of the plugins has nothing more to do. -/
theorem Later.finished_of_acts (hlater : Later A { host := h } s) (hj : s.Stops j)
    (hacts : (actsIn (s.feats j)).length = 2) :
    ∃ ctx o, s.finished? j = some (.stopAll ctx, o) := by
  obtain ⟨ctx, task, hj⟩ := hj
  have hstands := hlater.stands_stopAll hj
  cases hstands with
  | asking _ hlog hcall =>
    obtain ⟨h₀, hone, -⟩ := hcall
    rw [hlog, actsIn_append, hone] at hacts
    cases hacts
  | @going _ x _ hx =>
    cases x with
    | done o => exact ⟨ctx, o, finished?_eq_some hj⟩
    | act f k =>
      obtain ⟨hnone, -⟩ | ⟨h₀, stops, hone, -⟩ := (hx s.host trivial).1
      · rw [hnone] at hacts
        cases hacts
      · rw [hone] at hacts
        cases hacts
    | await claim k => exact hx.1.elim
    | call c k =>
      obtain ⟨h₀, hone, -⟩ := hx.1
      rw [hone] at hacts
      cases hacts

/-- Where every client waits or is finished, a plugin that has gone through all phases is in the
list. -/
theorem Later.mem_roster_of_succeeded (hlater : Later Fresh { host := h } s)
    (hempty : h.plugins = []) (hquiet : s.Quiet)
    (hP : succeeded PluginCall.onboardingPhases <+: s.historyOf P) : P ∈ s.roster := by
  cases (hlater.roll hempty).placed P with
  | held _ _ hr | stopping _ _ hr => exact List.mem_of_getElem? hr
  | unknown _ _ hh =>
    rw [hh] at hP
    cases List.prefix_nil.mp hP
  | adding hb _ ha he hf =>
    obtain ⟨ctx, task, hi⟩ := hb
    rw [hf.eq_succeeded hP] at he
    have hwaits := hquiet _ (List.mem_of_getElem? hi)
    have hstands := hlater.stands_add hi
    cases hstands with
    | asking _ hlog hcall =>
      obtain hsuspends | ⟨-, before, phase, after, ctx', rfl, -, hbefore⟩ := hcall
      · exact absurd hwaits (by simp [Task.waits, hsuspends])
      · rw [hlog, eventsIn_append, hbefore] at he
        have hlength := congrArg List.length he
        simp [PluginCall.passed, length_succeeded, Exchange.phaseEvent?] at hlength
        omega
    | @going _ x _ hx =>
      cases x with
      | done o => exact absurd ha (hx he)
      | act f k => cases hwaits
      | await claim k => exact hx.1.elim
      | call c k => cases hwaits

/-- What a plugin that a finished client has taken is listed with. -/
theorem Later.state_of_taken (hlater : Later Fresh { host := h } s) (hempty : h.plugins = [])
    {y : PluginCall × PluginOutcome} (hj : s.finished? j = some y) (hP : (k, P) ∈ s.taken j) :
    ∃ r added, historyIn (eventsIn (s.feats j)) P = [.called .stop, .returned .stop r] ∧
      .returned .stop r ∈ s.historyOf P ∧
      s.host.plugins[k]? = some ⟨P.name, settledAs r, added, none⟩ := by
  have hs := hlater.roll hempty
  cases hs.placed P with
  | unknown _ hr | adding _ hr => exact absurd (List.mem_of_getElem? (hs.roster_of_taken hP)) hr
  | held _ _ _ _ hf => exact absurd hP (hf j k)
  | @stopping _ _ _ added _ _ _ _ he hstops ht hh _ hst =>
    obtain ⟨rfl, rfl⟩ := (ht j k).mp hP
    obtain ⟨ctx, task, hclient⟩ := hstops
    obtain ⟨e, o⟩ := y
    cases hclient.symm.trans (getElem?_of_finished? hj)
    obtain ⟨-, -, htwo⟩ := (hlater.stands_stopAll hclient).done
    obtain ⟨hone, -⟩ | ⟨-, r, rfl, hevents⟩ := hst
    · omega
    · refine ⟨r, added, hevents, ?_, he⟩
      rw [hh, hevents]
      simp

/-- A plugin that no finished client has taken is listed as started. -/
theorem Later.state_of_not_taken (hlater : Later Fresh { host := h } s) (hempty : h.plugins = [])
    (hP : s.roster[k]? = some P)
    (hfree : ∀ j y, s.finished? j = some y → (k, P) ∉ s.taken j) :
    ∃ added plugin, s.host.plugins[k]? = some ⟨P.name, .started, added, plugin⟩ := by
  have hs := hlater.roll hempty
  cases hs.placed P with
  | unknown _ hr | adding _ hr => exact absurd (List.mem_of_getElem? hP) hr
  | held _ _ hr he =>
    obtain rfl := hs.place_eq hP hr
    exact ⟨_, _, he⟩
  | @stopping _ j _ added _ _ _ hr he hstops ht _ _ hst =>
    obtain rfl := hs.place_eq hP hr
    obtain ⟨-, rfl⟩ | ⟨htwo, -⟩ := hst
    · exact ⟨_, _, he⟩
    · obtain ⟨ctx, o, hj⟩ := hlater.finished_of_acts hstops htwo
      exact absurd ((ht j k).mpr ⟨rfl, rfl⟩) (hfree j _ hj)

/-- What is written down of a plugin stays so. -/
theorem Later.permanent (hs : Later Fresh { host := h } s) (hempty : h.plugins = [])
    (hlater : Later Fresh s t) {state : PluginState}
    (hstate : s.listing[k]?.map (·.state) = some state) (hne : state ≠ .started) :
    t.listing[k]?.map (·.state) = some state := by
  have hlt : k < s.roster.length := by
    rw [← (hs.roll hempty).length_eq]
    by_contra hge
    rw [listing, List.getElem?_map, List.getElem?_eq_none (Nat.not_lt.mp hge)] at hstate
    cases hstate
  obtain ⟨P, hP⟩ : ∃ P, s.roster[k]? = some P := ⟨_, List.getElem?_eq_getElem hlt⟩
  by_cases htaken : ∃ j y, s.finished? j = some y ∧ (k, P) ∈ s.taken j
  · obtain ⟨j, y, hj, hmem⟩ := htaken
    obtain ⟨hj', hfeats⟩ := hlater.finished? hj
    have hmem' : (k, P) ∈ t.taken j := by rwa [taken, hfeats]
    obtain ⟨r, added, hevents, -, hentry⟩ := hs.state_of_taken hempty hj hmem
    obtain ⟨r', added', hevents', -, hentry'⟩ := (hs.trans hlater).state_of_taken hempty hj' hmem'
    rw [hfeats, hevents] at hevents'
    obtain rfl : r = r' := by simpa using hevents'
    rw [listing, List.getElem?_map, hentry] at hstate
    rw [listing, List.getElem?_map, hentry']
    exact hstate
  · obtain ⟨added, plugin, hentry⟩ := hs.state_of_not_taken hempty hP
      fun j y hj hmem ↦ htaken ⟨j, y, hj, hmem⟩
    rw [listing, List.getElem?_map, hentry] at hstate
    exact absurd (Option.some.inj hstate).symm hne

end Later

theorem Later.roster_grows {A : Crowd PluginCall PluginOutcome → Move PluginCall → Prop}
    (hlater : Later A s t) : s.roster <+: t.roster := by
  obtain ⟨xs, hxs⟩ := hlater.exists_past
  rw [roster, roster, hxs, List.reverse_append, List.flatMap_append]
  exact List.prefix_append ..

/-- Who is in the list was brought by somebody, and is listed under his name. -/
theorem Placed.of_roster (hP : s.Placed P) (hmem : P ∈ s.roster) :
    ∃ (i k : Nat) (entry : PluginEntry), s.Brings i P ∧ s.roster[k]? = some P ∧
      s.host.plugins[k]? = some entry ∧ entry.name = P.name := by
  cases hP with
  | unknown _ hr | adding _ hr => exact absurd hmem hr
  | held hb _ hr he | stopping hb _ hr he => exact ⟨_, _, _, hb, hr, he, rfl⟩

theorem Roll.names_eq (hs : s.Roll) : s.listing.map (·.name) = s.roster.map (·.name) := by
  refine List.ext_getElem? fun k ↦ ?_
  rw [listing, List.map_map, List.getElem?_map, List.getElem?_map]
  cases hP : s.roster[k]? with
  | none =>
    have hle := List.getElem?_eq_none_iff.mp hP
    rw [← hs.length_eq] at hle
    rw [List.getElem?_eq_none hle]
    rfl
  | some P =>
    obtain ⟨-, k', entry, -, hk', hentry, hname⟩ :=
      (hs.placed P).of_roster (List.mem_of_getElem? hP)
    obtain rfl := hs.place_eq hP hk'
    rw [hentry]
    exact congrArg some hname

theorem Roll.refs_nodup (hs : s.Roll) : (s.roster.map (·.ref)).Nodup := by
  refine List.Nodup.map_on (fun P hP P' hP' href ↦ ?_) hs.nodup
  obtain ⟨i, -, -, hi, -⟩ := (hs.placed P).of_roster hP
  obtain ⟨j, -, -, hj, -⟩ := (hs.placed P').of_roster hP'
  exact (hs.unique hi hj href).2

theorem Placed.follows (hP : s.Placed P) :
    Follows [.setUp, .registerResources, .start, .stop] (s.historyOf P) := by
  cases hP with
  | unknown _ _ hh => exact hh ▸ .nil _
  | adding _ _ _ _ hf => exact hf.append [.stop]
  | held _ _ _ _ _ hh =>
    rw [hh, ← List.append_nil (ComponentHost.succeeded _)]
    exact (Follows.nil [.stop]).after_succeeded PluginCall.onboardingPhases
  | stopping _ _ _ _ _ _ hh hf =>
    rw [hh]
    exact hf.after_succeeded PluginCall.onboardingPhases

theorem Placed.succeeded (hP : s.Placed P) (hmem : P ∈ s.roster) :
    ComponentHost.succeeded PluginCall.onboardingPhases <+: s.historyOf P := by
  cases hP with
  | unknown _ hr | adding _ hr => exact absurd hmem hr
  | held _ _ _ _ _ hh => exact hh ▸ List.prefix_refl _
  | stopping _ _ _ _ _ _ hh => exact hh ▸ List.prefix_append ..

/-- The list of plugins of `s`, a state of a run, and of any later state `t`. -/
structure Tracked (s t : Crowd PluginCall PluginOutcome) : Prop where
  /-- The list grows at its end only, and no name in it changes. -/
  names_grow : s.listing.map (·.name) <+: t.listing.map (·.name)
  roster_grows : s.roster <+: t.roster
  names_eq : t.listing.map (·.name) = t.roster.map (·.name)
  refs_nodup : (t.roster.map (·.ref)).Nodup
  /-- No phase of any plugin is called twice, or before the one before it has succeeded, or after a
  failure. -/
  in_order : ∀ P, Follows [.setUp, .registerResources, .start, .stop] (t.historyOf P)
  /-- Who is tracked has gone through all phases before. -/
  onboarded : ∀ P ∈ t.roster, succeeded [.setUp, .registerResources, .start] <+: t.historyOf P
  /-- Who has gone through all phases is tracked, once nobody is about to move on. -/
  tracked : t.Quiet → ∀ P, succeeded [.setUp, .registerResources, .start] <+: t.historyOf P →
    P ∈ t.roster
  /-- A plugin is listed as started until the client that has taken it is finished. -/
  started : ∀ k P, t.roster[k]? = some P → (∀ j y, t.finished? j = some y → (k, P) ∉ t.taken j) →
    t.listing[k]?.map (·.state) = some .started
  /-- From then on it is listed as its own answer to its stop says. -/
  settled : ∀ j y k P, t.finished? j = some y → (k, P) ∈ t.taken j → t.roster[k]? = some P ∧
    ∃ r, .returned .stop r ∈ t.historyOf P ∧ t.listing[k]?.map (·.state) = some (settledAs r)
  /-- That never changes any more. -/
  permanent : ∀ (k : Nat) (state : PluginState), s.listing[k]?.map (·.state) = some state →
    state ≠ .started → t.listing[k]?.map (·.state) = some state

variable {h : Host}

/-- Where no plugin is brought twice, the list of plugins is in order over every run, however those
who take plugins on and those who stop all of them interleave. -/
theorem tracked_of_fresh (hempty : h.plugins = []) (hs : Later Fresh { host := h } s)
    (hlater : Later Fresh s t) : Tracked s t := by
  have ht := hs.trans hlater
  have hroll := ht.roll hempty
  have hgrows := hlater.roster_grows
  have hnames := hroll.names_eq
  exact {
    names_grow := by
      rw [(hs.roll hempty).names_eq, hnames]
      exact hgrows.map _
    roster_grows := hgrows
    names_eq := hnames
    refs_nodup := hroll.refs_nodup
    in_order := fun P ↦ (hroll.placed P).follows
    onboarded := fun P hP ↦ (hroll.placed P).succeeded hP
    tracked := fun hquiet P ↦ ht.mem_roster_of_succeeded hempty hquiet
    started := fun k P hP hfree ↦ by
      obtain ⟨added, plugin, hentry⟩ := ht.state_of_not_taken hempty hP hfree
      rw [listing, List.getElem?_map, hentry]
      rfl
    settled := fun j y k P hj hP ↦ by
      obtain ⟨r, added, -, hreturned, hentry⟩ := ht.state_of_taken hempty hj hP
      refine ⟨hroll.roster_of_taken hP, r, hreturned, ?_⟩
      rw [listing, List.getElem?_map, hentry]
      rfl
    permanent := fun k state hstate hne ↦ hs.permanent hempty hlater hstate hne }

end Crowd

/-! ### Two who stop all -/

namespace Small

open Crowd

def first : Plugin := ⟨0, "first", false⟩

def second : Plugin := ⟨1, "second", false⟩

/-- A plugin is taken on, and a client stops all: the plugin is asked to stop. -/
def asked : Crowd PluginCall PluginOutcome :=
  ({ host := bare } : Crowd PluginCall PluginOutcome).after <|
    [.arrive (.add 0 first)] ++ Move.plays 0 answers 9 ++
      [.arrive (.stopAll 0), .proceed 1, .proceed 1]

/-- Before it answers another plugin is taken on, and another client stops all. -/
def answered : Crowd PluginCall PluginOutcome :=
  asked.after <|
    [.arrive (.add 0 second)] ++ Move.plays 2 answers 9 ++
      [.arrive (.stopAll 0)] ++ Move.plays 3 answers 9 ++ Move.plays 1 answers 9

theorem answered_tracked :
    bare.plugins = [] ∧ Tracked asked answered ∧
      asked.listing.map (·.state) = [.started] ∧
      answered.listing.map (fun info ↦ (info.name, info.state)) =
        [("first", .stopped), ("second", .stopped)] := by
  refine ⟨rfl, ?_, by decide +kernel, by decide +kernel⟩
  refine tracked_of_fresh rfl (later_of_allows ?_) (later_of_allows ?_)
  · decide +kernel
  · decide +kernel

end Small

end ComponentHost
