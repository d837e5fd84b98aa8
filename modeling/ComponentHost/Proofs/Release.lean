import ComponentHost.Proofs.Onboarding
import ComponentHost.Proofs.Surroundings

/-!
All plugins are stopped: each of them once, and none a second time.

Who stops all takes the plugins out of their entries, and then asks one after the other to stop, the
one taken on last first, and lets it go; whatever a plugin answers, the next has its turn. What each
has answered is written down in its entry; entries whose plugin was let go of earlier stay as they
are. If some did not stop, the failure of the first of them is the answer, that is of the one taken
on last (`Releases`).

Who does the same again finds nothing to do: nobody is called, and nothing is changed
(`Host.stopAll_releases`).
-/

set_option autoImplicit false

namespace ComponentHost

/-! ### Stops -/

/-- A plugin is asked to stop, answers, and is let go. -/
def farewell (ctx : ContextRef) (x : Plugin × Except Error Unit) : List Exchange :=
  [.asked (.plugin .stop x.1 ctx), .answered (.plugin .stop x.1 ctx) x.2, .asked (.release x.1),
    .answered (.release x.1) ()]

/-- What is answered when plugins have answered so, one after the other: the failure of the first
that has not stopped. -/
inductive Concludes : List (Plugin × Except Error Unit) → Except Error Unit → Prop where
  | stopped {stops : List (Plugin × Except Error Unit)} (hall : ∀ x ∈ stops, x.2 = .ok ()) :
      Concludes stops (.ok ())
  | failed {before after : List (Plugin × Except Error Unit)} {P : Plugin} {e : Error}
      (hbefore : ∀ x ∈ before, x.2 = .ok ()) :
      Concludes (before ++ (P, .error e) :: after) (.error (.plugin P.name "stop" e))

/-- The failure to be answered if a plugin answers so. -/
def refusal? (x : Plugin × Except Error Unit) : Option Error :=
  match x.2 with
  | .ok _ => none
  | .error e => some (.plugin x.1.name "stop" e)

theorem refusal?_eq_none_iff {x : Plugin × Except Error Unit} :
    refusal? x = none ↔ x.2 = .ok () := by
  obtain ⟨P, ⟨e⟩ | ⟨⟨⟩⟩⟩ := x <;> simp [refusal?]

theorem concludes_findSome? (stops : List (Plugin × Except Error Unit)) :
    Concludes stops (match stops.findSome? refusal? with
      | some e => .error e
      | none => .ok ()) := by
  cases hfirst : stops.findSome? refusal? with
  | none =>
    rw [List.findSome?_eq_none_iff] at hfirst
    exact .stopped fun x hx ↦ refusal?_eq_none_iff.mp (hfirst x hx)
  | some e =>
    obtain ⟨before, ⟨P, r⟩, after, rfl, hr, hbefore⟩ := List.findSome?_eq_some_iff.mp hfirst
    cases r with
    | ok u => cases hr
    | error e' =>
      cases hr
      exact .failed fun x hx ↦ refusal?_eq_none_iff.mp (hbefore x hx)

/-! ### Entries -/

/-- These are the plugins that have not been let go, with their places, the latest first. -/
structure ListsHeld (plugins : List PluginEntry) (held : List (Nat × Plugin)) : Prop where
  all : ∀ k P, (k, P) ∈ held ↔ ∃ entry, plugins[k]? = some entry ∧ entry.plugin = some P
  latestFirst : held.Pairwise fun x y ↦ y.1 < x.1

theorem listsHeld_held (plugins : List PluginEntry) : ListsHeld plugins (Host.held plugins) :=
  ⟨fun _ _ ↦ Host.mem_held, Host.held_pairwise plugins⟩

/-- The plugins are taken out of their entries. -/
def lettingGo (plugins : List PluginEntry) : List PluginEntry :=
  plugins.map fun entry ↦ { entry with plugin := none }

theorem Host.releasing_eq (h : Host) : h.releasing = { h with plugins := lettingGo h.plugins } :=
  rfl

/-- The entry of a plugin that was let go, and that has answered so when it was to stop. -/
def PluginEntry.settled (entry : PluginEntry) (answer : Except Error Unit) : PluginEntry :=
  { entry with state := settledAs answer, plugin := none }

/-- All that is done to stop all plugins: each that has not been let go is asked to stop and let go,
the latest first, whatever comes of it, and what it has answered is written down in its entry. -/
structure Releases (ctx : ContextRef) (plugins : List PluginEntry)
    (stops : List (Plugin × Except Error Unit)) (xs : List Exchange) (plugins' : List PluginEntry)
    (res : Except Error Unit) : Prop where
  told : xs = stops.flatMap (farewell ctx)
  settles : ∃ held, ListsHeld plugins held ∧ List.Forall₂ (fun x y ↦ y.1 = x.2 ∧
    plugins'[x.1]? = plugins[x.1]?.map (·.settled y.2)) held stops
  others : ∀ (k : Nat) (entry : PluginEntry), plugins[k]? = some entry → entry.plugin = none →
    plugins'[k]? = some entry
  length : plugins'.length = plugins.length
  concludes : Concludes stops res

/-- What is written down at last is what each plugin has answered. -/
theorem settles_outcomes {plugins : List PluginEntry} {stops : List (Plugin × Except Error Unit)}
    (hstops : (Host.held plugins).map Prod.snd = stops.map Prod.fst) :
    List.Forall₂ (fun x y ↦ y.1 = x.2 ∧
      (Host.settle (outcomes (Host.held plugins) stops) (lettingGo plugins))[x.1]? =
        plugins[x.1]?.map (·.settled y.2)) (Host.held plugins) stops := by
  have hnodup : ((outcomes (Host.held plugins) stops).map Prod.fst).Nodup := by
    rw [outcomes_map_fst hstops]
    exact List.pairwise_map.mpr ((Host.held_pairwise plugins).imp fun h ↦ Nat.ne_of_gt h)
  have hlength : (Host.held plugins).length = stops.length := by
    simpa using congrArg List.length hstops
  refine List.forall₂_iff_get.mpr ⟨hlength, fun i hi hi' ↦ ⟨?_, ?_⟩⟩
  · have hsame := congrArg (·[i]?) hstops
    simpa [hi, hi'] using hsame.symm
  · have hmem : (((Host.held plugins).get ⟨i, hi⟩).1, settledAs (stops.get ⟨i, hi'⟩).2) ∈
        outcomes (Host.held plugins) stops := by
      refine List.mem_iff_getElem.mpr ⟨i, by simpa [outcomes, hlength] using hi', ?_⟩
      simp [outcomes]
    rw [Host.getElem?_settle_of_mem hnodup hmem, lettingGo, List.getElem?_map, Option.map_map]
    rfl

theorem getElem?_settle_others {plugins : List PluginEntry}
    {stops : List (Plugin × Except Error Unit)}
    (hstops : (Host.held plugins).map Prod.snd = stops.map Prod.fst) {k : Nat} {entry : PluginEntry}
    (hentry : plugins[k]? = some entry) (hreleased : entry.plugin = none) :
    (Host.settle (outcomes (Host.held plugins) stops) (lettingGo plugins))[k]? = some entry := by
  have hk : k ∉ (outcomes (Host.held plugins) stops).map Prod.fst := by
    rw [outcomes_map_fst hstops]
    intro hmem
    obtain ⟨⟨_, P⟩, hheld, rfl⟩ := List.mem_map.mp hmem
    obtain ⟨entry', hentry', hP⟩ := Host.mem_held.mp hheld
    cases hentry.symm.trans hentry'
    rw [hreleased] at hP
    cases hP
  rw [Host.getElem?_settle_of_notMem hk, lettingGo, List.getElem?_map, hentry, Option.map_some,
    ← hreleased]

theorem releases_settle {ctx : ContextRef} {plugins : List PluginEntry}
    {stops : List (Plugin × Except Error Unit)} {res : Except Error Unit}
    (hstops : (Host.held plugins).map Prod.snd = stops.map Prod.fst) (hres : Concludes stops res) :
    Releases ctx plugins stops (stops.flatMap (farewell ctx))
      (Host.settle (outcomes (Host.held plugins) stops) (lettingGo plugins)) res where
  told := rfl
  settles := ⟨_, listsHeld_held plugins, settles_outcomes hstops⟩
  others _ _ := getElem?_settle_others hstops
  length := by rw [Host.length_settle, lettingGo, List.length_map]
  concludes := hres

/-- All plugins have been let go. -/
def AllReleased (plugins : List PluginEntry) : Prop := ∀ entry ∈ plugins, entry.plugin = none

theorem AllReleased.held {plugins : List PluginEntry} (hall : AllReleased plugins) :
    Host.held plugins = [] := by
  refine List.eq_nil_iff_forall_not_mem.mpr fun ⟨k, P⟩ hmem ↦ ?_
  obtain ⟨entry, hentry, hP⟩ := Host.mem_held.mp hmem
  rw [hall entry (List.mem_of_getElem? hentry)] at hP
  cases hP

theorem AllReleased.releasing {h : Host} (hall : AllReleased h.plugins) : h.releasing = h := by
  have hsame : lettingGo h.plugins = h.plugins := by
    refine (List.map_congr_left fun entry hmem ↦ ?_).trans (List.map_id h.plugins)
    rw [id, ← hall entry hmem]
  rw [h.releasing_eq, hsame]

theorem allReleased_settle (outcomes : List (Nat × PluginState)) (plugins : List PluginEntry) :
    AllReleased (Host.settle outcomes (lettingGo plugins)) := by
  intro entry hmem
  obtain ⟨k, hk⟩ := List.mem_iff_getElem?.mp hmem
  have hplugin := Host.plugin_settle outcomes (lettingGo plugins) k
  rw [hk, lettingGo, List.getElem?_map, Option.map_map] at hplugin
  cases hentry : plugins[k]? with
  | none => simp [hentry] at hplugin
  | some entry' => simpa [hentry] using hplugin

namespace Host

variable {w : Surroundings} {log : List Feat} {h : Host} {ctx : ContextRef}

theorem takePlugins_endsAmid {Q : List Feat → Host → List (Nat × Plugin) → Prop}
    (hQ : Q (log ++ [.acted (w.found log h) (w.found log h).releasing]) (w.found log h).releasing
      (held (w.found log h).plugins)) : takePlugins.EndsAmid w Q log h := .act (.done hQ)

/-- Plugins have been stopped in order and have answered so, from one report to another. -/
structure StopsEach (ctx : ContextRef) (pending : List (Nat × Plugin))
    (stops : List (Plugin × Except Error Unit)) (log : List Feat) (report : StopReport)
    (log' : List Feat) (report' : StopReport) : Prop where
  each : pending.map Prod.snd = stops.map Prod.fst
  told : withoutNotes (exchangesIn log') =
    withoutNotes (exchangesIn log) ++ stops.flatMap (farewell ctx)
  outcomes : report'.outcomes = report.outcomes ++ outcomes pending stops
  firstError : report'.firstError = report.firstError.or (stops.findSome? refusal?)

/-- One plugin is stopped before the others. -/
theorem StopsEach.cons {i : Nat} {P : Plugin} {answer : Except Error Unit}
    {rest : List (Nat × Plugin)} {stops : List (Plugin × Except Error Unit)}
    {log₁ log' : List Feat} {report report₁ report' : StopReport}
    (hrest : StopsEach ctx rest stops log₁ report₁ log' report')
    (htold : withoutNotes (exchangesIn log₁) =
      withoutNotes (exchangesIn log) ++ farewell ctx (P, answer))
    (houtcomes : report₁.outcomes = report.outcomes ++ [(i, settledAs answer)])
    (hfirst : report₁.firstError = report.firstError.or (refusal? (P, answer))) :
    StopsEach ctx ((i, P) :: rest) ((P, answer) :: stops) log report log' report' where
  each := congrArg (P :: ·) hrest.each
  told := by rw [hrest.told, htold, List.append_assoc, List.flatMap_cons]
  outcomes := by
    rw [hrest.outcomes, houtcomes, List.append_assoc]
    rfl
  firstError := by
    rw [hrest.firstError, hfirst, Option.or_assoc, List.findSome?_cons]
    cases refusal? (P, answer) <;> rfl

/-- Plugins are stopped in the given order, whatever they answer. -/
theorem stopPlugins_stopsEach (report : StopReport) (pending : List (Nat × Plugin)) :
    (stopPlugins ctx report pending).EndsAmid w (fun log' h' report' ↦ h' = h ∧
      ∃ stops, StopsEach ctx pending stops log report log' report') log h := by
  induction pending generalizing report log with
  | nil => exact .done ⟨rfl, [], rfl, by simp, by simp [outcomes], by simp⟩
  | cons x rest ih =>
    obtain ⟨i, P⟩ := x
    refine .call fun answer ↦ ?_
    cases answer with
    | ok u =>
      refine .call fun _ ↦ .call fun _ ↦ (ih _).mono ?_
      rintro log' _ report' ⟨rfl, stops, hstops⟩
      refine ⟨rfl, (P, .ok ()) :: stops, hstops.cons ?_ rfl (Option.or_none).symm⟩
      simp [farewell, Exchange.call, Call.isNote]
    | error e =>
      refine .call fun _ ↦ .call fun _ ↦ (ih _).mono ?_
      rintro log' _ report' ⟨rfl, stops, hstops⟩
      refine ⟨rfl, (P, .error e) :: stops, hstops.cons ?_ rfl ?_⟩
      · simp [farewell, Exchange.call, Call.isNote]
      · cases report.firstError <;> rfl

/-- Nobody is called and nothing is changed, whoever stops all plugins. -/
def NothingToStop (plugins : List PluginEntry) : Prop :=
  ∀ (w : Surroundings) (ctx : ContextRef) (h : Host), w.Keeps Host.plugins → h.plugins = plugins →
    ∃ log h', (stopAll ctx).run.amid w [] h = some (.ok (), log, h') ∧ OnlyLooks log

/-- If all plugins have been let go then there is nothing to do. -/
theorem nothingToStop_of_allReleased {plugins : List PluginEntry} (hall : AllReleased plugins) :
    NothingToStop plugins := by
  rintro w ctx h hw rfl
  have hall₁ : AllReleased (w.found [] h).plugins := by rwa [hw]
  have hends : (stopAll ctx).run.EndsAmid w (fun log _ res ↦ res = .ok () ∧ OnlyLooks log)
      [] h := by
    refine .bind (x := takePlugins) (takePlugins_endsAmid ?_)
    rw [hall₁.releasing, hall₁.held]
    exact .bind (.done (.modify (.done ⟨rfl, (onlyLooks_nil.looked _).looked _⟩)))
  obtain ⟨_, log, h', hends, rfl, hlooks⟩ := hends
  exact ⟨log, h', hends, hlooks⟩

/-- Assumes: the others leave the entries of plugins alone. Every plugin that was not let go is
stopped, as far as it can be; and whoever then stops all plugins once more has nothing to do. -/
theorem stopAll_releases (hw : w.Keeps Host.plugins) :
    ∃ res log h' stops, (stopAll ctx).run.amid w [] h = some (res, log, h') ∧
      Releases ctx h.plugins stops (withoutNotes (exchangesIn log)) h'.plugins res ∧
        NothingToStop h'.plugins := by
  have hends : (stopAll ctx).run.EndsAmid w (fun log h' res ↦ ∃ stops,
      Releases ctx h.plugins stops (withoutNotes (exchangesIn log)) h'.plugins res ∧
        NothingToStop h'.plugins) [] h := by
    refine .bind (x := takePlugins) (takePlugins_endsAmid (.bind ?_))
    rw [hw]
    refine (stopPlugins_stopsEach {} (held h.plugins)).mono ?_
    rintro log₁ _ report ⟨rfl, stops, hstops⟩
    refine .modify ?_
    have hplugins : (w.found log₁ (w.found [] h).releasing).plugins = lettingGo h.plugins := by
      rw [hw, releasing_eq, hw]
    have houtcomes : report.outcomes = outcomes (held h.plugins) stops := hstops.outcomes
    have hfirst : report.firstError = stops.findSome? refusal? := by
      rw [hstops.firstError]
      exact Option.none_or
    rw [hplugins, houtcomes, hfirst]
    have htold {g g' : Host} : withoutNotes (exchangesIn (log₁ ++ [.acted g g'])) =
        stops.flatMap (farewell ctx) := by
      rw [exchangesIn_append, withoutNotes_append, hstops.told]
      exact List.append_nil _
    have hconcludes := concludes_findSome? stops
    have hnothing := nothingToStop_of_allReleased
      (allReleased_settle (outcomes (held h.plugins) stops) h.plugins)
    cases hrefusal : stops.findSome? refusal? with
    | none =>
      rw [hrefusal] at hconcludes
      exact .done ⟨stops, htold ▸ releases_settle hstops.each hconcludes, hnothing⟩
    | some e =>
      rw [hrefusal] at hconcludes
      exact .done ⟨stops, htold ▸ releases_settle hstops.each hconcludes, hnothing⟩
  obtain ⟨res, log, h', hends, stops, hrest⟩ := hends
  exact ⟨res, log, h', stops, hends, hrest⟩

end Host

namespace Small

/-- A host that has taken on four plugins, of which the second was let go. -/
def hostWithPlugins : Host :=
  { plugins := [⟨"a", .started, .epoch, some ⟨0, "a", false⟩⟩, ⟨"b", .stopped, .epoch, none⟩,
      ⟨"c", .started, .epoch, some ⟨2, "c", false⟩⟩, ⟨"d", .started, .epoch, some ⟨3, "d", true⟩⟩] }

/-- Only the plugin taken on last stops. -/
def reluctant : (call : Call) → call.Reply
  | .plugin .stop P _ => if P.name = "d" then .ok () else .error .cancelled
  | call => answers call

theorem hostWithPlugins_releases :
    (Surroundings.undisturbed reluctant).Keeps Host.plugins ∧
      ∃ res log h' stops, (Host.stopAll 0).run.amid (.undisturbed reluctant) [] hostWithPlugins =
          some (res, log, h') ∧
        Releases 0 hostWithPlugins.plugins stops (withoutNotes (exchangesIn log)) h'.plugins res ∧
          Host.NothingToStop h'.plugins :=
  ⟨Surroundings.undisturbed_keeps _ _, Host.stopAll_releases (Surroundings.undisturbed_keeps _ _)⟩

end Small

end ComponentHost
