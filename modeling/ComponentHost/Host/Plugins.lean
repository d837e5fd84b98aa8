import ComponentHost.Host.Basic

/-!
Taking plugins on and letting them go.

A plugin goes through three phases in order and is tracked only if all of them succeed. All tracked
plugins are stopped in reverse order, each once, whatever fails; the list only grows.
-/

set_option autoImplicit false

namespace ComponentHost.Host

/-- The phases of taking a plugin on, with the state each of them reaches. -/
def onboarding : List (PluginPhase × PluginState) :=
  [(.setUp, .initialized), (.registerResources, .resourcesRegistered), (.start, .started)]

/-- Runs phases in order; on a failure says which state was reached before it. -/
def runPhases (ctx : ContextRef) (plugin : Plugin) (reached : PluginState) :
    List (PluginPhase × PluginState) → Prog Host (Except (PluginState × Error) Unit)
  | [] => return .ok ()
  | (phase, state) :: rest => do
    match ← (runPhase phase plugin ctx).run with
    | .ok () => runPhases ctx plugin state rest
    | .error e => return .error (reached, .plugin plugin.name phase.text e)

/-- Adds an entry at the end of the list; answers its place, counted from one. -/
def track (plugin : Plugin) : Action Nat :=
  .of (.update fun h ↦
    (h.plugins.length + 1,
      { h with plugins := h.plugins ++ [⟨plugin.name, .started, h.now, some plugin⟩] }))

/-- Takes a plugin on. -/
def addPlugin (ctx : ContextRef) (plugin : Plugin) : Action Unit := do
  let outcome ← .of (runPhases ctx plugin .added onboarding)
  match outcome with
  | .error (reached, e) => do
    log .error "plugin onboarding failed" (fields [
      ("plugin", .str plugin.name), ("reached", .str reached.summary), ("error", .str e.message)])
    .of (.ask (.release plugin))
    throw e
  | .ok () => do
    let position ← track plugin
    log .info "plugin started" (fields [
      ("plugin", .str plugin.name), ("position", .ofNat position)])

/-- The plugins not yet released, with their places, the latest first; they are released now. -/
def takePlugins : Prog Host (List (Nat × Plugin)) :=
  .update fun h ↦
    ((h.plugins.mapIdx fun i e ↦ e.plugin.map fun p ↦ (i, p)).reverse.filterMap id,
      { h with plugins := h.plugins.map fun e ↦ { e with plugin := none } })

/-- What is known of stopping so far. -/
structure StopReport where
  outcomes : List (Nat × PluginState) := []
  firstError : Option Error := none

/-- Stops plugins in the given order, whatever fails. -/
def stopPlugins (ctx : ContextRef) (report : StopReport) :
    List (Nat × Plugin) → Prog Host StopReport
  | [] => return report
  | (i, plugin) :: rest => do
    match ← (runPhase .stop plugin ctx).run with
    | .ok () =>
      .ask (.line ⟨.info, "zi_runtime", "plugin " ++ Error.quoted plugin.name ++ " stopped"⟩)
      .ask (.release plugin)
      stopPlugins ctx { report with outcomes := report.outcomes ++ [(i, .stopped)] } rest
    | .error e =>
      .ask (.line ⟨.error, "zi_runtime",
        "plugin " ++ Error.quoted plugin.name ++ " failed to stop: " ++ e.message⟩)
      .ask (.release plugin)
      stopPlugins ctx
        { outcomes := report.outcomes ++ [(i, .stopFailed e.message)]
          firstError := some (report.firstError.getD (.plugin plugin.name "stop" e)) }
        rest

/-- Writes down what has become of the plugins at some places. -/
def settle (outcomes : List (Nat × PluginState)) (plugins : List PluginEntry) : List PluginEntry :=
  outcomes.foldl (fun plugins (i, state) ↦ plugins.modify i ({ · with state })) plugins

/-- Stops every plugin that is not released; the first failure is the answer. -/
def stopAll (ctx : ContextRef) : Action Unit := ExceptT.mk do
  let pending ← takePlugins
  let report ← stopPlugins ctx {} pending
  Prog.modify fun h ↦ { h with plugins := settle report.outcomes h.plugins }
  match report.firstError with
  | some e => return .error e
  | none => return .ok ()

/-- The state of the latest plugin of a name. -/
def pluginState? (h : Host) (name : String) : Option PluginState :=
  (h.plugins.reverse.find? (·.name == name)).map (·.state)

end ComponentHost.Host
