import ComponentHost.Proofs.Creation
import ComponentHost.Proofs.Operations

/-!
Dispatching operations, one inside the other if need be.

Where nothing is bound to an identifier, or nothing that can be executed as an operation, nobody is
called. Otherwise the operation is executed once, with the context and the input it is dispatched
with, and what it answers comes back as it is, but that a failure is wrapped once, with the
identifier. `Dispatching` says so step by step, and `Host.dispatch_endsAmid` that dispatching is
never anything else, whatever the others make of the host meanwhile.

An operation may dispatch another before it answers. `Company.FailsInside` is a chain of operations
that do so, of which the last fails and the others hand on the failure that they are answered. The
failure comes out of the chain with the identifiers around it, the outermost first
(`Company.FailsInside.exists_ends`).
-/

set_option autoImplicit false

namespace ComponentHost

/-! ### Failures on their way out -/

namespace Error

/-- An error that comes out of these operations, the outermost first. -/
def through (e : Error) (ids : List String) : Error := ids.foldr .operationFailed e

theorem through_cons (e : Error) (id : String) (ids : List String) :
    e.through (id :: ids) = .operationFailed id (e.through ids) := rfl

theorem depth_through (e : Error) (ids : List String) :
    (e.through ids).depth = ids.length + e.depth := by
  induction ids with
  | nil => exact (Nat.zero_add _).symm
  | cons id ids ih =>
    rw [through_cons, depth, ih, List.length_cons]
    omega

theorem rootCause_through (e : Error) (ids : List String) :
    (e.through ids).rootCause = e.rootCause := by
  induction ids with
  | nil => rfl
  | cons id ids ih => rw [through_cons, rootCause, ih]

end Error

/-! ### One dispatch -/

/-- It is an operation, and can be executed. -/
def Component.IsOperation (c : Component) : Prop := c.kind = .operation ∧ c.executable = true

/-- All that is done to dispatch an identifier, but for the notes, and what comes of it, the host
being as given when the identifier is looked up. -/
inductive Dispatching (ctx : ContextRef) (id : String) (data : Json) (g : Host) :
    List Feat → Except Error Json → Prop where
  | unknown (hget : g.registry.components.get? id = none) :
      Dispatching ctx id data g [.acted g g] (.error (.operationNotFound id))
  | unfit {c : Component} (hget : g.registry.components.get? id = some c) (hc : ¬c.IsOperation) :
      Dispatching ctx id data g [.acted g g] (.error (.notAnOperation id))
  | executed {c : Component} {log : List Feat} {r : Except Error Json}
      (hget : g.registry.components.get? id = some c) (hc : c.IsOperation)
      (hlog : substance log = [.acted g g, .said (.asked (.execute c ctx data)),
        .said (.answered (.execute c ctx data) r)]) :
      Dispatching ctx id data g log (r.mapError (.operationFailed id))

namespace Dispatching

variable {ctx : ContextRef} {id : String} {data : Json} {g : Host} {log : List Feat}
  {res : Except Error Json}

theorem notFound_iff (h : Dispatching ctx id data g log res) :
    res = .error (.operationNotFound id) ↔ g.registry.components.get? id = none := by
  cases h with
  | unknown hget => simp [hget]
  | unfit hget => simp [hget]
  | @executed c log r hget => cases r <;> simp [hget, Except.mapError]

theorem notAnOperation_iff (h : Dispatching ctx id data g log res) :
    res = .error (.notAnOperation id) ↔
      ∃ c, g.registry.components.get? id = some c ∧ ¬c.IsOperation := by
  cases h with
  | unknown hget => simp [hget]
  | unfit hget hc => simp [hget, hc]
  | @executed c log r hget hc => cases r <;> simp [hget, hc, Except.mapError]

end Dispatching

namespace Registry

variable {r : Registry} {id : String} {c : Component}

theorem operation_eq_of_none (hget : r.components.get? id = none) :
    r.operation id = .error (.operationNotFound id) := by
  simp [operation, hget]

theorem operation_eq_of_not_isOperation (hget : r.components.get? id = some c)
    (hc : ¬c.IsOperation) : r.operation id = .error (.notAnOperation id) := by
  unfold Component.IsOperation at hc
  simp [operation, hget, hc]

theorem operation_eq_of_isOperation (hget : r.components.get? id = some c)
    (hc : c.IsOperation) : r.operation id = .ok c := by
  unfold Component.IsOperation at hc
  simp [operation, hget, hc]

end Registry

namespace Host

variable {ctx : ContextRef} {id : String} {data : Json}

/-- Amid any surroundings a dispatch comes to its end, and has looked the identifier up in the host
that it found. -/
theorem dispatch_endsAmid (w : Surroundings) (h : Host) :
    (dispatch ctx id data).run.EndsAmid w
      (fun log _ res ↦ Dispatching ctx id data (w.found [] h) log res) [] h := by
  refine .andThen (.act (.done ?_))
  cases hget : (w.found [] h).registry.components.get? id with
  | none =>
    simp only [Registry.operation_eq_of_none hget]
    exact .unknown hget
  | some c =>
    by_cases hc : c.IsOperation
    · simp only [Registry.operation_eq_of_isOperation hget hc]
      -- a line, the operation, and another line if it fails
      refine .andThen (.call fun _ ↦ .done (.rescue (.call fun r ↦ .done ?_)))
      cases r with
      | ok v => exact .executed (r := .ok v) hget hc (by simp [Call.isNote])
      | error e =>
        refine .andThen (.call fun _ ↦ .done (.done ?_))
        exact .executed (r := .error e) hget hc (by simp [Call.isNote])
    · simp only [Registry.operation_eq_of_not_isOperation hget hc]
      exact .unfit hget hc

end Host

/-! ### Dispatches inside one another -/

namespace Company

variable {ω α : Type} {ext : Outside ω} {w w' : Company ω} {ctx : ContextRef} {id : String}
  {data : Json}

/-- The operation has answered: a line says so if it has failed. -/
def returned (w : Company ω) (c : Component) (ctx : ContextRef) (id : String) (data : Json) :
    Except Error Json → Company ω
  | .ok v => w.noted (.answered (.execute c ctx data) (.ok v))
  | .error e => (w.noted (.answered (.execute c ctx data) (.error e))).said
      ⟨.warn, "zi_runtime", "operation " ++ Error.quoted id ++ " failed: " ++ e.message⟩

/-- A dispatch that finds its operation ends as the operation answers. -/
theorem ends_dispatch_iff_of_ok {c : Component} {o : Except Error Json}
    (hfound : w.host.registry.operation id = .ok c) :
    Ends ext (Host.dispatch ctx id data).run w o w' ↔
      ∃ answer u, Replies ext (.execute c ctx data) (w.called c ctx id data) answer u ∧
        o = answer.mapError (.operationFailed id) ∧ w' = u.returned c ctx id data answer := by
  have hlookup : Ends ext (Host.operation id).run w (.ok c) w :=
    ends_inspect_iff.mpr ⟨hfound.symm, rfl⟩
  have hline : Ends ext
      (Host.diagnose .debug ("dispatching operation " ++ Error.quoted id)).run w _ _ :=
    ends_diagnose_iff.mpr ⟨rfl, rfl⟩
  rw [Host.dispatch, ends_andThen_iff_of_ok hlookup, ends_andThen_iff_of_ok hline, ends_rescue_iff]
  constructor
  · rintro ⟨answer, u, hends, hrest⟩
    obtain ⟨v, hreplies, rfl⟩ := ends_execute_iff_replies.mp hends
    refine ⟨answer, v, hreplies, ?_⟩
    cases answer with
    | ok report => exact hrest
    | error e =>
      obtain ⟨_, _, hwarned, hthrown⟩ := ends_andThen_iff.mp hrest
      obtain ⟨rfl, rfl⟩ := ends_diagnose_iff.mp hwarned
      exact ends_throw_iff.mp hthrown
  · rintro ⟨answer, v, hreplies, rfl, rfl⟩
    refine ⟨answer, _, ends_execute_iff_replies.mpr ⟨v, hreplies, rfl⟩, ?_⟩
    cases answer with
    | ok report => exact ⟨rfl, rfl⟩
    | error e =>
      exact ends_andThen_iff.mpr
        ⟨_, _, ends_diagnose_iff.mpr ⟨rfl, rfl⟩, ends_throw_iff.mpr ⟨rfl, rfl⟩⟩

/-- These operations are dispatched one inside the other, the first under `id`. Each but the last
does whatever it likes first, and dispatches the next one; if that fails, it does whatever it likes
once more, and answers this very failure. The last one answers `e`. -/
inductive FailsInside (ext : Outside ω) (e : Error) :
    String → List String → ContextRef → Json → Company ω → Prop where
  | last {id : String} {ctx : ContextRef} {data : Json} {w w' : Company ω} {c : Component}
      (hfound : w.host.registry.operation id = .ok c)
      (hfails : Replies ext (.execute c ctx data) (w.called c ctx id data) (.error e) w') :
      FailsInside ext e id [] ctx data w
  | within {α : Type} {id id' : String} {ids : List String} {ctx ctx' : ContextRef}
      {data data' : Json} {w w' : Company ω} {c : Component} {a : α}
      {first : Prog (Company ω) α} {next : α → Prog (Company ω) (Except Error Json)}
      {rest : Except Error Json → Prog (Company ω) (Except Error Json)}
      (hfound : w.host.registry.operation id = .ok c)
      (hanswering : answering ext (.execute c ctx data) = first.bind next)
      (hfirst : Prog.Leads (environment ext) first (w.called c ctx id data) a w')
      (hnext : next a = (program (Host.dispatch ctx' id' data').run).bind rest)
      (hinside : FailsInside ext e id' ids ctx' data' w')
      (hrest : ∀ failure v, Ends ext (Host.dispatch ctx' id' data').run w' (.error failure) v →
        ∃ v', Prog.Leads (environment ext) (rest (.error failure)) v (.error failure) v') :
      FailsInside ext e id (id' :: ids) ctx data w

/-- The failure of the last operation comes out through all of them. -/
theorem FailsInside.exists_ends {e : Error} {ids : List String}
    (h : FailsInside ext e id ids ctx data w) :
    ∃ w', Ends ext (Host.dispatch ctx id data).run w (.error (e.through (id :: ids))) w' := by
  induction h with
  | last hfound hfails =>
    exact ⟨_, (ends_dispatch_iff_of_ok hfound).mpr ⟨_, _, hfails, rfl, rfl⟩⟩
  | @within α id id' ids ctx ctx' data data' w w' c a first next rest hfound hanswering hfirst
      hnext hinside hrest ih =>
    obtain ⟨v, hends⟩ := ih
    obtain ⟨v', hhanded⟩ := hrest _ v hends
    have hreplies : Replies ext (.execute c ctx data) (w.called c ctx id data)
        (.error (e.through (id' :: ids))) v' := by
      unfold Replies
      rw [hanswering, Prog.leads_bind_iff]
      refine ⟨a, w', hfirst, ?_⟩
      rw [hnext, Prog.leads_bind_iff]
      exact ⟨_, v, hends, hhanded⟩
    exact ⟨_, (ends_dispatch_iff_of_ok hfound).mpr ⟨_, v', hreplies, rfl, rfl⟩⟩

/-- What a collaborator from outside does who does just what the host does. -/
def asHost (x : Prog Host α) : Prog (Host × ω) α := x.within Prod.fst fun h y ↦ (h, y.2)

theorem foreign_asHost (x : Prog Host α) : foreign (asHost (ω := ω) x) = program x := by
  induction x with
  | done a => rfl
  | act f k ih => exact congrArg (Prog.act _) (funext fun w ↦ ih w.host)
  | await claim k ih =>
    have hclaim (w : Company ω) :
        ((claim w.host).map fun h ↦ (h, w.others)).map (fun y ↦ { w with
          host := y.1, others := y.2 }) = (claim w.host).map fun h ↦ { w with host := h } := by
      rw [Option.map_map]
      rfl
    exact congrArg₂ Prog.await (funext hclaim) ih
  | call c k ih => exact congrArg (Prog.call c) (funext ih)

/-- An operation from outside that does nothing but dispatch another. -/
theorem FailsInside.relayed {e : Error} {id id' : String} {ids : List String}
    {ctx ctx' : ContextRef} {data data' : Json} {w : Company ω} {c : Component}
    (hfound : w.host.registry.operation id = .ok c)
    (hout : Host.answer? (.execute c ctx data) = none)
    (hrelays : ext (.execute c ctx data) = asHost (Host.dispatch ctx' id' data').run)
    (hinside : FailsInside ext e id' ids ctx' data' (w.called c ctx id data)) :
    FailsInside ext e id (id' :: ids) ctx data w := by
  have hanswering : answering ext (.execute c ctx data) =
      (Prog.done ()).bind fun _ ↦ (program (Host.dispatch ctx' id' data').run).bind .done := by
    unfold answering
    rw [hout, hrelays, Prog.done_bind, Prog.bind_done]
    exact foreign_asHost _
  exact .within hfound hanswering (Prog.leads_done_iff.mpr ⟨rfl, rfl⟩) rfl hinside
    fun failure v _ ↦ ⟨v, Prog.leads_done_iff.mpr ⟨rfl, rfl⟩⟩

end Company

/-- A dispatch that finds no operation calls nobody, and says whether it has found anything else.
One that finds an operation executes it once, and answers what it is answered, a failure wrapped
once. So the failure of the last of some operations that are dispatched one inside the other comes
out with the identifiers of all of them around it, and with the same cause at its root. -/
theorem Host.dispatch_wraps_once (ctx : ContextRef) (id : String) (data : Json) :
    (∀ (w : Surroundings) (h : Host), (dispatch ctx id data).run.EndsAmid w
      (fun log _ res ↦ Dispatching ctx id data (w.found [] h) log res ∧
        (res = .error (.operationNotFound id) ↔
          (w.found [] h).registry.components.get? id = none) ∧
        (res = .error (.notAnOperation id) ↔
          ∃ c, (w.found [] h).registry.components.get? id = some c ∧ ¬c.IsOperation)) [] h) ∧
    ∀ {ω : Type} (ext : Outside ω) (w : Company ω) (e : Error) (ids : List String),
      Company.FailsInside ext e id ids ctx data w →
        (∃ w', ∀ o v, Company.Ends ext (dispatch ctx id data).run w o v ↔
          o = .error (e.through (id :: ids)) ∧ v = w') ∧
        (e.through (id :: ids)).depth = (id :: ids).length + e.depth ∧
        (e.through (id :: ids)).rootCause = e.rootCause := by
  refine ⟨fun w h ↦ ?_, fun ext w e ids hinside ↦ ⟨?_, e.depth_through _, e.rootCause_through _⟩⟩
  · exact (dispatch_endsAmid w h).mono fun log h' res hres ↦
      ⟨hres, hres.notFound_iff, hres.notAnOperation_iff⟩
  · obtain ⟨w', hends⟩ := hinside.exists_ends
    refine ⟨w', fun o v ↦ ⟨fun h ↦ h.unique hends, ?_⟩⟩
    rintro ⟨rfl, rfl⟩
    exact hends

namespace Small

def relay (id : String) : Component :=
  ⟨0, ⟨id, id, ""⟩, .operation, true, .external⟩

/-- Of three operations the first hands its input on to the second, and this to the third. The third
fails with a failure of its own, which wraps another. -/
def relaying : Outside Unit
  | .execute c ctx data =>
    match c.id with
    | "a" => Company.asHost (Host.dispatch ctx "b" data).run
    | "b" => Company.asHost (Host.dispatch ctx "c" data).run
    | _ => .done (.error (.operationFailed "d" .cancelled))
  | c => .done (answers c)

def relays : Company Unit where
  host := { host with
    registry.components := [("a", relay "a"), ("b", relay "b"), ("c", relay "c")] }
  others := ()

theorem failsInside_relays : Company.FailsInside relaying (.operationFailed "d" .cancelled) "a"
    ["b", "c"] 0 .null relays := by
  have hfails (w : Company Unit) : Company.Replies relaying (.execute (relay "c") 0 .null) w
      (.error (.operationFailed "d" .cancelled)) w :=
    (Company.replies_iff_of_outside rfl).mpr (Prog.leads_done_iff.mpr ⟨rfl, rfl⟩)
  refine .relayed (c := relay "a") rfl rfl rfl (.relayed (c := relay "b") rfl rfl rfl ?_)
  exact .last (c := relay "c") rfl (hfails _)

/-- All three are around the failure of the third, and its root is what was wrapped there. -/
theorem dispatch_relays :
    ∃ w', ∀ o v, Company.Ends relaying (Host.dispatch 0 "a" .null).run relays o v ↔
      o = .error (.operationFailed "a" (.operationFailed "b" (.operationFailed "c"
        (.operationFailed "d" .cancelled)))) ∧ v = w' :=
  ((Host.dispatch_wraps_once 0 "a" .null).2 relaying relays _ _ failsInside_relays).1

end Small

end ComponentHost
