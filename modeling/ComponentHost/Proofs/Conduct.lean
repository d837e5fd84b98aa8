import ComponentHost.Proofs.Section
import ComponentHost.Proofs.Validation
import Mathlib.Data.List.Basic
import Mathlib.Tactic.SplitIfs

/-!
What the clients of a manager do while they have no process to themselves.

Such a client is at large. A lifecycle call at large makes no calls: it looks, and it may have a
process in hand, one it has found recorded and waits to have to itself. A call that creates or
removes a process takes nothing in hand. It may own components, those it has built and not recorded
with a process; of all components it calls only these, and starts none. It takes one number at most,
and makes no call until it has given it to a process or dropped it.

`Prog.AtLarge` says of a program that it keeps to this, and that every section it enters is one of
its request, until it ends as `Q` says. Every request does (`Request.atLarge`).
-/

set_option autoImplicit false

namespace ComponentHost

/-- The sections a request may go through. -/
def Request.sections : Request → List Section
  | .start _ ctx id => [.start ctx id]
  | .stop _ ctx id => [.stop ctx id]
  | .restart _ ctx id => [.stop ctx id, .start ctx id]
  | .markFailed _ id reason => [.fail id reason]
  | .create _ _ _ | .remove _ _ => []

/-- The request is made of a manager, for what it has recorded under an identifier. -/
def Request.IsAbout (m : ManagerRef) (id : String) : Request → Prop
  | .create _ _ _ => False
  | .start m' _ id' | .stop m' _ id' | .restart m' _ id' | .markFailed m' id' _ | .remove m' id' =>
    m' = m ∧ id' = id

/-- What a client has with him who has no process to himself. -/
structure Baggage where
  /-- The process he has looked up. -/
  hand : Option ProcessRef := none
  /-- The components he has built, the earliest first. -/
  own : List Component := []
  /-- The process he has taken out of the records. -/
  gone : Option ProcessRef := none
  /-- Has he taken a number? -/
  counted : Bool := false
  /-- The number he has taken, until he gives it to a process or drops it. -/
  seq : Option UInt64 := none

/-- The component a factory has built. -/
def Exchange.built? : Exchange → Option Component
  | .answered (.create _ _) (.ok c) => some c
  | _ => none

/-- He has at most a process in hand. -/
def Baggage.IsLight (b : Baggage) : Prop := b = { hand := b.hand }

/-- A component that was built is one's own. -/
def Baggage.after (b : Baggage) (x : Exchange) : Baggage :=
  { b with own := b.own ++ x.built?.toList }

theorem Baggage.after_eq_self (b : Baggage) {x : Exchange} (h : x.built? = none) :
    b.after x = b := by
  simp [Baggage.after, h]

/-- No call of a component, unless it is one of these and not started. -/
def Call.IsPrivate (own : List Component) : Call → Prop
  | .lifecycle phase c _ => phase ≠ .start ∧ c ∈ own
  | _ => True

/-- Every declared name has its component, in declared order. -/
structure Process.IsComplete (P : Process) : Prop where
  named : P.components.map Prod.fst = P.names
  ordered : P.ordered = P.components

/-- A process as it is when it is recorded: complete, free, and of the components built for it. -/
structure Process.IsNew (P : Process) (own : List Component) : Prop where
  initialized : P.status = .initialized
  free : P.locked = false
  complete : P.IsComplete
  components : P.components.map Prod.snd = own

/-- The names of a declaration that is accepted are distinct. -/
theorem ProcessConfig.nodup_names {config : ProcessConfig} (h : config.validate = .ok ()) :
    config.names.Nodup := (validate_eq_ok_iff.mp h).nodup

theorem filterMap_lookup {α : Type} (t : Table α) (hnodup : (t.map Prod.fst).Nodup) :
    (t.map Prod.fst).filterMap (fun name ↦ (t.get? name).map fun a ↦ (name, a)) = t := by
  induction t with
  | nil => rfl
  | cons x rest ih =>
    obtain ⟨name, a⟩ := x
    obtain ⟨hname, hrest⟩ := List.nodup_cons.mp hnodup
    have hself : Table.get? ((name, a) :: rest) name = some a := List.lookup_cons_self
    have hothers : ∀ other ∈ rest.map Prod.fst,
        (Table.get? ((name, a) :: rest) other).map (fun a ↦ (other, a)) =
          (Table.get? rest other).map fun a ↦ (other, a) := by
      intro other hother
      have hne : (other == name) = false := by
        simp only [beq_eq_false_iff_ne]
        rintro rfl
        exact hname hother
      simp only [Table.get?, List.lookup_cons, hne]
    rw [List.map_cons, List.filterMap_cons_some (b := (name, a)) (by simp [hself]),
      List.filterMap_congr hothers, ih hrest]

theorem Process.isComplete {P : Process} (hnames : P.components.map Prod.fst = P.names)
    (hnodup : P.names.Nodup) : P.IsComplete := by
  refine ⟨hnames, ?_⟩
  unfold Process.ordered component?
  rw [← hnames]
  exact filterMap_lookup P.components (hnames ▸ hnodup)

namespace Host

/-- A manager has given away its next number. -/
def counted (h : Host) (m : ManagerRef) : Host :=
  { h with managers := h.managers.modify m fun x ↦ { x with nextSeq := x.nextSeq + 1 } }

/-- A manager has recorded one more process. -/
def recording (h : Host) (m : ManagerRef) (P : Process) : Host :=
  { h with
    processes := (h.processes.add P).2
    managers := h.managers.modify m fun x ↦
      { x with recorded := x.recorded.bind P.id h.processes.count } }

/-- A manager has forgotten what it recorded under an identifier. -/
def forgetting (h : Host) (m : ManagerRef) (id : String) : Host :=
  { h with managers := h.managers.modify m fun x ↦ { x with recorded := x.recorded.erase id } }

end Host

/-- What a request at large may do at once to the host, and what the client has with him before and
after. -/
inductive Deal : Request → Host → Baggage → Host → Baggage → Prop where
  | nothing {r : Request} {h : Host} {b : Baggage} : Deal r h b h b
  | found {r : Request} {h : Host} {b : Baggage} {m : ManagerRef} {id : String} {p : ProcessRef}
      (hr : r.isLifecycle = true) (habout : r.IsAbout m id)
      (hfind : (h.managers.get m).find id = .ok p) :
      Deal r h b h { b with hand := some p }
  | counted {h : Host} {b : Baggage} {m : ManagerRef} {ctx : ContextRef} {config : ProcessConfig}
      (hfirst : b.counted = false) :
      Deal (.create m ctx config) h b (h.counted m)
        { b with counted := true, seq := some (h.managers.get m).nextSeq }
  /-- The identifier is taken. -/
  | dropped {h : Host} {b : Baggage} {m : ManagerRef} {ctx : ContextRef} {config : ProcessConfig} :
      Deal (.create m ctx config) h b h { b with seq := none }
  | recorded {h : Host} {b : Baggage} {m : ManagerRef} {ctx : ContextRef} {config : ProcessConfig}
      {P : Process} (hfree : (h.managers.get m).recorded.contains P.id = false)
      (hnew : P.IsNew b.own) (hseq : b.seq = some P.seq) :
      Deal (.create m ctx config) h b (h.recording m P) { b with own := [], seq := none }
  | removed {h : Host} {b : Baggage} {m : ManagerRef} {id : String} {p : ProcessRef}
      (hfind : (h.managers.get m).find id = .ok p) :
      Deal (.remove m id) h b (h.forgetting m id) { b with gone := some p }

namespace Prog

variable {α β : Type}

/-- The program keeps to what a client at large may do, and ends as `Q` says. -/
inductive AtLarge (r : Request) (Q : Baggage → α → Prop) : Baggage → Prog Host α → Prop where
  | done {b : Baggage} {a : α} (h : Q b a) : AtLarge r Q b (.done a)
  | act {b : Baggage} {f : Host → Host} {k : Host → Prog Host α} (after : Host → Baggage)
      (hdeal : ∀ h, Deal r h b (f h) (after h)) (hk : ∀ h, AtLarge r Q (after h) (k h)) :
      AtLarge r Q b (.act f k)
  | call {b : Baggage} {c : Call} {k : c.Reply → Prog Host α} (hr : r.isLifecycle = false)
      (hc : c.IsPrivate b.own) (hseq : b.seq = none)
      (hk : ∀ reply, AtLarge r Q (b.after (.answered c reply)) (k reply)) :
      AtLarge r Q b (.call c k)
  | visit {p : ProcessRef} {sec : Section} {next : Except Error Unit → Prog Host α}
      (hsec : sec ∈ r.sections) (hnext : ∀ res, AtLarge r Q {} (next res)) :
      AtLarge r Q { hand := some p } (.await (Host.lock? p)
        ((sec.body p).run.bind fun res ↦ .act (Host.unlock p) fun _ ↦ next res))

namespace AtLarge

variable {r : Request} {b : Baggage}

theorem mono {x : Prog Host α} {Q R : Baggage → α → Prop} (hx : x.AtLarge r Q b)
    (h : ∀ b a, Q b a → R b a) : x.AtLarge r R b := by
  induction hx with
  | done hQ => exact .done (h _ _ hQ)
  | act after hdeal _ ih => exact .act after hdeal ih
  | call hr hc hseq _ ih => exact .call hr hc hseq ih
  | visit hsec _ ih => exact .visit hsec ih

theorem bind {x : Prog Host α} {g : α → Prog Host β} {Q : Baggage → α → Prop}
    {R : Baggage → β → Prop} (hx : x.AtLarge r Q b) (hg : ∀ b a, Q b a → (g a).AtLarge r R b) :
    (x.bind g).AtLarge r R b := by
  induction hx with
  | done hQ => exact hg _ _ hQ
  | act after hdeal _ ih => exact .act after hdeal ih
  | call hr hc hseq _ ih => exact .call hr hc hseq ih
  | visit hsec _ ih =>
    rw [Prog.bind, Prog.bind_assoc]
    exact .visit hsec ih

/-- One action after another: the second is taken only if the first succeeds. -/
theorem andThen {x : Action α} {f : α → Action β} {Q : Baggage → Except Error α → Prop}
    {R : Baggage → Except Error β → Prop} (hx : x.run.AtLarge r Q b)
    (hok : ∀ b a, Q b (.ok a) → (f a).run.AtLarge r R b)
    (herror : ∀ b e, Q b (.error e) → R b (.error e)) : (x >>= f).run.AtLarge r R b := by
  refine bind (x := x.run) (g := ExceptT.bindCont f) hx fun b res hQ ↦ ?_
  cases res with
  | ok a => exact hok b a hQ
  | error e => exact .done (herror b e hQ)

/-- An action, and what is done if it fails. -/
theorem rescue {x : Action α} {f : Error → Action α} {Q R : Baggage → Except Error α → Prop}
    (hx : x.run.AtLarge r Q b) (hok : ∀ b a, Q b (.ok a) → R b (.ok a))
    (herror : ∀ b e, Q b (.error e) → (f e).run.AtLarge r R b) :
    (tryCatch x f).run.AtLarge r R b := by
  refine bind (x := x.run) hx fun b res hQ ↦ ?_
  cases res with
  | ok a => exact .done (hok b a hQ)
  | error e => exact herror b e hQ

/-- A look at the host. -/
theorem look {f : Host → Host} {k : Host → Prog Host α} {Q : Baggage → α → Prop}
    (hf : ∀ h, f h = h) (hk : ∀ h, (k h).AtLarge r Q b) : (Prog.act f k).AtLarge r Q b :=
  .act (fun _ ↦ b) (fun h ↦ by rw [hf]; exact .nothing) hk

end AtLarge

end Prog

/-! ### Lifecycle calls -/

namespace Host

open Prog

variable {r : Request} {b : Baggage}

theorem find_atLarge {m : ManagerRef} {id : String} (hr : r.isLifecycle = true)
    (habout : r.IsAbout m id) :
    (find m id).run.AtLarge r (fun b' res ↦ match res with
      | .ok p => b' = { b with hand := some p }
      | .error _ => b' = b) b := by
  let after (h : Host) : Baggage :=
    match (h.managers.get m).find id with
    | .ok p => { b with hand := some p }
    | .error _ => b
  refine .act after (fun h ↦ ?_) fun h ↦ ?_
  · show Deal r h b h (after h)
    cases hfind : (h.managers.get m).find id with
    | ok p => simpa only [after, hfind] using Deal.found hr habout hfind
    | error e => simpa only [after, hfind] using Deal.nothing
  · refine .done ?_
    cases hfind : (h.managers.get m).find id with
    | ok p => simp only [after, hfind]
    | error e => simp only [after, hfind]

/-- Looking a process up, and going through a section of it. -/
theorem visit_atLarge {m : ManagerRef} {id : String} (hr : r.isLifecycle = true)
    (habout : r.IsAbout m id) {sec : Section} (hsec : sec ∈ r.sections) (check : Action Unit)
    (hcheck : ∀ b : Baggage, check.run.AtLarge r (fun b' _ ↦ b' = b) b) (hlight : b.IsLight) :
    (do
      let p ← find m id
      check
      exclusively p (sec.body p) : Action Unit).run.AtLarge r (fun b' _ ↦ b'.IsLight) b := by
  refine .andThen (find_atLarge hr habout) (fun b₁ p hb₁ ↦ ?_) fun b₁ e hb₁ ↦ ?_
  · refine .andThen (hcheck b₁) (fun b₂ u hb₂ ↦ ?_) fun b₂ e hb₂ ↦ ?_
    · obtain rfl : b₂ = { hand := some p } := by rw [hb₂, hb₁, hlight]
      exact .visit hsec fun res ↦ .done rfl
    · rw [hb₂, hb₁, hlight]
      rfl
  · rwa [hb₁]

theorem process_atLarge {α : Type} {Q : Baggage → Except Error α → Prop} {p : ProcessRef}
    {f : Process → Action α} (hf : ∀ P, (f P).run.AtLarge r Q b) :
    (process p >>= f).run.AtLarge r Q b := .look (fun _ ↦ rfl) fun _ ↦ hf _

theorem checkContext_atLarge (ctx : ContextRef) :
    (checkContext ctx).run.AtLarge r (fun b' _ ↦ b' = b) b :=
  .look (fun _ ↦ rfl) fun _ ↦ .done rfl

theorem startProcess_atLarge {m : ManagerRef} {ctx : ContextRef} {id : String}
    (hr : r.isLifecycle = true) (habout : r.IsAbout m id) (hsec : .start ctx id ∈ r.sections)
    (hlight : b.IsLight) :
    (startProcess m ctx id).run.AtLarge r (fun b' _ ↦ b'.IsLight) b :=
  visit_atLarge hr habout hsec (checkContext ctx) (fun _ ↦ checkContext_atLarge ctx) hlight

theorem stopProcess_atLarge {m : ManagerRef} {ctx : ContextRef} {id : String}
    (hr : r.isLifecycle = true) (habout : r.IsAbout m id) (hsec : .stop ctx id ∈ r.sections)
    (hlight : b.IsLight) :
    (stopProcess m ctx id).run.AtLarge r (fun b' _ ↦ b'.IsLight) b :=
  visit_atLarge hr habout hsec (checkContext ctx) (fun _ ↦ checkContext_atLarge ctx) hlight

theorem markFailed_atLarge {m : ManagerRef} {id reason : String} (hr : r.isLifecycle = true)
    (habout : r.IsAbout m id) (hsec : .fail id reason ∈ r.sections) (hlight : b.IsLight) :
    (markFailed m id reason).run.AtLarge r (fun b' _ ↦ b'.IsLight) b :=
  visit_atLarge hr habout hsec (pure ()) (fun _ ↦ .done rfl) hlight

theorem restartProcess_atLarge {m : ManagerRef} {ctx : ContextRef} {id : String}
    (hr : r.isLifecycle = true) (habout : r.IsAbout m id) (hstop : .stop ctx id ∈ r.sections)
    (hstart : .start ctx id ∈ r.sections) (hlight : b.IsLight) :
    (restartProcess m ctx id).run.AtLarge r (fun b' _ ↦ b'.IsLight) b := by
  refine .andThen (find_atLarge hr habout) (fun b₁ p hb₁ ↦ ?_) fun b₁ e hb₁ ↦ by rwa [hb₁]
  have hlight₁ : b₁.IsLight := by
    rw [hb₁, hlight]
    rfl
  have hcheck : (rejectFailed p).run.AtLarge r (fun b' _ ↦ b' = b₁) b₁ :=
    .look (fun _ ↦ rfl) fun _ ↦ .done rfl
  refine .andThen hcheck (fun b₂ u hb₂ ↦ ?_) fun b₂ e hb₂ ↦ by rwa [hb₂]
  refine .andThen (stopProcess_atLarge hr habout hstop (by rwa [hb₂]))
    (fun b₃ u hb₃ ↦ ?_) fun b₃ e hb₃ ↦ hb₃
  exact startProcess_atLarge hr habout hstart hb₃

/-! ### Creating and removing -/

theorem log_atLarge (hr : r.isLifecycle = false) (hseq : b.seq = none) (level : LogLevel)
    (message : String) (entries : Entries) : (log level message entries).run.AtLarge r
      (fun b' res ↦ b' = b ∧ res = .ok ()) b :=
  .call hr trivial hseq fun _ ↦ .done ⟨b.after_eq_self rfl, rfl⟩

theorem announce_atLarge (hr : r.isLifecycle = false) (hseq : b.seq = none) (topic : String)
    (p : ProcessRef) :
    (announce topic p).run.AtLarge r (fun b' res ↦ b' = b ∧ res = .ok ()) b :=
  .look (fun _ ↦ rfl) fun _ ↦
    .call hr trivial hseq fun _ ↦ .done ⟨b.after_eq_self rfl, rfl⟩

theorem rollback_atLarge (hr : r.isLifecycle = false) (hseq : b.seq = none) (ctx : ContextRef)
    (id : String) (cs : List (String × Component)) (hcs : ∀ x ∈ cs, x.2 ∈ b.own) :
    (rollback ctx id cs).run.AtLarge r (fun b' res ↦ b' = b ∧ res = .ok ()) b := by
  induction cs with
  | nil => exact .done ⟨rfl, rfl⟩
  | cons x rest ih =>
    obtain ⟨name, c⟩ := x
    have hrest := ih fun y hy ↦ hcs y (List.mem_cons_of_mem _ hy)
    have hc : (Call.lifecycle .stop c ctx).IsPrivate b.own := ⟨by simp, hcs _ List.mem_cons_self⟩
    refine .call hr hc hseq fun answer ↦ ?_
    rw [b.after_eq_self rfl]
    cases answer with
    | ok u => exact hrest
    | error e =>
      refine .call hr trivial hseq fun u ↦ ?_
      rw [b.after_eq_self rfl]
      exact hrest

/-- A component that was built is the client's own, also if it cannot be set up. -/
theorem prepare_atLarge (hr : r.isLifecycle = false) (hseq : b.seq = none) (ctx : ContextRef)
    (id : String) (config : ComponentConfig) :
    (prepare ctx id config).run.AtLarge r (fun b' res ↦ match res with
      | .ok c => b' = { b with own := b.own ++ [c] }
      | .error _ => b.own ⊆ b'.own ∧ b'.seq = none) b := by
  have hlook : (inspect fun h ↦ h.registry.factory config.factory).run.AtLarge r
      (fun b' _ ↦ b' = b) b := .look (fun _ ↦ rfl) fun _ ↦ .done rfl
  refine .andThen hlook (fun b₁ f hb₁ ↦ ?_) fun b₁ e hb₁ ↦ by
    rw [hb₁]
    exact ⟨List.Subset.refl _, hseq⟩
  subst hb₁
  refine .rescue (Q := fun b' res ↦ match res with
      | .ok c => b' = { b₁ with own := b₁.own ++ [c] }
      | .error _ => b₁.own ⊆ b'.own ∧ b'.seq = none) ?_ (fun _ _ h ↦ h) fun b₂ e hb₂ ↦ .done hb₂
  refine .call hr trivial hseq fun reply ↦ ?_
  cases reply with
  | error e =>
    rw [b₁.after_eq_self rfl]
    exact .done ⟨List.Subset.refl _, hseq⟩
  | ok c =>
    have hc : (Call.lifecycle .setUp c ctx).IsPrivate (b₁.own ++ [c]) := ⟨by simp, by simp⟩
    refine .call hr hc hseq fun answer ↦ ?_
    rw [Baggage.after_eq_self _ rfl]
    cases answer with
    | ok u => exact .done rfl
    | error e => exact .done ⟨List.subset_append_left _ _, hseq⟩

/-- No number is taken meanwhile. -/
theorem prepareAll_atLarge (hr : r.isLifecycle = false) (hseq : b.seq = none) (ctx : ContextRef)
    (id : String) (prepared : List (String × Component)) (configs : List ComponentConfig)
    (hprepared : prepared.map Prod.snd = b.own) :
    (prepareAll ctx id prepared configs).run.AtLarge r (fun b' res ↦ match res with
      | .ok all => all.map Prod.snd = b'.own ∧ b'.counted = b.counted ∧
          all.map Prod.fst = prepared.map Prod.fst ++ configs.map (·.name)
      | .error _ => True) b := by
  induction configs generalizing b prepared with
  | nil => exact .done ⟨hprepared, rfl, by simp⟩
  | cons config rest ih =>
    refine .andThen (Q := fun b' res ↦ match res with
        | .ok c => b' = { b with own := b.own ++ [c] }
        | .error _ => True) ?_ (fun b₁ c hb₁ ↦ ?_) fun _ _ _ ↦ trivial
    · refine .rescue (prepare_atLarge hr hseq ctx id config) (fun _ _ h ↦ h) fun b₁ e hb₁ ↦ ?_
      refine .andThen (log_atLarge hr hb₁.2 _ _ _) (fun b₂ u hb₂ ↦ ?_) fun _ _ _ ↦ trivial
      have hown : ∀ x ∈ prepared, x.2 ∈ b₂.own := fun x hx ↦
        hb₂.1 ▸ hb₁.1 (hprepared ▸ List.mem_map_of_mem hx)
      exact .andThen (rollback_atLarge hr (hb₂.1 ▸ hb₁.2) ctx id prepared hown)
        (fun _ _ _ ↦ .done trivial) fun _ _ _ ↦ trivial
    · have hprepared' : (prepared ++ [(config.name, c)]).map Prod.snd = b₁.own := by
        simp [hb₁, hprepared]
      refine (ih (by rw [hb₁]; exact hseq) _ hprepared').mono fun b₂ res hres ↦ ?_
      cases res with
      | error e => trivial
      | ok all => simpa [hb₁] using hres

theorem takeSeq_atLarge {m : ManagerRef} {ctx : ContextRef} {config : ProcessConfig}
    (hfirst : b.counted = false) :
    (takeSeq m).run.AtLarge (.create m ctx config) (fun b' res ↦
      ∃ seq, res = .ok seq ∧ b' = { b with counted := true, seq := some seq }) b :=
  .act (fun h ↦ { b with counted := true, seq := some (h.managers.get m).nextSeq })
    (fun _ ↦ .counted hfirst) fun _ ↦ .done ⟨_, rfl, rfl⟩

/-- The number goes to the process, or is dropped. -/
theorem recordProcess_atLarge {m : ManagerRef} {ctx : ContextRef} {config : ProcessConfig}
    {P : Process} (hnew : P.IsNew b.own) (hseq : b.seq = some P.seq) :
    (recordProcess m P).run.AtLarge (.create m ctx config) (fun b' res ↦
      b'.seq = none ∧ (res = .ok none → b'.own = b.own)) b := by
  let after (h : Host) : Baggage :=
    if (h.managers.get m).recorded.contains P.id then { b with seq := none }
    else { b with own := [], seq := none }
  refine .act after (fun h ↦ ?_) fun h ↦ ?_
  · by_cases htaken : (h.managers.get m).recorded.contains P.id
    · simpa [htaken, after] using Deal.dropped
    · simp only [htaken, after]
      exact .recorded (by simpa using htaken) hnew hseq
  · by_cases htaken : (h.managers.get m).recorded.contains P.id
    · refine .done ?_
      simp [htaken, after]
    · refine .done ?_
      simp [htaken, after]

theorem createProcess_atLarge (m : ManagerRef) (ctx : ContextRef) (config : ProcessConfig)
    (hb : b = {}) :
    (createProcess m ctx config).run.AtLarge (.create m ctx config) (fun _ _ ↦ True) b := by
  have hr : (Request.create m ctx config).isLifecycle = false := rfl
  have hvalidate : (Action.ofExcept config.validate).run.AtLarge (.create m ctx config)
      (fun b' res ↦ b' = b ∧ res = config.validate) b := .done ⟨rfl, rfl⟩
  refine .andThen hvalidate (fun b₁ u hb₁ ↦ ?_) fun _ _ _ ↦ trivial
  obtain ⟨rfl, hvalid⟩ := hb₁
  have hcheck := checkContext_atLarge (r := .create m ctx config) (b := b₁) ctx
  refine .andThen hcheck (fun b₂ u hb₂ ↦ ?_) fun _ _ _ ↦ trivial
  obtain rfl := hb₂
  subst hb
  -- the generator is asked for an identifier
  refine .look (fun _ ↦ rfl) fun h ↦ .call hr trivial rfl fun reply ↦ ?_
  rw [Baggage.after_eq_self _ rfl]
  cases reply with
  | error e => exact .done trivial
  | ok id =>
    refine .andThen (prepareAll_atLarge hr rfl ctx id [] config.components rfl)
      (fun b₃ all hall ↦ ?_) fun _ _ _ ↦ trivial
    obtain ⟨hown, hfirst, hnames⟩ := hall
    refine .andThen (takeSeq_atLarge hfirst) (fun b₄ seq hb₄ ↦ ?_) fun _ _ _ ↦ trivial
    obtain ⟨_, hseq, rfl⟩ := hb₄
    cases hseq
    refine .look (fun _ ↦ rfl) fun h ↦ ?_
    have hnew : Process.IsNew ⟨id, config, all, .initialized, h.now, seq, false⟩ b₃.own :=
      ⟨rfl, rfl, Process.isComplete hnames (ProcessConfig.nodup_names hvalid.symm), hown⟩
    refine .andThen (recordProcess_atLarge hnew rfl) (fun b₅ recorded hb₅ ↦ ?_)
      fun _ _ _ ↦ trivial
    obtain ⟨hseq₅, hown₅⟩ := hb₅
    cases recorded with
    | none =>
      have hall : ∀ x ∈ all, x.2 ∈ b₅.own := fun x hx ↦
        hown₅ rfl ▸ hown ▸ List.mem_map_of_mem hx
      exact .andThen (rollback_atLarge hr hseq₅ ctx id all hall) (fun _ _ _ ↦ .done trivial)
        fun _ _ _ ↦ trivial
    | some p =>
      refine .andThen (log_atLarge hr hseq₅ _ _ _) (fun b₆ _ hb₆ ↦ ?_) fun _ _ _ ↦ trivial
      exact .andThen (announce_atLarge hr (hb₆.1 ▸ hseq₅) _ _) (fun _ _ _ ↦ .done trivial)
        fun _ _ _ ↦ trivial

/-- A process is removed only if it is not recorded any more. -/
theorem removeProcess_atLarge (m : ManagerRef) (id : String) (hseq : b.seq = none) :
    (removeProcess m id).run.AtLarge (.remove m id) (fun b' res ↦
      ∀ p, res = .ok p → b'.gone = some p) b := by
  have hr : (Request.remove m id).isLifecycle = false := rfl
  have hunrecord : (unrecord m id).run.AtLarge (.remove m id) (fun b' res ↦
      ∀ p, res = .ok p → b' = { b with gone := some p }) b := by
    let after (h : Host) : Baggage :=
      match (h.managers.get m).find id with
      | .ok p => { b with gone := some p }
      | .error _ => b
    refine .act after (fun h ↦ ?_) fun h ↦ .done fun p hp ↦ ?_
    · cases hfind : (h.managers.get m).find id with
      | ok p =>
        simp only [after, hfind, Bind.bind, Except.bind, Pure.pure, Except.pure]
        exact .removed hfind
      | error e =>
        simp only [after, hfind, Bind.bind, Except.bind]
        exact .nothing
    · cases hfind : (h.managers.get m).find id with
      | ok q =>
        simp only [hfind, Bind.bind, Except.bind, Pure.pure, Except.pure] at hp
        cases hp
        simp only [after, hfind]
      | error e =>
        simp only [hfind, Bind.bind, Except.bind] at hp
        cases hp
  refine .andThen hunrecord (fun b₁ p hb₁ ↦ ?_) fun _ _ _ _ hp ↦ by cases hp
  have hb₁ := hb₁ p rfl
  have hseq₁ : b₁.seq = none := by rw [hb₁, hseq]
  have hannounce : (do
      announce Topic.processRemoved p
      return p : Action ProcessRef).run.AtLarge (.remove m id) (fun b' res ↦
        ∀ p, res = .ok p → b'.gone = some p) b₁ := by
    refine .andThen (announce_atLarge hr hseq₁ _ p) (fun b₂ u hb₂ ↦ ?_)
      fun _ _ _ _ hp ↦ by cases hp
    rw [hb₂.1]
    refine .done fun q hq ↦ ?_
    cases hq
    rw [hb₁]
  refine process_atLarge fun P ↦ ?_
  by_cases hrunning : P.status = .running
  · rw [if_pos hrunning]
    refine .call hr trivial hseq₁ fun _ ↦ ?_
    rw [b₁.after_eq_self rfl]
    exact hannounce
  · rw [if_neg hrunning]
    exact hannounce

end Host

namespace Request

/-- What a client has with him at the end: one who has removed a process has taken it out of the
records. -/
def Ends (r : Request) (b : Baggage) (o : Outcome) : Prop :=
  ∀ m id p, r = .remove m id → o = .ok (some p) → b.gone = some p

/-- Nothing is said of the end of a request that removes no process. -/
theorem answer_atLarge {α : Type} {r : Request} {x : Action α} {f : α → Option ProcessRef}
    {Q : Baggage → Except Error α → Prop} (hr : ∀ m id, r ≠ .remove m id)
    (hx : x.run.AtLarge r Q {}) :
    (do
      let a ← x
      return f a : Action (Option ProcessRef)).run.AtLarge r r.Ends {} := by
  have hends : ∀ b o, r.Ends b o := by
    intro b o m id p hremove
    exact absurd hremove (hr m id)
  exact .andThen hx (fun b a _ ↦ .done (hends b _)) fun b e _ ↦ hends b _

/-- Every request keeps to what a client at large may do, and begins with nothing. -/
theorem atLarge (r : Request) : r.program.AtLarge r r.Ends {} := by
  cases r with
  | create m ctx config =>
    exact answer_atLarge (by simp) (Host.createProcess_atLarge m ctx config rfl)
  | remove m id =>
    refine .andThen (Host.removeProcess_atLarge m id rfl) (fun b p hgone ↦ .done ?_)
      fun b e _ ↦ ?_
    · intro m' id' p' _ hp
      cases hp
      exact hgone _ rfl
    · intro m' id' p' _ hp
      cases hp
  | start m ctx id =>
    exact answer_atLarge (by simp) (Host.startProcess_atLarge rfl ⟨rfl, rfl⟩ List.mem_cons_self rfl)
  | stop m ctx id =>
    exact answer_atLarge (by simp) (Host.stopProcess_atLarge rfl ⟨rfl, rfl⟩ List.mem_cons_self rfl)
  | restart m ctx id =>
    have hstart : Section.start ctx id ∈ (Request.restart m ctx id).sections := by simp [sections]
    exact answer_atLarge (by simp)
      (Host.restartProcess_atLarge rfl ⟨rfl, rfl⟩ List.mem_cons_self hstart rfl)
  | markFailed m id reason =>
    exact answer_atLarge (by simp) (Host.markFailed_atLarge rfl ⟨rfl, rfl⟩ List.mem_cons_self rfl)

end Request

end ComponentHost
