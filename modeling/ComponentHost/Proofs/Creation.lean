import ComponentHost.Proofs.Autostart
import ComponentHost.Proofs.Naming
import ComponentHost.Proofs.Surroundings

/-!
How a process comes into being: as a whole, or not at all.

The declared components are prepared one after the other: the factory is looked up, the component is
built and set up. Five things may be in the way: the declaration is not valid, the context is
cancelled, there is no identifier, one of the components cannot be prepared, or the identifier is
taken when all is prepared. `Creation` says of each what has been done then, from the first step to
the last, and what has been done if nothing is in the way.

So a creation that fails has left the records alone and published nothing, and has stopped just the
components it had set up, in the order of their creation (`Undone`); one that succeeds has stopped
nothing, made one record and published one event (`Whole`). There is nothing between the two
(`Host.createProcess_whole_or_undone`), whatever the others make of the host meanwhile and whatever
the collaborators answer.
-/

set_option autoImplicit false

namespace ComponentHost

/-! ### What is done -/

/-- Nothing but talk. -/
def saying (xs : List Exchange) : List Feat := xs.map .said

@[simp] theorem actsIn_saying (xs : List Exchange) : actsIn (saying xs) = [] := by
  induction xs with
  | nil => rfl
  | cons x xs ih => exact ih

def Feat.isNote : Feat → Bool
  | .acted _ _ => false
  | .said x => x.call.isNote

/-- All that has been done, but for the notes. -/
def substance (log : List Feat) : List Feat := log.filter fun x ↦ !x.isNote

@[simp] theorem substance_nil : substance [] = [] := rfl

@[simp] theorem substance_append (xs ys : List Feat) :
    substance (xs ++ ys) = substance xs ++ substance ys := List.filter_append ..

@[simp] theorem substance_acted (h h' : Host) (log : List Feat) :
    substance (.acted h h' :: log) = .acted h h' :: substance log := rfl

@[simp] theorem substance_asked (c : Call) (log : List Feat) :
    substance (.said (.asked c) :: log) =
      if c.isNote then substance log else .said (.asked c) :: substance log := by
  cases hc : c.isNote <;> simp [substance, Feat.isNote, Exchange.call, hc]

@[simp] theorem substance_answered (c : Call) (r : c.Reply) (log : List Feat) :
    substance (.said (.answered c r) :: log) =
      if c.isNote then substance log else .said (.answered c r) :: substance log := by
  cases hc : c.isNote <;> simp [substance, Feat.isNote, Exchange.call, hc]

/-- Writing notes is no act. -/
theorem actsIn_substance (log : List Feat) : actsIn (substance log) = actsIn log := by
  induction log with
  | nil => rfl
  | cons x log ih =>
    cases x with
    | acted h h' => exact congrArg ((h, h') :: ·) ih
    | said x =>
      rw [substance, List.filter_cons]
      split
      · exact ih
      · exact ih

/-! ### Preparing -/

/-- A declared component that was prepared, and the host when its factory was looked up. -/
structure Prepared where
  config : ComponentConfig
  found : Host
  factory : Factory
  component : Component
  resolves : found.registry.factory config.factory = .ok factory

namespace Prepared

def named (x : Prepared) : String × Component := (x.config.name, x.component)

/-- The factory is looked up, the component is built, and then it is set up. -/
def feats (ctx : ContextRef) (x : Prepared) : List Feat :=
  [.acted x.found x.found,
    .said (.asked (.create x.factory x.config)),
    .said (.answered (.create x.factory x.config) (.ok x.component)),
    .said (.asked (.lifecycle .setUp x.component ctx)),
    .said (.answered (.lifecycle .setUp x.component ctx) (.ok ()))]

@[simp] theorem substance_feats (ctx : ContextRef) (x : Prepared) :
    substance (x.feats ctx) = x.feats ctx := by
  simp [feats, Call.isNote]

end Prepared

/-- A declared component cannot be prepared. -/
inductive Refusal (ctx : ContextRef) (id : String) (config : ComponentConfig) :
    List Feat → Error → Prop where
  | unknown {g : Host} {e : Error} (hfactory : g.registry.factory config.factory = .error e) :
      Refusal ctx id config [.acted g g] e
  | unbuilt {g : Host} {f : Factory} {e : Error}
      (hfactory : g.registry.factory config.factory = .ok f) :
      Refusal ctx id config
        [.acted g g, .said (.asked (.create f config)),
          .said (.answered (.create f config) (.error e))]
        (.componentInitFailed id config.name e)
  | unready {g : Host} {f : Factory} {c : Component} {e : Error}
      (hfactory : g.registry.factory config.factory = .ok f) :
      Refusal ctx id config
        [.acted g g, .said (.asked (.create f config)),
          .said (.answered (.create f config) (.ok c)),
          .said (.asked (.lifecycle .setUp c ctx)),
          .said (.answered (.lifecycle .setUp c ctx) (.error e))]
        (.componentInitFailed id config.name e)

theorem Refusal.substance_eq {ctx : ContextRef} {id : String} {config : ComponentConfig}
    {refusal : List Feat} {e : Error} (h : Refusal ctx id config refusal e) :
    substance refusal = refusal := by
  cases h <;> simp [Call.isNote]

/-- The components are stopped, the first first, whatever they answer. -/
def stopsOf (ctx : ContextRef) (stops : List (Component × Except Error Unit)) : List Feat :=
  saying (told (turns .stop ctx stops))

/-- What is done to prepare components, `before` having been prepared already, and what comes of
it. -/
inductive Preparation (ctx : ContextRef) (id : String) (before : List (String × Component))
    (configs : List ComponentConfig) :
    List Feat → Except Error (List (String × Component)) → Prop where
  | ready {xs : List Prepared} (hconfigs : xs.map Prepared.config = configs) :
      Preparation ctx id before configs (xs.flatMap (·.feats ctx))
        (.ok (before ++ xs.map Prepared.named))
  | failed {xs : List Prepared} {config : ComponentConfig} {rest : List ComponentConfig}
      {refusal : List Feat} {e : Error} {stops : List (Component × Except Error Unit)}
      (hconfigs : configs = xs.map Prepared.config ++ config :: rest)
      (hrefusal : Refusal ctx id config refusal e)
      (hstops : stops.map Prod.fst = (before ++ xs.map Prepared.named).map Prod.snd) :
      Preparation ctx id before configs
        (xs.flatMap (·.feats ctx) ++ refusal ++ stopsOf ctx stops) (.error e)

/-- One more component is prepared first. -/
theorem Preparation.cons {ctx : ContextRef} {id : String} {before : List (String × Component)}
    {configs : List ComponentConfig} {more : List Feat}
    {res : Except Error (List (String × Component))} (x : Prepared)
    (h : Preparation ctx id (before ++ [x.named]) configs more res) :
    Preparation ctx id before (x.config :: configs) (x.feats ctx ++ more) res := by
  cases h with
  | @ready xs hconfigs =>
    have hready : Preparation ctx id before (x.config :: configs)
        ((x :: xs).flatMap (·.feats ctx)) (.ok (before ++ (x :: xs).map Prepared.named)) :=
      .ready (congrArg (x.config :: ·) hconfigs)
    simpa using hready
  | @failed xs config rest refusal e stops hconfigs hrefusal hstops =>
    have hfailed : Preparation ctx id before (x.config :: configs)
        ((x :: xs).flatMap (·.feats ctx) ++ refusal ++ stopsOf ctx stops) (.error e) :=
      .failed (congrArg (x.config :: ·) hconfigs) hrefusal (by simpa using hstops)
    simpa using hfailed

namespace Host

variable {ctx : ContextRef} {id : String}

/-- Stopping again stops every component, whatever the others answer. -/
theorem rollback_performs (cs : List (String × Component)) :
    (rollback ctx id cs).run.Performs fun more res ↦ res = .ok () ∧
      ∃ stops, stops.map Prod.fst = cs.map Prod.snd ∧ substance more = stopsOf ctx stops := by
  induction cs with
  | nil => exact ⟨rfl, [], rfl, rfl⟩
  | cons x rest ih =>
    obtain ⟨name, c⟩ := x
    intro answer
    cases answer with
    | ok u =>
      refine ih.mono ?_
      rintro more res ⟨hres, stops, hstops, hmore⟩
      exact ⟨hres, (c, .ok u) :: stops, by simp [hstops],
        by simp [Call.isNote, hmore, stopsOf, saying]⟩
    | error e =>
      intro u
      refine ih.mono ?_
      rintro more res ⟨hres, stops, hstops, hmore⟩
      exact ⟨hres, (c, .error e) :: stops, by simp [hstops],
        by simp [Call.isNote, hmore, stopsOf, saying]⟩

theorem prepare_performs (config : ComponentConfig) :
    (prepare ctx id config).run.Performs fun more res ↦ match res with
      | .ok c => ∃ x : Prepared, x.config = config ∧ x.component = c ∧ more = x.feats ctx
      | .error e => Refusal ctx id config more e := by
  refine .andThen fun g ↦ ?_
  cases hfactory : g.registry.factory config.factory with
  | error e => simpa [Prog.Performs, hfactory] using Refusal.unknown hfactory
  | ok f =>
    simp only [Prog.Performs, hfactory]
    refine .rescue (.andThen fun built ↦ ?_)
    cases built with
    | error e => exact .unbuilt hfactory
    | ok c =>
      refine .andThen fun answer ↦ ?_
      cases answer with
      | error e => exact .unready hfactory
      | ok u => exact ⟨⟨config, g, f, c, hfactory⟩, rfl, rfl, rfl⟩

theorem prepareAll_performs (before : List (String × Component)) (configs : List ComponentConfig) :
    (prepareAll ctx id before configs).run.Performs fun more res ↦
      Preparation ctx id before configs (substance more) res := by
  induction configs generalizing before with
  | nil =>
    have hready : Preparation ctx id before [] (([] : List Prepared).flatMap (·.feats ctx))
        (.ok (before ++ ([] : List Prepared).map Prepared.named)) := .ready rfl
    show Preparation ctx id before [] [] (.ok before)
    simpa using hready
  | cons config rest ih =>
    refine .andThen (.rescue ((prepare_performs config).mono fun done res hres ↦ ?_))
    cases res with
    | ok c =>
      obtain ⟨x, rfl, rfl, rfl⟩ := hres
      exact (ih (before ++ [x.named])).mono fun more res hmore ↦ by
        simpa using hmore.cons x
    | error e =>
      intro u
      refine .andThen ((rollback_performs before).mono ?_)
      rintro more res ⟨rfl, stops, hstops, hmore⟩
      have hfailed : Preparation ctx id before (config :: rest)
          (([] : List Prepared).flatMap (·.feats ctx) ++ done ++ stopsOf ctx stops) (.error e) :=
        .failed rfl hres (by simpa using hstops)
      show Preparation ctx id before (config :: rest) (substance _) (.error e)
      simpa [Call.isNote, hmore, hres.substance_eq] using hfailed

end Host

/-! ### Creating -/

/-- An identifier is asked for: a look at the context, a look at the manager for its generator, and
the question. -/
def opening (m : ManagerRef) (g n : Host) (res : Except Error String) : List Feat :=
  [.acted g g, .acted n n,
    .said (.asked (.generateId (n.managers.get m).generator)),
    .said (.answered (.generateId (n.managers.get m).generator) res)]

@[simp] theorem substance_opening (m : ManagerRef) (g n : Host) (res : Except Error String) :
    substance (opening m g n res) = opening m g n res := by
  simp [opening, Call.isNote]

/-- All that is done to create a process, but for the notes, and what comes of it. -/
inductive Creation (m : ManagerRef) (ctx : ContextRef) (config : ProcessConfig) :
    List Feat → Except Error ProcessRef → Prop where
  | invalid {e : Error} (hinvalid : config.validate = .error e) :
      Creation m ctx config [] (.error e)
  | cancelled {g : Host} (hvalid : config.validate = .ok ())
      (hcancelled : g.contexts.isCancelled ctx = true) :
      Creation m ctx config [.acted g g] (.error .cancelled)
  | unnamed {g n : Host} {e : Error} (hvalid : config.validate = .ok ())
      (hctx : g.contexts.isCancelled ctx = false) :
      Creation m ctx config (opening m g n (.error e)) (.error e)
  | unprepared {g n : Host} {id : String} {more : List Feat} {e : Error}
      (hvalid : config.validate = .ok ()) (hctx : g.contexts.isCancelled ctx = false)
      (hmore : Preparation ctx id [] config.components more (.error e)) :
      Creation m ctx config (opening m g n (.ok id) ++ more) (.error e)
  | taken {g n h₁ h₂ h₃ : Host} {id : String} {more : List Feat}
      {prepared : List (String × Component)} {stops : List (Component × Except Error Unit)}
      (hvalid : config.validate = .ok ()) (hctx : g.contexts.isCancelled ctx = false)
      (hmore : Preparation ctx id [] config.components more (.ok prepared))
      (htaken : (h₃.managers.get m).recorded.contains id = true)
      (hstops : stops.map Prod.fst = prepared.map Prod.snd) :
      Creation m ctx config
        (opening m g n (.ok id) ++ more ++
          [.acted h₁ (h₁.counted m), .acted h₂ h₂, .acted h₃ h₃] ++ stopsOf ctx stops)
        (.error (.internal ("generated process id " ++ Error.quoted id ++ " is already in use")))
  | recorded {g n h₁ h₂ h₃ a : Host} {id : String} {more : List Feat}
      {prepared : List (String × Component)} {P : Process}
      (hvalid : config.validate = .ok ()) (hctx : g.contexts.isCancelled ctx = false)
      (hmore : Preparation ctx id [] config.components more (.ok prepared))
      (hP : P = { id, config, components := prepared, createdAt := h₂.now,
                  seq := (h₁.managers.get m).nextSeq })
      (hfree : (h₃.managers.get m).recorded.contains id = false) :
      Creation m ctx config
        (opening m g n (.ok id) ++ more ++
          [.acted h₁ (h₁.counted m), .acted h₂ h₂, .acted h₃ (h₃.recording m P), .acted a a] ++
          saying (told (announced Topic.processInitialized (a.processes.get h₃.processes.count))))
        (.ok h₃.processes.count)

namespace Host

variable {m : ManagerRef} {ctx : ContextRef} {config : ProcessConfig}

theorem takeSeq_performs : (takeSeq m).run.Performs fun more res ↦
    ∃ g : Host, more = [.acted g (g.counted m)] ∧ res = .ok (g.managers.get m).nextSeq :=
  fun g ↦ ⟨g, rfl, rfl⟩

theorem announce_performs (topic : String) (p : ProcessRef) :
    (announce topic p).run.Performs fun more res ↦ res = .ok () ∧ ∃ g : Host,
      substance more = .acted g g :: saying (told (announced topic (g.processes.get p))) :=
  fun g _ ↦ ⟨rfl, g, by simp [Call.isNote, announced, announcement, saying]⟩

theorem recordProcess_performs (P : Process) :
    (recordProcess m P).run.Performs fun more res ↦ ∃ g : Host,
      ((g.managers.get m).recorded.contains P.id = true ∧ more = [.acted g g] ∧ res = .ok none) ∨
      ((g.managers.get m).recorded.contains P.id = false ∧ more = [.acted g (g.recording m P)] ∧
        res = .ok (some g.processes.count)) := by
  intro g
  refine ⟨g, ?_⟩
  cases htaken : (g.managers.get m).recorded.contains P.id with
  | true => exact .inl ⟨rfl, by simp [htaken], by simp [htaken]⟩
  | false => exact .inr ⟨rfl, by simp [htaken, recording, Store.add], by simp [htaken, Store.add]⟩

theorem createNamed_performs {g n : Host} {id : String} (hvalid : config.validate = .ok ())
    (hctx : g.contexts.isCancelled ctx = false) :
    (createNamed m ctx config id).run.Performs fun more res ↦
      Creation m ctx config (opening m g n (.ok id) ++ substance more) res := by
  refine .andThen ((prepareAll_performs [] config.components).mono fun more res hmore ↦ ?_)
  cases res with
  | error e => exact .unprepared hvalid hctx hmore
  | ok prepared =>
    refine .andThen (takeSeq_performs.mono ?_)
    rintro done res ⟨h₁, rfl, rfl⟩ h₂
    refine .andThen ((recordProcess_performs _).mono ?_)
    rintro done res ⟨h₃, ⟨htaken, rfl, rfl⟩ | ⟨hfree, rfl, rfl⟩⟩
    · refine .andThen ((rollback_performs prepared).mono ?_)
      rintro back res ⟨rfl, stops, hstops, hback⟩
      show Creation m ctx config (_ ++ substance _) (.error _)
      simpa [hback] using Creation.taken (n := n) hvalid hctx hmore htaken hstops
    · intro u
      refine .andThen ((announce_performs _ _).mono ?_)
      rintro news res ⟨rfl, a, hnews⟩
      show Creation m ctx config (_ ++ substance _) (.ok _)
      simpa [Call.isNote, hnews] using
        Creation.recorded (n := n) (a := a) hvalid hctx hmore rfl hfree

/-- Nothing is in the way of a creation but what `Creation` says. -/
theorem createProcess_performs :
    (createProcess m ctx config).run.Performs fun more res ↦
      Creation m ctx config (substance more) res := by
  rw [createProcess_eq]
  cases hvalid : config.validate with
  | error e => exact .invalid hvalid
  | ok u =>
    refine .andThen (x := Action.ofExcept (.ok u)) (.andThen fun g ↦ ?_)
    cases hctx : g.contexts.isCancelled ctx with
    | true => simpa [Prog.Performs, Contexts.check, hctx] using Creation.cancelled hvalid hctx
    | false =>
      simp only [Prog.Performs, Contexts.check, hctx, Bool.false_eq_true, if_false]
      intro n
      refine .andThen fun named ↦ ?_
      cases named with
      | error e =>
        show Creation m ctx config (substance _) (.error e)
        simpa [Call.isNote, opening] using Creation.unnamed (n := n) hvalid hctx
      | ok id =>
        refine (createNamed_performs (n := n) hvalid hctx).mono fun more res hmore ↦ ?_
        simpa [Call.isNote, opening] using hmore

end Host

/-! ### Milestones -/

/-- What shows from outside how far a creation has come. -/
inductive Milestone where
  /-- The component has been set up. -/
  | ready (c : Component)
  /-- The component is asked to stop. -/
  | stopping (c : Component)
  /-- An event is published. -/
  | news (topic : String) (payload : Json)

def Exchange.milestone? : Exchange → Option Milestone
  | .answered (.lifecycle .setUp c _) (.ok _) => some (.ready c)
  | .asked (.lifecycle .stop c _) => some (.stopping c)
  | .asked (.publish topic payload) => some (.news topic payload)
  | _ => none

/-- The milestones, the earliest first. -/
def milestonesIn (log : List Feat) : List Milestone :=
  (exchangesIn log).filterMap Exchange.milestone?

@[simp] theorem milestonesIn_nil : milestonesIn [] = [] := rfl

@[simp] theorem milestonesIn_append (xs ys : List Feat) :
    milestonesIn (xs ++ ys) = milestonesIn xs ++ milestonesIn ys := by
  simp [milestonesIn]

@[simp] theorem milestonesIn_acted (h h' : Host) (log : List Feat) :
    milestonesIn (.acted h h' :: log) = milestonesIn log := rfl

@[simp] theorem milestonesIn_said (x : Exchange) (log : List Feat) :
    milestonesIn (.said x :: log) = x.milestone?.toList ++ milestonesIn log := by
  cases hx : x.milestone? <;> simp [milestonesIn, hx]

/-- Notes are no milestones. -/
theorem milestonesIn_substance (log : List Feat) :
    milestonesIn (substance log) = milestonesIn log := by
  induction log with
  | nil => rfl
  | cons x log ih =>
    cases x with
    | acted h h' => exact ih
    | said x =>
      rcases x with c | ⟨c, r⟩ <;> cases c <;> simp [Call.isNote, ih, Exchange.milestone?]

theorem milestonesIn_feats (ctx : ContextRef) (xs : List Prepared) :
    milestonesIn (xs.flatMap (·.feats ctx)) = (xs.map Prepared.component).map .ready := by
  induction xs with
  | nil => rfl
  | cons x xs ih =>
    rw [List.flatMap_cons, milestonesIn_append, ih]
    rfl

theorem milestonesIn_stopsOf (ctx : ContextRef) (stops : List (Component × Except Error Unit)) :
    milestonesIn (stopsOf ctx stops) = (stops.map Prod.fst).map .stopping := by
  induction stops with
  | nil => rfl
  | cons x stops ih => exact congrArg (.stopping x.1 :: ·) ih

/-- A component that cannot be prepared leaves no milestone. -/
theorem Refusal.milestones {ctx : ContextRef} {id : String} {config : ComponentConfig}
    {refusal : List Feat} {e : Error} (h : Refusal ctx id config refusal e) :
    milestonesIn refusal = [] := by
  cases h <;> rfl

/-! ### What stays the same -/

/-- The records of all managers are the same, and so is the registry. -/
structure Host.SameRecords (h h' : Host) : Prop where
  recorded : ∀ m, (h'.managers.get m).recorded = (h.managers.get m).recorded
  processes : h'.processes = h.processes
  registry : h'.registry = h.registry

namespace Host.SameRecords

theorem refl (h : Host) : h.SameRecords h := ⟨fun _ ↦ rfl, rfl, rfl⟩

theorem counted (h : Host) (m : ManagerRef) : h.SameRecords (h.counted m) where
  recorded m' := by by_cases hm : m' = m <;> simp [Host.counted, hm]
  processes := rfl
  registry := rfl

end Host.SameRecords

/-- No act touches what is recorded. -/
def KeepsAllRecords (log : List Feat) : Prop := ∀ x ∈ actsIn log, x.1.SameRecords x.2

namespace KeepsAllRecords

theorem append {xs ys : List Feat} (hxs : KeepsAllRecords xs) (hys : KeepsAllRecords ys) :
    KeepsAllRecords (xs ++ ys) := by
  intro x hx
  rw [actsIn_append, List.mem_append] at hx
  exact hx.elim (hxs x) (hys x)

theorem acted {h h' : Host} {log : List Feat} (hh : h.SameRecords h') (hlog : KeepsAllRecords log) :
    KeepsAllRecords (.acted h h' :: log) := List.forall_mem_cons.mpr ⟨hh, hlog⟩

theorem saying (xs : List Exchange) : KeepsAllRecords (saying xs) := by simp [KeepsAllRecords]

theorem feats (ctx : ContextRef) (xs : List Prepared) :
    KeepsAllRecords (xs.flatMap (·.feats ctx)) := by
  induction xs with
  | nil => exact saying []
  | cons x xs ih => exact append (acted (.refl _) fun _ hx ↦ by cases hx) ih

theorem refusal {ctx : ContextRef} {id : String} {config : ComponentConfig} {refusal : List Feat}
    {e : Error} (h : Refusal ctx id config refusal e) : KeepsAllRecords refusal := by
  cases h <;> exact acted (.refl _) fun _ hx ↦ by cases hx

theorem opening (m : ManagerRef) (g n : Host) (res : Except Error String) :
    KeepsAllRecords (opening m g n res) :=
  acted (.refl g) (acted (.refl n) fun _ hx ↦ by cases hx)

theorem preparation {ctx : ContextRef} {id : String} {before : List (String × Component)}
    {configs : List ComponentConfig} {more : List Feat}
    {res : Except Error (List (String × Component))}
    (h : Preparation ctx id before configs more res) : KeepsAllRecords more := by
  cases h with
  | ready => exact feats ctx _
  | failed _ hrefusal _ => exact (append (feats ctx _) (refusal hrefusal)).append (saying _)

end KeepsAllRecords

/-! ### As a whole, or not at all -/

/-- No record was touched and nothing published, and the components that were set up were stopped
after that, each once and the first first. -/
structure Undone (log : List Feat) : Prop where
  kept : KeepsAllRecords log
  stopped : ∃ cs : List Component,
    milestonesIn log = cs.map .ready ++ cs.map .stopping

/-- One process was recorded, under the identifier that was generated and where none was recorded,
with the declared components as they were set up. No other record was touched, no component
stopped, and one event published. -/
inductive Whole (m : ManagerRef) (config : ProcessConfig) (log : List Feat) :
    ProcessRef → Prop where
  | intro {P : Process} {g : Host} {before after : List Feat} {generator : GeneratorRef}
      {payload : Json}
      (hlog : substance log = before ++ .acted g (g.recording m P) :: after)
      (hbefore : KeepsAllRecords before) (hafter : KeepsAllRecords after)
      (hnamed : .answered (.generateId generator) (.ok P.id) ∈ exchangesIn before)
      (hfree : (g.managers.get m).recorded.contains P.id = false)
      (hstatus : P.status = .initialized) (hconfig : P.config = config)
      (hnames : P.ordered.map Prod.fst = config.names)
      (hready : milestonesIn before = (P.ordered.map Prod.snd).map .ready)
      (hnews : milestonesIn after = [.news Topic.processInitialized payload]) :
      Whole m config log g.processes.count

theorem Undone.of_substance {log : List Feat} (h : Undone (substance log)) : Undone log where
  kept x hx := h.kept x (actsIn_substance log ▸ hx)
  stopped := milestonesIn_substance log ▸ h.stopped

namespace Preparation

variable {ctx : ContextRef} {id : String} {configs : List ComponentConfig} {more : List Feat}

/-- What was prepared is stopped again if there is no going on. -/
theorem undone {e : Error} (h : Preparation ctx id [] configs more (.error e)) : Undone more := by
  refine ⟨.preparation h, ?_⟩
  cases h with
  | @failed xs config rest refusal e stops hconfigs hrefusal hstops =>
    have hcs : stops.map Prod.fst = xs.map Prepared.component := by
      simpa [Prepared.named, Function.comp_def] using hstops
    refine ⟨xs.map Prepared.component, ?_⟩
    rw [milestonesIn_append, milestonesIn_append, milestonesIn_feats, hrefusal.milestones,
      milestonesIn_stopsOf, List.append_nil, hcs]

/-- All that was declared is ready, and bears the names that were declared. -/
theorem of_ok {prepared : List (String × Component)}
    (h : Preparation ctx id [] configs more (.ok prepared)) :
    milestonesIn more = (prepared.map Prod.snd).map .ready ∧
      prepared.map Prod.fst = configs.map (·.name) := by
  cases h with
  | @ready xs hconfigs =>
    rw [milestonesIn_feats, ← hconfigs]
    exact ⟨by simp [Prepared.named], by simp [Prepared.named]⟩

end Preparation

namespace Creation

variable {m : ManagerRef} {ctx : ContextRef} {config : ProcessConfig} {log : List Feat}

/-- A creation that fails leaves nothing behind. -/
theorem undone {e : Error} (h : Creation m ctx config log (.error e)) : Undone log := by
  cases h with
  | invalid => exact ⟨.saying [], [], rfl⟩
  | cancelled => exact ⟨.acted (.refl _) (.saying []), [], rfl⟩
  | unnamed => exact ⟨.opening m _ _ _, [], rfl⟩
  | unprepared _ _ hmore =>
    obtain ⟨hkept, cs, hcs⟩ := hmore.undone
    exact ⟨.append (.opening m _ _ _) hkept, cs, by rw [milestonesIn_append, hcs]; rfl⟩
  | @taken g n h₁ h₂ h₃ id more prepared stops _ _ hmore _ hstops =>
    have hcounting : KeepsAllRecords [.acted h₁ (h₁.counted m), .acted h₂ h₂, .acted h₃ h₃] :=
      .acted (.counted h₁ m) (.acted (.refl h₂) (.acted (.refl h₃) (.saying [])))
    have hkept := KeepsAllRecords.append (.opening m g n (.ok id)) (.preparation hmore)
    refine ⟨(hkept.append hcounting).append (.saying _), prepared.map Prod.snd, ?_⟩
    rw [milestonesIn_append, milestonesIn_append, milestonesIn_append, hmore.of_ok.1,
      milestonesIn_stopsOf, hstops]
    simp [opening, Exchange.milestone?]

/-- A creation that succeeds leaves a whole process behind. -/
theorem whole {p : ProcessRef} (h : Creation m ctx config (substance log) (.ok p)) :
    Whole m config log p := by
  generalize hlog : substance log = done at h
  cases h with
  | @recorded g n h₁ h₂ h₃ a id more prepared P hvalid _ hmore hP hfree =>
    obtain ⟨hready, hnames⟩ := hmore.of_ok
    have hordered : P.ordered = prepared := by
      have hcomplete : P.IsComplete := Process.isComplete (by rw [hP]; exact hnames)
        (by rw [hP]; exact ProcessConfig.nodup_names hvalid)
      rw [hcomplete.ordered, hP]
    have hnamed : .answered (.generateId (n.managers.get m).generator) (.ok P.id) ∈ exchangesIn
        (opening m g n (.ok id) ++ more ++ [.acted h₁ (h₁.counted m), .acted h₂ h₂]) := by
      simp [opening, hP]
    have hmilestones : milestonesIn
        (opening m g n (.ok id) ++ more ++ [.acted h₁ (h₁.counted m), .acted h₂ h₂]) =
          (P.ordered.map Prod.snd).map .ready := by
      rw [milestonesIn_append, milestonesIn_append, hready, hordered]
      simp [opening, Exchange.milestone?]
    have hsplit : substance log = opening m g n (.ok id) ++ more ++
        [.acted h₁ (h₁.counted m), .acted h₂ h₂] ++ .acted h₃ (h₃.recording m P) ::
          .acted a a :: saying (told (announced Topic.processInitialized
            (a.processes.get h₃.processes.count))) := by
      simp [hlog]
    refine .intro hsplit ?_ (.acted (.refl a) (.saying _)) hnamed (hP ▸ hfree)
      (by rw [hP]) (by rw [hP]) (by rw [hordered]; exact hnames) hmilestones rfl
    exact .append (.append (.opening m g n _) (.preparation hmore))
      (.acted (.counted h₁ m) (.acted (.refl h₂) (.saying [])))

end Creation

/-- Whatever the others do to the host, and whatever the collaborators answer, a creation comes to
its end, and either a process has come into being as a whole or nothing is left behind. -/
theorem Host.createProcess_whole_or_undone (w : Surroundings) (m : ManagerRef) (ctx : ContextRef)
    (config : ProcessConfig) (h : Host) :
    ∃ res log h', (createProcess m ctx config).run.amid w [] h = some (res, log, h') ∧
      Creation m ctx config (substance log) res ∧
        match res with
        | .ok p => Whole m config log p
        | .error _ => Undone log := by
  have hperforms : (createProcess m ctx config).run.EndsAmid w _ [] h :=
    createProcess_performs.endsAmid
  obtain ⟨res, log, h', hends, more, rfl, hcreation⟩ := hperforms
  refine ⟨res, _, h', hends, hcreation, ?_⟩
  cases res with
  | ok p => exact hcreation.whole
  | error e => exact hcreation.undone.of_substance

end ComponentHost
