import ComponentHost.Proofs.Creation
import ComponentHost.Proofs.Scope

/-!
What a request has done that is rejected: nothing.

Some errors say that a request was not begun: the declaration is not valid, the context is
cancelled, there is no identifier, or no such process (`Error.isRejection`). Components may fail
with the same errors, but what they answer comes back wrapped. So who gets such an error from a
single request knows that nothing was touched (`Untouched`): no factory and no component was called,
nothing published, and no record, number or status has changed. It does not matter whether the
request was rejected before it had waited for a process or after that. A restart is not a single
request: its second half may be rejected when the first has come to its end.

If the context is cancelled from the beginning then a request does not get beyond looking at the
host, and if the declaration is not valid then it does not even look
(`Request.rejection_untouched`).
-/

set_option autoImplicit false

namespace ComponentHost

/-! ### Rejections -/

/-- The error says that a request was not begun. -/
def Error.isRejection : Error → Bool
  | .emptyProcessConfig | .validation _ | .cancelled | .idGeneration _ | .processNotFound _ => true
  | _ => false

/-- The host differs in nothing but in which processes are locked. -/
structure Host.SameButLocks (h h' : Host) : Prop where
  rest : h' = { h with processes := h'.processes }
  count : h'.processes.count = h.processes.count
  processes : ∀ p, ∃ locked, h'.processes.get p = { h.processes.get p with locked }

namespace Host.SameButLocks

theorem refl (h : Host) : h.SameButLocks h := ⟨rfl, rfl, fun _ ↦ ⟨_, rfl⟩⟩

theorem locked (h : Host) (p : ProcessRef) (locked : Bool) :
    h.SameButLocks { h with processes := h.processes.modify p ({ · with locked }) } := by
  refine ⟨rfl, rfl, fun q ↦ ?_⟩
  by_cases hq : q = p
  · exact ⟨locked, by rw [hq, Store.get_modify_self]⟩
  · exact ⟨(h.processes.get q).locked, by rw [Store.get_modify_ne _ _ hq]⟩

theorem of_lock? {h h' : Host} {p : ProcessRef} (hlock : lock? p h = some h') :
    h.SameButLocks h' := by
  rw [lock?] at hlock
  split at hlock
  · cases hlock
  · cases hlock
    exact locked h p true

end Host.SameButLocks

/-- Something that leaves no trace: a look at the host, having a process to oneself and giving it
back, a note, or asking for an identifier. -/
inductive Feat.IsHarmless : Feat → Prop where
  | acted {h h' : Host} (hh : h.SameButLocks h') : IsHarmless (.acted h h')
  | note {x : Exchange} (hx : x.call.isNote = true) : IsHarmless (.said x)
  | naming {x : Exchange} {g : GeneratorRef} (hx : x.call = .generateId g) : IsHarmless (.said x)

/-- No factory and no component was called and nothing published, and no status, record or number
has changed. -/
def Untouched (log : List Feat) : Prop := ∀ x ∈ log, x.IsHarmless

namespace Untouched

variable {log : List Feat}

theorem nil : Untouched [] := fun _ hx ↦ absurd hx List.not_mem_nil

theorem append {more : List Feat} (hlog : Untouched log) (hmore : Untouched more) :
    Untouched (log ++ more) := List.forall_mem_append.mpr ⟨hlog, hmore⟩

theorem acted {h h' : Host} (hh : h.SameButLocks h') : Untouched [.acted h h'] :=
  List.forall_mem_singleton.mpr (.acted hh)

theorem looked (h : Host) : Untouched [.acted h h] := acted (.refl h)

theorem opening (m : ManagerRef) (g n : Host) (res : Except Error String) :
    Untouched (opening m g n res) := by
  have hasked : Untouched [.said (.asked (.generateId (n.managers.get m).generator)),
      .said (.answered (.generateId (n.managers.get m).generator) res)] :=
    List.forall_mem_cons.mpr ⟨.naming rfl, List.forall_mem_singleton.mpr (.naming rfl)⟩
  exact (looked g).append ((looked n).append hasked)

/-- Notes leave no trace. -/
theorem of_substance (h : Untouched (substance log)) : Untouched log := by
  intro x hx
  cases hnote : x.isNote with
  | true =>
    cases x with
    | acted => cases hnote
    | said x => exact .note hnote
  | false => exact h x (List.mem_filter.mpr ⟨hx, by rw [hnote]; rfl⟩)

end Untouched

/-- If it is a rejection then nothing was touched. -/
def RejectedUntouched {α : Type} (log : List Feat) (res : Except Error α) : Prop :=
  ∀ e, res = .error e → e.isRejection = true → Untouched log

namespace RejectedUntouched

variable {α : Type} {log : List Feat}

theorem of_untouched {res : Except Error α} (hlog : Untouched log) : RejectedUntouched log res :=
  fun _ _ _ ↦ hlog

theorem ok (a : α) : RejectedUntouched log (.ok a) := fun _ he ↦ by cases he

/-- With any other error something may have been touched. -/
theorem error {e : Error} (he : e.isRejection = false) :
    RejectedUntouched log (.error e : Except Error α) := by
  rintro e' ⟨⟩ he'
  rw [he] at he'
  cases he'

end RejectedUntouched

/-! ### Creating -/

/-- What keeps a component from being prepared is no rejection of the whole. -/
theorem Refusal.not_rejection {ctx : ContextRef} {id : String} {config : ComponentConfig}
    {refusal : List Feat} {e : Error} (h : Refusal ctx id config refusal e) :
    e.isRejection = false := by
  cases h with
  | @unknown g _ hfactory =>
    unfold Registry.factory at hfactory
    split at hfactory
    · cases hfactory
    · cases hfactory
      rfl
  | unbuilt => rfl
  | unready => rfl

theorem Preparation.not_rejection {ctx : ContextRef} {id : String}
    {before : List (String × Component)} {configs : List ComponentConfig} {more : List Feat}
    {e : Error} (h : Preparation ctx id before configs more (.error e)) :
    e.isRejection = false := by
  cases h with
  | failed _ hrefusal _ => exact hrefusal.not_rejection

theorem Creation.rejected {m : ManagerRef} {ctx : ContextRef} {config : ProcessConfig}
    {log : List Feat} {res : Except Error ProcessRef} (h : Creation m ctx config log res) :
    RejectedUntouched log res := by
  cases h with
  | invalid => exact .of_untouched .nil
  | cancelled => exact .of_untouched (.looked _)
  | unnamed => exact .of_untouched (.opening m _ _ _)
  | unprepared _ _ hmore => exact .error hmore.not_rejection
  | taken => exact .error rfl
  | recorded => exact .ok _

/-! ### Sections -/

namespace Host

variable {ctx : ContextRef} {id : String} {p : ProcessRef}

/-- What a component answers to its start comes back wrapped. -/
theorem startEach_performs (started cs : List (String × Component)) :
    (startEach ctx id started cs).run.Performs fun _ res ↦
      ∀ e, res = .error e → e.isRejection = false := by
  induction cs generalizing started with
  | nil => exact fun e he ↦ by cases he
  | cons x rest ih =>
    obtain ⟨name, c⟩ := x
    refine .andThen (.rescue fun answer ↦ ?_)
    cases answer with
    | ok u => exact ih _
    | error e =>
      intro u
      refine .andThen ((rollback_performs started).mono ?_)
      rintro _ _ ⟨rfl, -⟩ e' ⟨⟩
      rfl

/-- What a component answers to its stop comes back wrapped. -/
theorem stopEach_performs (cs : List (String × Component)) :
    (stopEach ctx id cs).run.Performs fun _ res ↦
      ∀ e, res = .error e → e.isRejection = false := by
  induction cs with
  | nil => exact fun e he ↦ by cases he
  | cons x rest ih =>
    obtain ⟨name, c⟩ := x
    refine .andThen (.rescue fun answer ↦ ?_)
    cases answer with
    | ok u => exact ih
    | error e =>
      rintro u e' ⟨⟩
      rfl

/-- What follows when the components have done their part does not fail. -/
theorem conclude_performs {status : ProcessStatus} {level : LogLevel} {message topic : String}
    {entries : Entries} {Q : List Feat → Except Error Unit → Prop} (hQ : ∀ more, Q more (.ok ())) :
    (do
      setStatus p status
      log level message entries
      announce topic p : Action Unit).run.Performs Q :=
  fun _ _ _ _ ↦ hQ _

end Host

/-- A section that is rejected has come after a look at its process and nothing else. -/
theorem Section.body_performs (sec : Section) (p : ProcessRef) :
    (sec.body p).run.Performs RejectedUntouched := by
  cases sec with
  | start ctx id =>
    refine .andThen fun g ↦ ?_
    cases hfailed : (g.processes.get p).rejectFailed with
    | error e =>
      simp only [Prog.Performs, hfailed]
      exact .of_untouched (.looked g)
    | ok u =>
      simp only [Prog.Performs, hfailed]
      refine .andThen fun g' ↦ .andThen ((Host.startEach_performs [] _).mono ?_)
      intro more res hres
      cases res with
      | ok u => exact Host.conclude_performs fun _ ↦ .ok _
      | error e => exact .error (hres e rfl)
  | stop ctx id =>
    refine .andThen fun g ↦ .andThen ((Host.stopEach_performs _).mono ?_)
    intro more res hres
    cases res with
    | ok u => exact Host.conclude_performs fun _ ↦ .ok _
    | error e => exact .error (hres e rfl)
  | fail id reason => exact Host.conclude_performs fun _ ↦ .ok _

/-! ### Requests -/

namespace Host

variable {M : Manner} {log : List Feat} {h : Host} {m : ManagerRef} {ctx : ContextRef} {id : String}
  {p : ProcessRef}

/-- Having waited for a process makes no difference. -/
theorem exclusively_rejected (hM : M.IsFree) (sec : Section) (hlog : Untouched log) :
    (exclusively p (sec.body p)).run.Abides M (fun log' _ ↦ RejectedUntouched log') log h := by
  refine abides_exclusively hM fun g g' _ hlock ↦ ?_
  refine ((sec.body_performs p).abides hM).mono ?_
  rintro log' _ res ⟨more, rfl, hmore⟩ g'' _ e he hrejection
  have hlocked : Untouched (log ++ [.acted g g']) := hlog.append (.acted (.of_lock? hlock))
  exact (hlocked.append (hmore e he hrejection)).append (.acted (.locked g'' p false))

theorem lookup_rejected {α : Type} (hM : M.IsFree) {k : ProcessRef → Action α}
    (hlog : Untouched log)
    (hk : ∀ p log h, Untouched log →
      (k p).run.Abides M (fun log' _ ↦ RejectedUntouched log') log h) :
    (find m id >>= k).run.Abides M (fun log' _ ↦ RejectedUntouched log') log h := by
  refine .andThen (abides_inspect fun g _ ↦ ⟨hM.act _ _ _, ?_⟩)
  have hlooked : Untouched (log ++ [.acted g g]) := hlog.append (.looked g)
  cases (g.managers.get m).find id with
  | error e => exact .of_untouched hlooked
  | ok p => exact hk p _ _ hlooked

theorem checked_rejected {α : Type} (hM : M.IsFree) {x : Action α} (hlog : Untouched log)
    (hx : ∀ log h, Untouched log → x.run.Abides M (fun log' _ ↦ RejectedUntouched log') log h) :
    (checkContext ctx >>= fun _ ↦ x).run.Abides M (fun log' _ ↦ RejectedUntouched log') log h := by
  refine .andThen (abides_inspect fun g _ ↦ ⟨hM.act _ _ _, ?_⟩)
  have hlooked : Untouched (log ++ [.acted g g]) := hlog.append (.looked g)
  cases g.contexts.check ctx with
  | error e => exact .of_untouched hlooked
  | ok u => exact hx _ _ hlooked

theorem removeProcess_performs : (removeProcess m id).run.Performs RejectedUntouched := by
  refine .andThen fun g ↦ ?_
  cases hfind : (g.managers.get m).find id with
  | error e =>
    simp only [Prog.Performs, hfind, bind, Except.bind]
    exact .of_untouched (.looked g)
  | ok p =>
    simp only [Prog.Performs, hfind, bind, Except.bind, pure, Except.pure]
    -- from here on nothing fails
    refine .andThen fun g' ↦ ?_
    show Prog.Performs
      (ExceptT.run (if (g'.processes.get p).status = ProcessStatus.running then _ else _)) _
    split
    · exact fun _ _ _ ↦ .ok _
    · exact fun _ _ ↦ .ok _

end Host

namespace Request

variable {M : Manner} {h : Host}

def IsRestart : Request → Prop
  | .restart _ _ _ => True
  | _ => False

theorem program_rejected {r : Request} (hr : ¬r.IsRestart) (hM : M.IsFree) :
    r.program.Abides M (fun log' _ ↦ RejectedUntouched log') [] h := by
  have hanswer {α : Type} {x : Action α} (f : α → Option ProcessRef)
      (hx : x.run.Abides M (fun log' _ ↦ RejectedUntouched log') [] h) : (do
        let a ← x
        return f a : Action (Option ProcessRef)).run.Abides M (fun log' _ ↦ RejectedUntouched log')
          [] h := by
    refine .andThen (hx.mono fun log' _ res hres ↦ ?_)
    cases res with
    | ok a => exact .ok _
    | error e =>
      rintro e' ⟨⟩
      exact hres e rfl
  cases r with
  | create m ctx config =>
    refine hanswer some ((Host.createProcess_performs.abides hM).mono ?_)
    rintro _ _ res ⟨more, rfl, hmore⟩ e he hrejection
    exact .of_substance (hmore.rejected e he hrejection)
  | start m ctx id =>
    refine hanswer (fun _ ↦ none) (Host.lookup_rejected hM .nil fun p log h hlog ↦ ?_)
    exact Host.checked_rejected hM hlog fun _ _ ↦ Host.exclusively_rejected hM (.start ctx id)
  | stop m ctx id =>
    refine hanswer (fun _ ↦ none) (Host.lookup_rejected hM .nil fun p log h hlog ↦ ?_)
    exact Host.checked_rejected hM hlog fun _ _ ↦ Host.exclusively_rejected hM (.stop ctx id)
  | restart m ctx id => exact absurd trivial hr
  | markFailed m id reason =>
    refine hanswer (fun _ ↦ none) (Host.lookup_rejected hM .nil fun p log h hlog ↦ ?_)
    exact Host.exclusively_rejected hM (.fail id reason) hlog
  | remove m id =>
    refine hanswer some ((Host.removeProcess_performs.abides hM).mono ?_)
    rintro _ _ res ⟨more, rfl, hmore⟩
    exact hmore

end Request

/-! ### Cancelled contexts -/

/-- A declaration that is not valid is rejected. -/
theorem ProcessConfig.rejection_of_validate {config : ProcessConfig} {e : Error}
    (h : config.validate = .error e) : e.isRejection = true := by
  have hnames (seen : List String) (cs : List ComponentConfig)
      (hcs : checkNames seen cs = .error e) : e.isRejection = true := by
    induction cs generalizing seen with
    | nil => cases hcs
    | cons c rest ih =>
      rw [checkNames] at hcs
      split at hcs
      · cases hcs
        rfl
      · split at hcs
        · cases hcs
          rfl
        · exact ih _ hcs
  unfold validate at h
  split at h
  · cases h
    rfl
  · exact hnames _ _ h

/-- The others do not take back that a context is cancelled. -/
def Surroundings.KeepsCancelled (w : Surroundings) (ctx : ContextRef) : Prop :=
  ∀ log h, h.contexts.isCancelled ctx = true → (w.found log h).contexts.isCancelled ctx = true

/-- The client is rejected without having done anything but look. -/
def RejectedAtSight {α : Type} (log : List Feat) (_ : Host) (res : Except Error α) : Prop :=
  ∃ e, res = .error e ∧ e.isRejection = true ∧ OnlyLooks log

namespace Host

variable {w : Surroundings} {log : List Feat} {h : Host} {m : ManagerRef} {ctx : ContextRef}
  {id : String}

theorem checkContext_atSight {α : Type} (x : Action α) (hw : w.KeepsCancelled ctx)
    (hctx : h.contexts.isCancelled ctx = true) (hlog : OnlyLooks log) :
    (checkContext ctx >>= fun _ ↦ x).run.EndsAmid w RejectedAtSight log h := by
  refine .andThen (inspect_endsAmid ?_)
  rw [Contexts.check, if_pos (hw log h hctx)]
  exact ⟨_, rfl, rfl, hlog.looked _⟩

/-- Looking a process up may already be the end. -/
theorem lookup_atSight {α : Type} {k : ProcessRef → Action α} (hw : w.KeepsCancelled ctx)
    (hctx : h.contexts.isCancelled ctx = true) (hlog : OnlyLooks log)
    (hk : ∀ p log h, h.contexts.isCancelled ctx = true → OnlyLooks log →
      (k p).run.EndsAmid w RejectedAtSight log h) :
    (find m id >>= k).run.EndsAmid w RejectedAtSight log h := by
  refine .andThen (inspect_endsAmid ?_)
  cases hfind : ((w.found log h).managers.get m).find id with
  | ok p => exact hk p _ _ (hw log h hctx) (hlog.looked _)
  | error e =>
    unfold Manager.find at hfind
    split at hfind
    · cases hfind
    · cases hfind
      exact ⟨_, rfl, rfl, hlog.looked _⟩

theorem stopProcess_atSight (hw : w.KeepsCancelled ctx) (hctx : h.contexts.isCancelled ctx = true)
    (hlog : OnlyLooks log) : (stopProcess m ctx id).run.EndsAmid w RejectedAtSight log h :=
  lookup_atSight hw hctx hlog fun _ _ _ hctx hlog ↦ checkContext_atSight _ hw hctx hlog

end Host

/-- A request with a context that is cancelled is rejected at sight. -/
theorem Request.program_atSight {w : Surroundings} {h : Host} {ctx : ContextRef} {r : Request}
    (hr : r.context? = some ctx) (hw : w.KeepsCancelled ctx)
    (hctx : h.contexts.isCancelled ctx = true) :
    r.program.EndsAmid w RejectedAtSight [] h := by
  have hanswer {α : Type} {x : Action α} (f : α → Option ProcessRef)
      (hx : x.run.EndsAmid w RejectedAtSight [] h) : (do
        let a ← x
        return f a : Action (Option ProcessRef)).run.EndsAmid w RejectedAtSight [] h := by
    refine .andThen (hx.mono ?_)
    rintro log h' _ ⟨e, rfl, hrejection, hlooks⟩
    exact ⟨e, rfl, hrejection, hlooks⟩
  cases r with
  | create m ctx' config =>
    cases hr
    refine hanswer some (.andThen (x := Action.ofExcept config.validate) (.done ?_))
    cases hvalid : config.validate with
    | error e => exact ⟨e, rfl, config.rejection_of_validate hvalid, onlyLooks_nil⟩
    | ok u => exact Host.checkContext_atSight _ hw hctx onlyLooks_nil
  | start m ctx' id =>
    cases hr
    exact hanswer (fun _ ↦ none) (Host.lookup_atSight hw hctx onlyLooks_nil fun _ _ _ hctx hlog ↦
      Host.checkContext_atSight _ hw hctx hlog)
  | stop m ctx' id =>
    cases hr
    exact hanswer (fun _ ↦ none) (Host.stopProcess_atSight hw hctx onlyLooks_nil)
  | restart m ctx' id =>
    cases hr
    refine hanswer (fun _ ↦ none) (Host.lookup_atSight hw hctx onlyLooks_nil ?_)
    intro p log g hctx hlog
    refine .andThen (Host.inspect_endsAmid ?_)
    cases hfailed : ((w.found log g).processes.get p).rejectFailed with
    | error e =>
      unfold Process.rejectFailed at hfailed
      split at hfailed
      · cases hfailed
        exact ⟨_, rfl, rfl, hlog.looked _⟩
      · cases hfailed
    | ok u =>
      refine .andThen ((Host.stopProcess_atSight hw (hw log g hctx) (hlog.looked _)).mono ?_)
      rintro log h' _ ⟨e, rfl, hrejection, hlooks⟩
      exact ⟨e, rfl, hrejection, hlooks⟩
  | markFailed | remove => cases hr

/-- Whatever the others do meanwhile, a single request that is rejected has touched nothing. If its
context is cancelled from the beginning, and the others do not take that back, then it is rejected
at sight; and if what it declares is not valid then it is rejected without so much as a look. -/
theorem Request.rejection_untouched (r : Request) (w : Surroundings) (h : Host) :
    (¬r.IsRestart → ∀ e log h', r.program.amid w [] h = some (.error e, log, h') →
      e.isRejection = true → Untouched log) ∧
    (∀ ctx, r.context? = some ctx → w.KeepsCancelled ctx → h.contexts.isCancelled ctx = true →
      ∃ e log h', r.program.amid w [] h = some (.error e, log, h') ∧ e.isRejection = true ∧
        OnlyLooks log) ∧
    (∀ m ctx config e, r = .create m ctx config → config.validate = .error e →
      r.program.amid w [] h = some (.error e, [], h) ∧ e.isRejection = true) := by
  refine ⟨fun hr e log h' hends hrejection ↦ ?_, fun ctx hr hw hctx ↦ ?_, ?_⟩
  · have hM : (Manner.alert (fun _ _ _ ↦ True) fun _ _ ↦ True).IsFree :=
      ⟨fun _ _ _ ↦ trivial, fun _ _ ↦ trivial, fun _ ↦ trivial⟩
    exact (program_rejected hr hM).of_amid (fun _ _ ↦ trivial) hends e rfl hrejection
  · obtain ⟨_, log, h', hends, e, rfl, hrejection, hlooks⟩ := program_atSight hr hw hctx
    exact ⟨e, log, h', hends, hrejection, hlooks⟩
  · rintro m ctx config e rfl hinvalid
    have hends : (Request.create m ctx config).program.EndsAmid w
        (fun log' h' res ↦ res = .error e ∧ log' = [] ∧ h' = h) [] h := by
      refine .andThen (.andThen (x := Action.ofExcept config.validate) (.done ?_))
      simp only [hinvalid, and_self]
    obtain ⟨_, _, _, hends, rfl, rfl, rfl⟩ := hends
    exact ⟨hends, config.rejection_of_validate hinvalid⟩

namespace Small

/-- A host with a process that has failed, and a context that is cancelled. -/
def hostWithFailed : Host :=
  { contexts := Contexts.cancel .empty 1
    managers := ⟨1, fun _ ↦ { generator := 0, recorded := [("p", 0)] }⟩
    processes := ⟨1, fun _ ↦
      { id := "p"
        config
        components := [("a", component "a"), ("b", component "b")]
        status := .failed "worn out"
        createdAt := .epoch
        seq := 0 }⟩ }

/-- A process that has failed is not started, nobody works with a context that is cancelled, and a
declaration of nothing is not valid. -/
theorem hostWithFailed_untouched :
    (¬(Request.start 0 0 "p").IsRestart ∧
      ∃ e log h', (Request.start 0 0 "p").program.amid (.undisturbed answers) [] hostWithFailed =
          some (.error e, log, h') ∧ e.isRejection = true ∧ Untouched log) ∧
    ((Request.restart 0 1 "p").context? = some 1 ∧
      (Surroundings.undisturbed answers).KeepsCancelled 1 ∧
        hostWithFailed.contexts.isCancelled 1 = true ∧
          ∃ e log h', (Request.restart 0 1 "p").program.amid (.undisturbed answers) []
              hostWithFailed = some (.error e, log, h') ∧ e.isRejection = true ∧ OnlyLooks log) ∧
    ProcessConfig.validate ⟨[]⟩ = .error .emptyProcessConfig ∧
      (Request.create 0 0 ⟨[]⟩).program.amid (.undisturbed answers) [] hostWithFailed =
          some (.error .emptyProcessConfig, [], hostWithFailed) ∧
        Error.isRejection .emptyProcessConfig = true := by
  have hsingle : ¬(Request.start 0 0 "p").IsRestart := nofun
  have hends : ∃ log h', (Request.start 0 0 "p").program.amid (.undisturbed answers) []
      hostWithFailed = some (.error (.validation
        "process 'p' has failed (worn out) and must be removed"), log, h') := ⟨_, _, rfl⟩
  obtain ⟨log, h', hends⟩ := hends
  have hstays : (Surroundings.undisturbed answers).KeepsCancelled 1 := fun _ _ h ↦ h
  have hcancelled : hostWithFailed.contexts.isCancelled 1 = true := by decide
  refine ⟨⟨hsingle, _, log, h', hends, rfl, ?_⟩, ⟨rfl, hstays, hcancelled, ?_⟩, rfl, ?_⟩
  · exact (Request.rejection_untouched _ _ _).1 hsingle _ _ _ hends rfl
  · exact (Request.rejection_untouched _ _ _).2.1 1 rfl hstays hcancelled
  · exact (Request.rejection_untouched _ _ _).2.2 0 0 ⟨[]⟩ _ rfl rfl

end Small

end ComponentHost
