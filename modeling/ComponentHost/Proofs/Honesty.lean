import ComponentHost.Proofs.Ledger

/-!
What the status of a process tells about its components.

A process that is initialized or stopped, and that no call has to itself, has no component that is
started (`Traffic.not_started_of_resting`). That a process is running tells less. A start of a
running process that fails stops the components before the one that refused, and leaves the status
as it is; so where no stop fails, a component of a running process is started just if none of those
declared after it has refused since it was started last (`Traffic.started_iff_not_refused`).
-/

set_option autoImplicit false

namespace ComponentHost

/-! ### What sections make of the components -/

/-- After a start that failed nothing is known of the components before the one that refused but
that they are not started, and nothing has become of those after it. Assumes: no instance is there
twice. -/
theorem StartFails.afterDeeds {ctx : ContextRef} {id : String} {cs : List (String × Component)}
    {ds : List Deed} {e : Error} (h : StartFails ctx id [] cs ds e)
    (hnodup : (Component.refs (cs.map Prod.snd)).Nodup) :
    ∃ before ref after, Component.refs (cs.map Prod.snd) = before ++ ref :: after ∧
      (∀ r ∈ before, ∀ k : Condition, k.afterDeeds r ds = {}) ∧
      (∀ k : Condition, k.afterDeeds ref ds = { k with refused := true }) ∧
      ∀ r ∈ after, ∀ k : Condition, k.afterDeeds r ds = k := by
  obtain @⟨before, after, name, c, e, stops, rfl, hstops, hds⟩ := h
  have hsplit : Component.refs ((before ++ (name, c) :: after).map Prod.snd) =
      Component.refs (before.map Prod.snd) ++
        c.instanceRef :: Component.refs (after.map Prod.snd) := by
    simp [Component.refs]
  have hstopped (r : InstanceRef) : r ∈ Component.refs (stops.map Prod.fst) ↔
      r ∈ Component.refs (before.map Prod.snd) := by
    rw [hstops]
    simp [Component.refs]
  have hcondition (r : InstanceRef) (k : Condition) : k.afterDeeds r ds =
      (((k.afterDeeds r (turns .start ctx (successes before))).afterDeeds r
        (turns .start ctx [(c, .error e)])).afterDeeds r (turns .stop ctx stops)) := by
    rw [← Condition.afterDeeds_account, hds, turns_append, Condition.afterDeeds_append,
      Condition.afterDeeds_append]
  rw [hsplit, List.nodup_append'] at hnodup
  obtain ⟨-, hrest, hdisjoint⟩ := hnodup
  have hbefore (r : InstanceRef) (hr : r ∈ Component.refs (before.map Prod.snd)) :
      r ≠ c.instanceRef ∧ r ∉ Component.refs (after.map Prod.snd) := by
    have hout := hdisjoint hr
    simpa using hout
  refine ⟨_, _, _, hsplit, fun r hr k ↦ ?_, fun k ↦ ?_, fun r hr k ↦ ?_⟩
  · rw [hcondition, Condition.afterDeeds_turns_stop, if_pos ((hstopped r).mpr hr),
      Condition.afterDeeds_turns_refused, if_neg (hbefore r hr).1, Condition.afterDeeds_turns_start,
      if_pos hr]
  · have hc : c.instanceRef ∉ Component.refs (before.map Prod.snd) := fun h ↦ (hbefore _ h).1 rfl
    rw [hcondition, Condition.afterDeeds_turns_stop, if_neg (mt (hstopped _).mp hc),
      Condition.afterDeeds_turns_refused, if_pos rfl, Condition.afterDeeds_turns_start, if_neg hc]
  · have hr' : r ∉ Component.refs (before.map Prod.snd) := fun h ↦ (hbefore r h).2 hr
    have hne : r ≠ c.instanceRef := by
      rintro rfl
      exact (List.nodup_cons.mp hrest).1 hr
    rw [hcondition, Condition.afterDeeds_turns_stop, if_neg (mt (hstopped r).mp hr'),
      Condition.afterDeeds_turns_refused, if_neg hne, Condition.afterDeeds_turns_start, if_neg hr']

/-- A stop starts nothing, whether it fails or not. -/
theorem StopFails.not_started {ctx : ContextRef} {id : String} {cs : List (String × Component)}
    {ds : List Deed} {e : Error} (h : StopFails ctx id cs ds e) {ref : InstanceRef} {k : Condition}
    (hk : k.started = false) : (k.afterDeeds ref ds).started = false := by
  obtain ⟨-, hds⟩ := h
  rw [← Condition.afterDeeds_account, hds, Condition.afterDeeds_turns_stop]
  split
  · rfl
  · exact hk

theorem StopFails.exists_stopFails {ctx : ContextRef} {id : String} {cs : List (String × Component)}
    {ds : List Deed} {e : Error} (h : StopFails ctx id cs ds e) :
    ∃ x, .said x ∈ ds ∧ x.stopFails = true := by
  obtain @⟨before, after, name, c, e, hcs, hds⟩ := h
  refine ⟨.answered (.lifecycle .stop c ctx) (.error e), ?_, rfl⟩
  have hmem : Deed.said (.answered (.lifecycle .stop c ctx) (.error e)) ∈ account ds := by
    simp [hds, turns, turn]
  exact (mem_account.mp hmem).1

/-! ### Processes that do not run -/

/-- Nothing is started behind the status of a process that is initialized or stopped. -/
def Resting (status : ProcessStatus) (ks : List Condition) : Prop :=
  status = .initialized ∨ status = .stopped → ∀ k ∈ ks, k.started = false

theorem sustained_resting : Sustained (fun _ ↦ True) Resting where
  new ks hks _ k hk := by rw [hks k hk]
  section_keeps := by
    intro sec P ds res k hdoes hnodup _ hJ hstatus k' hk'
    obtain ⟨ref, href, rfl⟩ := List.mem_map.mp hk'
    have htarget (u : Unit) (hres : res = .ok u) : (P.after ds).status = sec.target := by
      subst hres
      exact hdoes.status_of_ok
    cases hdoes with
    | rejected => exact hJ hstatus _ hk'
    | startFailed _ hfails =>
      rw [hfails.after_eq] at hstatus
      have hk := hJ hstatus _ (List.mem_map_of_mem href)
      obtain ⟨before, c, after, hrefs, hbefore, hc, hafter⟩ := hfails.afterDeeds hnodup
      rw [Process.refs, hrefs, List.mem_append, List.mem_cons] at href
      rcases href with href | rfl | href
      · rw [hbefore ref href]
      · rw [hc]
        exact hk
      · rw [hafter ref href]
        exact hk
    | stopFailed hfails =>
      rw [hfails.after_eq] at hstatus
      exact hfails.not_started (hJ hstatus _ (List.mem_map_of_mem href))
    | stopped hds =>
      have hstop : ref ∈ Component.refs ((successes P.ordered.reverse).map Prod.fst) := by
        simpa [Process.refs, Component.refs] using href
      rw [← Condition.afterDeeds_account, hds, Condition.afterDeeds_append,
        Condition.afterDeeds_turns_stop, if_pos hstop]
      rfl
    | started | failed =>
      rw [htarget () rfl] at hstatus
      rcases hstatus with hstatus | hstatus <;> cases hstatus

/-! ### Processes that run -/

/-- Every component is started unless one after it has refused. -/
def Truthful : List Condition → Prop
  | [] => True
  | k :: after => (k.started = true ↔ ∀ k' ∈ after, k'.refused = false) ∧ Truthful after

theorem Truthful.of_append {before after : List Condition} (h : Truthful (before ++ after)) :
    Truthful after := by
  induction before with
  | nil => exact h
  | cons k before ih => exact ih h.2

/-- Components that are not started, and before one that has refused. -/
theorem Truthful.append {before after : List Condition} (hafter : Truthful after)
    (hbefore : ∀ k ∈ before, k.started = false) (hrefused : ∃ k ∈ after, k.refused = true) :
    Truthful (before ++ after) := by
  obtain ⟨k', hk', hrefused⟩ := hrefused
  induction before with
  | nil => exact hafter
  | cons k before ih =>
    refine ⟨?_, ih fun k hk ↦ hbefore k (List.mem_cons_of_mem _ hk)⟩
    rw [hbefore k List.mem_cons_self]
    constructor
    · intro h
      cases h
    · intro h
      rw [h k' (List.mem_append_right _ hk')] at hrefused
      cases hrefused

theorem truthful_of_started {ks : List Condition} (h : ∀ k ∈ ks, k = ⟨true, false⟩) :
    Truthful ks := by
  induction ks with
  | nil => trivial
  | cons k ks ih =>
    have hks : ∀ k ∈ ks, k = ⟨true, false⟩ := fun k hk ↦ h k (List.mem_cons_of_mem _ hk)
    refine ⟨?_, ih hks⟩
    rw [h k List.mem_cons_self]
    exact ⟨fun _ k' hk' ↦ by rw [hks k' hk'], fun _ ↦ rfl⟩

/-- A start that fails leaves the components as a running process has them. Those before the one
that refused are no longer started, and it stands after them. -/
theorem StartFails.truthful {ctx : ContextRef} {id : String} {cs : List (String × Component)}
    {ds : List Deed} {e : Error} (h : StartFails ctx id [] cs ds e)
    (hnodup : (Component.refs (cs.map Prod.snd)).Nodup) {k : InstanceRef → Condition}
    (hold : Truthful ((Component.refs (cs.map Prod.snd)).map k)) :
    Truthful ((Component.refs (cs.map Prod.snd)).map fun ref ↦ (k ref).afterDeeds ref ds) := by
  obtain ⟨before, ref, after, hrefs, hbefore, href, hafter⟩ := h.afterDeeds hnodup
  rw [hrefs, List.map_append, List.map_cons] at hold ⊢
  obtain ⟨hstarted, hrest⟩ := hold.of_append
  have hsame : (after.map fun r ↦ (k r).afterDeeds r ds) = after.map k :=
    List.map_congr_left fun r hr ↦ hafter r hr (k r)
  refine Truthful.append ?_ (fun k' hk' ↦ ?_) ⟨_, List.mem_cons_self, ?_⟩
  · rw [href, hsame]
    exact ⟨hstarted, hrest⟩
  · obtain ⟨r, hr, rfl⟩ := List.mem_map.mp hk'
    rw [hbefore r hr]
  · rw [href]

/-- What the status of a running process tells. -/
def Running (status : ProcessStatus) (ks : List Condition) : Prop :=
  status = .running → Truthful ks

theorem sustained_running : Sustained (fun x ↦ x.stopFails = false) Running where
  new ks hks h := by cases h
  section_keeps := by
    intro sec P ds res k hdoes hnodup hA hJ hstatus
    have htarget (u : Unit) (hres : res = .ok u) : (P.after ds).status = sec.target := by
      subst hres
      exact hdoes.status_of_ok
    cases hdoes with
    | rejected => exact hJ hstatus
    | startFailed _ hfails =>
      rw [hfails.after_eq] at hstatus
      exact hfails.truthful hnodup (hJ hstatus)
    | started _ hds =>
      refine truthful_of_started fun k' hk' ↦ ?_
      obtain ⟨ref, href, rfl⟩ := List.mem_map.mp hk'
      have hall : ref ∈ Component.refs (P.ordered.map Prod.snd) := href
      rw [← Condition.afterDeeds_account, hds, Condition.afterDeeds_append,
        Condition.afterDeeds_turns_start, if_pos hall]
      rfl
    | stopFailed hfails =>
      obtain ⟨x, hx, hfailed⟩ := hfails.exists_stopFails
      rw [hA x hx] at hfailed
      cases hfailed
    | stopped | failed =>
      rw [htarget () rfl] at hstatus
      cases hstatus

/-! ### What can be seen of a process at rest -/

namespace Traffic

variable {s : Traffic} {p : ProcessRef}

theorem Reachable.not_atWork_iff (hs : s.Reachable) : ¬s.AtWork p ↔ s.holder p = none := by
  constructor
  · intro hidle
    by_contra hsome
    obtain ⟨i, hi⟩ := Option.ne_none_iff_exists'.mp hsome
    exact hidle (hs.atWork hi)
  · rintro hnone ⟨i, c, -, -, hi⟩
    rw [hnone] at hi
    cases hi

theorem conditions_ordered (P : Process) (xs : List Exchange) :
    conditions P.refs xs = P.ordered.map fun x ↦ condition x.2.instanceRef xs := by
  simp [conditions, Process.refs, Component.refs]

/-- No component of a process that is initialized or stopped is started. Assumes: factories build a
new instance every time, and no call has the process to itself. -/
theorem not_started_of_resting (hs : s.Reachable) (hfresh : s.Fresh)
    (hp : p < s.host.processes.count) (hidle : ¬s.AtWork p)
    (hstatus : (s.process p).status = .initialized ∨ (s.process p).status = .stopped)
    {name : String} {c : Component} (hc : (s.process p).component? name = some c) :
    ¬s.Started c.instanceRef := by
  have hresting := hs.sustained sustained_resting hfresh (fun _ _ ↦ trivial) hp
    (hs.not_atWork_iff.mp hidle) hstatus
  have hmem : (name, c) ∈ (s.process p).ordered := by
    rw [(hs.isComplete hp).ordered]
    obtain ⟨before, after, hsplit, -⟩ := List.lookup_eq_some_iff.mp hc
    rw [hsplit]
    exact List.mem_append_right _ List.mem_cons_self
  rw [started_iff, hresting _ ?_]
  · simp
  · rw [conditions_ordered]
    exact List.mem_map_of_mem hmem

end Traffic

namespace Small

open Traffic

/-- The process was started. -/
def started : Traffic := created.serve (.start 0 0 "p") answers 100

theorem started_reachable : started.Reachable := created_reachable.later (later_serve ..)

/-- The process was started and stopped. -/
def halted : Traffic := started.serve (.stop 0 0 "p") answers 100

theorem halted_reachable : halted.Reachable := started_reachable.later (later_serve ..)

/-- The theorem on a process that was started and stopped. -/
theorem halted_not_started : halted.Reachable ∧ halted.Fresh ∧ 0 < halted.host.processes.count ∧
    ¬halted.AtWork 0 ∧ (halted.process 0).status = .stopped ∧
    (halted.process 0).component? "a" = some (component "a") ∧
    ¬halted.Started (component "a").instanceRef := by
  have hfresh : halted.Fresh := by
    unfold Fresh
    decide +kernel
  have hcount : 0 < halted.host.processes.count := by decide +kernel
  have hidle : ¬halted.AtWork 0 := halted_reachable.not_atWork_iff.mpr (by decide +kernel)
  have hstatus : (halted.process 0).status = .stopped := by decide +kernel
  have hc : (halted.process 0).component? "a" = some (component "a") := by decide +kernel
  exact ⟨halted_reachable, hfresh, hcount, hidle, hstatus, hc,
    not_started_of_resting halted_reachable hfresh hcount hidle (.inr hstatus) hc⟩

end Small

namespace Traffic

variable {s : Traffic} {p : ProcessRef}

/-- A component of a running process is started just if none of those declared after it has refused
since it was started last. Assumes: factories build a new instance every time, no stop has failed,
and no call has the process to itself. -/
theorem started_iff_not_refused (hs : s.Reachable) (hfresh : s.Fresh)
    (hstops : ∀ x ∈ s.exchanges, x.stopFails = false) (hp : p < s.host.processes.count)
    (hidle : ¬s.AtWork p) (hrunning : (s.process p).status = .running) :
    (s.process p).ordered.map Prod.fst = (s.process p).names ∧
      ∀ before name c after, (s.process p).ordered = before ++ (name, c) :: after →
        (s.Started c.instanceRef ↔ ∀ x ∈ after, ¬s.Refused x.2.instanceRef) := by
  have hcomplete := hs.isComplete hp
  have htruthful := hs.sustained sustained_running hfresh hstops hp (hs.not_atWork_iff.mp hidle)
    hrunning
  refine ⟨by rw [hcomplete.ordered, hcomplete.named], fun before name c after hsplit ↦ ?_⟩
  rw [conditions_ordered, hsplit, List.map_append, List.map_cons] at htruthful
  obtain ⟨hstarted, -⟩ := htruthful.of_append
  rw [started_iff, hstarted, List.forall_mem_map]
  simp [refused_iff]

end Traffic

namespace Small

open Traffic

/-- The running process was to be started again, and its second component refused. -/
def refused : Traffic := started.serve (.start 0 0 "p") (answersBut "b") 100

theorem refused_reachable : refused.Reachable := started_reachable.later (later_serve ..)

theorem refused_fresh : refused.Fresh := by
  unfold Fresh
  decide +kernel

theorem refused_noStopFails : ∀ x ∈ refused.exchanges, x.stopFails = false := by decide +kernel

theorem refused_ordered : (refused.process 0).ordered =
    [] ++ ("a", component "a") :: [("b", component "b")] := by decide +kernel

/-- The theorem on a running process of which a component refused to start again. -/
theorem refused_started_iff : refused.Reachable ∧ refused.Fresh ∧
    (∀ x ∈ refused.exchanges, x.stopFails = false) ∧ 0 < refused.host.processes.count ∧
    ¬refused.AtWork 0 ∧ (refused.process 0).status = .running ∧
    (refused.Started (component "a").instanceRef ↔
      ∀ x ∈ [("b", component "b")], ¬refused.Refused x.2.instanceRef) := by
  have hcount : 0 < refused.host.processes.count := by decide +kernel
  have hidle : ¬refused.AtWork 0 := refused_reachable.not_atWork_iff.mpr (by decide +kernel)
  have hrunning : (refused.process 0).status = .running := by decide +kernel
  have hiff := started_iff_not_refused refused_reachable refused_fresh refused_noStopFails hcount
    hidle hrunning
  exact ⟨refused_reachable, refused_fresh, refused_noStopFails, hcount, hidle, hrunning,
    hiff.2 _ _ _ _ refused_ordered⟩

/-- A process is running, all calls are finished and no stop has failed, and a component of the
process was stopped and not started since. -/
theorem running_not_started : ∃ (s : Traffic) (p : ProcessRef) (name : String) (c : Component),
    s.Reachable ∧ s.Fresh ∧ (∀ x ∈ s.exchanges, x.stopFails = false) ∧
    (∀ c ∈ s.clients, c.isFinished = true) ∧ p < s.host.processes.count ∧
    (s.process p).status = .running ∧ (s.process p).component? name = some c ∧
    ¬s.Started c.instanceRef := by
  refine ⟨refused, 0, "a", component "a", refused_reachable, refused_fresh, refused_noStopFails,
    by decide +kernel, by decide +kernel, by decide +kernel, by decide +kernel, ?_⟩
  rw [started_iff]
  decide +kernel

end Small

end ComponentHost
