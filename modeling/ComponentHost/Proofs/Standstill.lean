import ComponentHost.Host.Alone
import ComponentHost.Proofs.Waiting

/-!
Components that report, from inside their own start or stop, that their process has failed.

Such a report is a call of the manager like any other, and the component that makes it answers only
when the report has returned. `Reporting` is the traffic of a host with such components: who has
made which report, and whose answer is held up by it.

A report of the failure of a process waits for the lifecycle call that has the process to itself. So
a call whose component reports just this process waits for itself, for ever
(`Reporting.WaitsForItself`). This is the only way in which the calls come to a standstill: every
call that is not finished can move, or waits, over one or several others, for one that can move or
that waits for itself (`Reporting.exists_blocker`). What a call has to itself is never newer than
what its components find when they report (`Traffic.Newest`), so the others that a call waits for
are about newer and newer processes, and there are only finitely many.
-/

set_option autoImplicit false

namespace ComponentHost

/-! ### What is looked up is new -/

namespace Traffic

variable {s t : Traffic} {σ τ : Nat → Stage} {m : Move}

/-- Nothing that is recorded under the identifier a call is about is older than what the call has to
itself or in hand. -/
def Newest (s : Traffic) (σ : Nat → Stage) : Prop :=
  ∀ i c p, s.clients[i]? = some c → (σ i).Claims p → ∀ M id q, c.request.IsAbout M id →
    (s.host.managers.get M).find id = .ok q → p ≤ q

theorem Newest.step (hnewest : s.Newest σ) (hs : Staged s σ) (hshift : Shift s σ m t τ)
    (hhappens : s.Happens m t) : t.Newest τ := by
  intro i c p hi hclaims M id q habout hfind
  have hclaimed := hshift.claims hclaims
  cases hbefore : s.clients[i]? with
  | none => exact absurd hclaims (hshift.not_claims_of_new hs hbefore p)
  | some c₀ =>
    obtain ⟨task, htask, -⟩ := hhappens.exists_client hbefore
    obtain rfl : ⟨c₀.request, task⟩ = c := Option.some.inj (htask.symm.trans hi)
    have hfound : ∀ q', (s.host.managers.get M).find id = .ok q' → p ≤ q' := by
      intro q' hq'
      rcases hclaimed with hclaimed | ⟨c', M', id', hc', habout', hfind'⟩
      · exact hnewest i c₀ p hbefore hclaimed M id q' habout hq'
      · obtain rfl : c₀ = c' := Option.some.inj (hbefore.symm.trans hc')
        obtain ⟨rfl, rfl⟩ := habout.unique habout'
        exact Nat.le_of_eq (Except.ok.inj (hfind'.symm.trans hq'))
    rcases hshift.find_eq_or hfind with hold | rfl
    · exact hfound q hold
    · rcases hclaimed with hclaimed | ⟨-, M', id', -, -, hfind'⟩
      · exact Nat.le_of_lt (hs.lt_of_claims hclaimed)
      · exact Nat.le_of_lt (hs.recorded p ⟨M', id', Manager.mem_of_find hfind'⟩)

end Traffic

/-! ### Reports -/

/-- A component that is called for the sake of one request may report, by another, that the process
it belongs to has failed. While a process is created its identifier is anybody's guess. -/
def Request.mayReport : Request → Request → Bool
  | .create m _ _, .markFailed m' _ _ => m' = m
  | .start m _ id, .markFailed m' id' _ | .stop m _ id, .markFailed m' id' _
  | .restart m _ id, .markFailed m' id' _ => m' = m ∧ id' = id
  | _, _ => false

/-- Who reports for a call that goes through sections is about the same identifier. -/
theorem Request.IsAbout.of_mayReport {r r' : Request} {m : ManagerRef} {id : String}
    (h : r'.IsAbout m id) (hmay : r.mayReport r' = true) {sec : Section} (hsec : sec ∈ r.sections) :
    r.IsAbout m id := by
  cases r with
  | create | remove => cases hsec
  | start | stop | restart =>
    cases r' with
    | markFailed =>
      obtain ⟨rfl, rfl⟩ := h
      obtain ⟨rfl, rfl⟩ := of_decide_eq_true hmay
      exact ⟨rfl, rfl⟩
    | _ => cases hmay
  | markFailed => cases r' <;> cases hmay

/-- A report does not call components that could report. -/
theorem Request.not_mayReport {r r' r'' : Request} (hmay : r.mayReport r' = true) :
    r'.mayReport r'' = false := by
  cases r' with
  | markFailed => cases r'' <;> rfl
  | _ => cases r <;> cases hmay

/-- The clients of a host and the reports their components make, each of which is a client. -/
structure Reporting where
  traffic : Traffic
  /-- The latest report of a component the client calls. -/
  report : Nat → Option Nat := fun _ ↦ none

namespace Reporting

/-- The report that holds up the component a client has called. -/
def pending? (s : Reporting) (i : Nat) : Option Nat :=
  (s.report i).filter fun j ↦ s.traffic.clients[j]?.any fun c ↦ !c.isFinished

/-- A component does not answer while its report has not returned. -/
def isHeldUp (s : Reporting) : Move → Bool
  | .answer i _ => (s.pending? i).isSome
  | _ => false

/-- The component a client has called may make the report now: it starts or stops, and has no other
report to wait for. -/
def mayReport (s : Reporting) (i : Nat) (r : Request) : Bool :=
  match s.traffic.clients[i]? with
  | some ⟨r', .asking (.lifecycle phase _ _) _⟩ =>
    phase ≠ .setUp && (s.pending? i).isNone && r'.mayReport r
  | _ => false

/-- The component a client has called makes a report. -/
def reported (s : Reporting) (i : Nat) (r : Request) : Reporting where
  traffic := { s.traffic with clients := s.traffic.clients ++ [⟨r, .going r.program⟩] }
  report := Function.update s.report i (some s.traffic.clients.length)

/-- One move, or one report, leads from a state to another. -/
inductive Next (s : Reporting) : Reporting → Prop where
  | moved {m : Move} {t : Traffic} (hfree : s.isHeldUp m = false)
      (hstep : s.traffic.step m = some t) : Next s { s with traffic := t }
  | reported {i : Nat} {r : Request} (hmay : s.mayReport i r = true) : Next s (s.reported i r)

/-- Some moves and reports lead from a state to another. -/
def Later : Reporting → Reporting → Prop := Relation.ReflTransGen Next

/-- A run leads to the state from a host on which nothing has been recorded. -/
def Reachable (s : Reporting) : Prop :=
  ∃ h : Host, h.Unused ∧ Later { traffic := { host := h } } s

/-- The client can make a move. -/
def CanMove (s : Reporting) (i : Nat) : Prop :=
  ∃ m t, m.client? = some i ∧ s.isHeldUp m = false ∧ s.traffic.step m = some t

/-- Some call is not finished. -/
def Busy (s : Reporting) : Prop :=
  ∃ (i : Nat) (c : Client), s.traffic.clients[i]? = some c ∧ c.isFinished = false

/-- One call waits for another to finish, or to give a process back. -/
inductive WaitsOn (s : Reporting) (i j : Nat) : Prop where
  | report (h : s.pending? i = some j)
  | lock {p : ProcessRef} (hi : s.traffic.WaitsFor i p) (hj : s.traffic.holder p = some j)

/-- The component a call waits for waits for its report, and the report waits for the process that
the call has to itself. -/
def WaitsForItself (s : Reporting) (i : Nat) : Prop :=
  ∃ j p, s.pending? i = some j ∧ s.traffic.WaitsFor j p ∧ s.traffic.holder p = some i

variable {s t : Reporting} {σ τ : Nat → Stage} {m : Move} {i j : Nat} {p q : ProcessRef}

theorem pending?_eq_some : s.pending? i = some j ↔
    s.report i = some j ∧
      ∃ c : Client, s.traffic.clients[j]? = some c ∧ c.isFinished = false := by
  simp [pending?, Option.filter_eq_some_iff, Option.any_eq_true]

/-- A report is made for the sake of the request whose component makes it. -/
theorem exists_of_mayReport {r : Request} (hmay : s.mayReport i r = true) :
    ∃ r' x k, s.traffic.clients[i]? = some ⟨r', .asking x k⟩ ∧ s.pending? i = none ∧
      r'.mayReport r = true := by
  unfold mayReport at hmay
  split at hmay
  · rename_i hi
    simp only [Bool.and_eq_true, Option.isNone_iff_eq_none] at hmay
    exact ⟨_, _, _, hi, hmay.1.2, hmay.2⟩
  · cases hmay

theorem report_reported_self (s : Reporting) (i : Nat) (r : Request) :
    (s.reported i r).report i = some s.traffic.clients.length := Function.update_self ..

theorem report_reported_ne (s : Reporting) (r : Request) (hij : j ≠ i) :
    (s.reported i r).report j = s.report j := Function.update_of_ne hij ..

theorem getElem?_reported {r : Request} {c : Client} (hj : s.traffic.clients[j]? = some c) :
    (s.reported i r).traffic.clients[j]? = some c := by
  rw [reported, List.getElem?_append_left (List.getElem?_eq_some_iff.mp hj).1, hj]

/-! ### What is known of reports -/

/-- What is known of the reports in every state that can be reached. -/
structure Sound (s : Reporting) (σ : Nat → Stage) : Prop where
  newest : s.traffic.Newest σ
  reports : ∀ i j, s.report i = some j → ∃ c d, s.traffic.clients[i]? = some c ∧
    s.traffic.clients[j]? = some d ∧ c.request.mayReport d.request = true
  asking : ∀ i j, s.pending? i = some j →
    ∃ r x k, s.traffic.clients[i]? = some ⟨r, .asking x k⟩
  /-- A report looks its process up only when the process of the call that waits for it is recorded
  already. -/
  behind : ∀ i j p q, s.pending? i = some j → (σ i).Has p → (σ j).Claims q → p ≤ q

theorem Sound.initial (h : Host) : Sound { traffic := { host := h } } fun _ ↦ .atLarge {} where
  newest i c p hi := by simp at hi
  reports i j hij := by cases hij
  asking i j hij := by cases hij
  behind i j p q hij := by cases hij

/-- A call that is held up does not move. -/
theorem Sound.not_moved (hsound : s.Sound σ) (hpending : s.pending? i = some j) {u : Traffic}
    (hfree : s.isHeldUp m = false) (hhappens : s.traffic.Happens m u) : m.client? ≠ some i := by
  intro hm
  obtain ⟨r, x, k, hi⟩ := hsound.asking i j hpending
  cases hhappens with
  | arrived | changed => cases hm
  | acted hj | took hj | asked hj =>
    obtain rfl := Option.some.inj hm
    rw [hi] at hj
    cases hj
  | answered =>
    obtain rfl := Option.some.inj hm
    simp [isHeldUp, hpending] at hfree

/-- A call that is held up was held up before, and does not move. -/
theorem Sound.pending_of_moved (hsound : s.Sound σ) {u : Traffic} (hfree : s.isHeldUp m = false)
    (hhappens : s.traffic.Happens m u)
    (hpending : ({ s with traffic := u } : Reporting).pending? i = some j) :
    s.pending? i = some j ∧ m.client? ≠ some i := by
  obtain ⟨hreport, c, hc, hunfinished⟩ := pending?_eq_some.mp hpending
  obtain ⟨-, d, -, hd, -⟩ := hsound.reports i j hreport
  obtain ⟨task, htask, hothers⟩ := hhappens.exists_client hd
  obtain rfl : ⟨d.request, task⟩ = c := Option.some.inj (htask.symm.trans hc)
  have hbefore : s.pending? i = some j := by
    refine pending?_eq_some.mpr ⟨hreport, d, hd, ?_⟩
    by_contra hfinished
    have hm : m.client? ≠ some j := fun hm ↦
      hhappens.not_isFinished hm hd (by simpa using hfinished)
    rw [hothers hm] at hunfinished
    exact hfinished hunfinished
  exact ⟨hbefore, hsound.not_moved hbefore hfree hhappens⟩

theorem Sound.moved (hsound : s.Sound σ) (hs : s.traffic.Staged σ) {u : Traffic}
    (hfree : s.isHeldUp m = false) (hhappens : s.traffic.Happens m u)
    (hshift : s.traffic.Shift σ m u τ) : ({ s with traffic := u } : Reporting).Sound τ where
  newest := hsound.newest.step hs hshift hhappens
  reports i j hij := by
    obtain ⟨c, d, hc, hd, hmay⟩ := hsound.reports i j hij
    obtain ⟨task, htask, -⟩ := hhappens.exists_client hc
    obtain ⟨task', htask', -⟩ := hhappens.exists_client hd
    exact ⟨_, _, htask, htask', hmay⟩
  asking i j hij := by
    obtain ⟨hbefore, hm⟩ := hsound.pending_of_moved hfree hhappens hij
    obtain ⟨r, x, k, hi⟩ := hsound.asking i j hbefore
    obtain ⟨task, htask, hothers⟩ := hhappens.exists_client hi
    rw [hothers hm] at htask
    exact ⟨r, x, k, htask⟩
  behind i j p q hij hhas hclaims := by
    obtain ⟨hbefore, hm⟩ := hsound.pending_of_moved hfree hhappens hij
    rw [hshift.stage_of_others hm] at hhas
    rcases hshift.claims hclaims with hclaims | ⟨d, M, id, hd, habout, hfind⟩
    · exact hsound.behind i j p q hbefore hhas hclaims
    · -- the report looks its process up just now
      obtain ⟨c, d', hc, hd', hmay⟩ := hsound.reports i j (pending?_eq_some.mp hbefore).1
      obtain rfl : d = d' := Option.some.inj (hd.symm.trans hd')
      obtain ⟨sec, hsec⟩ := hs.exists_section hc hhas
      exact hsound.newest i c p hc (.inl hhas) M id q (habout.of_mayReport hmay hsec) hfind

/-- A call that is held up was held up before, or its component has just made a report. -/
theorem Sound.pending_of_reported (hsound : s.Sound σ) {r : Request} {i' : Nat}
    (hpending : (s.reported i r).pending? i' = some j) :
    s.pending? i' = some j ∨ (i' = i ∧ j = s.traffic.clients.length) := by
  obtain ⟨hreport, c, hc, hunfinished⟩ := pending?_eq_some.mp hpending
  by_cases hi' : i' = i
  · subst hi'
    rw [report_reported_self] at hreport
    exact .inr ⟨rfl, (Option.some.inj hreport).symm⟩
  · rw [report_reported_ne s r hi'] at hreport
    obtain ⟨-, d, -, hd, -⟩ := hsound.reports i' j hreport
    obtain rfl : d = c := Option.some.inj ((getElem?_reported hd).symm.trans hc)
    exact .inl (pending?_eq_some.mpr ⟨hreport, d, hd, hunfinished⟩)

theorem Sound.reported (hsound : s.Sound σ) (hs : s.traffic.Staged σ) {r : Request}
    (hmay : s.mayReport i r = true) : (s.reported i r).Sound σ := by
  obtain ⟨r', x, k, hi, -, hr⟩ := exists_of_mayReport hmay
  refine ⟨hsound.newest.step hs (.arrived (r := r)) .arrived, ?_, ?_, ?_⟩
  · intro i' j hij
    by_cases hi' : i' = i
    · subst hi'
      rw [report_reported_self] at hij
      obtain rfl := Option.some.inj hij
      exact ⟨_, ⟨r, .going r.program⟩, getElem?_reported hi, by simp [Reporting.reported], hr⟩
    · rw [report_reported_ne s r hi'] at hij
      obtain ⟨c, d, hc, hd, hmay⟩ := hsound.reports i' j hij
      exact ⟨c, d, getElem?_reported hc, getElem?_reported hd, hmay⟩
  · intro i' j hij
    rcases hsound.pending_of_reported hij with hold | ⟨rfl, -⟩
    · obtain ⟨r', x, k, hi⟩ := hsound.asking i' j hold
      exact ⟨r', x, k, getElem?_reported hi⟩
    · exact ⟨r', x, k, getElem?_reported hi⟩
  · intro i' j p q hij hhas hclaims
    rcases hsound.pending_of_reported hij with hold | ⟨-, rfl⟩
    · exact hsound.behind i' j p q hold hhas hclaims
    · exact absurd hclaims (hs.not_claims_of_absent (List.getElem?_eq_none (Nat.le_refl _)) q)

theorem Reachable.exists_sound (hs : s.Reachable) : ∃ σ, s.traffic.Staged σ ∧ s.Sound σ := by
  obtain ⟨h, hunused, hlater⟩ := hs
  induction hlater with
  | refl => exact ⟨_, .initial hunused, .initial h⟩
  | @tail s t _ hnext ih =>
    obtain ⟨σ, hstaged, hsound⟩ := ih
    cases hnext with
    | moved hfree hstep =>
      obtain ⟨τ, hshift, hstaged'⟩ := hstaged.exists_shift hstep
      exact ⟨τ, hstaged', hsound.moved hstaged hfree (Traffic.happens_of_step hstep) hshift⟩
    | reported hmay => exact ⟨σ, hstaged.arrived _, hsound.reported hstaged hmay⟩

/-- Without its reports it is traffic like any other. -/
theorem Reachable.traffic (hs : s.Reachable) : s.traffic.Reachable := by
  obtain ⟨h, hunused, hlater⟩ := hs
  induction hlater with
  | refl => exact ⟨h, hunused, .refl⟩
  | tail _ hnext ih =>
    cases hnext with
    | moved _ hstep => exact ih.step hstep
    | @reported i r => exact ih.step (m := .arrive r) rfl

theorem Reachable.later (hs : s.Reachable) (hlater : Later s t) : t.Reachable := by
  obtain ⟨h, hunused, hs⟩ := hs
  exact ⟨h, hunused, hs.trans hlater⟩

/-! ### Who waits for whom -/

/-- Who is not finished can move, or waits for another. -/
theorem canMove_or (hs : s.traffic.Staged σ) {c : Client}
    (hi : s.traffic.clients[i]? = some c) (hc : c.isFinished = false) :
    s.CanMove i ∨ (∃ p j, s.traffic.WaitsFor i p ∧ (σ i).Awaits p ∧ s.traffic.holder p = some j) ∨
      ∃ j, s.pending? i = some j := by
  rcases hs.cases_of_unfinished hi hc with ⟨t, hstep⟩ | hwaits | ⟨r, x, k, hasking⟩
  · exact .inl ⟨_, t, rfl, rfl, hstep⟩
  · exact .inr (.inl hwaits)
  · cases hpending : s.pending? i with
    | some j => exact .inr (.inr ⟨j, rfl⟩)
    | none =>
      refine .inl ⟨.answer i Host.refusal, _, rfl, ?_, by simp only [Traffic.step, hasking]; rfl⟩
      simp [isHeldUp, hpending]

/-- A report that does not return waits for a process, if it cannot move. -/
theorem Sound.report_canMove_or (hsound : s.Sound σ) (hs : s.traffic.Staged σ)
    (hpending : s.pending? i = some j) : s.CanMove j ∨
      ∃ q k, s.traffic.WaitsFor j q ∧ (σ j).Awaits q ∧ s.traffic.holder q = some k := by
  obtain ⟨hreport, c, hc, hunfinished⟩ := pending?_eq_some.mp hpending
  rcases canMove_or hs hc hunfinished with hmove | hwaits | ⟨k, hk⟩
  · exact .inl hmove
  · exact .inr hwaits
  · -- a report calls no components
    obtain ⟨_, d, -, hd, hmay⟩ := hsound.reports i j hreport
    obtain ⟨d', _, hd', -, hmay'⟩ := hsound.reports j k (pending?_eq_some.mp hk).1
    obtain rfl : d = d' := Option.some.inj (hd.symm.trans hd')
    rw [Request.not_mayReport hmay] at hmay'
    cases hmay'

/-- Who has a process to himself can move or waits for itself, or the report it waits for can move,
or it waits, by this report, for one that has a newer process to himself. -/
theorem Sound.cases_of_holder (hsound : s.Sound σ) (hs : s.traffic.Staged σ)
    (hreachable : s.traffic.Reachable) (hholder : s.traffic.holder p = some i) :
    (∃ k, Relation.ReflTransGen s.WaitsOn i k ∧ (s.CanMove k ∨ s.WaitsForItself k)) ∨
      ∃ q k, p < q ∧ s.traffic.holder q = some k ∧ Relation.ReflTransGen s.WaitsOn i k := by
  have hhas : (σ i).Has p := (hs.holder p i).mp hholder
  obtain ⟨i', c, hi, hc, hholder'⟩ := hreachable.atWork hholder
  obtain rfl : i = i' := Option.some.inj (hholder.symm.trans hholder')
  rcases canMove_or hs hi hc with hmove | ⟨q, j, -, hawaits, -⟩ | ⟨j, hpending⟩
  · exact .inl ⟨i, .refl, .inl hmove⟩
  · exact absurd hawaits hhas.not_awaits
  · have hij : s.WaitsOn i j := .report hpending
    rcases hsound.report_canMove_or hs hpending with hmove | ⟨q, k, hwaits, hawaits, hk⟩
    · exact .inl ⟨j, .single hij, .inl hmove⟩
    · have hle : p ≤ q := hsound.behind i j p q hpending hhas (.inr hawaits)
      rcases Nat.eq_or_lt_of_le hle with rfl | hlt
      · exact .inl ⟨i, .refl, .inr ⟨j, p, hpending, hwaits, hholder⟩⟩
      · exact .inr ⟨q, k, hlt, hk, .head hij (.single (.lock hwaits hk))⟩

/-- From who has a process to himself the calls that wait for one another lead to one that can move
or waits for itself. -/
theorem Sound.exists_blocker_of_holder (hsound : s.Sound σ) (hs : s.traffic.Staged σ)
    (hreachable : s.traffic.Reachable) (hholder : s.traffic.holder p = some i) :
    ∃ k, Relation.ReflTransGen s.WaitsOn i k ∧ (s.CanMove k ∨ s.WaitsForItself k) := by
  -- from one to the next the processes are newer and newer
  induction hn : s.traffic.host.processes.count - p using Nat.strong_induction_on
    generalizing i p with
  | _ n ih =>
    subst hn
    rcases hsound.cases_of_holder hs hreachable hholder with hend | ⟨q, k, hlt, hk, hlater⟩
    · exact hend
    · have hcount := hs.lt_of_has ((hs.holder q k).mp hk)
      have hnewer := Nat.sub_lt_sub_left (Nat.lt_trans hlt hcount) hlt
      obtain ⟨l, hlater', hend⟩ := ih _ hnewer hk rfl
      exact ⟨l, hlater.trans hlater', hend⟩

/-- From every call that is not finished the calls that wait for one another lead to one that can
move or waits for itself. -/
theorem Reachable.exists_blocker (hs : s.Reachable) {c : Client}
    (hi : s.traffic.clients[i]? = some c) (hc : c.isFinished = false) :
    ∃ k, Relation.ReflTransGen s.WaitsOn i k ∧ (s.CanMove k ∨ s.WaitsForItself k) := by
  obtain ⟨σ, hstaged, hsound⟩ := hs.exists_sound
  have hholder {p : ProcessRef} {j : Nat} (hj : s.traffic.holder p = some j) :=
    hsound.exists_blocker_of_holder hstaged hs.traffic hj
  rcases canMove_or hstaged hi hc with hmove | ⟨p, j, hwaits, -, hj⟩ | ⟨j, hpending⟩
  · exact ⟨i, .refl, .inl hmove⟩
  · obtain ⟨k, hlater, hend⟩ := hholder hj
    exact ⟨k, .head (.lock hwaits hj) hlater, hend⟩
  · have hij : s.WaitsOn i j := .report hpending
    rcases hsound.report_canMove_or hstaged hpending with hmove | ⟨p, l, hwaits, -, hl⟩
    · exact ⟨j, .single hij, .inl hmove⟩
    · obtain ⟨k, hlater, hend⟩ := hholder hl
      exact ⟨k, .head hij (.head (.lock hwaits hl) hlater), hend⟩

/-! ### Who waits for itself -/

theorem WaitsForItself.not_canMove (hs : s.Reachable) (hi : s.WaitsForItself i) :
    ¬s.CanMove i := by
  obtain ⟨j, p, hpending, -, -⟩ := hi
  obtain ⟨σ, -, hsound⟩ := hs.exists_sound
  rintro ⟨m, t, hm, hfree, hstep⟩
  exact hsound.not_moved hpending hfree (Traffic.happens_of_step hstep) hm

/-- Neither the call nor the report it waits for moves, and nobody else gives the process back. -/
theorem WaitsForItself.next (hs : s.Reachable) (hi : s.WaitsForItself i) (hnext : s.Next t) :
    t.WaitsForItself i := by
  obtain ⟨j, p, hpending, hwaits, hholder⟩ := hi
  have hreport := (pending?_eq_some.mp hpending).1
  cases hnext with
  | @moved m u hfree hstep =>
    obtain ⟨σ, -, hsound⟩ := hs.exists_sound
    have hhappens := Traffic.happens_of_step hstep
    have hi := hsound.not_moved hpending hfree hhappens
    have hj := hwaits.not_moved hs.traffic hholder hhappens
    obtain ⟨r, rest, hclient⟩ := hwaits
    obtain ⟨task, htask, hothers⟩ := hhappens.exists_client hclient
    rw [hothers hj] at htask
    exact ⟨j, p, pending?_eq_some.mpr ⟨hreport, _, htask, rfl⟩, ⟨r, rest, htask⟩,
      (hs.traffic.process_of_others hholder hstep hi).2⟩
  | @reported i₀ r₀ hmay =>
    have hi₀ : i ≠ i₀ := by
      rintro rfl
      obtain ⟨-, -, -, -, hnone, -⟩ := exists_of_mayReport hmay
      rw [hpending] at hnone
      cases hnone
    obtain ⟨r, rest, hclient⟩ := hwaits
    have hclient' := getElem?_reported (i := i₀) (r := r₀) hclient
    have hreport' : (s.reported i₀ r₀).report i = some j := by
      rw [report_reported_ne s r₀ hi₀, hreport]
    exact ⟨j, p, pending?_eq_some.mpr ⟨hreport', _, hclient', rfl⟩, ⟨r, rest, hclient'⟩, hholder⟩

theorem WaitsForItself.later (hs : s.Reachable) (hi : s.WaitsForItself i) (hlater : Later s t) :
    t.WaitsForItself i := by
  induction hlater with
  | refl => exact hi
  | tail hbefore hnext ih => exact ih.next (hs.later hbefore) hnext

/-- Whenever a call is not finished some call can move, or waits for itself; and who waits for
itself does so for ever. -/
theorem canMove_or_waitsForItself (hs : s.Reachable) :
    (s.Busy → (∃ i, s.CanMove i) ∨ ∃ i, s.WaitsForItself i) ∧
      ∀ i, s.WaitsForItself i → ∀ t, Later s t → t.WaitsForItself i ∧ ¬t.CanMove i := by
  constructor
  · rintro ⟨i, c, hi, hc⟩
    obtain ⟨k, -, hmove | hself⟩ := hs.exists_blocker hi hc
    · exact .inl ⟨k, hmove⟩
    · exact .inr ⟨k, hself⟩
  · intro i hi t hlater
    have hself := hi.later hs hlater
    exact ⟨hself, hself.not_canMove (hs.later hlater)⟩

/-! ### A component that reports that its process cannot be started -/

/-- The same as `CanMove`, but to be computed. -/
def movable (s : Reporting) (i : Nat) : Bool :=
  !s.isHeldUp (s.traffic.moveOf i Host.refusal) &&
    (s.traffic.step (s.traffic.moveOf i Host.refusal)).isSome

theorem CanMove.movable (h : s.CanMove i) : s.movable i = true := by
  obtain ⟨m, t, hm, hfree, hstep⟩ := h
  have hhappens := Traffic.happens_of_step hstep
  cases hhappens with
  | arrived | changed => cases hm
  | acted hj | asked hj | took hj =>
    obtain rfl := Option.some.inj hm
    simp [Reporting.movable, Traffic.moveOf, hj, isHeldUp, hstep]
  | answered hj =>
    obtain rfl := Option.some.inj hm
    simpa [Reporting.movable, Traffic.moveOf, hj, isHeldUp, Traffic.step] using hfree

/-- Nobody can move if nobody who is there can. -/
theorem not_canMove_of_all
    (h : (List.range s.traffic.clients.length).all (fun i ↦ !s.movable i) = true) (i : Nat) :
    ¬s.CanMove i := by
  intro hi
  have hlt : i < s.traffic.clients.length := by
    obtain ⟨m, t, hm, -, hstep⟩ := hi
    obtain ⟨c, hc⟩ := (Traffic.happens_of_step hstep).exists_mover hm
    exact (List.getElem?_eq_some_iff.mp hc).1
  have hnot := List.all_eq_true.mp h i (List.mem_range.mpr hlt)
  simp [hi.movable] at hnot

/-- Where nothing has been reported the moves are those of any traffic. -/
theorem later_of_traffic {s t : Traffic} (h : s.Later t) :
    Later { traffic := s } { traffic := t } := by
  induction h with
  | refl => exact .refl
  | @tail u v _ hnext ih =>
    obtain ⟨m, hstep⟩ := hnext
    have hfree : ({ traffic := u } : Reporting).isHeldUp m = false := by cases m <;> rfl
    exact ih.tail (.moved hfree hstep)

end Reporting

namespace Small

open Traffic Reporting

/-- A component is about to start. -/
def starting : Traffic := created.serve (.start 0 0 "p") answers 6

/-- The component reports that its process has failed. -/
def reporting : Reporting :=
  ({ traffic := starting } : Reporting).reported 1 (.markFailed 0 "p" "broken")

/-- The report has found the process. -/
def selfReporting : Reporting :=
  { reporting with traffic := reporting.traffic.after [.proceed 2] }

theorem selfReporting_reachable : selfReporting.Reachable := by
  have hstarting : Traffic.Later { host := host } starting :=
    (later_serve ..).trans (later_serve ..)
  have hmay : ({ traffic := starting } : Reporting).mayReport 1 (.markFailed 0 "p" "broken") =
      true := by decide +kernel
  have hmoves : (reporting.traffic.step (.proceed 2)).isSome = true := by decide +kernel
  obtain ⟨u, hstep⟩ := Option.isSome_iff_exists.mp hmoves
  have hself : selfReporting = { reporting with traffic := u } := by
    simp [selfReporting, Traffic.after, hstep]
  rw [hself]
  exact ⟨host, host_unused,
    ((later_of_traffic hstarting).tail (.reported hmay)).tail (.moved rfl hstep)⟩

theorem selfReporting_busy : selfReporting.Busy := by
  have hbusy : selfReporting.traffic.clients[1]?.any (fun c ↦ !c.isFinished) = true := by
    decide +kernel
  obtain ⟨c, hc, hunfinished⟩ := (Option.any_eq_true ..).mp hbusy
  exact ⟨1, c, hc, by simpa using hunfinished⟩

/-- The theorem on calls that come to a standstill, for a component that reports from inside its
start. -/
theorem selfReporting_canMove_or : selfReporting.Reachable ∧ selfReporting.Busy ∧
    ((∃ i, selfReporting.CanMove i) ∨ ∃ i, selfReporting.WaitsForItself i) :=
  ⟨selfReporting_reachable, selfReporting_busy,
    (canMove_or_waitsForItself selfReporting_reachable).1 selfReporting_busy⟩

/-- When a component has reported from inside its start that its process has failed, neither the
start nor the report is finished, and nobody can move. -/
theorem selfReporting_standstill :
    selfReporting.Reachable ∧ selfReporting.Busy ∧ ∀ i, ¬selfReporting.CanMove i :=
  ⟨selfReporting_reachable, selfReporting_busy, not_canMove_of_all (by decide +kernel)⟩

end Small

end ComponentHost
