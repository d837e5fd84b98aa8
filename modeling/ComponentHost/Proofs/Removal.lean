import ComponentHost.Proofs.Stages

/-!
What the removal of a process keeps lifecycle calls from.

A process is recorded once, under one identifier by one manager, so that it is forgotten as soon as
it has been removed (`Traffic.Reachable.forgotten`), and it stays forgotten. A lifecycle call
waits for a process only after it has found it recorded. So a call that has still to look the
process up never has it to itself, does nothing to it and makes no call for its sake
(`Traffic.leavesAlone_of_mustLookUp`). A call that found the process before it was removed, and
waits for its turn, goes through its section none the less.
-/

set_option autoImplicit false

namespace ComponentHost

/-! ### Records -/

/-- No process is recorded twice. -/
def Host.RecordsOnce (h : Host) : Prop :=
  ∀ ⦃m m' : ManagerRef⦄ ⦃id id' : String⦄ ⦃p : ProcessRef⦄,
    (id, p) ∈ (h.managers.get m).recorded → (id', p) ∈ (h.managers.get m').recorded →
      m = m' ∧ id = id'

namespace Deal

variable {r : Request} {h h' : Host} {b b' : Baggage}

theorem recordsOnce (hdeal : Deal r h b h' b') (honce : h.RecordsOnce)
    (hrecorded : ∀ p, h.Records p → p < h.processes.count) : h'.RecordsOnce := by
  obtain ⟨m₀, id₀, hnew⟩ := hdeal.exists_new
  intro m m' id id' p hmem hmem'
  rcases hnew m id p hmem with hold | ⟨rfl, rfl, rfl, -⟩
  · rcases hnew m' id' p hmem' with hold' | ⟨rfl, rfl, rfl, -⟩
    · exact honce hold hold'
    · exact absurd (hrecorded _ ⟨m, id, hold⟩) (Nat.lt_irrefl _)
  · rcases hnew m' id' _ hmem' with hold' | ⟨rfl, rfl, -, -⟩
    · exact absurd (hrecorded _ ⟨m', id', hold'⟩) (Nat.lt_irrefl _)
    · exact ⟨rfl, rfl⟩

/-- Who has taken a process out of the records has found it there, and it is in them no more. -/
theorem gone_eq (hdeal : Deal r h b h' b') (honce : h.RecordsOnce) {p : ProcessRef}
    (hgone : b'.gone = some p) : b.gone = some p ∨ (h.Records p ∧ ¬h'.Records p) := by
  cases hdeal with
  | @removed _ _ m id q hfind =>
    cases hgone
    have hmem := Manager.mem_of_find hfind
    refine .inr ⟨⟨m, id, hmem⟩, ?_⟩
    rintro ⟨m', id', hmem'⟩
    simp only [Host.forgetting] at hmem'
    rcases Manager.mem_of_modify hmem' with ⟨hne, hold⟩ | ⟨rfl, hkept⟩
    · exact hne (honce hmem hold).1.symm
    · obtain ⟨hold, hne⟩ := List.mem_filter.mp hkept
      simp [(honce hmem hold).2] at hne
  | _ => exact .inl hgone

end Deal

namespace Traffic

/-! ### Forgotten processes -/

/-- The process exists, and no manager has it recorded. -/
def Forgotten (s : Traffic) (p : ProcessRef) : Prop :=
  p < s.host.processes.count ∧ ¬s.host.Records p

/-- A call that was to remove a process has returned it. -/
def Removed (s : Traffic) (p : ProcessRef) : Prop :=
  ∃ (i : Nat) (m : ManagerRef) (id : String),
    s.clients[i]? = some ⟨.remove m id, .going (.done (.ok (some p)))⟩

variable {s t : Traffic} {σ τ : Nat → Stage} {m : Move} {p : ProcessRef}

theorem Shift.forgotten (hshift : Shift s σ m t τ) (hgone : s.Forgotten p) : t.Forgotten p := by
  obtain ⟨hlt, hrec⟩ := hgone
  cases hshift with
  | dealt hi hstage hdeal =>
    constructor
    · exact Nat.lt_of_lt_of_le hlt hdeal.count_le
    · intro hnew
      rcases hdeal.records hnew with hold | ⟨hp, -⟩
      · exact hrec hold
      · exact Nat.ne_of_lt hlt hp
  | _ => exact ⟨hlt, hrec⟩

/-- What is known of the records in every state that can be reached. -/
structure Kept (s : Traffic) (σ : Nat → Stage) : Prop where
  once : s.host.RecordsOnce
  gone : ∀ i b p, σ i = .atLarge b → b.gone = some p → s.Forgotten p

theorem Kept.shift (hs : Staged s σ) (hshift : Shift s σ m t τ) (hkept : s.Kept σ) :
    t.Kept τ := by
  constructor
  · cases hshift with
    | dealt hi hstage hdeal => exact hdeal.recordsOnce hkept.once hs.recorded
    | _ => exact hkept.once
  · intro j b p hj hgone
    have hturn := hshift.turn j
    rw [hj] at hturn
    generalize hstage : σ j = stage at hturn
    cases hturn with
    | stay => exact hshift.forgotten (hkept.gone j b p hstage hgone)
    | told => exact hshift.forgotten (hkept.gone j _ p hstage hgone)
    | left => cases hgone
    | dealt hdeal =>
      rcases hdeal.gone_eq hkept.once hgone with hgone | ⟨hrec, hnew⟩
      · exact hshift.forgotten (hkept.gone j _ p hstage hgone)
      · exact ⟨Nat.lt_of_lt_of_le (hs.recorded p hrec) hdeal.count_le, hnew⟩

theorem Kept.initial {h : Host} (hunused : h.Unused) :
    Kept { host := h } fun _ ↦ .atLarge {} := by
  constructor
  · intro m m' id id' p hmem
    simp [hunused.no_record m] at hmem
  · intro i b p hi hgone
    cases hi
    cases hgone

/-- Whatever a call has returned as removed is forgotten. -/
theorem Reachable.forgotten (hs : s.Reachable) (hremoved : s.Removed p) : s.Forgotten p := by
  obtain ⟨σ, hstaged, hkept⟩ := hs.exists_stages (fun _ ↦ Kept.initial) Kept.shift
  obtain ⟨i, m, id, hi⟩ := hremoved
  have hfits := hstaged.fits i _ hi
  cases hstage : σ i with
  | atLarge b =>
    rw [hstage] at hfits
    cases hfits with
    | going hrest =>
      cases hrest with
      | done hends => exact hkept.gone i b p hstage (hends m id p rfl rfl)
  | inside q v =>
    rw [hstage] at hfits
    cases hfits with
    | working _ hsec _ _ => cases hsec

/-! ### Calls that have still to look the process up -/

/-- Only who has a process in hand comes to have it to himself. -/
theorem Turn.has_of_has {stage stage' : Stage} (hturn : Turn s t stage stage')
    (h : stage'.Has p) : stage.Has p ∨ stage.Awaits p := by
  cases hturn with
  | stay | did => exact .inl h
  | entered => exact .inr (congrArg some h)
  | dealt | told | left => exact h.elim

/-- Only a recorded process is taken in hand. -/
theorem Turn.awaits_of_awaits {stage stage' : Stage} (hturn : Turn s t stage stage')
    (h : stage'.Awaits p) : stage.Awaits p ∨ s.host.Records p := by
  cases hturn with
  | stay | told => exact .inl h
  | dealt hdeal => exact hdeal.hand_eq h
  | left => cases h
  | entered | did => exact h.elim

/-- The client has made no move yet, or has not even arrived. -/
def HasNotBegun (s : Traffic) (i : Nat) : Prop :=
  (∀ p, s.holder p ≠ some i) ∧
    ∀ c, s.clients[i]? = some c → c.task = .going c.request.program

/-- The process is forgotten, and the client has still to look it up: it has not begun, or it had
the process to itself when this was forgotten already, and has given it back since. -/
def MustLookUp (s : Traffic) (p : ProcessRef) (i : Nat) : Prop :=
  s.Forgotten p ∧ (s.HasNotBegun i ∨ (s.holder p ≠ some i ∧
    ∃ s₀ : Traffic, s₀.Reachable ∧ s₀.Forgotten p ∧ s₀.holder p = some i ∧ Later s₀ s))

/-- The client may be given the stage of one who begins. -/
theorem Staged.restage (hs : Staged s σ) {i : Nat} (hi : s.HasNotBegun i) :
    Staged s (Function.update σ i (.atLarge {})) := by
  obtain ⟨hnone, hprogram⟩ := hi
  refine ⟨?_, ?_, ?_, ?_, hs.locked, hs.recorded⟩
  · intro j c hj
    by_cases hij : j = i
    · subst hij
      rw [Function.update_self, hprogram c hj]
      exact .going c.request.atLarge
    · rw [Function.update_of_ne hij]
      exact hs.fits j c hj
  · intro j hj
    by_cases hij : j = i
    · rw [hij, Function.update_self]
    · rw [Function.update_of_ne hij]
      exact hs.absent j hj
  · intro j
    by_cases hij : j = i
    · rw [hij, Function.update_self]
      intro q hq
      cases hq
    · rw [Function.update_of_ne hij]
      exact hs.holds j
  · intro q j
    by_cases hij : j = i
    · subst hij
      simp [hnone, Stage.Has]
    · rw [Function.update_of_ne hij]
      exact hs.holder q j

/-- Who does not wait for a forgotten process will not wait for it, and who has it not to himself
will not have it. -/
theorem Staged.exists_without {i : Nat} (hs : Staged s σ) (hgone : s.Forgotten p)
    (hawaits : ¬(σ i).Awaits p) (hlater : Later s t) :
    ∃ τ, Staged t τ ∧ t.Forgotten p ∧ ¬(τ i).Awaits p ∧ ((τ i).Has p → (σ i).Has p) := by
  refine hs.exists_later (I := fun t τ ↦ t.Forgotten p ∧ ¬(τ i).Awaits p ∧
    ((τ i).Has p → (σ i).Has p)) ?_ ⟨hgone, hawaits, fun h ↦ h⟩ hlater
  rintro s t ρ τ m - hshift ⟨hgone, hawaits, hhas⟩
  refine ⟨hshift.forgotten hgone, fun h ↦ ?_, fun h ↦ ?_⟩
  · rcases (hshift.turn i).awaits_of_awaits h with h | hrec
    · exact hawaits h
    · exact hgone.2 hrec
  · rcases (hshift.turn i).has_of_has h with h | h
    · exact hhas h
    · exact absurd h hawaits

theorem MustLookUp.exists_stages (hs : s.Reachable) {i : Nat} (hi : s.MustLookUp p i) :
    ∃ σ, Staged s σ ∧ ¬(σ i).Awaits p ∧ ¬(σ i).Has p := by
  obtain ⟨-, hbegun | ⟨hnone, s₀, hs₀, hgone₀, hholder, hlater⟩⟩ := hi
  · obtain ⟨σ, hstaged, -⟩ := hs.exists_stages (fun _ ↦ Kept.initial) Kept.shift
    refine ⟨_, hstaged.restage hbegun, ?_, ?_⟩
    · simp [Stage.Awaits]
    · simp [Stage.Has]
  · obtain ⟨σ₀, hstaged₀, -⟩ := hs₀.exists_stages (fun _ ↦ Kept.initial) Kept.shift
    have hhas₀ : (σ₀ i).Has p := (hstaged₀.holder p i).mp hholder
    have hawaits₀ : ¬(σ₀ i).Awaits p := fun h ↦ by
      cases hstage : σ₀ i with
      | atLarge b => rw [hstage] at hhas₀; exact hhas₀
      | inside q v => rw [hstage] at h; exact h
    obtain ⟨σ, hstaged, -, hawaits, -⟩ := hstaged₀.exists_without hgone₀ hawaits₀ hlater
    exact ⟨σ, hstaged, hawaits, fun h ↦ hnone ((hstaged.holder p i).mpr h)⟩

/-- A move of a client that does nothing to a process: it changes nothing of it, and any call it
makes is for the sake of another process, which the client has to itself. -/
structure LeavesAlone (s t : Traffic) (p : ProcessRef) (i : Nat) : Prop where
  holder : t.holder p ≠ some i
  process : t.process p = s.process p
  calls : ∀ call, t.past = ⟨i, .asked call⟩ :: s.past →
    ∃ q ≠ p, s.holder q = some i ∧ call.IsFor (s.process q)

theorem leavesAlone_of_mustLookUp {u : Traffic} {i : Nat} {m : Move} (hs : s.Reachable)
    (hi : s.MustLookUp p i) (hst : Later s t) (htu : t.step m = some u) (hm : m.client? = some i)
    (hlife : ∀ c, t.clients[i]? = some c → c.request.isLifecycle = true) :
    t.LeavesAlone u p i := by
  obtain ⟨σ, hstaged, hawaits, hhas⟩ := hi.exists_stages hs
  obtain ⟨τ, hstaged', hgone, hawaits', hhas'⟩ := hstaged.exists_without hi.1 hawaits hst
  obtain ⟨υ, hshift, hstaged''⟩ := hstaged'.exists_shift htu
  have hnone : ¬(τ i).Has p := fun h ↦ hhas (hhas' h)
  refine ⟨fun h ↦ ?_, ?_, fun call hpast ↦ ?_⟩
  · rcases (hshift.turn i).has_of_has ((hstaged''.holder p i).mp h) with h | h
    · exact hnone h
    · exact hawaits' h
  · refine hshift.process_eq hgone.1 fun j hj ↦ ?_
    obtain rfl : i = j := by simpa [hm] using hj
    exact ⟨hnone, hawaits'⟩
  · rcases hshift.asked hpast with ⟨c, b, hc, hr, -⟩ | ⟨q, v, ds, res, hstage, hdoes⟩
    · simp [hlife c hc] at hr
    · have hq : (τ i).Has q := by rw [hstage]; rfl
      have hholds := hstaged'.holds i
      rw [hstage] at hholds
      refine ⟨q, ?_, (hstaged'.holder q i).mpr hq, ?_⟩
      · rintro rfl
        exact hnone hq
      · rw [Traffic.process, hholds.2.2]
        have hfor : call.IsFor v.found := hdoes.isFor (x := .asked call) (by simp)
        exact hfor.after _

/-- Who has not even arrived has not begun. -/
theorem Reachable.hasNotBegun {i : Nat} (hs : s.Reachable) (hi : s.clients[i]? = none) :
    s.HasNotBegun i := by
  obtain ⟨σ, hstaged⟩ := hs.exists_staged
  constructor
  · intro p hp
    have hhas := (hstaged.holder p i).mp hp
    rw [hstaged.absent i hi] at hhas
    exact hhas
  · intro c hc
    rw [hi] at hc
    cases hc

/-- The process a client has removed. -/
def removed? (s : Traffic) (i : Nat) : Option ProcessRef :=
  match s.clients[i]? with
  | some ⟨.remove _ _, .going (.done (.ok r))⟩ => r
  | _ => none

theorem removed_of_removed? {i : Nat} (h : s.removed? i = some p) : s.Removed p := by
  unfold removed? at h
  split at h
  · rename_i m id r hi
    exact ⟨i, m, id, h ▸ hi⟩
  · cases h

end Traffic

namespace Small

open Traffic

/-- The process was removed. -/
def removed : Traffic := created.serve (.remove 0 "p") answers 100

theorem removed_reachable : removed.Reachable := created_reachable.later (later_serve ..)

/-- A client has come to start the removed process. -/
def tooLate : Traffic := removed.serve (.start 0 0 "p") answers 0

/-- The theorem on a client who comes to start a process that has been removed, and looks it up. -/
theorem tooLate_leavesAlone : ∃ u, removed.Reachable ∧ removed.MustLookUp 0 2 ∧
    Later removed tooLate ∧ tooLate.step (.proceed 2) = some u ∧ tooLate.LeavesAlone u 0 2 := by
  have hremoved : removed.Removed 0 :=
    removed_of_removed? (by decide +kernel : removed.removed? 1 = _)
  have hnone : removed.clients.length ≤ 2 := by decide +kernel
  have hmust : removed.MustLookUp 0 2 := ⟨removed_reachable.forgotten hremoved,
    .inl (removed_reachable.hasNotBegun (List.getElem?_eq_none hnone))⟩
  have hlater : Later removed tooLate := later_serve ..
  have hlife : tooLate.clients[2]?.all (·.request.isLifecycle) = true := by decide +kernel
  have hmoves : (tooLate.step (.proceed 2)).isSome = true := by decide +kernel
  obtain ⟨u, hstep⟩ := Option.isSome_iff_exists.mp hmoves
  refine ⟨u, removed_reachable, hmust, hlater, hstep,
    leavesAlone_of_mustLookUp removed_reachable hmust hlater hstep rfl fun c hc ↦ ?_⟩
  rw [hc] at hlife
  exact hlife

/-- While one client starts the process another comes to start it, too, and has to wait; then the
process is removed. -/
def removedMeanwhile : Traffic :=
  ((created.serve (.start 0 0 "p") answers 6).serve (.start 0 0 "p") answers 100).serve
    (.remove 0 "p") answers 100

/-- The first client has come to its end, and it is the turn of the other. -/
def turnAfterRemoval : Traffic := (removedMeanwhile.advance 1 answers 100).advance 2 answers 3

/-- A client who waits for a process while it is removed starts a component of it afterwards. -/
theorem started_after_removal : ∃ (s t u : Traffic) (p : ProcessRef) (i : Nat) (c : Component)
    (ctx : ContextRef), s.Reachable ∧ s.Removed p ∧ s.holder p ≠ some i ∧ Later s t ∧
    (s.clients[i]?.any fun x ↦ x.request.isLifecycle) = true ∧ t.step (.proceed i) = some u ∧
    u.past = ⟨i, .asked (.lifecycle .start c ctx)⟩ :: t.past ∧ t.holder p = some i ∧
    c ∈ (t.process p).ordered.map Prod.snd := by
  have hreachable : removedMeanwhile.Reachable := created_reachable.later
    (((later_serve ..).trans (later_serve ..)).trans (later_serve ..))
  have hremoved : removedMeanwhile.Removed 0 :=
    removed_of_removed? (by decide +kernel : removedMeanwhile.removed? 3 = _)
  have hlater : Later removedMeanwhile turnAfterRemoval :=
    (later_advance ..).trans (later_advance ..)
  have hstart : turnAfterRemoval.startNext? 2 = some (component "a", 0) := by decide +kernel
  obtain ⟨u, hstep, hpast⟩ := exists_step_of_startNext? hstart
  exact ⟨removedMeanwhile, turnAfterRemoval, u, 0, 2, component "a", 0, hreachable, hremoved,
    by decide +kernel, hlater, by decide +kernel, hstep, hpast, by decide +kernel,
    by decide +kernel⟩

end Small

end ComponentHost
