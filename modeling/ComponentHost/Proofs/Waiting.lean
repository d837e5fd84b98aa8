import ComponentHost.Proofs.Run
import ComponentHost.Proofs.Tables

/-!
Who claims a process, and who waits for one.

A client claims a process that it has to itself or in hand. It comes to claim one only by looking it
up under the identifier its request is about (`Traffic.Shift.claims`). A client that is not finished
can make its next move, or is to be answered, or waits for a process that somebody else has to
himself (`Traffic.Staged.cases_of_unfinished`).
-/

set_option autoImplicit false

namespace ComponentHost

/-! ### Looking up -/

/-- What is found after a change of one manager. -/
theorem Manager.find_of_modify {managers : Store Manager} {m₀ m : ManagerRef}
    {f : Manager → Manager} {id : String} {p : ProcessRef}
    (hfind : ((managers.modify m₀ f).get m).find id = .ok p) :
    (m ≠ m₀ ∧ (managers.get m).find id = .ok p) ∨
      (m = m₀ ∧ (f (managers.get m)).find id = .ok p) := by
  by_cases hm : m = m₀
  · subst hm
    rw [Store.get_modify_self] at hfind
    exact .inr ⟨rfl, hfind⟩
  · rw [Store.get_modify_ne _ _ hm] at hfind
    exact .inl ⟨hm, hfind⟩

/-- What is found after a deal was found before, or is new. -/
theorem Deal.find_eq_or {r : Request} {h h' : Host} {b b' : Baggage} (hdeal : Deal r h b h' b')
    {m : ManagerRef} {id : String} {q : ProcessRef}
    (hfind : (h'.managers.get m).find id = .ok q) :
    (h.managers.get m).find id = .ok q ∨ q = h.processes.count := by
  cases hdeal with
  | nothing | found | dropped => exact .inl hfind
  | counted =>
    simp only [Host.counted] at hfind
    rcases Manager.find_of_modify hfind with ⟨-, hold⟩ | ⟨-, hold⟩
    · exact .inl hold
    · exact .inl hold
  | recorded hfree =>
    simp only [Host.recording] at hfind
    rcases Manager.find_of_modify hfind with ⟨-, hold⟩ | ⟨rfl, hbound⟩
    · exact .inl hold
    · rw [Manager.find, Table.get?_bind hfree] at hbound
      split_ifs at hbound with hid
      · exact .inr (Except.ok.inj hbound).symm
      · exact .inl hbound
  | removed =>
    simp only [Host.forgetting] at hfind
    rcases Manager.find_of_modify hfind with ⟨-, hold⟩ | ⟨-, hkept⟩
    · exact .inl hold
    · rw [Manager.find, Table.get?_erase] at hkept
      split_ifs at hkept with hid
      exact .inl hkept

theorem Deal.hand_eq_or {r : Request} {h h' : Host} {b b' : Baggage} (hdeal : Deal r h b h' b')
    {p : ProcessRef} (hp : b'.hand = some p) : b.hand = some p ∨
      ∃ m id, r.IsAbout m id ∧ (h.managers.get m).find id = .ok p := by
  cases hdeal with
  | found _ habout hfind =>
    cases hp
    exact .inr ⟨_, _, habout, hfind⟩
  | _ => exact .inl hp

/-- A request is about one identifier of one manager. -/
theorem Request.IsAbout.unique {r : Request} {m m' : ManagerRef} {id id' : String}
    (h : r.IsAbout m id) (h' : r.IsAbout m' id') : m = m' ∧ id = id' := by
  cases r with
  | create => exact h.elim
  | start | stop | restart | markFailed | remove =>
    exact ⟨h.1.symm.trans h'.1, h.2.symm.trans h'.2⟩

/-- The client has the process to itself, or in hand. -/
def Stage.Claims (p : ProcessRef) (stage : Stage) : Prop := stage.Has p ∨ stage.Awaits p

theorem Stage.Has.not_awaits {stage : Stage} {p q : ProcessRef} (h : stage.Has p) :
    ¬stage.Awaits q := by
  cases stage with
  | atLarge => exact h.elim
  | inside => exact id

namespace Traffic

variable {s t : Traffic} {σ τ : Nat → Stage} {m : Move} {i : Nat} {p q : ProcessRef}

theorem Shift.find_eq_or (hshift : Shift s σ m t τ) {M : ManagerRef} {id : String}
    (hfind : (t.host.managers.get M).find id = .ok q) :
    (s.host.managers.get M).find id = .ok q ∨ q = s.host.processes.count := by
  cases hshift with
  | dealt _ _ hdeal => exact hdeal.find_eq_or hfind
  | _ => exact .inl hfind

/-- Who does not move stays at his stage. -/
theorem Shift.stage_of_others (hshift : Shift s σ m t τ) (hm : m.client? ≠ some i) :
    τ i = σ i := by
  have hne {j : Nat} (hj : m.client? = some j) : i ≠ j := by
    rintro rfl
    exact hm hj
  cases hshift with
  | arrived | changed | looked => rfl
  | told hj | said hj => exact Function.update_of_ne (hne hj) ..
  | dealt | entered | became | left => exact Function.update_of_ne (hne rfl) ..

theorem Staged.lt_of_claims (hs : Staged s σ) (hp : (σ i).Claims p) :
    p < s.host.processes.count := by
  rcases hp with hhas | hawaits
  · exact hs.lt_of_has hhas
  · have hholds := hs.holds i
    cases hstage : σ i with
    | atLarge b =>
      rw [hstage] at hawaits hholds
      exact hholds p hawaits
    | inside =>
      rw [hstage] at hawaits
      exact hawaits.elim

/-- A process that is claimed was claimed before, or it has just been looked up. -/
theorem Shift.claims (hshift : Shift s σ m t τ) (hp : (τ i).Claims p) : (σ i).Claims p ∨
    ∃ c M id, s.clients[i]? = some c ∧ c.request.IsAbout M id ∧
      (s.host.managers.get M).find id = .ok p := by
  by_cases hm : m.client? = some i
  · cases hshift with
    | arrived | changed => cases hm
    | looked => exact .inl hp
    | dealt hi hstage hdeal =>
      obtain rfl := Option.some.inj hm
      rw [Function.update_self] at hp
      rcases hdeal.hand_eq_or (hp.resolve_left id) with hhand | ⟨M, id, habout, hfind⟩
      · exact .inl (.inr (by rwa [hstage]))
      · exact .inr ⟨_, M, id, hi, habout, hfind⟩
    | told hj _ hstage =>
      obtain rfl := Option.some.inj (hj.symm.trans hm)
      rw [Function.update_self] at hp
      exact .inl (by rwa [hstage])
    | entered _ hstage =>
      obtain rfl := Option.some.inj hm
      rw [Function.update_self] at hp
      obtain rfl := hp.resolve_right id
      exact .inl (.inr (by rw [hstage]; rfl))
    | became _ hstage =>
      obtain rfl := Option.some.inj hm
      rw [Function.update_self] at hp
      exact .inl (by rwa [hstage])
    | said hj _ hstage =>
      obtain rfl := Option.some.inj (hj.symm.trans hm)
      rw [Function.update_self] at hp
      exact .inl (by rwa [hstage])
    | left =>
      obtain rfl := Option.some.inj hm
      rw [Function.update_self] at hp
      rcases hp with hhas | hawaits
      · exact hhas.elim
      · cases hawaits
  · rw [hshift.stage_of_others hm] at hp
    exact .inl hp

/-- Who has not come yet claims nothing. -/
theorem Staged.not_claims_of_absent (hs : Staged s σ) (hi : s.clients[i]? = none)
    (p : ProcessRef) : ¬(σ i).Claims p := by
  rw [hs.absent i hi]
  rintro (hhas | hawaits)
  · exact hhas.elim
  · cases hawaits

/-- Who has just come claims nothing. -/
theorem Shift.not_claims_of_new (hshift : Shift s σ m t τ) (hs : Staged s σ)
    (hbefore : s.clients[i]? = none) (p : ProcessRef) : ¬(τ i).Claims p := by
  intro hclaims
  rcases hshift.claims hclaims with hclaims | ⟨c, -, -, hc, -⟩
  · exact hs.not_claims_of_absent hbefore p hclaims
  · rw [hbefore] at hc
    cases hc

/-- Who has a process to himself is at one of the sections of his request. -/
theorem Staged.exists_section (hs : Staged s σ) {c : Client} (hi : s.clients[i]? = some c)
    (hhas : (σ i).Has p) : ∃ sec, sec ∈ c.request.sections := by
  obtain ⟨r, task⟩ := c
  have hfits := hs.fits i _ hi
  generalize σ i = stage at hfits hhas
  cases hfits with
  | going | asking => exact hhas.elim
  | working _ hsec | waiting _ hsec => exact ⟨_, hsec⟩

/-- The client waits for the lock of a process. -/
def WaitsFor (s : Traffic) (i : Nat) (p : ProcessRef) : Prop :=
  ∃ r rest, s.clients[i]? = some ⟨r, .going (.await (Host.lock? p) rest)⟩

/-- Who waits for a process that somebody has to himself does not move. -/
theorem WaitsFor.not_moved (hs : s.Reachable) (hi : s.WaitsFor i p) {j : Nat}
    (hj : s.holder p = some j) (hhappens : s.Happens m t) : m.client? ≠ some i := by
  intro hm
  obtain ⟨r, rest, hi⟩ := hi
  have hlocked : (s.host.processes.get p).locked = true := hs.locked_of_holder hj
  cases hhappens with
  | arrived | changed => cases hm
  | acted hk | asked hk | answered hk =>
    obtain rfl := Option.some.inj hm
    rw [hi] at hk
    cases hk
  | took hk hclaim =>
    obtain rfl := Option.some.inj hm
    rw [hi] at hk
    cases hk
    rw [Host.lock?, if_pos hlocked] at hclaim
    cases hclaim

/-- Who is not finished can act, waits for a process that somebody has to himself, or is to be
answered. -/
theorem Staged.cases_of_unfinished (hs : Staged s σ) {c : Client} (hi : s.clients[i]? = some c)
    (hc : c.isFinished = false) :
    (∃ t, s.step (.proceed i) = some t) ∨
      (∃ p j, s.WaitsFor i p ∧ (σ i).Awaits p ∧ s.holder p = some j) ∨
      ∃ r x k, s.clients[i]? = some ⟨r, .asking x k⟩ := by
  obtain ⟨r, task⟩ := c
  have hfits := hs.fits i _ hi
  have hclaims := @lt_of_claims s σ i
  generalize hstage : σ i = stage at hfits hclaims ⊢
  cases task with
  | asking x k => exact .inr (.inr ⟨r, x, k, hi⟩)
  | going rest =>
    cases rest with
    | done => cases hc
    | act f k => exact .inl ⟨_, by simp only [step, hi]; rfl⟩
    | call x k => exact .inl ⟨_, by simp only [step, hi]; rfl⟩
    | await claim k =>
      cases hfits with
      | @working p v _ body next hrest hsec hbody =>
        cases body with
        | await => exact hbody.elim
        | _ => cases hrest
      | going hrest =>
        cases hrest with
        | @visit p sec next =>
          cases hholder : s.holder p with
          | some j => exact .inr (.inl ⟨p, j, ⟨r, _, hi⟩, rfl, hholder⟩)
          | none =>
            have hlt : p < s.host.processes.count := hclaims hs (.inr rfl)
            have hfree : (s.process p).locked = false := by
              simpa [hholder] using hs.locked p hlt
            have hclaim : Host.lock? p s.host = some { s.host with
                processes := s.host.processes.modify p ({ · with locked := true }) } :=
              if_neg (by simpa [process] using hfree)
            exact .inl ⟨_, by simp only [step, hi, hclaim, Option.map_some]; rfl⟩

end Traffic

end ComponentHost
