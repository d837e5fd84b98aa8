import ComponentHost.Proofs.Conduct
import Mathlib.Logic.Function.Basic

/-!
Where the clients are, and what a move can be.

A client is at large, or inside a section with a process to itself. Which of the two a client is,
the process it has in hand or the section and what has been done in it, is its stage. No state of
the traffic shows the stages; `Traffic.Staged` says what they have to do with it: every client has
still to do what its stage says, who is inside has the process, a process is locked just while
somebody has it, and it is as the section has left it.

A move of a client who keeps to its stage is one of a few (`Traffic.Shift`), and leads to another
stage (`Traffic.Staged.exists_shift`). So stages can be given for every reachable state
(`Traffic.Reachable.exists_stages`), and what is to be shown of all runs is shown for these few.
-/

set_option autoImplicit false

namespace ComponentHost

/-! ### Stages -/

/-- A section that has begun. -/
structure Visit where
  sec : Section
  /-- The process as it was found, with its lock taken. -/
  found : Process
  /-- What has been done, the earliest first. -/
  log : List Deed := []
  /-- What had passed before, the latest first. -/
  since : List Entry

/-- Where a client is in its request. -/
inductive Stage where
  | atLarge (b : Baggage)
  | inside (p : ProcessRef) (v : Visit)

namespace Stage

/-- The client has the process to itself. -/
def Has (p : ProcessRef) : Stage → Prop
  | .atLarge _ => False
  | .inside q _ => q = p

/-- The client has the process in hand. -/
def Awaits (p : ProcessRef) : Stage → Prop
  | .atLarge b => b.hand = some p
  | .inside _ _ => False

/-- The processes of a stage exist, and the one a section is at work on is as it has left it. -/
def Holds (h : Host) : Stage → Prop
  | .atLarge b => ∀ p, b.hand = some p → p < h.processes.count
  | .inside p v => p < h.processes.count ∧ v.found.locked = true ∧
      h.processes.get p = v.found.after v.log

/-- What a client has to do who is to give a process back and to go on. -/
def leaving (p : ProcessRef) (next : Except Error Unit → Prog Host Outcome)
    (body : Prog Host (Except Error Unit)) : Prog Host Outcome :=
  body.bind fun res ↦ .act (Host.unlock p) fun _ ↦ next res

/-- What a client at this stage may have still to do. -/
inductive Fits (r : Request) : Stage → Task → Prop where
  | going {b : Baggage} {rest : Prog Host Outcome}
      (hrest : rest.AtLarge r r.Ends b) : Fits r (.atLarge b) (.going rest)
  | asking {b : Baggage} {c : Call} {next : c.Reply → Prog Host Outcome}
      (hr : r.isLifecycle = false) (hc : c.IsPrivate b.own) (hseq : b.seq = none)
      (hnext : ∀ reply, (next reply).AtLarge r r.Ends (b.after (.answered c reply))) :
      Fits r (.atLarge b) (.asking c next)
  | working {p : ProcessRef} {v : Visit} {rest : Prog Host Outcome}
      {body : Prog Host (Except Error Unit)} {next : Except Error Unit → Prog Host Outcome}
      (hrest : rest = leaving p next body) (hsec : v.sec ∈ r.sections)
      (hbody : body.Yields p (v.found.after v.log) fun ds res ↦
        v.sec.Does v.found (v.log ++ ds) res)
      (hnext : ∀ res, (next res).AtLarge r r.Ends {}) :
      Fits r (.inside p v) (.going rest)
  | waiting {p : ProcessRef} {v : Visit} {c : Call} {rest : c.Reply → Prog Host Outcome}
      {body : c.Reply → Prog Host (Except Error Unit)}
      {next : Except Error Unit → Prog Host Outcome}
      (hrest : ∀ reply, rest reply = leaving p next (body reply)) (hsec : v.sec ∈ r.sections)
      (hbody : ∀ reply, (body reply).Yields p (v.found.after v.log) fun ds res ↦
        v.sec.Does v.found (v.log ++ .said (.answered c reply) :: ds) res)
      (hnext : ∀ res, (next res).AtLarge r r.Ends {}) :
      Fits r (.inside p v) (.asking c rest)

theorem Holds.of_kept {stage : Stage} {h h' : Host} (hstage : stage.Holds h)
    (hcount : h.processes.count ≤ h'.processes.count)
    (hkept : ∀ p < h.processes.count, stage.Has p → h'.processes.get p = h.processes.get p) :
    stage.Holds h' := by
  cases stage with
  | atLarge b => exact fun p hp ↦ Nat.lt_of_lt_of_le (hstage p hp) hcount
  | inside p v =>
    obtain ⟨hlt, hfound, hget⟩ := hstage
    exact ⟨Nat.lt_of_lt_of_le hlt hcount, hfound, by rw [hkept p hlt rfl, hget]⟩

end Stage

/-- One more deed of a section. -/
def Visit.add (v : Visit) (d : Deed) : Visit := { v with log := v.log ++ [d] }

/-- What is recorded after a change of one manager. -/
theorem Manager.mem_of_modify {managers : Store Manager} {m₀ m : ManagerRef}
    {f : Manager → Manager} {id : String} {p : ProcessRef}
    (hmem : (id, p) ∈ ((managers.modify m₀ f).get m).recorded) :
    (m ≠ m₀ ∧ (id, p) ∈ (managers.get m).recorded) ∨
      (m = m₀ ∧ (id, p) ∈ (f (managers.get m)).recorded) := by
  by_cases hm : m = m₀
  · subst hm
    rw [Store.get_modify_self] at hmem
    exact .inr ⟨rfl, hmem⟩
  · rw [Store.get_modify_ne _ _ hm] at hmem
    exact .inl ⟨hm, hmem⟩

theorem Manager.mem_of_find {m : Manager} {id : String} {p : ProcessRef} (h : m.find id = .ok p) :
    (id, p) ∈ m.recorded := by
  unfold find at h
  split at h
  · rename_i q hq
    obtain ⟨before, after, hsplit, -⟩ := List.lookup_eq_some_iff.mp hq
    cases h
    rw [hsplit]
    exact List.mem_append_right _ List.mem_cons_self
  · cases h

namespace Deal

variable {r : Request} {h h' : Host} {b b' : Baggage}

theorem count_le (hdeal : Deal r h b h' b') : h.processes.count ≤ h'.processes.count := by
  cases hdeal with
  | recorded => exact Nat.le_succ _
  | _ => exact Nat.le_refl _

/-- A process stays as it is, unless it is one that was recorded just now. -/
theorem get_eq_or (hdeal : Deal r h b h' b') (p : ProcessRef) :
    (h'.processes.get p = h.processes.get p ∧
        (p < h'.processes.count → p < h.processes.count)) ∨
      (p = h.processes.count ∧ p < h'.processes.count ∧ (h'.processes.get p).IsNew b.own) := by
  cases hdeal with
  | @recorded _ _ m _ _ P _ hnew =>
    by_cases hp : p = h.processes.count
    · subst hp
      have hself : ((h.recording m P).processes.get h.processes.count) = P :=
        Store.get_add_self ..
      exact .inr ⟨rfl, Nat.lt_succ_self _, by rwa [hself]⟩
    · refine .inl ⟨Store.get_add_ne _ _ hp, fun hlt ↦ ?_⟩
      exact Nat.lt_of_le_of_ne (Nat.le_of_lt_succ hlt) hp
  | _ => exact .inl ⟨rfl, fun hlt ↦ hlt⟩

/-- The client owns what it owned, unless a process is new. -/
theorem count_eq_or (hdeal : Deal r h b h' b') :
    (h'.processes.count = h.processes.count ∧ b'.own = b.own) ∨
      (h'.processes.count = h.processes.count + 1 ∧
        (h'.processes.get h.processes.count).IsNew b.own ∧ b'.own = []) := by
  cases hdeal with
  | @recorded _ _ m _ _ P _ hnew =>
    have hself : ((h.recording m P).processes.get h.processes.count) = P := Store.get_add_self ..
    exact .inr ⟨rfl, by rwa [hself], rfl⟩
  | _ => exact .inl ⟨rfl, rfl⟩

/-- Only a process that was locked before is locked. -/
theorem locked_of_locked (hdeal : Deal r h b h' b') {p : ProcessRef}
    (hlocked : (h'.processes.get p).locked = true) : (h.processes.get p).locked = true := by
  rcases hdeal.get_eq_or p with ⟨hget, -⟩ | ⟨-, -, hnew⟩
  · rwa [hget] at hlocked
  · rw [hnew.free] at hlocked
    cases hlocked

theorem get_eq (hdeal : Deal r h b h' b') {p : ProcessRef} (hp : p < h.processes.count) :
    h'.processes.get p = h.processes.get p := by
  rcases hdeal.get_eq_or p with ⟨hget, -⟩ | ⟨hcount, -⟩
  · exact hget
  · exact absurd hcount (Nat.ne_of_lt hp)

/-- At most one record is new, that of a process that did not exist before. -/
theorem exists_new (hdeal : Deal r h b h' b') : ∃ m₀ id₀, ∀ m id p,
    (id, p) ∈ (h'.managers.get m).recorded → (id, p) ∈ (h.managers.get m).recorded ∨
      (m = m₀ ∧ id = id₀ ∧ p = h.processes.count ∧ p < h'.processes.count) := by
  cases hdeal with
  | nothing | found | dropped => exact ⟨0, "", fun _ _ _ hmem ↦ .inl hmem⟩
  | counted =>
    refine ⟨0, "", fun m id p hmem ↦ .inl ?_⟩
    simp only [Host.counted] at hmem
    rcases Manager.mem_of_modify hmem with ⟨-, hold⟩ | ⟨-, hold⟩
    · exact hold
    · exact hold
  | @recorded _ _ m₀ _ _ P =>
    refine ⟨m₀, P.id, fun m id p hmem ↦ ?_⟩
    simp only [Host.recording] at hmem
    rcases Manager.mem_of_modify hmem with ⟨-, hold⟩ | ⟨rfl, hbound⟩
    · exact .inl hold
    · rcases List.mem_append.mp hbound with hold | hnew
      · exact .inl hold
      · obtain ⟨rfl, rfl⟩ : id = P.id ∧ p = h.processes.count := by simpa using hnew
        exact .inr ⟨rfl, rfl, rfl, Nat.lt_succ_self _⟩
  | removed =>
    refine ⟨0, "", fun m id p hmem ↦ .inl ?_⟩
    simp only [Host.forgetting] at hmem
    rcases Manager.mem_of_modify hmem with ⟨-, hold⟩ | ⟨-, hkept⟩
    · exact hold
    · exact (List.mem_filter.mp hkept).1

theorem records (hdeal : Deal r h b h' b') {p : ProcessRef} (hrec : h'.Records p) :
    h.Records p ∨ (p = h.processes.count ∧ p < h'.processes.count) := by
  obtain ⟨m₀, id₀, hnew⟩ := hdeal.exists_new
  obtain ⟨m, id, hmem⟩ := hrec
  rcases hnew m id p hmem with hold | ⟨-, -, hp⟩
  · exact .inl ⟨m, id, hold⟩
  · exact .inr hp

/-- A process taken in hand is one that is recorded. -/
theorem hand_eq (hdeal : Deal r h b h' b') {p : ProcessRef} (hp : b'.hand = some p) :
    b.hand = some p ∨ h.Records p := by
  cases hdeal with
  | found _ _ hfind =>
    cases hp
    exact .inr ⟨_, _, Manager.mem_of_find hfind⟩
  | _ => exact .inl hp

end Deal

namespace Traffic

open Function (update)

/-- The stages are those of the clients. -/
structure Staged (s : Traffic) (σ : Nat → Stage) : Prop where
  fits : ∀ i c, s.clients[i]? = some c → (σ i).Fits c.request c.task
  absent : ∀ i, s.clients[i]? = none → σ i = .atLarge {}
  holds : ∀ i, (σ i).Holds s.host
  holder : ∀ p i, s.holder p = some i ↔ (σ i).Has p
  locked : ∀ p < s.host.processes.count, ((s.process p).locked = true ↔ s.holder p ≠ none)
  recorded : ∀ p, s.host.Records p → p < s.host.processes.count

/-- What a move does, and what it makes of the stages. -/
inductive Shift (s : Traffic) (σ : Nat → Stage) : Move → Traffic → (Nat → Stage) → Prop where
  | arrived {r : Request} :
      Shift s σ (.arrive r) { s with clients := s.clients ++ [⟨r, .going r.program⟩] } σ
  | changed {change : Host → Host} :
      Shift s σ (.outside change)
        { s with
          host := { change s.host with
            managers := s.host.managers
            processes := s.host.processes } } σ
  /-- A client at large looks, or changes what managers have recorded. -/
  | dealt {i : Nat} {c : Client} {b b' : Baggage} {h : Host} {rest : Prog Host Outcome}
      (hi : s.clients[i]? = some c) (hstage : σ i = .atLarge b)
      (hdeal : Deal c.request s.host b h b') (hacts : ∃ f k, c.task = .going (.act f k)) :
      Shift s σ (.proceed i)
        { s with host := h, clients := s.clients.set i ⟨c.request, .going rest⟩ }
        (update σ i (.atLarge b'))
  /-- A client at large makes a call, or is answered. -/
  | told {m : Move} {i : Nat} {c : Client} {b : Baggage} {x : Exchange} {task : Task}
      (hm : m.client? = some i) (hi : s.clients[i]? = some c) (hstage : σ i = .atLarge b)
      (hr : c.request.isLifecycle = false) (hx : x.call.IsPrivate b.own) (hseq : b.seq = none) :
      Shift s σ m (s.passAs i c.request x task) (update σ i (.atLarge (b.after x)))
  /-- A client takes the lock of the process it has in hand. -/
  | entered {i : Nat} {c : Client} {p : ProcessRef} {sec : Section} {rest : Prog Host Outcome}
      (hi : s.clients[i]? = some c) (hstage : σ i = .atLarge { hand := some p })
      (hsec : sec ∈ c.request.sections) (hfree : (s.process p).locked = false) :
      Shift s σ (.proceed i)
        { s with
          host := { s.host with processes := s.host.processes.modify p ({ · with locked := true }) }
          clients := s.clients.set i ⟨c.request, .going rest⟩
          holder := update s.holder p (some i) }
        (update σ i (.inside p ⟨sec, { s.process p with locked := true }, [], s.past⟩))
  /-- A client inside a section looks. -/
  | looked {i : Nat} {c : Client} {p : ProcessRef} {v : Visit} {rest : Prog Host Outcome}
      (hi : s.clients[i]? = some c) (hstage : σ i = .inside p v) :
      Shift s σ (.proceed i) { s with clients := s.clients.set i ⟨c.request, .going rest⟩ } σ
  | became {i : Nat} {c : Client} {p : ProcessRef} {v : Visit} {status : ProcessStatus}
      {rest : Prog Host Outcome} (hi : s.clients[i]? = some c) (hstage : σ i = .inside p v)
      (hsec : v.sec ∈ c.request.sections)
      (hdoes : ∃ ds res, v.sec.Does v.found (v.log ++ .became status :: ds) res) :
      Shift s σ (.proceed i)
        { s with
          host := s.host.withStatus p status
          clients := s.clients.set i ⟨c.request, .going rest⟩ }
        (update σ i (.inside p (v.add (.became status))))
  /-- A client inside a section makes a call, or is answered. -/
  | said {m : Move} {i : Nat} {c : Client} {p : ProcessRef} {v : Visit} {x : Exchange} {task : Task}
      (hm : m.client? = some i) (hi : s.clients[i]? = some c) (hstage : σ i = .inside p v)
      (hsec : v.sec ∈ c.request.sections)
      (hdoes : ∃ ds res, v.sec.Does v.found (v.log ++ .said x :: ds) res) :
      Shift s σ m (s.passAs i c.request x task) (update σ i (.inside p (v.add (.said x))))
  /-- A client at the end of a section gives the process back. -/
  | left {i : Nat} {c : Client} {p : ProcessRef} {v : Visit} {res : Except Error Unit}
      {rest : Prog Host Outcome} (hi : s.clients[i]? = some c) (hstage : σ i = .inside p v)
      (hsec : v.sec ∈ c.request.sections) (hdoes : v.sec.Does v.found v.log res) :
      Shift s σ (.proceed i)
        { s with
          host := Host.unlock p s.host
          clients := s.clients.set i ⟨c.request, .going rest⟩
          holder := update s.holder p none }
        (update σ i (.atLarge {}))

/-- What a move makes of the stage of one client. -/
inductive Turn (s t : Traffic) : Stage → Stage → Prop where
  | stay {stage : Stage} : Turn s t stage stage
  | dealt {r : Request} {b b' : Baggage} (hdeal : Deal r s.host b t.host b') :
      Turn s t (.atLarge b) (.atLarge b')
  | told {b : Baggage} {x : Exchange} (hx : x.call.IsPrivate b.own) :
      Turn s t (.atLarge b) (.atLarge (b.after x))
  | entered {p : ProcessRef} {sec : Section} (hfree : (s.process p).locked = false) :
      Turn s t (.atLarge { hand := some p })
        (.inside p ⟨sec, { s.process p with locked := true }, [], s.past⟩)
  | did {p : ProcessRef} {v : Visit} {d : Deed}
      (hdoes : ∃ ds res, v.sec.Does v.found (v.log ++ d :: ds) res) :
      Turn s t (.inside p v) (.inside p (v.add d))
  | left {p : ProcessRef} {v : Visit} {res : Except Error Unit}
      (hdoes : v.sec.Does v.found v.log res) (hpast : t.past = s.past)
      (hstatus : (t.process p).status = (s.process p).status) :
      Turn s t (.inside p v) (.atLarge {})

/-- A turn of the client that moves is one of everybody, as the others stay where they are. -/
theorem Turn.update {s t : Traffic} {σ : Nat → Stage} {i : Nat} {stage : Stage}
    (h : Turn s t (σ i) stage) (j : Nat) : Turn s t (σ j) (update σ i stage j) := by
  by_cases hij : j = i
  · rw [hij, Function.update_self]
    exact h
  · rw [Function.update_of_ne hij]
    exact .stay

theorem Shift.turn {s t : Traffic} {σ τ : Nat → Stage} {m : Move} (h : Shift s σ m t τ) (j : Nat) :
    Turn s t (σ j) (τ j) := by
  cases h with
  | arrived | changed | looked => exact .stay
  | dealt _ hstage hdeal => exact .update (by rw [hstage]; exact .dealt hdeal) j
  | told _ _ hstage _ hx => exact .update (by rw [hstage]; exact .told hx) j
  | entered _ hstage _ hfree => exact .update (by rw [hstage]; exact .entered hfree) j
  | became _ hstage _ hdoes => exact .update (by rw [hstage]; exact .did hdoes) j
  | said _ _ hstage _ hdoes => exact .update (by rw [hstage]; exact .did hdoes) j
  | left _ hstage _ hdoes =>
    exact .update (by rw [hstage]; exact .left hdoes rfl (by simp [process, Host.unlock])) j

theorem Shift.count_le {s t : Traffic} {σ τ : Nat → Stage} {m : Move} (h : Shift s σ m t τ) :
    s.host.processes.count ≤ t.host.processes.count := by
  cases h with
  | dealt _ _ hdeal => exact hdeal.count_le
  | _ => exact Nat.le_refl _

/-- A process that exists keeps everything but its status and its lock. -/
theorem Shift.process_keeps {s t : Traffic} {σ τ : Nat → Stage} {m : Move} {p : ProcessRef}
    (h : Shift s σ m t τ) (hp : p < s.host.processes.count) :
    ∃ status locked, t.process p = { s.process p with status, locked } := by
  cases h with
  | arrived | changed | told | looked | said => exact ⟨_, _, rfl⟩
  | dealt _ _ hdeal => exact ⟨_, _, hdeal.get_eq hp⟩
  | @entered _ _ q | @became _ _ q | @left _ _ q =>
    by_cases hpq : p = q
    · simp only [process, Host.unlock, Host.withStatus, hpq, Store.get_modify_self]
      exact ⟨_, _, rfl⟩
    · simp only [process, Host.unlock, Host.withStatus, Store.get_modify_ne _ _ hpq]
      exact ⟨_, _, rfl⟩

theorem Shift.ordered_eq {s t : Traffic} {σ τ : Nat → Stage} {m : Move} {p : ProcessRef}
    (h : Shift s σ m t τ) (hp : p < s.host.processes.count) :
    (t.process p).ordered = (s.process p).ordered := by
  obtain ⟨status, locked, heq⟩ := h.process_keeps hp
  rw [heq]
  rfl

/-- A process that exists is put into another status only inside a section. -/
theorem Shift.status_eq_or {s t : Traffic} {σ τ : Nat → Stage} {m : Move} {p : ProcessRef}
    (h : Shift s σ m t τ) (hp : p < s.host.processes.count) :
    (t.process p).status = (s.process p).status ∨ ∃ i c v ds res, m.client? = some i ∧
      s.clients[i]? = some c ∧ v.sec ∈ c.request.sections ∧ σ i = .inside p v ∧
      v.sec.Does v.found (v.log ++ .became (t.process p).status :: ds) res := by
  cases h with
  | arrived | changed | told | looked | said => exact .inl rfl
  | dealt _ _ hdeal => exact .inl (congrArg Process.status (hdeal.get_eq hp))
  | @entered _ _ q =>
    by_cases hpq : p = q
    · simp [process, hpq]
    · simp [process, hpq]
  | @left _ _ q =>
    by_cases hpq : p = q
    · simp [process, Host.unlock, hpq]
    · simp [process, Host.unlock, hpq]
  | @became i c q v status _ hi hstage hsec hdoes =>
    by_cases hpq : p = q
    · subst hpq
      obtain ⟨ds, res, hdoes⟩ := hdoes
      exact .inr ⟨i, c, v, ds, res, rfl, hi, hsec, hstage, by simpa [process] using hdoes⟩
    · simp [process, hpq]

/-- A process that exists is changed only by a client who has it, or takes it. -/
theorem Shift.process_eq {s t : Traffic} {σ τ : Nat → Stage} {m : Move} {p : ProcessRef}
    (h : Shift s σ m t τ) (hp : p < s.host.processes.count)
    (hothers : ∀ i, m.client? = some i → ¬(σ i).Has p ∧ ¬(σ i).Awaits p) :
    t.process p = s.process p := by
  have hne {i : Nat} {q : ProcessRef} (hm : m.client? = some i)
      (hq : (σ i).Has q ∨ (σ i).Awaits q) : p ≠ q := by
    rintro rfl
    exact hq.elim (hothers i hm).1 (hothers i hm).2
  cases h with
  | arrived | changed | told | looked | said => rfl
  | dealt _ _ hdeal => exact hdeal.get_eq hp
  | entered _ hstage =>
    have hpq := hne rfl (.inr (by rw [hstage]; rfl))
    simp [process, hpq]
  | became _ hstage =>
    have hpq := hne rfl (.inl (by rw [hstage]; rfl))
    simp [process, hpq]
  | left _ hstage =>
    have hpq := hne rfl (.inl (by rw [hstage]; rfl))
    simp [process, Host.unlock, hpq]

/-- Who makes a call is at large and creates or removes a process, or is inside a section. -/
theorem Shift.asked {s t : Traffic} {σ τ : Nat → Stage} {m : Move} {i : Nat} {call : Call}
    (h : Shift s σ m t τ) (hpast : t.past = ⟨i, .asked call⟩ :: s.past) :
    (∃ c b, s.clients[i]? = some c ∧ c.request.isLifecycle = false ∧ σ i = .atLarge b ∧
        call.IsPrivate b.own) ∨
      ∃ p v ds res, σ i = .inside p v ∧
        v.sec.Does v.found (v.log ++ .said (.asked call) :: ds) res := by
  cases h with
  | arrived | changed | dealt | entered | looked | became | left =>
    exact absurd (congrArg List.length hpast) (by simp)
  | told _ hi hstage hr hx =>
    cases hpast
    exact .inl ⟨_, _, hi, hr, hstage, hx⟩
  | said _ hi hstage _ hdoes =>
    cases hpast
    obtain ⟨ds, res, hdoes⟩ := hdoes
    exact .inr ⟨_, _, ds, res, hstage, hdoes⟩

namespace Staged

variable {s t : Traffic} {σ : Nat → Stage} {i : Nat} {p : ProcessRef}

theorem lt_of_has (hs : Staged s σ) (h : (σ i).Has p) : p < s.host.processes.count := by
  have hholds := hs.holds i
  cases hσ : σ i with
  | atLarge b => rw [hσ] at h; exact h.elim
  | inside q v =>
    rw [hσ] at h hholds
    exact h ▸ hholds.1

/-- Nobody has a process whose lock is free. -/
theorem holder_eq_none (hs : Staged s σ) (hfree : (s.process p).locked = false) :
    s.holder p = none := by
  cases hp : s.holder p with
  | none => rfl
  | some i =>
    have hlt := hs.lt_of_has ((hs.holder p i).mp hp)
    have hlocked := (hs.locked p hlt).mpr (by simp [hp])
    simp [hfree] at hlocked

/-- A process whose lock is neither taken nor given back stays with whom it is. -/
theorem holderAfter_apply (hs : Staged s σ) {h : Host}
    (hlocked : (h.processes.get p).locked = true → (s.process p).locked = true)
    (hkept : p < s.host.processes.count → (s.process p).locked = true →
      (h.processes.get p).locked = true) :
    s.holderAfter i h p = s.holder p := by
  unfold holderAfter
  by_cases hafter : (h.processes.get p).locked = true
  · rw [if_pos hafter, if_pos (hlocked hafter)]
  · rw [if_neg hafter]
    by_contra hne
    obtain ⟨j, hj⟩ := Option.ne_none_iff_exists'.mp (Ne.symm hne)
    have hlt := hs.lt_of_has ((hs.holder p j).mp hj)
    exact hafter (hkept hlt ((hs.locked p hlt).mpr (by simp [hj])))

/-- A client moves: what is to be shown of the client, of the host and of the others. -/
theorem move (hs : Staged s σ) {h : Host} {holder : ProcessRef → Option Nat} {past : List Entry}
    {c : Client} {stage : Stage} {task : Task} (hi : s.clients[i]? = some c)
    (hfits : stage.Fits c.request task) (hholds : stage.Holds h)
    (hothers : ∀ j ≠ i, (σ j).Holds h)
    (hholder : ∀ p j, holder p = some j ↔ (update σ i stage j).Has p)
    (hlocked : ∀ p < h.processes.count,
      ((h.processes.get p).locked = true ↔ holder p ≠ none))
    (hrecorded : ∀ p, h.Records p → p < h.processes.count) :
    Staged ⟨h, s.clients.set i ⟨c.request, task⟩, holder, past⟩ (update σ i stage) := by
  have hlt : i < s.clients.length := (List.getElem?_eq_some_iff.mp hi).1
  refine ⟨?_, ?_, ?_, hholder, hlocked, hrecorded⟩
  · intro j c' hj
    by_cases hij : j = i
    · subst hij
      obtain rfl : ⟨c.request, task⟩ = c' := by
        simpa [List.getElem?_set_self hlt] using hj
      simpa using hfits
    · rw [List.getElem?_set_ne (Ne.symm hij)] at hj
      simpa [Function.update_of_ne hij] using hs.fits j c' hj
  · intro j hj
    have hij : j ≠ i := by
      rintro rfl
      simp [List.getElem?_set_self hlt] at hj
    rw [List.getElem?_set_ne (Ne.symm hij)] at hj
    simpa [Function.update_of_ne hij] using hs.absent j hj
  · intro j
    by_cases hij : j = i
    · subst hij
      simpa using hholds
    · simpa [Function.update_of_ne hij] using hothers j hij

/-- The stage of the client that moves is another one, but it has what it had. -/
theorem has_update (hs : Staged s σ) {stage : Stage} (hstage : ∀ p, stage.Has p ↔ (σ i).Has p)
    (p : ProcessRef) (j : Nat) : s.holder p = some j ↔ (update σ i stage j).Has p := by
  rw [hs.holder]
  by_cases hij : j = i
  · rw [hij, Function.update_self, hstage]
  · rw [Function.update_of_ne hij]

theorem dealt (hs : Staged s σ) {c : Client} {b b' : Baggage} {h : Host} {rest : Prog Host Outcome}
    (hi : s.clients[i]? = some c) (hstage : σ i = .atLarge b) (hdeal : Deal c.request s.host b h b')
    (hrest : rest.AtLarge c.request c.request.Ends b') :
    Staged { s with host := h, clients := s.clients.set i ⟨c.request, .going rest⟩ }
      (update σ i (.atLarge b')) := by
  have hholds : (σ i).Holds s.host := hs.holds i
  rw [hstage] at hholds
  have hle := hdeal.count_le
  refine hs.move hi (.going hrest) (fun p hp ↦ ?_) (fun j _ ↦ ?_) (hs.has_update ?_) (fun p hp ↦ ?_)
    fun p hp ↦ ?_
  · rcases hdeal.hand_eq hp with hhand | hrec
    · exact Nat.lt_of_lt_of_le (hholds p hhand) hle
    · exact Nat.lt_of_lt_of_le (hs.recorded p hrec) hle
  · exact (hs.holds j).of_kept hdeal.count_le fun p hp _ ↦ hdeal.get_eq hp
  · simp [hstage, Stage.Has]
  · rcases hdeal.get_eq_or p with ⟨hget, hlt⟩ | ⟨hcount, -, hnew⟩
    · rw [hget]
      exact hs.locked p (hlt hp)
    · have hnone : s.holder p = none := by
        by_contra hne
        obtain ⟨j, hj⟩ := Option.ne_none_iff_exists'.mp hne
        have hlt := hs.lt_of_has ((hs.holder p j).mp hj)
        exact Nat.ne_of_lt hlt hcount
      simp [hnone, hnew.free]
  · rcases hdeal.records hp with hrec | ⟨-, hlt⟩
    · exact Nat.lt_of_lt_of_le (hs.recorded p hrec) hle
    · exact hlt

/-- A client moves, and the host stays as it is. -/
theorem talk (hs : Staged s σ) (past : List Entry) {c : Client} {stage : Stage} {task : Task}
    (hi : s.clients[i]? = some c) (hfits : stage.Fits c.request task)
    (hholds : stage.Holds s.host) (hhas : ∀ p, stage.Has p ↔ (σ i).Has p) :
    Staged { s with clients := s.clients.set i ⟨c.request, task⟩, past := past }
      (update σ i stage) :=
  hs.move hi hfits hholds (fun j _ ↦ hs.holds j) (hs.has_update hhas) hs.locked hs.recorded

/-- A client changes one process, which nobody else has to himself. -/
theorem modify (hs : Staged s σ) {f : Process → Process} {holder : ProcessRef → Option Nat}
    {c : Client} {stage : Stage} {task : Task} (hi : s.clients[i]? = some c)
    (hfits : stage.Fits c.request task)
    (hholds : stage.Holds { s.host with processes := s.host.processes.modify p f })
    (hothers : ∀ j ≠ i, ¬(σ j).Has p)
    (hholder : ∀ q j, holder q = some j ↔ (update σ i stage j).Has q)
    (hlocked : ∀ q < s.host.processes.count,
      (((s.host.processes.modify p f).get q).locked = true ↔ holder q ≠ none)) :
    Staged
      { s with
        host := { s.host with processes := s.host.processes.modify p f }
        clients := s.clients.set i ⟨c.request, task⟩
        holder := holder } (update σ i stage) := by
  refine hs.move hi hfits hholds (fun j hij ↦ ?_) hholder hlocked hs.recorded
  refine (hs.holds j).of_kept (Nat.le_refl _) fun q _ hhas ↦ Store.get_modify_ne _ _ ?_
  rintro rfl
  exact hothers j hij hhas

/-- The client that moves, and nobody else, takes or gives back a process. -/
theorem has_update_holder (hs : Staged s σ) {stage : Stage} {who : Option Nat}
    (hothers : ∀ j ≠ i, ¬(σ j).Has p) (hwho : ∀ j, who = some j ↔ j = i ∧ stage.Has p)
    (hrest : ∀ q ≠ p, stage.Has q ↔ (σ i).Has q) (q : ProcessRef) (j : Nat) :
    update s.holder p who q = some j ↔ (update σ i stage j).Has q := by
  by_cases hqp : q = p
  · subst hqp
    rw [Function.update_self, hwho]
    by_cases hij : j = i
    · simp [hij]
    · simp [hij, hothers j hij]
  · rw [Function.update_of_ne hqp]
    by_cases hij : j = i
    · rw [hij, Function.update_self, hs.holder, hrest q hqp]
    · rw [Function.update_of_ne hij, hs.holder]

/-- At most one client has a process to itself. -/
theorem eq_of_has (hs : Staged s σ) {j : Nat} (hi : (σ i).Has p) (hj : (σ j).Has p) : j = i := by
  have hpi := (hs.holder p i).mpr hi
  have hpj := (hs.holder p j).mpr hj
  rw [hpi] at hpj
  exact (Option.some.inj hpj).symm

theorem became (hs : Staged s σ) {c : Client} {v : Visit} {status : ProcessStatus}
    {rest : Prog Host Outcome} (hi : s.clients[i]? = some c) (hstage : σ i = .inside p v)
    (hfits : (Stage.inside p (v.add (.became status))).Fits c.request (.going rest)) :
    Staged
      { s with
        host := s.host.withStatus p status
        clients := s.clients.set i ⟨c.request, .going rest⟩ }
      (update σ i (.inside p (v.add (.became status)))) := by
  have hhas : (σ i).Has p := by rw [hstage]; rfl
  have hholds := hs.holds i
  rw [hstage] at hholds
  obtain ⟨hlt, hfound, hget⟩ := hholds
  refine hs.modify hi hfits ⟨hlt, hfound, ?_⟩ (fun j hij hj ↦ hij (hs.eq_of_has hhas hj))
    (hs.has_update ?_) fun q hq ↦ ?_
  · simp [Visit.add, hget, Process.after]
  · simp [hstage, Stage.Has]
  · have hkept : ((s.host.processes.modify p ({ · with status })).get q).locked =
        (s.process q).locked := by
      by_cases hqp : q = p
      · rw [hqp, Store.get_modify_self]
        rfl
      · rw [Store.get_modify_ne _ _ hqp]
        rfl
    rw [hkept]
    exact hs.locked q hq

theorem entered (hs : Staged s σ) {c : Client} {v : Visit} {rest : Prog Host Outcome}
    (hi : s.clients[i]? = some c) (hstage : σ i = .atLarge { hand := some p })
    (hfree : (s.process p).locked = false) (hlog : v.log = [])
    (hfound : v.found = { s.process p with locked := true })
    (hfits : (Stage.inside p v).Fits c.request (.going rest)) :
    Staged
      { s with
        host := { s.host with processes := s.host.processes.modify p ({ · with locked := true }) }
        clients := s.clients.set i ⟨c.request, .going rest⟩
        holder := update s.holder p (some i) }
      (update σ i (.inside p v)) := by
  have hholds := hs.holds i
  rw [hstage] at hholds
  have hlt : p < s.host.processes.count := hholds p rfl
  have hnone := hs.holder_eq_none hfree
  have hnobody (j : Nat) : ¬(σ j).Has p := by
    rw [← hs.holder, hnone]
    simp
  refine hs.modify hi hfits ⟨hlt, by simp [hfound], ?_⟩ (fun j _ ↦ hnobody j)
    (hs.has_update_holder (fun j _ ↦ hnobody j) (fun j ↦ ?_) fun q hqp ↦ ?_) fun q hq ↦ ?_
  · simp [hlog, hfound, Process.after, process]
  · simp [Stage.Has, eq_comm]
  · simp [hstage, Stage.Has, Ne.symm hqp]
  · by_cases hqp : q = p
    · subst hqp
      simp
    · rw [Store.get_modify_ne _ _ hqp, Function.update_of_ne hqp]
      exact hs.locked q hq

theorem left (hs : Staged s σ) {c : Client} {v : Visit} {rest : Prog Host Outcome}
    (hi : s.clients[i]? = some c) (hstage : σ i = .inside p v)
    (hfits : (Stage.atLarge {}).Fits c.request (.going rest)) :
    Staged
      { s with
        host := Host.unlock p s.host
        clients := s.clients.set i ⟨c.request, .going rest⟩
        holder := update s.holder p none }
      (update σ i (.atLarge {})) := by
  have hhas : (σ i).Has p := by rw [hstage]; rfl
  have hothers (j : Nat) (hij : j ≠ i) : ¬(σ j).Has p := fun hj ↦ hij (hs.eq_of_has hhas hj)
  refine hs.modify hi hfits (fun q hq ↦ by cases hq) hothers
    (hs.has_update_holder hothers (fun j ↦ ?_) fun q hqp ↦ ?_) fun q hq ↦ ?_
  · simp [Stage.Has]
  · simp [hstage, Stage.Has, Ne.symm hqp]
  · by_cases hqp : q = p
    · subst hqp
      simp
    · rw [Store.get_modify_ne _ _ hqp, Function.update_of_ne hqp]
      exact hs.locked q hq

theorem arrived (hs : Staged s σ) (r : Request) :
    Staged { s with clients := s.clients ++ [⟨r, .going r.program⟩] } σ where
  fits := by
    intro i c hi
    by_cases hlt : i < s.clients.length
    · rw [List.getElem?_append_left hlt] at hi
      exact hs.fits i c hi
    · have habsent : s.clients[i]? = none := List.getElem?_eq_none (by omega)
      rw [List.getElem?_append_right (by omega)] at hi
      obtain ⟨-, rfl⟩ : i - s.clients.length = 0 ∧ ⟨r, .going r.program⟩ = c := by
        cases hzero : i - s.clients.length with
        | zero => simpa [hzero] using hi
        | succ n => simp [hzero] at hi
      rw [hs.absent i habsent]
      exact .going r.atLarge
  absent := by
    intro i hi
    have hlen : s.clients.length + 1 ≤ i := by simpa using List.getElem?_eq_none_iff.mp hi
    exact hs.absent i (List.getElem?_eq_none (by omega))
  holds := hs.holds
  holder := hs.holder
  locked := hs.locked
  recorded := hs.recorded

theorem changed (hs : Staged s σ) (change : Host → Host) :
    Staged
      { s with
        host := { change s.host with
          managers := s.host.managers
          processes := s.host.processes } } σ where
  fits := hs.fits
  absent := hs.absent
  holds i := (hs.holds i).of_kept (Nat.le_refl _) fun _ _ _ ↦ rfl
  holder := hs.holder
  locked := hs.locked
  recorded := hs.recorded

theorem initial {h : Host} (hunused : h.Unused) :
    Staged { host := h } fun _ ↦ .atLarge {} where
  fits i c hi := by simp at hi
  absent _ _ := rfl
  holds i p hp := by cases hp
  holder p i := by simp [Stage.Has]
  locked p hp := by simp [hunused.no_process] at hp
  recorded := by
    intro p hrec
    obtain ⟨m, id, hmem⟩ := hrec
    simp [hunused.no_record m] at hmem

/-! ### What a move can be -/

theorem holderAfter_self (hs : Staged s σ) : s.holderAfter i s.host = s.holder :=
  funext fun _ ↦ hs.holderAfter_apply (fun h ↦ h) fun _ h ↦ h

theorem holderAfter_deal (hs : Staged s σ) {r : Request} {h : Host} {b b' : Baggage}
    (hdeal : Deal r s.host b h b') : s.holderAfter i h = s.holder :=
  funext fun _ ↦ hs.holderAfter_apply hdeal.locked_of_locked fun hlt hlocked ↦ by
    rwa [hdeal.get_eq hlt]

theorem holderAfter_withStatus (hs : Staged s σ) (p : ProcessRef) (status : ProcessStatus) :
    s.holderAfter i (s.host.withStatus p status) = s.holder := by
  funext q
  have hkept : ((s.host.withStatus p status).processes.get q).locked = (s.process q).locked := by
    by_cases hqp : q = p
    · simp [hqp, process]
    · simp [hqp, process]
  exact hs.holderAfter_apply (by simp [hkept]) fun _ ↦ by simp [hkept]

/-- A lock is taken or given back. -/
theorem holderAfter_modify (hs : Staged s σ) (p : ProcessRef) (f : Process → Process) :
    s.holderAfter i { s.host with processes := s.host.processes.modify p f } =
      update s.holder p (if (f (s.process p)).locked then
        if (s.process p).locked then s.holder p else some i else none) := by
  funext q
  by_cases hqp : q = p
  · subst hqp
    unfold holderAfter
    rw [Function.update_self, Store.get_modify_self]
    rfl
  · rw [Function.update_of_ne hqp]
    have hkept : (s.host.processes.modify p f).get q = s.process q := Store.get_modify_ne _ _ hqp
    exact hs.holderAfter_apply (by simp [hkept]) fun _ ↦ by simp [hkept]

theorem exists_shift_act (hs : Staged s σ) {c : Client} {f : Host → Host}
    {k : Host → Prog Host Outcome} (hi : s.clients[i]? = some c)
    (htask : c.task = .going (.act f k)) :
    ∃ τ, Shift s σ (.proceed i) (s.actAs i c.request (f s.host) (k s.host)) τ ∧
      Staged (s.actAs i c.request (f s.host) (k s.host)) τ := by
  have hfits := hs.fits i c hi
  rw [htask] at hfits
  cases hstage : σ i with
  | atLarge b =>
    rw [hstage] at hfits
    cases hfits with
    | going hrest =>
      cases hrest with
      | act after hdeal hk =>
        unfold actAs
        rw [hs.holderAfter_deal (hdeal _)]
        exact ⟨_, .dealt hi hstage (hdeal _) ⟨_, _, htask⟩, hs.dealt hi hstage (hdeal _) (hk _)⟩
  | inside p v =>
    rw [hstage] at hfits
    have hholds := hs.holds i
    rw [hstage] at hholds
    cases hfits with
    | @working _ _ _ body next hrest hsec hbody hnext =>
      have hhas : (σ i).Has p := by rw [hstage]; rfl
      obtain ⟨hlt, hfound, hget⟩ := hholds
      cases body with
      | done res =>
        cases hrest
        unfold actAs
        rw [Host.unlock, hs.holderAfter_modify, if_neg (by simp)]
        have hdoes : v.sec.Does v.found (v.log ++ []) res := hbody
        rw [List.append_nil] at hdoes
        exact ⟨_, .left hi hstage hsec hdoes, hs.left hi hstage (.going (hnext res))⟩
      | act f' k' =>
        cases hrest
        rcases hbody s.host hget with ⟨hf, hk⟩ | ⟨status, hf, hk⟩
        · unfold actAs
          rw [hf, hs.holderAfter_self]
          refine ⟨σ, .looked hi hstage, ?_⟩
          have hstaged := hs.talk s.past hi (.working rfl hsec hk hnext)
            ⟨hlt, hfound, hget⟩ (by simp [hstage])
          rwa [← hstage, Function.update_eq_self] at hstaged
        · unfold actAs
          rw [hf, hs.holderAfter_withStatus]
          refine ⟨_, .became hi hstage hsec hk.exists_deeds, hs.became hi hstage ?_⟩
          refine .working rfl hsec ?_ hnext
          simpa [Visit.add, Process.after] using hk
      | await claim k' => exact hbody.elim
      | call x k' => cases hrest

theorem exists_shift_await (hs : Staged s σ) {c : Client} {claim : Host → Option Host}
    {k : Prog Host Outcome} {h : Host} (hi : s.clients[i]? = some c)
    (htask : c.task = .going (.await claim k)) (hclaim : claim s.host = some h) :
    ∃ τ, Shift s σ (.proceed i) (s.actAs i c.request h k) τ ∧
      Staged (s.actAs i c.request h k) τ := by
  have hfits := hs.fits i c hi
  rw [htask] at hfits
  cases hstage : σ i with
  | atLarge b =>
    rw [hstage] at hfits
    cases hfits with
    | going hrest =>
      cases hrest with
      | @visit p sec next hsec hnext =>
        unfold Host.lock? at hclaim
        split_ifs at hclaim with hlocked
        obtain rfl := Option.some.inj hclaim
        have hfree : (s.process p).locked = false := by simpa [process] using hlocked
        unfold actAs
        rw [hs.holderAfter_modify, if_pos rfl, if_neg (by simp [hfree])]
        refine ⟨_, .entered hi hstage hsec hfree, hs.entered hi hstage hfree rfl rfl ?_⟩
        exact .working rfl hsec (sec.yields p _) hnext
  | inside p v =>
    rw [hstage] at hfits
    cases hfits with
    | @working _ _ _ body next hrest hsec hbody hnext =>
      cases body with
      | await claim' k' => exact hbody.elim
      | _ => cases hrest

/-- A client that makes a call is at large or inside a section, and may make it. -/
theorem exists_shift_call (hs : Staged s σ) {c : Client} {x : Call}
    {k : x.Reply → Prog Host Outcome} (hi : s.clients[i]? = some c)
    (htask : c.task = .going (.call x k)) :
    ∃ τ, Shift s σ (.proceed i) (s.passAs i c.request (.asked x) (.asking x k)) τ ∧
      Staged (s.passAs i c.request (.asked x) (.asking x k)) τ := by
  have hfits := hs.fits i c hi
  rw [htask] at hfits
  have hholds := hs.holds i
  cases hstage : σ i with
  | atLarge b =>
    rw [hstage] at hfits hholds
    cases hfits with
    | going hrest =>
      cases hrest with
      | call hr hx hseq hk =>
        have hb := b.after_eq_self (x := .asked x) rfl
        refine ⟨_, .told rfl hi hstage hr hx hseq, hs.talk _ hi ?_ ?_
          (by simp [hstage, Stage.Has])⟩
        · rw [hb]
          exact .asking hr hx hseq hk
        · rw [hb]
          exact hholds
  | inside p v =>
    rw [hstage] at hfits hholds
    cases hfits with
    | @working _ _ _ body next hrest hsec hbody hnext =>
      cases body with
      | call x' k' =>
        cases hrest
        have hasked (reply : x.Reply) : (k' reply).Yields p (v.found.after v.log) fun ds res ↦
            v.sec.Does v.found (v.log ++ .said (.asked x) :: .said (.answered x reply) :: ds) res :=
          hbody reply
        have hdoes : ∃ ds res, v.sec.Does v.found (v.log ++ .said (.asked x) :: ds) res := by
          obtain ⟨reply⟩ := x.nonempty_reply
          obtain ⟨ds, res, h⟩ := (hasked reply).exists_deeds
          exact ⟨_, res, h⟩
        refine ⟨_, .said rfl hi hstage hsec hdoes, hs.talk _ hi ?_ ?_ (by simp [hstage, Stage.Has])⟩
        · refine .waiting (fun _ ↦ rfl) hsec (fun reply ↦ ?_) hnext
          simpa [Visit.add, Process.after] using hasked reply
        · simpa [Stage.Holds, Visit.add, Process.after] using hholds
      | await claim' k' => exact hbody.elim
      | _ => cases hrest

theorem exists_shift_answer (hs : Staged s σ) {c : Client} {x : Call}
    {k : x.Reply → Prog Host Outcome} (hi : s.clients[i]? = some c) (htask : c.task = .asking x k)
    (reply : (x : Call) → x.Reply) :
    ∃ τ, Shift s σ (.answer i reply)
        (s.passAs i c.request (.answered x (reply x)) (.going (k (reply x)))) τ ∧
      Staged (s.passAs i c.request (.answered x (reply x)) (.going (k (reply x)))) τ := by
  have hfits := hs.fits i c hi
  rw [htask] at hfits
  have hholds := hs.holds i
  cases hstage : σ i with
  | atLarge b =>
    rw [hstage] at hfits hholds
    cases hfits with
    | asking hr hx hseq hnext =>
      exact ⟨_, .told rfl hi hstage hr hx hseq,
        hs.talk _ hi (.going (hnext _)) hholds (by simp [hstage, Stage.Has])⟩
  | inside p v =>
    rw [hstage] at hfits hholds
    cases hfits with
    | waiting hrest hsec hbody hnext =>
      refine ⟨_, .said rfl hi hstage hsec (hbody _).exists_deeds,
        hs.talk _ hi ?_ ?_ (by simp [hstage, Stage.Has])⟩
      · refine .working (hrest _) hsec ?_ hnext
        simpa [Visit.add, Process.after] using hbody (reply x)
      · simpa [Stage.Holds, Visit.add, Process.after] using hholds

/-- Every move of clients who keep to their stages is one of those described, and leads to stages
again. -/
theorem exists_shift (hs : Staged s σ) {m : Move} (hstep : s.step m = some t) :
    ∃ τ, Shift s σ m t τ ∧ Staged t τ := by
  cases m with
  | arrive r =>
    cases hstep
    exact ⟨σ, .arrived, hs.arrived r⟩
  | outside change =>
    cases hstep
    exact ⟨σ, .changed, hs.changed change⟩
  | proceed i =>
    simp only [step] at hstep
    split at hstep
    · rename_i r f k hi
      cases hstep
      exact hs.exists_shift_act hi rfl
    · rename_i r claim k hi
      obtain ⟨h, hclaim, rfl⟩ := Option.map_eq_some_iff.mp hstep
      exact hs.exists_shift_await hi rfl hclaim
    · rename_i r x k hi
      cases hstep
      exact hs.exists_shift_call hi rfl
    · cases hstep
  | answer i reply =>
    simp only [step] at hstep
    split at hstep
    · rename_i r x k hi
      cases hstep
      exact hs.exists_shift_answer hi rfl reply
    · cases hstep

end Staged

/-- What every move keeps holds in all later states. -/
theorem Staged.exists_later {I : Traffic → (Nat → Stage) → Prop}
    (hkeep : ∀ {s t σ τ m}, Staged s σ → Shift s σ m t τ → I s σ → I t τ) {s t : Traffic}
    {σ : Nat → Stage} (hs : Staged s σ) (hI : I s σ) (hlater : Later s t) :
    ∃ τ, Staged t τ ∧ I t τ := by
  induction hlater with
  | refl => exact ⟨σ, hs, hI⟩
  | tail _ hnext ih =>
    obtain ⟨ρ, hstaged, hI⟩ := ih
    obtain ⟨m, hstep⟩ := hnext
    obtain ⟨τ, hshift, hstaged'⟩ := hstaged.exists_shift hstep
    exact ⟨τ, hstaged', hkeep hstaged hshift hI⟩

/-- What holds at the beginning and is kept by every move holds in every state that some run leads
to, for the stages of its clients. -/
theorem Reachable.exists_stages {I : Traffic → (Nat → Stage) → Prop}
    (hinitial : ∀ h : Host, h.Unused → I { host := h } fun _ ↦ .atLarge {})
    (hkeep : ∀ {s t σ τ m}, Staged s σ → Shift s σ m t τ → I s σ → I t τ) {s : Traffic}
    (hs : s.Reachable) : ∃ σ, Staged s σ ∧ I s σ := by
  obtain ⟨h, hunused, hlater⟩ := hs
  exact (Staged.initial hunused).exists_later hkeep (hinitial h hunused) hlater

theorem Reachable.exists_staged {s : Traffic} (hs : s.Reachable) : ∃ σ, Staged s σ := by
  obtain ⟨σ, hstaged, -⟩ := hs.exists_stages (I := fun _ _ ↦ True) (fun _ _ ↦ trivial)
    fun _ _ _ ↦ trivial
  exact ⟨σ, hstaged⟩

theorem Reachable.step {s t : Traffic} (hs : s.Reachable) {m : Move} (hstep : s.step m = some t) :
    t.Reachable := by
  obtain ⟨h, hunused, hs⟩ := hs
  exact ⟨h, hunused, hs.tail ⟨m, hstep⟩⟩

theorem Reachable.later {s t : Traffic} (hs : s.Reachable) (hlater : Later s t) : t.Reachable := by
  obtain ⟨h, hunused, hs⟩ := hs
  exact ⟨h, hunused, hs.trans hlater⟩

theorem Shift.isComplete {s t : Traffic} {σ τ : Nat → Stage} {m : Move} (h : Shift s σ m t τ)
    (hcomplete : ∀ p < s.host.processes.count, (s.process p).IsComplete) {p : ProcessRef}
    (hp : p < t.host.processes.count) : (t.process p).IsComplete := by
  by_cases hold : p < s.host.processes.count
  · obtain ⟨status, locked, heq⟩ := h.process_keeps hold
    rw [heq]
    exact ⟨(hcomplete p hold).named, (hcomplete p hold).ordered⟩
  · cases h with
    | dealt _ _ hdeal =>
      rcases hdeal.get_eq_or p with ⟨-, hlt⟩ | ⟨-, -, hnew⟩
      · exact absurd (hlt hp) hold
      · exact hnew.complete
    | _ => exact absurd hp hold

/-- Every process has its declared components. -/
theorem Reachable.isComplete {s : Traffic} {p : ProcessRef} (hs : s.Reachable)
    (hp : p < s.host.processes.count) : (s.process p).IsComplete := by
  obtain ⟨σ, -, hcomplete⟩ := hs.exists_stages
    (I := fun s _ ↦ ∀ p < s.host.processes.count, (s.process p).IsComplete)
    (fun h hunused p hp ↦ by simp [hunused.no_process] at hp)
    fun _ hshift hcomplete _ hp ↦ hshift.isComplete hcomplete hp
  exact hcomplete p hp

/-- A client has one process to himself at most. -/
theorem Reachable.eq_of_holder {s : Traffic} {p q : ProcessRef} {i : Nat} (hs : s.Reachable)
    (hp : s.holder p = some i) (hq : s.holder q = some i) : p = q := by
  obtain ⟨σ, hstaged⟩ := hs.exists_staged
  have hhas := (hstaged.holder p i).mp hp
  have hhas' := (hstaged.holder q i).mp hq
  cases hstage : σ i with
  | atLarge b =>
    rw [hstage] at hhas
    exact hhas.elim
  | inside r v =>
    rw [hstage] at hhas hhas'
    have hrp : r = p := hhas
    have hrq : r = q := hhas'
    rw [← hrp, hrq]

/-- Who has a process to himself is at work. -/
theorem Reachable.atWork {s : Traffic} {p : ProcessRef} {i : Nat} (hs : s.Reachable)
    (hi : s.holder p = some i) : s.AtWork p := by
  obtain ⟨σ, hstaged⟩ := hs.exists_staged
  have hhas := (hstaged.holder p i).mp hi
  cases hc : s.clients[i]? with
  | none =>
    rw [hstaged.absent i hc] at hhas
    exact hhas.elim
  | some c =>
    refine ⟨i, c, hc, ?_, hi⟩
    have hfits := hstaged.fits i c hc
    obtain ⟨r, task⟩ := c
    generalize σ i = stage at hhas hfits
    cases hfits with
    | going | asking => exact hhas.elim
    | @working q v rest body next hrest =>
      -- the lock is still to be given back
      cases body <;> exact hrest ▸ rfl
    | waiting => rfl

end Traffic

end ComponentHost
