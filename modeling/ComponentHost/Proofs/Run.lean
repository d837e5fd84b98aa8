import ComponentHost.Proofs.Stages

/-!
Runs whose moves keep to a condition.

`Traffic.Run A ms s t` says that the moves `ms` lead from `s` to `t`, and that each of them is made
as `A` allows. What every allowed move keeps holds at the end of a run (`Traffic.Run.keeps`). Two
conditions are of use for many statements: no condition at all, and that the clients take turns
(`Traffic.InTurn`), where a client who has begun to move goes on until it has to wait, for a lock or
for a component or plugin to answer.

A client's own exchanges are those of the past that it took part in (`Traffic.exchangesOf`).
-/

set_option autoImplicit false

namespace ComponentHost

/-! ### Taking turns -/

/-- The client has to wait, or has nothing to do any more. -/
def Task.waits : Task → Bool
  | .going (.done _) | .going (.await _ _) => true
  | .going _ => false
  | .asking c _ => c.suspends

def Move.isOutside : Move → Bool
  | .outside _ => true
  | _ => false

theorem Manager.find_eq_ok {m : Manager} {id : String} {p : ProcessRef}
    (h : m.recorded.get? id = some p) : m.find id = .ok p := by
  rw [find, h]

namespace Traffic

/-- A client is about to move on, and the move is neither its own nor one from outside. -/
def interrupts (m : Move) (c : Client) (j : Nat) : Bool :=
  !(c.task.waits || m.isOutside || m.client? == some j)

/-- The move interrupts nobody who has not come to wait. -/
def InTurn (s : Traffic) (m : Move) : Prop :=
  ∀ x ∈ s.clients.zipIdx, interrupts m x.1 x.2 = false

instance (s : Traffic) (m : Move) : Decidable (s.InTurn m) := by
  unfold InTurn
  infer_instance

/-- Everybody waits, or is finished. -/
def Quiet (s : Traffic) : Prop := ∀ c ∈ s.clients, c.task.waits = true

instance (s : Traffic) : Decidable s.Quiet := by
  unfold Quiet
  infer_instance

/-! ### Runs -/

/-- The moves lead from a state to another, and each is allowed where it is made. -/
def Run (A : Traffic → Move → Prop) : List Move → Traffic → Traffic → Prop
  | [], s, t => s = t
  | m :: rest, s, t => A s m ∧ ∃ u, s.step m = some u ∧ Run A rest u t

/-- Every move is allowed. -/
def Freely (_ : Traffic) (_ : Move) : Prop := True

namespace Run

variable {A B : Traffic → Move → Prop} {ms ns : List Move} {s t u : Traffic}

theorem mono (hAB : ∀ s m, A s m → B s m) (hrun : Run A ms s t) : Run B ms s t := by
  induction ms generalizing s with
  | nil => exact hrun
  | cons m rest ih =>
    obtain ⟨hA, u, hstep, hrest⟩ := hrun
    exact ⟨hAB s m hA, u, hstep, ih hrest⟩

theorem append (hrun : Run A ms s t) (hrun' : Run A ns t u) : Run A (ms ++ ns) s u := by
  induction ms generalizing s with
  | nil =>
    obtain rfl : s = t := hrun
    exact hrun'
  | cons m rest ih =>
    obtain ⟨hA, v, hstep, hrest⟩ := hrun
    exact ⟨hA, v, hstep, ih hrest⟩

theorem later (hrun : Run A ms s t) : Later s t := by
  induction ms generalizing s with
  | nil =>
    obtain rfl : s = t := hrun
    exact .refl
  | cons m rest ih =>
    obtain ⟨-, u, hstep, hrest⟩ := hrun
    have hnext : Next s u := ⟨m, hstep⟩
    exact .head hnext (ih hrest)

/-- What every allowed move keeps holds at the end. -/
theorem keeps {I : Traffic → Prop} (hs : s.Reachable)
    (hkeep : ∀ {s t m}, s.Reachable → A s m → s.step m = some t → I s → I t)
    (hrun : Run A ms s t) (hI : I s) : I t := by
  induction ms generalizing s with
  | nil =>
    obtain rfl : s = t := hrun
    exact hI
  | cons m rest ih =>
    obtain ⟨hA, u, hstep, hrest⟩ := hrun
    exact ih (hs.step hstep) hrest (hkeep hs hA hstep hI)

/-- What is so wherever a move is made, and at the end, is so throughout. -/
theorem throughout {N : Traffic → Prop} (hrun : Run (fun u _ ↦ N u) ms s t) (ht : N t) :
    s.Throughout N ms := by
  induction ms generalizing s with
  | nil =>
    obtain rfl : s = t := hrun
    exact ht
  | cons m rest ih =>
    obtain ⟨hN, u, hstep, hrest⟩ := hrun
    refine ⟨hN, fun v hv ↦ ?_⟩
    obtain rfl : u = v := Option.some.inj (hstep.symm.trans hv)
    exact ih hrest

/-- A move of the run that is as `Q` says is made somewhere between its ends. -/
theorem exists_of_meets {Q : Traffic → Move → Traffic → Prop} (hrun : Run A ms s t)
    (hmeets : s.Meets Q ms) : ∃ u m v, Later s u ∧ u.step m = some v ∧ Q u m v ∧ Later v t := by
  induction ms generalizing s with
  | nil => exact hmeets.elim
  | cons m rest ih =>
    obtain ⟨-, u, hstep, hrest⟩ := hrun
    obtain ⟨u', hstep', hmeets⟩ := hmeets
    obtain rfl : u = u' := Option.some.inj (hstep.symm.trans hstep')
    rcases hmeets with hQ | hmeets
    · exact ⟨s, m, u, .refl, hstep, hQ, hrest.later⟩
    · obtain ⟨v, m', w, hlater, hrest⟩ := ih hrest hmeets
      have hnext : Next s u := ⟨m, hstep⟩
      exact ⟨v, m', w, .head hnext hlater, hrest⟩

end Run

/-! ### Runs that are given -/

/-- The state after some moves; a move that cannot be made is passed over. -/
def after (s : Traffic) : List Move → Traffic
  | [] => s
  | m :: rest => ((s.step m).getD s).after rest

/-- Every move can be made and is allowed. -/
def follows (A : Traffic → Move → Prop) [∀ s m, Decidable (A s m)] :
    Traffic → List Move → Bool
  | _, [] => true
  | s, m :: rest => decide (A s m) && (s.step m).any fun t ↦ t.follows A rest

theorem run_of_follows {A : Traffic → Move → Prop} [∀ s m, Decidable (A s m)] {s : Traffic}
    {ms : List Move} (h : s.follows A ms = true) : Run A ms s (s.after ms) := by
  induction ms generalizing s with
  | nil => rfl
  | cons m rest ih =>
    obtain ⟨hA, hrest⟩ : A s m ∧ ((s.step m).any fun t ↦ t.follows A rest) = true := by
      simpa [follows] using h
    obtain ⟨t, hstep, ht⟩ := (Option.any_eq_true ..).mp hrest
    refine ⟨hA, t, hstep, ?_⟩
    rw [after, hstep]
    exact ih ht

/-- The moves of a client who is given these answers, at most `n`, until it cannot move. -/
def movesOf (i : Nat) (answers : (call : Call) → call.Reply) : Nat → Traffic → List Move
  | 0, _ => []
  | n + 1, s =>
    match s.step (s.moveOf i answers) with
    | some t => s.moveOf i answers :: movesOf i answers n t
    | none => []

/-- What a script has happen next. -/
inductive Cue where
  | enter (request : Request)
  /-- A client makes its moves, at most so many. -/
  | play (client times : Nat)

def movesOn (answers : (call : Call) → call.Reply) (s : Traffic) : Cue → List Move
  | .enter r => [.arrive r]
  | .play i n => movesOf i answers n s

/-- The moves of clients who follow a script. -/
def movesBy (answers : (call : Call) → call.Reply) : List Cue → Traffic → List Move
  | [], _ => []
  | cue :: rest, s =>
    s.movesOn answers cue ++ movesBy answers rest (s.after (s.movesOn answers cue))

theorem run_movesOf {A : Traffic → Move → Prop} {i : Nat} {answers : (call : Call) → call.Reply}
    (hA : ∀ s, A s (s.moveOf i answers)) (n : Nat) (s : Traffic) :
    Run A (movesOf i answers n s) s (s.after (movesOf i answers n s)) := by
  induction n generalizing s with
  | zero => rfl
  | succ n ih =>
    cases hstep : s.step (s.moveOf i answers) with
    | some t =>
      simp only [movesOf, hstep]
      refine ⟨hA s, t, hstep, ?_⟩
      rw [after, hstep]
      exact ih t
    | none =>
      simp only [movesOf, hstep]
      rfl

theorem after_append (s : Traffic) (ms ns : List Move) :
    s.after (ms ++ ns) = (s.after ms).after ns := by
  induction ms generalizing s with
  | nil => rfl
  | cons m rest ih => exact ih _

/-- The moves a cue may lead to are allowed. -/
def Cue.Suits (A : Traffic → Move → Prop) (answers : (call : Call) → call.Reply) : Cue → Prop
  | .enter r => ∀ s, A s (.arrive r)
  | .play i _ => ∀ s, A s (s.moveOf i answers)

theorem run_movesBy {A : Traffic → Move → Prop} {answers : (call : Call) → call.Reply}
    {cues : List Cue} (hA : ∀ cue ∈ cues, cue.Suits A answers) (s : Traffic) :
    Run A (movesBy answers cues s) s (s.after (movesBy answers cues s)) := by
  induction cues generalizing s with
  | nil => rfl
  | cons cue rest ih =>
    rw [movesBy, after_append]
    have hcue := hA cue List.mem_cons_self
    have hrest := ih (fun cue hmem ↦ hA cue (List.mem_cons_of_mem _ hmem))
    refine .append ?_ (hrest _)
    cases cue with
    | enter r => exact ⟨hcue s, _, rfl, rfl⟩
    | play i n => exact run_movesOf hcue n s

/-! ### What a move is -/

/-- What happens in a move. -/
inductive Happens (s : Traffic) : Move → Traffic → Prop where
  | arrived {r : Request} :
      Happens s (.arrive r) { s with clients := s.clients ++ [⟨r, .going r.program⟩] }
  | changed {change : Host → Host} :
      Happens s (.outside change)
        { s with
          host := { change s.host with
            managers := s.host.managers
            processes := s.host.processes } }
  | acted {i : Nat} {r : Request} {f : Host → Host} {k : Host → Prog Host Outcome}
      (hi : s.clients[i]? = some ⟨r, .going (.act f k)⟩) :
      Happens s (.proceed i) (s.actAs i r (f s.host) (k s.host))
  | took {i : Nat} {r : Request} {claim : Host → Option Host} {k : Prog Host Outcome} {h : Host}
      (hi : s.clients[i]? = some ⟨r, .going (.await claim k)⟩) (hclaim : claim s.host = some h) :
      Happens s (.proceed i) (s.actAs i r h k)
  | asked {i : Nat} {r : Request} {c : Call} {k : c.Reply → Prog Host Outcome}
      (hi : s.clients[i]? = some ⟨r, .going (.call c k)⟩) :
      Happens s (.proceed i) (s.passAs i r (.asked c) (.asking c k))
  | answered {i : Nat} {r : Request} {c : Call} {k : c.Reply → Prog Host Outcome}
      {reply : (c : Call) → c.Reply} (hi : s.clients[i]? = some ⟨r, .asking c k⟩) :
      Happens s (.answer i reply)
        (s.passAs i r (.answered c (reply c)) (.going (k (reply c))))

theorem happens_of_step {s t : Traffic} {m : Move} (hstep : s.step m = some t) :
    s.Happens m t := by
  cases m with
  | arrive r =>
    cases hstep
    exact .arrived
  | outside change =>
    cases hstep
    exact .changed
  | proceed i =>
    simp only [step] at hstep
    split at hstep
    · rename_i hi
      cases hstep
      exact .acted hi
    · rename_i hi
      obtain ⟨h, hclaim, rfl⟩ := Option.map_eq_some_iff.mp hstep
      exact .took hi hclaim
    · rename_i hi
      cases hstep
      exact .asked hi
    · cases hstep
  | answer i reply =>
    simp only [step] at hstep
    split at hstep
    · rename_i hi
      cases hstep
      exact .answered hi
    · cases hstep

section

variable {s t : Traffic} {m : Move} {i : Nat}

/-- A client that moves has another task. -/
theorem getElem?_set_client {c : Client} (hi : s.clients[i]? = some c) (c' : Client) :
    (s.clients.set i c')[i]? = some c' :=
  List.getElem?_set_self (List.getElem?_eq_some_iff.mp hi).1

/-- A client who is there stays there, with the same request; if somebody else moves, with the same
task. -/
theorem Happens.exists_client {c : Client} (h : s.Happens m t) (hi : s.clients[i]? = some c) :
    ∃ task, t.clients[i]? = some ⟨c.request, task⟩ ∧ (m.client? ≠ some i → task = c.task) := by
  have hset {j : Nat} {c₀ : Client} (hj : s.clients[j]? = some c₀) (task : Task) :
      ∃ task', (s.clients.set j ⟨c₀.request, task⟩)[i]? = some ⟨c.request, task'⟩ ∧
        (some j ≠ some i → task' = c.task) := by
    by_cases hji : j = i
    · subst hji
      obtain rfl : c₀ = c := Option.some.inj (hj.symm.trans hi)
      exact ⟨task, getElem?_set_client hj _, fun h ↦ absurd rfl h⟩
    · exact ⟨c.task, by rw [List.getElem?_set_ne hji, hi], fun _ ↦ rfl⟩
  cases h with
  | arrived =>
    have hlt : i < s.clients.length := (List.getElem?_eq_some_iff.mp hi).1
    exact ⟨c.task, by rw [List.getElem?_append_left hlt, hi], fun _ ↦ rfl⟩
  | changed => exact ⟨c.task, hi, fun _ ↦ rfl⟩
  | acted hj | took hj | asked hj | answered hj => exact hset hj _

/-- Who moves is there. -/
theorem Happens.exists_mover (h : s.Happens m t) (hm : m.client? = some i) :
    ∃ c, s.clients[i]? = some c := by
  cases h with
  | arrived | changed => cases hm
  | acted hj | took hj | asked hj | answered hj =>
    obtain rfl := Option.some.inj hm
    exact ⟨_, hj⟩

/-- Who moves is not finished. -/
theorem Happens.not_isFinished {c : Client} (h : s.Happens m t) (hm : m.client? = some i)
    (hi : s.clients[i]? = some c) : ¬c.isFinished = true := by
  cases h with
  | arrived | changed => cases hm
  | acted hj | took hj | asked hj | answered hj =>
    obtain rfl := Option.some.inj hm
    obtain rfl := Option.some.inj (hi.symm.trans hj)
    simp [Client.isFinished]

/-- Who was not there before has not begun. -/
theorem Happens.task_of_new {c : Client} (h : s.Happens m t) (hbefore : s.clients[i]? = none)
    (hi : t.clients[i]? = some c) : m = .arrive c.request ∧ c.task = .going c.request.program := by
  have hset {j : Nat} {c₀ c' : Client} (hj : s.clients[j]? = some c₀) :
      (s.clients.set j c')[i]? ≠ some c := by
    intro hc
    have hlt : i < (s.clients.set j c').length := (List.getElem?_eq_some_iff.mp hc).1
    rw [List.length_set] at hlt
    exact Nat.not_lt.mpr (List.getElem?_eq_none_iff.mp hbefore) hlt
  cases h with
  | changed => simp [hbefore] at hi
  | acted hj | took hj | asked hj | answered hj => exact absurd hi (hset hj)
  | arrived =>
    have hle : s.clients.length ≤ i := List.getElem?_eq_none_iff.mp hbefore
    rw [List.getElem?_append_right hle] at hi
    obtain rfl := List.mem_singleton.mp (List.mem_of_getElem? hi)
    exact ⟨rfl, rfl⟩

end

/-! ### Clients that are finished -/

/-- The call of a client that is finished, and how it has ended. -/
def finished? (s : Traffic) (i : Nat) : Option (Request × Outcome) :=
  match s.clients[i]? with
  | some ⟨r, .going (.done o)⟩ => some (r, o)
  | _ => none

section

variable {s t : Traffic} {m : Move} {i : Nat}

theorem finished?_eq_some {r : Request} {o : Outcome}
    (hi : s.clients[i]? = some ⟨r, .going (.done o)⟩) : s.finished? i = some (r, o) := by
  rw [finished?, hi]

theorem getElem?_of_finished? {r : Request} {o : Outcome} (h : s.finished? i = some (r, o)) :
    s.clients[i]? = some ⟨r, .going (.done o)⟩ := by
  unfold finished? at h
  split at h
  · rename_i hi
    cases h
    exact hi
  · cases h

/-- Who is finished stays so. -/
theorem Happens.finished? {y : Request × Outcome} (h : s.Happens m t)
    (hi : s.finished? i = some y) : t.finished? i = some y := by
  obtain ⟨r, o⟩ := y
  have hclient := getElem?_of_finished? hi
  obtain ⟨task, htask, hothers⟩ := h.exists_client hclient
  have hm : m.client? ≠ some i := fun hm ↦ h.not_isFinished hm hclient rfl
  rw [hothers hm] at htask
  exact finished?_eq_some htask

theorem Run.finished? {A : Traffic → Move → Prop} {ms : List Move} {y : Request × Outcome}
    (hrun : Run A ms s t) (hi : s.finished? i = some y) : t.finished? i = some y := by
  induction ms generalizing s with
  | nil =>
    obtain rfl : s = t := hrun
    exact hi
  | cons m rest ih =>
    obtain ⟨-, u, hstep, hrest⟩ := hrun
    exact ih hrest ((happens_of_step hstep).finished? hi)

end

/-! ### The exchanges of a client -/

/-- What has passed between a client and the collaborators, the earliest first. -/
def exchangesOf (s : Traffic) (i : Nat) : List Exchange :=
  (s.past.filter (·.client == i)).reverse.map (·.exchange)

section

variable {s t : Traffic} {m : Move} {i : Nat}

@[simp] theorem exchangesOf_actAs (j : Nat) (r : Request) (h : Host) (rest : Prog Host Outcome) :
    (s.actAs j r h rest).exchangesOf i = s.exchangesOf i := rfl

@[simp] theorem process_passAs (j : Nat) (r : Request) (x : Exchange) (task : Task)
    (p : ProcessRef) : (s.passAs j r x task).process p = s.process p := rfl

/-- What passes is an exchange of the client that moves. -/
theorem exchangesOf_passAs (j : Nat) (r : Request) (x : Exchange) (task : Task) :
    (s.passAs j r x task).exchangesOf i = s.exchangesOf i ++ if j = i then [x] else [] := by
  by_cases hij : j = i <;> simp [exchangesOf, passAs, hij]

@[simp] theorem exchangesOf_passAs_self (r : Request) (x : Exchange) (task : Task) :
    (s.passAs i r x task).exchangesOf i = s.exchangesOf i ++ [x] := by
  rw [exchangesOf_passAs, if_pos rfl]

/-- What passes between a client and the collaborators is nothing to the others, and is not
forgotten. -/
theorem Happens.exists_exchangesOf (h : s.Happens m t) (i : Nat) :
    ∃ xs, t.exchangesOf i = s.exchangesOf i ++ xs ∧ (m.client? ≠ some i → xs = []) := by
  cases h with
  | arrived | changed | acted | took => exact ⟨[], (List.append_nil _).symm, fun _ ↦ rfl⟩
  | asked | answered =>
    exact ⟨_, exchangesOf_passAs .., fun hne ↦ if_neg fun hji ↦ hne (congrArg some hji)⟩

theorem Later.exists_exchangesOf (hlater : Later s t) (i : Nat) :
    ∃ xs, t.exchangesOf i = s.exchangesOf i ++ xs := by
  induction hlater with
  | refl => exact ⟨[], (List.append_nil _).symm⟩
  | tail _ hnext ih =>
    obtain ⟨m, hstep⟩ := hnext
    obtain ⟨xs, hxs⟩ := ih
    obtain ⟨ys, hys, -⟩ := (happens_of_step hstep).exists_exchangesOf i
    exact ⟨xs ++ ys, by rw [hys, hxs, List.append_assoc]⟩

/-- Who has not come yet has said nothing. -/
theorem Reachable.exchangesOf_eq_nil (hs : s.Reachable) (hi : s.clients[i]? = none) :
    s.exchangesOf i = [] := by
  obtain ⟨h, -, hlater⟩ := hs
  induction hlater with
  | refl => rfl
  | @tail t u _ hnext ih =>
    obtain ⟨m, hstep⟩ := hnext
    have hhappens := happens_of_step hstep
    have hbefore : t.clients[i]? = none := by
      by_contra hne
      obtain ⟨c, hc⟩ := Option.ne_none_iff_exists'.mp hne
      obtain ⟨task, htask, -⟩ := hhappens.exists_client hc
      simp [hi] at htask
    obtain ⟨xs, hxs, hothers⟩ := hhappens.exists_exchangesOf i
    have hm : m.client? ≠ some i := by
      cases hhappens with
      | arrived | changed => simp [Move.client?]
      | acted hj | took hj | asked hj | answered hj =>
        intro hji
        obtain rfl := Option.some.inj hji
        simp [hbefore] at hj
    rw [hxs, hothers hm, ih hbefore, List.append_nil]

/-- Who has just come has said nothing. -/
theorem Reachable.exchangesOf_of_new {c : Client} (hs : s.Reachable) (hhappens : s.Happens m t)
    (hbefore : s.clients[i]? = none) (hi : t.clients[i]? = some c) : t.exchangesOf i = [] := by
  obtain ⟨hm, -⟩ := hhappens.task_of_new hbefore hi
  obtain ⟨xs, hxs, hothers⟩ := hhappens.exists_exchangesOf i
  rw [hxs, hs.exchangesOf_eq_nil hbefore, hothers (by simp [hm, Move.client?])]
  rfl

end

/-- A process keeps everything but its status and its lock. -/
theorem Reachable.process_step {s t : Traffic} {m : Move} {p : ProcessRef} (hs : s.Reachable)
    (hp : p < s.host.processes.count) (hstep : s.step m = some t) :
    p < t.host.processes.count ∧
      ∃ status locked, t.process p = { s.process p with status, locked } := by
  obtain ⟨σ, hstaged⟩ := hs.exists_staged
  obtain ⟨τ, hshift, -⟩ := hstaged.exists_shift hstep
  exact ⟨Nat.lt_of_lt_of_le hp hshift.count_le, hshift.process_keeps hp⟩

theorem Reachable.process_later {s t : Traffic} {p : ProcessRef} (hs : s.Reachable)
    (hp : p < s.host.processes.count) (hlater : Later s t) :
    p < t.host.processes.count ∧
      ∃ status locked, t.process p = { s.process p with status, locked } := by
  induction hlater with
  | refl => exact ⟨hp, _, _, rfl⟩
  | @tail u v hsu hnext ih =>
    obtain ⟨hlt, status, locked, hu⟩ := ih
    obtain ⟨m, hstep⟩ := hnext
    obtain ⟨hlt', status', locked', hv⟩ := (hs.later hsu).process_step hlt hstep
    exact ⟨hlt', status', locked', by rw [hv, hu]⟩

/-- A process that was locked and still is stays with whom it is. -/
theorem holder_actAs_of_locked {s : Traffic} {i : Nat} {r : Request} {h : Host}
    {rest : Prog Host Outcome} {p : ProcessRef} (hbefore : (s.process p).locked = true)
    (hafter : (h.processes.get p).locked = true) :
    (s.actAs i r h rest).holder p = s.holder p := by
  show s.holderAfter i h p = s.holder p
  rw [holderAfter, if_pos hafter, if_pos hbefore]

/-- A process that somebody has to himself is locked. -/
theorem Reachable.locked_of_holder {s : Traffic} {p : ProcessRef} {i : Nat} (hs : s.Reachable)
    (hi : s.holder p = some i) : (s.process p).locked = true := by
  obtain ⟨σ, hstaged⟩ := hs.exists_staged
  have hlt := hstaged.lt_of_has ((hstaged.holder p i).mp hi)
  exact (hstaged.locked p hlt).mpr (by simp [hi])

/-- Who only looks takes no lock and gives none back. -/
theorem Reachable.holder_actAs {s : Traffic} (hs : s.Reachable) (i : Nat) (r : Request)
    (rest : Prog Host Outcome) : (s.actAs i r s.host rest).holder = s.holder := by
  obtain ⟨σ, hstaged⟩ := hs.exists_staged
  exact hstaged.holderAfter_self

/-- A process that somebody has to himself is changed by nobody else, and nobody else takes it. -/
theorem Reachable.process_of_others {s t : Traffic} {m : Move} {p : ProcessRef} {i : Nat}
    (hs : s.Reachable) (hi : s.holder p = some i) (hstep : s.step m = some t)
    (hm : m.client? ≠ some i) : t.process p = s.process p ∧ t.holder p = some i := by
  obtain ⟨σ, hstaged⟩ := hs.exists_staged
  obtain ⟨τ, hshift, hstaged'⟩ := hstaged.exists_shift hstep
  have hhas : (σ i).Has p := (hstaged.holder p i).mp hi
  have hlt : p < s.host.processes.count := hstaged.lt_of_has hhas
  have hlocked := hs.locked_of_holder hi
  have hne {j : Nat} {q : ProcessRef} (hmove : m.client? = some j) (hq : (σ j).Has q) : q ≠ p := by
    rintro rfl
    exact hm (by rw [hmove, hstaged.eq_of_has hhas hq])
  cases hshift with
  | arrived | changed | told | looked | said => exact ⟨rfl, hi⟩
  | dealt _ _ hdeal => exact ⟨hdeal.get_eq hlt, hi⟩
  | @entered j _ q _ _ _ _ _ hfree =>
    have hqp : q ≠ p := by
      rintro rfl
      simp [hlocked] at hfree
    exact ⟨by simp [process, hqp.symm], by simpa [hqp.symm] using hi⟩
  | @became j _ q _ _ _ _ hstage =>
    have hqp : q ≠ p := hne rfl (by rw [hstage]; rfl)
    exact ⟨by simp [process, hqp.symm], hi⟩
  | @left j _ q _ _ _ _ hstage =>
    have hqp : q ≠ p := hne rfl (by rw [hstage]; rfl)
    exact ⟨by simp [process, Host.unlock, hqp.symm], by simpa [hqp.symm] using hi⟩

end Traffic

end ComponentHost
