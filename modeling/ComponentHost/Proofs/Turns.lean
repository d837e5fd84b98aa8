import ComponentHost.Proofs.Run

/-!
What clients who take turns leave behind for one another.

Where clients take turns (`Traffic.InTurn`), nobody comes in between two waits of a client. So a
statement about the state need not be true at every moment: it is enough that every client makes it
true again before it waits. `Prog.Turn I i x w Q` says of the program `x` of the client `i` that it
does so for the statement `I`, from the scene `w` on. Whenever it goes on after a wait it may rely
on `I`, and on the others having taken nothing back (`Scene.Grows`). It ends as `Q` says.

If every request does so, `I` is true whenever everybody waits (`Traffic.Run.turns`).
-/

set_option autoImplicit false

namespace ComponentHost

open Function (update update_self update_of_ne update_eq_self)

/-! ### Scenes -/

/-- What clients leave behind for one another. -/
@[ext] structure Scene where
  managers : Store Manager
  processes : Store Process
  /-- What each client has come for. -/
  request : Nat → Option Request
  /-- What each client that is finished has come for, and how that has ended. -/
  finished : Nat → Option (Request × Outcome)
  /-- What has passed, the latest first. -/
  past : List Entry

namespace Scene

/-- The host looks like this. -/
def Shows (w : Scene) (h : Host) : Prop := h.managers = w.managers ∧ h.processes = w.processes

/-- A client has left the host like this. -/
def on (w : Scene) (h : Host) : Scene :=
  { w with managers := h.managers, processes := h.processes }

def joined (w : Scene) (i : Nat) (r : Request) : Scene :=
  { w with request := update w.request i (some r) }

def said (w : Scene) (i : Nat) (x : Exchange) : Scene := { w with past := ⟨i, x⟩ :: w.past }

/-- A call is made and answered. -/
def called (w : Scene) (i : Nat) (c : Call) (reply : c.Reply) : Scene :=
  (w.said i (.asked c)).said i (.answered c reply)

def ended (w : Scene) (i : Nat) (r : Request) (o : Outcome) : Scene :=
  { w with finished := update w.finished i (some (r, o)) }

/-- A client has come to where it is now, and may be finished. -/
def settled (w : Scene) (i : Nat) : Client → Scene
  | ⟨r, .going (.done o)⟩ => w.ended i r o
  | _ => w

theorem on_eq_self {w : Scene} {h : Host} (hshows : w.Shows h) : w.on h = w := by
  rw [on, hshows.1, hshows.2]

/-- Nothing is taken back: who has come, who is finished, and what has passed are not forgotten, and
the processes are the same but for their status and their lock. -/
structure Grows (w w' : Scene) : Prop where
  request : ∀ i r, w.request i = some r → w'.request i = some r
  finished : ∀ i x, w.finished i = some x → w'.finished i = some x
  past : w.past <:+ w'.past
  count : w.processes.count ≤ w'.processes.count
  process : ∀ p < w.processes.count,
    ∃ status locked, w'.processes.get p = { w.processes.get p with status, locked }

namespace Grows

variable {w w' w'' : Scene}

theorem refl (w : Scene) : w.Grows w :=
  ⟨fun _ _ h ↦ h, fun _ _ h ↦ h, List.suffix_refl _, Nat.le_refl _, fun _ _ ↦ ⟨_, _, rfl⟩⟩

theorem trans (h : w.Grows w') (h' : w'.Grows w'') : w.Grows w'' where
  request i r hr := h'.request i r (h.request i r hr)
  finished i x hx := h'.finished i x (h.finished i x hx)
  past := h.past.trans h'.past
  count := Nat.le_trans h.count h'.count
  process p hp := by
    obtain ⟨status, locked, heq⟩ := h.process p hp
    obtain ⟨status', locked', heq'⟩ := h'.process p (Nat.lt_of_lt_of_le hp h.count)
    exact ⟨status', locked', by rw [heq', heq]⟩

theorem said (w : Scene) (i : Nat) (x : Exchange) : w.Grows (w.said i x) :=
  { refl w with past := List.suffix_cons .. }

theorem joined {i : Nat} (hnew : w.request i = none) (r : Request) : w.Grows (w.joined i r) := by
  refine { refl w with request := fun j r' hr ↦ ?_ }
  have hj : j ≠ i := by
    rintro rfl
    simp [hnew] at hr
  simpa only [Scene.joined, update_of_ne hj] using hr

theorem ended {i : Nat} (hunfinished : w.finished i = none) (r : Request) (o : Outcome) :
    w.Grows (w.ended i r o) := by
  refine { refl w with finished := fun j x hx ↦ ?_ }
  have hj : j ≠ i := by
    rintro rfl
    simp [hunfinished] at hx
  simpa only [Scene.ended, update_of_ne hj] using hx

end Grows

/-- As `X` says, wherever a client may go on that has waited in the scene `w`. -/
def Resumes (I : Scene → Prop) (i : Nat) (w : Scene) (X : Scene → Prop) : Prop :=
  ∀ w', w.Grows w' → w'.finished i = none → I w' → X w'

theorem Resumes.grows {I : Scene → Prop} {i : Nat} {w w' : Scene} {X : Scene → Prop}
    (h : w.Resumes I i X) (hgrows : w.Grows w') : w'.Resumes I i X :=
  fun u hu hunfinished hI ↦ h u (hgrows.trans hu) hunfinished hI

end Scene

/-! ### Turns of a program -/

namespace Prog

variable {α β : Type} {I : Scene → Prop} {i : Nat} {w : Scene}

/-- From the scene on, the client makes `I` true before it waits, and ends as `Q` says. -/
def Turn (I : Scene → Prop) (i : Nat) : Prog Host α → Scene → (Scene → α → Prop) → Prop
  | .done a, w, Q => Q w a
  | .act f k, w, Q => ∀ h, w.Shows h → (k h).Turn I i (w.on (f h)) Q
  | .await claim k, w, Q => I w ∧ w.Resumes I i fun w ↦
      ∀ h h', w.Shows h → claim h = some h' → k.Turn I i (w.on h') Q
  | .call c k, w, Q =>
    if c.suspends then I (w.said i (.asked c)) ∧ (w.said i (.asked c)).Resumes I i fun w ↦
      ∀ r, (k r).Turn I i (w.said i (.answered c r)) Q
    else ∀ r, (k r).Turn I i (w.called i c r) Q

namespace Turn

theorem mono {x : Prog Host α} {Q R : Scene → α → Prop} (hx : x.Turn I i w Q)
    (h : ∀ w a, Q w a → R w a) : x.Turn I i w R := by
  induction x generalizing w with
  | done a => exact h _ _ hx
  | act f k ih => exact fun host hshows ↦ ih _ (hx host hshows)
  | await claim k ih =>
    exact ⟨hx.1, fun w' hgrows hunfinished hI host host' hshows hclaim ↦
      ih (hx.2 w' hgrows hunfinished hI host host' hshows hclaim)⟩
  | call c k ih =>
    unfold Turn at hx ⊢
    split at hx
    · rename_i hsuspends
      rw [if_pos hsuspends]
      exact ⟨hx.1, fun w' hgrows hunfinished hI r ↦ ih r (hx.2 w' hgrows hunfinished hI r)⟩
    · rename_i hsuspends
      rw [if_neg hsuspends]
      exact fun r ↦ ih r (hx r)

theorem bind {x : Prog Host α} {g : α → Prog Host β} {Q : Scene → β → Prop}
    (hx : x.Turn I i w fun w a ↦ (g a).Turn I i w Q) : (x.bind g).Turn I i w Q := by
  induction x generalizing w with
  | done a => exact hx
  | act f k ih => exact fun host hshows ↦ ih _ (hx host hshows)
  | await claim k ih =>
    exact ⟨hx.1, fun w' hgrows hunfinished hI host host' hshows hclaim ↦
      ih (hx.2 w' hgrows hunfinished hI host host' hshows hclaim)⟩
  | call c k ih =>
    rw [Prog.bind]
    unfold Turn at hx ⊢
    split at hx
    · rename_i hsuspends
      rw [if_pos hsuspends]
      exact ⟨hx.1, fun w' hgrows hunfinished hI r ↦ ih r (hx.2 w' hgrows hunfinished hI r)⟩
    · rename_i hsuspends
      rw [if_neg hsuspends]
      exact fun r ↦ ih r (hx r)

/-- One action after another: the second is taken only if the first succeeds. -/
theorem andThen {x : Action α} {f : α → Action β} {Q : Scene → Except Error β → Prop}
    (hx : x.run.Turn I i w fun w res ↦ match res with
      | .ok a => (f a).run.Turn I i w Q
      | .error e => Q w (.error e)) : (x >>= f).run.Turn I i w Q := by
  refine bind (x := x.run) (g := ExceptT.bindCont f) (hx.mono fun w res hres ↦ ?_)
  cases res with
  | ok a => exact hres
  | error e => exact hres

/-- A look at the host. -/
theorem look {f : Host → Host} {k : Host → Prog Host α} {Q : Scene → α → Prop}
    (hf : ∀ h, f h = h) (hk : ∀ h, w.Shows h → (k h).Turn I i w Q) :
    (Prog.act f k).Turn I i w Q := by
  intro h hshows
  rw [hf, Scene.on_eq_self hshows]
  exact hk h hshows

/-- A call that is answered at once. -/
theorem call {c : Call} {k : c.Reply → Prog Host α} {Q : Scene → α → Prop}
    (hc : c.suspends = false) (hk : ∀ r, (k r).Turn I i (w.called i c r) Q) :
    (Prog.call c k).Turn I i w Q := by
  unfold Turn
  rwa [hc, if_neg Bool.false_ne_true]

end Turn

end Prog

namespace Host

variable {I : Scene → Prop} {i : Nat} {w : Scene} {Q : Scene → Except Error Unit → Prop}

theorem find_turn {m : ManagerRef} {id : String} {Q : Scene → Except Error ProcessRef → Prop}
    (hfound : ∀ p, (w.managers.get m).find id = .ok p → Q w (.ok p))
    (hmissing : ∀ e, Q w (.error e)) : (find m id).run.Turn I i w Q := by
  refine .look (fun _ ↦ rfl) fun h hshows ↦ ?_
  show Q w ((h.managers.get m).find id)
  rw [hshows.1]
  cases hfind : (w.managers.get m).find id with
  | ok p => exact hfound p hfind
  | error e => exact hmissing e

theorem setStatus_turn {p : ProcessRef} {status : ProcessStatus}
    (hQ : ∀ h, w.Shows h → Q (w.on (h.withStatus p status)) (.ok ())) :
    (setStatus p status).run.Turn I i w Q := hQ

theorem log_turn {level : LogLevel} {message : String} {entries : Entries}
    (hQ : Q (w.called i (.log ⟨level, message, entries⟩) ()) (.ok ())) :
    (log level message entries).run.Turn I i w Q := .call rfl fun _ ↦ hQ

theorem announce_turn {topic : String} {p : ProcessRef}
    (hQ : Q (w.called i (announcement topic (w.processes.get p)) ()) (.ok ())) :
    (announce topic p).run.Turn I i w Q := by
  refine .look (fun _ ↦ rfl) fun h hshows ↦ .call rfl fun _ ↦ ?_
  have hQ : Q (w.called i (announcement topic (h.processes.get p)) ()) (.ok ()) := by
    rwa [hshows.2]
  exact hQ

theorem diagnose_turn {level : LineLevel} {message : String}
    (hQ : Q (w.called i (.line ⟨level, "zi_runtime", message⟩) ()) (.ok ())) :
    (diagnose level message).run.Turn I i w Q := .call rfl fun _ ↦ hQ

theorem takeSeq_turn {m : ManagerRef} {Q : Scene → Except Error UInt64 → Prop}
    (hQ : ∀ h, w.Shows h → Q (w.on (h.counted m)) (.ok (h.managers.get m).nextSeq)) :
    (takeSeq m).run.Turn I i w Q := hQ

theorem recordProcess_turn {m : ManagerRef} {P : Process}
    {Q : Scene → Except Error (Option ProcessRef) → Prop}
    (htaken : (w.managers.get m).recorded.contains P.id = true → Q w (.ok none))
    (hfree : ∀ h, w.Shows h → (h.managers.get m).recorded.contains P.id = false →
      Q (w.on (h.recording m P)) (.ok (some h.processes.count))) :
    (recordProcess m P).run.Turn I i w Q := by
  intro h hshows
  show Q (w.on (ite _ _ _ : _ × Host).2) (.ok (ite _ _ _ : _ × Host).1)
  split
  · rename_i hcontains
    rw [hshows.1] at hcontains
    show Q (w.on h) (.ok none)
    rw [Scene.on_eq_self hshows]
    exact htaken hcontains
  · rename_i hcontains
    exact hfree h hshows (by simpa using hcontains)

theorem unrecord_turn {m : ManagerRef} {id : String} {Q : Scene → Except Error ProcessRef → Prop}
    (hfound : ∀ h p, w.Shows h → (h.managers.get m).find id = .ok p →
      Q (w.on (h.forgetting m id)) (.ok p))
    (hmissing : ∀ e, Q w (.error e)) : (unrecord m id).run.Turn I i w Q := by
  intro h hshows
  cases hfind : (h.managers.get m).find id with
  | ok p =>
    simp only [Prog.Turn, hfind, Bind.bind, Except.bind, Pure.pure, Except.pure]
    exact hfound h p hshows hfind
  | error e =>
    simp only [Prog.Turn, hfind, Bind.bind, Except.bind]
    rw [Scene.on_eq_self hshows]
    exact hmissing e

end Host

/-! ### Turns of a client -/

/-- What becomes of a client in the scene: it waits and relies on others to leave `I` true, or it
has the turn and will make `I` true before it waits. -/
def Client.Goes (I : Scene → Prop) (i : Nat) (w : Scene) : Client → Prop
  | ⟨_, .going (.done _)⟩ => True
  | ⟨r, .going (.await claim k)⟩ => w.Resumes I i fun w ↦
      ∀ h h', w.Shows h → claim h = some h' → k.Turn I i (w.on h') fun w o ↦ I (w.ended i r o)
  | ⟨r, .going rest⟩ => rest.Turn I i w fun w o ↦ I (w.ended i r o)
  | ⟨r, .asking c k⟩ =>
    if c.suspends then w.Resumes I i fun w ↦
      ∀ reply, (k reply).Turn I i (w.said i (.answered c reply)) fun w o ↦ I (w.ended i r o)
    else ∀ reply, (k reply).Turn I i (w.said i (.answered c reply)) fun w o ↦ I (w.ended i r o)

namespace Client

variable {I : Scene → Prop} {i : Nat} {w w' : Scene} {r : Request}

/-- A client that waits does not mind what the others do. -/
theorem Goes.grows {c : Client} (h : c.Goes I i w) (hwaits : c.task.waits = true)
    (hgrows : w.Grows w') : c.Goes I i w' := by
  obtain ⟨r, task⟩ := c
  cases task with
  | going rest =>
    cases rest with
    | done o => trivial
    | await claim k => exact Scene.Resumes.grows h hgrows
    | act | call => cases hwaits
  | asking call k =>
    have hsuspends : call.suspends = true := hwaits
    simp only [Goes, hsuspends, if_true] at h ⊢
    exact h.grows hgrows

/-- The scene in which a client is on with the rest of its program; if it waits, `I` is true. -/
theorem goes_of_turn {rest : Prog Host Outcome}
    (h : rest.Turn I i w fun w o ↦ I (w.ended i r o)) :
    Goes I i (w.settled i ⟨r, .going rest⟩) ⟨r, .going rest⟩ ∧
      ((Task.going rest).waits = true → I (w.settled i ⟨r, .going rest⟩)) := by
  cases rest with
  | done o => exact ⟨trivial, fun _ ↦ h⟩
  | await claim k => exact ⟨h.2, fun _ ↦ h.1⟩
  | act | call => exact ⟨h, fun hwaits ↦ nomatch hwaits⟩

/-- A client that makes a call waits for the answer, or is answered at once. -/
theorem goes_of_call {c : Call} {k : c.Reply → Prog Host Outcome}
    (h : (Prog.call c k).Turn I i w fun w o ↦ I (w.ended i r o)) :
    Goes I i (w.said i (.asked c)) ⟨r, .asking c k⟩ ∧
      ((Task.asking c k).waits = true → I (w.said i (.asked c))) := by
  cases hsuspends : c.suspends with
  | true =>
    simp only [Prog.Turn, hsuspends, if_true] at h
    simp only [Goes, hsuspends, if_true]
    exact ⟨h.2, fun _ ↦ h.1⟩
  | false =>
    simp only [Prog.Turn, hsuspends, Bool.false_eq_true, if_false] at h
    simp only [Goes, Task.waits, hsuspends, Bool.false_eq_true, if_false]
    exact ⟨h, nofun⟩

/-- A client that is answered goes on, and may rely on `I` if it has waited for the answer. -/
theorem Goes.answered {c : Call} {k : c.Reply → Prog Host Outcome} (h : Goes I i w ⟨r, .asking c k⟩)
    (hunfinished : w.finished i = none) (hI : c.suspends = true → I w) (reply : c.Reply) :
    (k reply).Turn I i (w.said i (.answered c reply)) fun w o ↦ I (w.ended i r o) := by
  cases hsuspends : c.suspends with
  | true =>
    simp only [Goes, hsuspends, if_true] at h
    exact h _ (.refl _) hunfinished (hI hsuspends) reply
  | false =>
    simp only [Goes, hsuspends, Bool.false_eq_true, if_false] at h
    exact h reply

end Client

/-! ### Runs -/

namespace Traffic

def scene (s : Traffic) : Scene where
  managers := s.host.managers
  processes := s.host.processes
  request i := s.clients[i]?.map (·.request)
  finished := s.finished?
  past := s.past

variable {I : Scene → Prop} {s t : Traffic} {m : Move} {i : Nat}

theorem finished?_eq_none {c : Client} (hi : s.clients[i]? = some c)
    (hunfinished : c.isFinished = false) : s.finished? i = none := by
  cases h : s.finished? i with
  | none => rfl
  | some y =>
    obtain ⟨r, o⟩ := y
    obtain rfl := Option.some.inj (hi.symm.trans (getElem?_of_finished? h))
    cases hunfinished

/-- Of the clients one has come to where it is now, and the others are where they were. -/
theorem scene_eq_settled {c : Client} (hi : t.clients[i]? = some c)
    (hbefore : s.finished? i = none) (hothers : ∀ j ≠ i, t.clients[j]? = s.clients[j]?) :
    t.scene = Scene.settled
      ⟨t.host.managers, t.host.processes, t.scene.request, s.finished?, t.past⟩ i c := by
  have hfinished : t.finished? = update s.finished? i (t.finished? i) := by
    funext j
    by_cases hj : j = i
    · rw [hj, update_self]
    · rw [update_of_ne hj, finished?, finished?, hothers j hj]
  have hunchanged (hgoing : c.isFinished = false) : t.finished? = s.finished? := by
    rw [hfinished, finished?_eq_none hi hgoing, ← hbefore, update_eq_self]
  obtain ⟨r, task⟩ := c
  cases task with
  | asking => exact Scene.ext rfl rfl rfl (hunchanged rfl) rfl
  | going rest =>
    cases rest with
    | done o =>
      rw [finished?_eq_some hi] at hfinished
      exact Scene.ext rfl rfl rfl hfinished rfl
    | _ => exact Scene.ext rfl rfl rfl (hunchanged rfl) rfl

/-- A client that was not finished has moved. -/
theorem scene_moved {c c' : Client} (hi : s.clients[i]? = some c)
    (hunfinished : c.isFinished = false) (ht : t.clients = s.clients.set i c')
    (hsame : c'.request = c.request) :
    t.scene = Scene.settled { s.scene.on t.host with past := t.past } i c' := by
  have hself : t.clients[i]? = some c' := ht ▸ getElem?_set_client hi _
  have hothers (j : Nat) (hj : j ≠ i) : t.clients[j]? = s.clients[j]? := by
    rw [ht, List.getElem?_set_ne hj.symm]
  have hrequest : t.scene.request = s.scene.request := by
    funext j
    by_cases hj : j = i
    · simp [scene, hj, hself, hi, hsame]
    · simp [scene, hothers j hj]
  rw [scene_eq_settled hself (finished?_eq_none hi hunfinished) hothers, hrequest]
  rfl

theorem scene_actAs {c : Client} (hi : s.clients[i]? = some c) (hunfinished : c.isFinished = false)
    (h : Host) (rest : Prog Host Outcome) :
    (s.actAs i c.request h rest).scene =
      (s.scene.on h).settled i ⟨c.request, .going rest⟩ := scene_moved hi hunfinished rfl rfl

theorem scene_passAs {c : Client} (hi : s.clients[i]? = some c) (hunfinished : c.isFinished = false)
    (x : Exchange) (task : Task) :
    (s.passAs i c.request x task).scene = (s.scene.said i x).settled i ⟨c.request, task⟩ :=
  scene_moved hi hunfinished rfl rfl

/-- A client has come. -/
theorem scene_arrived (r : Request) :
    ({ s with clients := s.clients ++ [⟨r, .going r.program⟩] } : Traffic).scene =
      (s.scene.joined s.clients.length r).settled s.clients.length ⟨r, .going r.program⟩ := by
  let t : Traffic := { s with clients := s.clients ++ [⟨r, .going r.program⟩] }
  have hself : t.clients[s.clients.length]? = some ⟨r, .going r.program⟩ := by simp [t]
  have hothers (j : Nat) (hj : j ≠ s.clients.length) : t.clients[j]? = s.clients[j]? := by
    rcases Nat.lt_or_gt_of_ne hj with hlt | hgt
    · exact List.getElem?_append_left hlt
    · rw [List.getElem?_eq_none (Nat.le_of_lt hgt), List.getElem?_eq_none]
      simpa [t] using Nat.succ_le_of_lt hgt
  have hrequest : t.scene.request = update s.scene.request s.clients.length (some r) := by
    funext j
    by_cases hj : j = s.clients.length
    · simp [scene, hj, hself]
    · simp [scene, hothers j hj, hj]
  have habsent : s.finished? s.clients.length = none := by simp [finished?]
  rw [scene_eq_settled hself habsent hothers, hrequest]
  rfl

/-- Nothing is taken back. -/
theorem Reachable.grows (hs : s.Reachable) (hstep : s.step m = some t) :
    s.scene.Grows t.scene where
  request i r hr := by
    obtain ⟨c, hc, rfl⟩ := Option.map_eq_some_iff.mp hr
    obtain ⟨task, htask, -⟩ := (happens_of_step hstep).exists_client hc
    exact Option.map_eq_some_iff.mpr ⟨_, htask, rfl⟩
  finished i y hy := (happens_of_step hstep).finished? hy
  past := by
    cases happens_of_step hstep with
    | arrived | changed | acted | took => exact List.suffix_refl _
    | asked | answered => exact List.suffix_cons ..
  count := by
    obtain ⟨σ, hstaged⟩ := hs.exists_staged
    obtain ⟨τ, hshift, -⟩ := hstaged.exists_shift hstep
    exact hshift.count_le
  process p hp := (hs.process_step hp hstep).2

theorem Reachable.grows_later (hs : s.Reachable) (hlater : Later s t) :
    s.scene.Grows t.scene := by
  induction hlater with
  | refl => exact .refl _
  | tail hsu hnext ih =>
    obtain ⟨m, hstep⟩ := hnext
    exact ih.trans ((hs.later hsu).grows hstep)

/-- Whenever everybody waits `I` is true, and every client goes on in such a way that it will be. -/
structure Turns (I : Scene → Prop) (s : Traffic) : Prop where
  quiet : s.Quiet → I s.scene
  client : ∀ (i : Nat) (c : Client), s.clients[i]? = some c → c.Goes I i s.scene

/-- Where clients take turns, who does not move waits. -/
theorem waits_of_inTurn {c : Client} (hturn : s.InTurn m) (hm : m.isOutside = false)
    (hi : s.clients[i]? = some c) (hother : m.client? ≠ some i) : c.task.waits = true := by
  have hmem : (c, i) ∈ s.clients.zipIdx := by simpa [List.mem_zipIdx_iff_getElem?] using hi
  have hno := hturn _ hmem
  have hne : (m.client? == some i) = false := by simpa using hother
  simpa [interrupts, hm, hne] using hno

theorem waits_of_client? {c : Client} {j : Nat} (hturn : s.InTurn m) (hm : m.client? = some i)
    (hj : j ≠ i) (hc : s.clients[j]? = some c) : c.task.waits = true := by
  have hinside : m.isOutside = false := by cases m <;> first | rfl | cases hm
  exact waits_of_inTurn hturn hinside hc (by simpa [hm] using hj.symm)

/-- If the client that moves has waited, everybody has. -/
theorem quiet_of_waits {c : Client} (hturn : s.InTurn m) (hm : m.client? = some i)
    (hi : s.clients[i]? = some c) (hwaits : c.task.waits = true) : s.Quiet := by
  intro c' hc'
  obtain ⟨j, hj⟩ := List.mem_iff_getElem?.mp hc'
  by_cases hji : j = i
  · subst hji
    obtain rfl := Option.some.inj (hi.symm.trans hj)
    exact hwaits
  · exact waits_of_client? hturn hm hji hj

/-- Only one client is to be looked at: the others wait, before and after. -/
theorem Turns.of_one {c : Client} (hturns : s.Turns I) (hgrows : s.scene.Grows t.scene)
    (hothers : ∀ j c, j ≠ i → t.clients[j]? = some c →
      s.clients[j]? = some c ∧ c.task.waits = true)
    (hi : t.clients[i]? = some c)
    (hgoes : c.Goes I i t.scene ∧ (c.task.waits = true → I t.scene)) : t.Turns I where
  quiet hquiet := hgoes.2 (hquiet c (List.mem_of_getElem? hi))
  client j c' hj := by
    by_cases hji : j = i
    · subst hji
      obtain rfl := Option.some.inj (hi.symm.trans hj)
      exact hgoes.1
    · obtain ⟨hbefore, hwaits⟩ := hothers j c' hji hj
      exact (hturns.client j c' hbefore).grows hwaits hgrows

/-- Who does not move was there before, and waits. -/
theorem Happens.of_others {c : Client} (h : s.Happens m t) (hturn : s.InTurn m)
    (hm : m.client? = some i) {j : Nat} (hj : j ≠ i) (hc : t.clients[j]? = some c) :
    s.clients[j]? = some c ∧ c.task.waits = true := by
  have hother : m.client? ≠ some j := by simpa [hm] using hj.symm
  cases hbefore : s.clients[j]? with
  | none =>
    obtain ⟨rfl, -⟩ := h.task_of_new hbefore hc
    cases hm
  | some c₀ =>
    obtain ⟨task, htask, hsame⟩ := h.exists_client hbefore
    obtain rfl := hsame hother
    obtain rfl : c₀ = c := Option.some.inj (htask.symm.trans hc)
    exact ⟨rfl, waits_of_client? hturn hm hj hbefore⟩

/-- A client that moves has the turn, or everybody waits and it goes on. -/
theorem Turns.moved (hs : s.Reachable) (hturns : s.Turns I) (hturn : s.InTurn m)
    (hstep : s.step m = some t) (hm : m.client? = some i) : t.Turns I := by
  have hhappens := happens_of_step hstep
  have hgrows := hs.grows hstep
  have hothers (j : Nat) (c : Client) (hj : j ≠ i) (hc : t.clients[j]? = some c) :=
    hhappens.of_others hturn hm hj hc
  cases hhappens with
  | arrived | changed => cases hm
  | @acted _ r f k hi =>
    obtain rfl := Option.some.inj hm
    refine hturns.of_one hgrows hothers (getElem?_set_client hi _) ?_
    rw [scene_actAs hi rfl]
    exact Client.goes_of_turn (hturns.client _ _ hi s.host ⟨rfl, rfl⟩)
  | @took _ r claim k h hi hclaim =>
    obtain rfl := Option.some.inj hm
    refine hturns.of_one hgrows hothers (getElem?_set_client hi _) ?_
    rw [scene_actAs hi rfl]
    have hI : I s.scene := hturns.quiet (quiet_of_waits hturn rfl hi rfl)
    exact Client.goes_of_turn (hturns.client _ _ hi _ (.refl _) (finished?_eq_none hi rfl) hI
      s.host h ⟨rfl, rfl⟩ hclaim)
  | @asked _ r c k hi =>
    obtain rfl := Option.some.inj hm
    refine hturns.of_one hgrows hothers (getElem?_set_client hi _) ?_
    rw [scene_passAs hi rfl]
    exact Client.goes_of_call (hturns.client _ _ hi)
  | @answered _ r c k reply hi =>
    obtain rfl := Option.some.inj hm
    refine hturns.of_one hgrows hothers (getElem?_set_client hi _) ?_
    rw [scene_passAs hi rfl]
    exact Client.goes_of_turn ((hturns.client _ _ hi).answered (finished?_eq_none hi rfl)
      (fun hsuspends ↦ hturns.quiet (quiet_of_waits hturn rfl hi hsuspends)) (reply c))

/-- What every program does before it waits is so whenever everybody waits. -/
theorem Turns.step (hs : s.Reachable) (hturns : s.Turns I) (hturn : s.InTurn m)
    (hjoined : ∀ w i r, I w → w.request i = none → I (w.joined i r))
    (hprogram : ∀ w i r, I w → w.request i = some r → w.finished i = none →
      r.program.Turn I i w fun w o ↦ I (w.ended i r o))
    (hstep : s.step m = some t) : t.Turns I := by
  cases hm : m.client? with
  | some i => exact hturns.moved hs hturn hstep hm
  | none =>
    have hgrows := hs.grows hstep
    cases happens_of_step hstep with
    | acted | took | asked | answered => cases hm
    | changed => exact ⟨hturns.quiet, hturns.client⟩
    | @arrived r =>
      have hwaits (j : Nat) (c : Client) (hc : s.clients[j]? = some c) : c.task.waits = true :=
        waits_of_inTurn hturn rfl hc (by simp [Move.client?])
      have hI : I s.scene := hturns.quiet fun c hc ↦ by
        obtain ⟨j, hj⟩ := List.mem_iff_getElem?.mp hc
        exact hwaits j c hj
      have habsent : s.clients[s.clients.length]? = none := List.getElem?_eq_none (Nat.le_refl _)
      have hjoins := hjoined _ s.clients.length r hI (by simp [scene])
      have hself : (s.clients ++ [⟨r, .going r.program⟩])[s.clients.length]? =
          some ⟨r, .going r.program⟩ := by simp
      refine hturns.of_one hgrows (fun j c hj hc ↦ ?_) hself ?_
      · have hlt : j < s.clients.length + 1 := by
          simpa using (List.getElem?_eq_some_iff.mp hc).1
        rw [List.getElem?_append_left (by omega)] at hc
        exact ⟨hc, hwaits j c hc⟩
      · rw [scene_arrived]
        refine Client.goes_of_turn (hprogram _ _ _ hjoins (update_self ..) ?_)
        simp [Scene.joined, scene, finished?]

/-- Clients who take turns make `I` true whenever everybody waits, if it was true in the beginning,
and every program, begun where it is true, makes it true again before it waits. -/
theorem Run.turns {h : Host} {ms : List Move} (hunused : h.Unused)
    (hbegin : I ({ host := h } : Traffic).scene)
    (hjoined : ∀ w i r, I w → w.request i = none → I (w.joined i r))
    (hprogram : ∀ w i r, I w → w.request i = some r → w.finished i = none →
      r.program.Turn I i w fun w o ↦ I (w.ended i r o))
    (hrun : Run InTurn ms { host := h } s) (hquiet : s.Quiet) : I s.scene := by
  have hs : ({ host := h } : Traffic).Reachable := ⟨h, hunused, .refl⟩
  have hstart : ({ host := h } : Traffic).Turns I :=
    ⟨fun _ ↦ hbegin, fun i c hc ↦ by simp at hc⟩
  have hturns : s.Turns I := hrun.keeps hs
    (fun hs hturn hstep hturns ↦ hturns.step hs hturn hjoined hprogram hstep) hstart
  exact hturns.quiet hquiet

end Traffic

end ComponentHost
