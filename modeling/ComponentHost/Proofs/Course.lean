import ComponentHost.Proofs.Run

/-!
What a lifecycle call has told its collaborators when it is finished.

A lifecycle call makes its calls inside its sections, so what it has told up to some point is made
of what whole sections tell. `Prog.Tells N J Q xs` says of a program at large that it ends as `Q`
says of everything told by then, `xs` being told before. The program may rely on two things: on `N`,
which is true of the host all along, and on `J`, which is true of the host whenever the client is at
large and has told so much; that `J` is true again after a section is for the program to show.

If the run keeps `N`, and nobody but the client makes `J` false, a call that is finished has ended
as its program is said to end, whatever the others did in between (`Traffic.Run.tells`).
-/

set_option autoImplicit false

namespace ComponentHost

/-- Deeds do the same to a process that is locked. -/
theorem Process.after_locked (P : Process) (locked : Bool) (ds : List Deed) :
    { P with locked }.after ds = { P.after ds with locked } := by
  induction ds generalizing P with
  | nil => rfl
  | cons d ds ih =>
    cases d with
    | said x => exact ih P
    | became status => exact ih { P with status }

/-! ### Telling -/

def Deed.exchange? : Deed → Option Exchange
  | .said x => some x
  | .became _ => none

/-- What has passed while these deeds were done. -/
def told (ds : List Deed) : List Exchange := ds.filterMap Deed.exchange?

@[simp] theorem told_nil : told [] = [] := rfl

@[simp] theorem told_append (ds es : List Deed) : told (ds ++ es) = told ds ++ told es :=
  List.filterMap_append

@[simp] theorem told_said (x : Exchange) (ds : List Deed) : told (.said x :: ds) = x :: told ds :=
  rfl

@[simp] theorem told_became (status : ProcessStatus) (ds : List Deed) :
    told (.became status :: ds) = told ds := rfl

theorem mem_told {x : Exchange} {ds : List Deed} : x ∈ told ds ↔ .said x ∈ ds := by
  unfold told
  rw [List.mem_filterMap]
  constructor
  · rintro ⟨d, hd, hx⟩
    cases d with
    | said y =>
      obtain rfl : y = x := Option.some.inj hx
      exact hd
    | became status => cases hx
  · exact fun hx ↦ ⟨.said x, hx, rfl⟩

namespace Prog

variable {α β : Type} {N : Host → Prop} {J : List Exchange → Host → Prop}

/-- The program looks at the host and goes through sections, and ends as `Q` says of what is told by
then. It relies on `N`, and on `J` whenever it is at large. -/
inductive Tells (N : Host → Prop) (J : List Exchange → Host → Prop) (Q : List Exchange → α → Prop) :
    List Exchange → Prog Host α → Prop where
  | done {xs : List Exchange} {a : α} (h : Q xs a) : Tells N J Q xs (.done a)
  | look {xs : List Exchange} {f : Host → Host} {k : Host → Prog Host α} (hf : ∀ h, f h = h)
      (hk : ∀ h, N h → J xs h → Tells N J Q xs (k h)) : Tells N J Q xs (.act f k)
  | visit {xs : List Exchange} {p : ProcessRef} {sec : Section}
      {next : Except Error Unit → Prog Host α}
      (hafter : ∀ h h' ds res, N h → J xs h →
        sec.Does { h.processes.get p with locked := true } ds res → N h' →
        h'.processes.get p = { (h.processes.get p).after ds with locked := false } →
        J (xs ++ told ds) h')
      (hnext : ∀ h ds res, N h → J xs h →
        sec.Does { h.processes.get p with locked := true } ds res →
        Tells N J Q (xs ++ told ds) (next res)) :
      Tells N J Q xs (.await (Host.lock? p)
        ((sec.body p).run.bind fun res ↦ .act (Host.unlock p) fun _ ↦ next res))

namespace Tells

variable {xs : List Exchange}

theorem bind {x : Prog Host α} {g : α → Prog Host β} {Q : List Exchange → α → Prop}
    {R : List Exchange → β → Prop} (hx : x.Tells N J Q xs)
    (hg : ∀ ys a, Q ys a → (g a).Tells N J R ys) : (x.bind g).Tells N J R xs := by
  induction hx with
  | done hQ => exact hg _ _ hQ
  | look hf _ ih => exact .look hf ih
  | visit hafter _ ih =>
    rw [Prog.bind, Prog.bind_assoc]
    exact .visit hafter ih

/-- One action after another: the second is taken only if the first succeeds. -/
theorem andThen {x : Action α} {f : α → Action β} {Q : List Exchange → Except Error α → Prop}
    {R : List Exchange → Except Error β → Prop} (hx : x.run.Tells N J Q xs)
    (hok : ∀ ys a, Q ys (.ok a) → (f a).run.Tells N J R ys)
    (herror : ∀ ys e, Q ys (.error e) → R ys (.error e)) : (x >>= f).run.Tells N J R xs := by
  refine bind (x := x.run) (g := ExceptT.bindCont f) hx fun ys res hQ ↦ ?_
  cases res with
  | ok a => exact hok ys a hQ
  | error e => exact .done (herror ys e hQ)

/-- A look at the host that may fail. -/
theorem inspect {f : Host → Except Error α} {Q : List Exchange → Except Error α → Prop}
    (hf : ∀ h, N h → J xs h → Q xs (f h)) : (Host.inspect f).run.Tells N J Q xs :=
  .look (fun _ ↦ rfl) fun h hN hJ ↦ .done (hf h hN hJ)

end Tells

end Prog

/-! ### Following a call -/

namespace Traffic

open Prog

/-- A client has a process to itself that it has found so, and has done this to it since. -/
structure Occupies (s : Traffic) (i : Nat) (p : ProcessRef) (found : Process) (log : List Deed) :
    Prop where
  holder : s.holder p = some i
  locked : found.locked = true
  process : s.process p = found.after log

namespace Occupies

variable {s t : Traffic} {m : Move} {i : Nat} {r : Request} {p : ProcessRef} {found : Process}
  {log : List Deed}

theorem of_others (h : s.Occupies i p found log) (hs : s.Reachable) (hstep : s.step m = some t)
    (hm : m.client? ≠ some i) : t.Occupies i p found log := by
  obtain ⟨hkept, hholder⟩ := hs.process_of_others h.holder hstep hm
  exact ⟨hholder, h.locked, hkept.trans h.process⟩

theorem stays_locked (h : s.Occupies i p found log) : (s.process p).locked = true := by
  rw [h.process, found.after_eq]
  exact h.locked

/-- Who takes the lock of a process finds it as it is. -/
theorem taken (hfree : (s.process p).locked = false) (rest : Prog Host Outcome) :
    (s.actAs i r
      { s.host with processes := s.host.processes.modify p ({ · with locked := true }) }
      rest).Occupies i p { s.process p with locked := true } [] where
  holder := by simp [actAs, holderAfter, hfree]
  locked := rfl
  process := by simp [actAs, Traffic.process, Process.after]

theorem looked (h : s.Occupies i p found log) (rest : Prog Host Outcome) :
    (s.actAs i r s.host rest).Occupies i p found log := by
  refine ⟨?_, h.locked, h.process⟩
  rw [holder_actAs_of_locked h.stays_locked h.stays_locked, h.holder]

theorem became (h : s.Occupies i p found log) (status : ProcessStatus) (rest : Prog Host Outcome) :
    (s.actAs i r (s.host.withStatus p status) rest).Occupies i p found
      (log ++ [.became status]) := by
  refine ⟨?_, h.locked, ?_⟩
  · have hafter : ((s.host.withStatus p status).processes.get p).locked = true := by
      simpa [Traffic.process] using h.stays_locked
    rw [holder_actAs_of_locked h.stays_locked hafter, h.holder]
  · show (s.host.withStatus p status).processes.get p = _
    simp [← h.process, Traffic.process, Process.after]

theorem said (h : s.Occupies i p found log) (x : Exchange) (task : Task) :
    (s.passAs i r x task).Occupies i p found (log ++ [.said x]) := by
  refine ⟨h.holder, h.locked, ?_⟩
  rw [process_passAs, h.process, Process.after_append]
  rfl

end Occupies

/-- The course a client keeps to: at large its program tells as it should, and inside a section it
will, once the section is at its end. -/
inductive Course (N : Host → Prop) (J : List Exchange → Host → Prop)
    (Q : List Exchange → Outcome → Prop) (s : Traffic) (i : Nat) : Task → Prop where
  | atLarge {rest : Prog Host Outcome} (hJ : J (s.exchangesOf i) s.host)
      (hrest : rest.Tells N J Q (s.exchangesOf i)) : Course N J Q s i (.going rest)
  | working {p : ProcessRef} {sec : Section} {found : Process} {log : List Deed}
      {xs : List Exchange} {rest : Prog Host Outcome} {body : Prog Host (Except Error Unit)}
      {next : Except Error Unit → Prog Host Outcome} (hrest : rest = Stage.leaving p next body)
      (hholder : s.holder p = some i) (hlocked : found.locked = true)
      (hprocess : s.process p = found.after log) (htold : s.exchangesOf i = xs ++ told log)
      (hbody : body.Yields p (found.after log) fun ds res ↦ sec.Does found (log ++ ds) res)
      (hafter : ∀ h ds res, sec.Does found ds res → N h →
        h.processes.get p = { found.after ds with locked := false } → J (xs ++ told ds) h)
      (hnext : ∀ ds res, sec.Does found ds res → (next res).Tells N J Q (xs ++ told ds)) :
      Course N J Q s i (.going rest)
  | waiting {p : ProcessRef} {sec : Section} {found : Process} {log : List Deed}
      {xs : List Exchange} {c : Call} {rest : c.Reply → Prog Host Outcome}
      {body : c.Reply → Prog Host (Except Error Unit)}
      {next : Except Error Unit → Prog Host Outcome}
      (hrest : ∀ reply, rest reply = Stage.leaving p next (body reply))
      (hholder : s.holder p = some i) (hlocked : found.locked = true)
      (hprocess : s.process p = found.after log) (htold : s.exchangesOf i = xs ++ told log)
      (hbody : ∀ reply, (body reply).Yields p (found.after log) fun ds res ↦
        sec.Does found (log ++ .said (.answered c reply) :: ds) res)
      (hafter : ∀ h ds res, sec.Does found ds res → N h →
        h.processes.get p = { found.after ds with locked := false } → J (xs ++ told ds) h)
      (hnext : ∀ ds res, sec.Does found ds res → (next res).Tells N J Q (xs ++ told ds)) :
      Course N J Q s i (.asking c rest)

variable {N : Host → Prop} {J : List Exchange → Host → Prop} {Q : List Exchange → Outcome → Prop}
  {s t : Traffic} {i : Nat} {m : Move}

/-- What the others do does not bring a client off its course, if it leaves `J` true. -/
theorem Course.of_others {task : Task} (hs : s.Reachable) (hcourse : s.Course N J Q i task)
    (hstep : s.step m = some t) (hm : m.client? ≠ some i)
    (hJ : J (s.exchangesOf i) s.host → J (s.exchangesOf i) t.host) : t.Course N J Q i task := by
  obtain ⟨xs, hxs, hnothing⟩ := (happens_of_step hstep).exists_exchangesOf i
  have htold : t.exchangesOf i = s.exchangesOf i := by rw [hxs, hnothing hm, List.append_nil]
  cases hcourse with
  | atLarge hJs hrest => exact .atLarge (htold ▸ hJ hJs) (htold ▸ hrest)
  | working hrest hholder hlocked hprocess hxs hbody hafter hnext =>
    have hinside : s.Occupies i _ _ _ := ⟨hholder, hlocked, hprocess⟩
    obtain ⟨hholder', -, hprocess'⟩ := hinside.of_others hs hstep hm
    exact .working hrest hholder' hlocked hprocess' (htold ▸ hxs) hbody hafter hnext
  | waiting hrest hholder hlocked hprocess hxs hbody hafter hnext =>
    have hinside : s.Occupies i _ _ _ := ⟨hholder, hlocked, hprocess⟩
    obtain ⟨hholder', -, hprocess'⟩ := hinside.of_others hs hstep hm
    exact .waiting hrest hholder' hlocked hprocess' (htold ▸ hxs) hbody hafter hnext

/-- The client acts. -/
theorem Course.act {r : Request} {f : Host → Host} {k : Host → Prog Host Outcome}
    (hcourse : s.Course N J Q i (.going (.act f k))) (hN : N s.host) (hN' : N (f s.host)) :
    (s.actAs i r (f s.host) (k s.host)).Course N J Q i (.going (k s.host)) := by
  cases hcourse with
  | atLarge hJ hrest =>
    cases hrest with
    | look hf hk =>
      refine .atLarge ?_ (hk _ hN hJ)
      rw [hf]
      exact hJ
  | @working p sec found log xs _ body next hrest hholder hlocked hprocess hxs hbody hafter hnext =>
    cases body with
    | done res =>
      cases hrest
      have hdoes : sec.Does found (log ++ []) res := hbody
      rw [List.append_nil] at hdoes
      have hleft : ((Host.unlock p s.host).processes.get p) =
          { found.after log with locked := false } := by
        simp [Host.unlock, ← hprocess, process]
      have hnext := hnext log res hdoes
      have hJ := hafter _ log res hdoes hN' hleft
      rw [← hxs] at hnext hJ
      exact .atLarge hJ hnext
    | act f' k' =>
      cases hrest
      have hinside : s.Occupies i p found log := ⟨hholder, hlocked, hprocess⟩
      rcases hbody s.host hprocess with ⟨hf, hk⟩ | ⟨status, hf, hk⟩
      · rw [hf]
        obtain ⟨hholder', -, hprocess'⟩ :=
          hinside.looked (r := r) (Stage.leaving p next (k' s.host))
        exact .working rfl hholder' hlocked hprocess' hxs hk hafter hnext
      · rw [hf]
        obtain ⟨hholder', -, hprocess'⟩ :=
          hinside.became (r := r) status (Stage.leaving p next (k' s.host))
        refine .working rfl hholder' hlocked hprocess' ?_ ?_ hafter hnext
        · simp [hxs]
        · simpa [Process.after] using hk
    | await claim k' => exact hbody.elim
    | call c k' => cases hrest

/-- The client takes the lock it has waited for. -/
theorem Course.take {r : Request} {claim : Host → Option Host} {k : Prog Host Outcome} {h : Host}
    (hcourse : s.Course N J Q i (.going (.await claim k))) (hN : N s.host)
    (hclaim : claim s.host = some h) : (s.actAs i r h k).Course N J Q i (.going k) := by
  cases hcourse with
  | atLarge hJ hrest =>
    cases hrest with
    | @visit _ p sec next hafter hnext =>
      unfold Host.lock? at hclaim
      split_ifs at hclaim with hlocked
      obtain rfl := Option.some.inj hclaim
      have hfree : (s.process p).locked = false := by simpa [process] using hlocked
      have hbody : (sec.body p).run.Yields p (Process.after { s.process p with locked := true } [])
          fun ds res ↦ sec.Does { s.process p with locked := true } ([] ++ ds) res := sec.yields p _
      refine .working rfl (Occupies.taken hfree _).holder rfl (Occupies.taken hfree _).process ?_
        hbody (fun h ds res hdoes hNh hget ↦ ?_) fun ds res ↦ hnext s.host ds res hN hJ
      · simp
      · refine hafter s.host h ds res hN hJ hdoes hNh ?_
        rw [hget, Process.after_locked]
        rfl
  | @working p sec found log xs _ body next hrest hholder hlocked hprocess hxs hbody hafter hnext =>
    cases body with
    | await claim' k' => exact hbody.elim
    | _ => cases hrest

/-- The client makes a call. -/
theorem Course.ask {r : Request} {c : Call} {k : c.Reply → Prog Host Outcome}
    (hcourse : s.Course N J Q i (.going (.call c k))) :
    (s.passAs i r (.asked c) (.asking c k)).Course N J Q i (.asking c k) := by
  cases hcourse with
  | atLarge _ hrest => cases hrest
  | @working p sec found log xs _ body next hrest hholder hlocked hprocess hxs hbody hafter hnext =>
    cases body with
    | call c' k' =>
      cases hrest
      have htold : s.exchangesOf i ++ [.asked c] = xs ++ told (log ++ [.said (.asked c)]) := by
        simp [hxs]
      refine .waiting (fun _ ↦ rfl) hholder hlocked ?_ ((exchangesOf_passAs_self ..).trans htold)
        (fun reply ↦ ?_) hafter hnext
      · simpa [Process.after] using hprocess
      · simpa [Process.after] using hbody reply
    | await claim k' => exact hbody.elim
    | _ => cases hrest

/-- The client is answered. -/
theorem Course.answer {r : Request} {c : Call} {k : c.Reply → Prog Host Outcome}
    (hcourse : s.Course N J Q i (.asking c k)) (reply : c.Reply) :
    (s.passAs i r (.answered c reply) (.going (k reply))).Course N J Q i (.going (k reply)) := by
  cases hcourse with
  | @waiting p _ _ log xs _ _ _ next hrest hholder hlocked hprocess hxs hbody hafter hnext =>
    have htold : (s.passAs i r (.answered c reply) (.going (k reply))).exchangesOf i =
        xs ++ told (log ++ [.said (.answered c reply)]) := by simp [hxs]
    refine .working (hrest reply) hholder hlocked ?_ htold ?_ hafter hnext
    · simpa [Process.after] using hprocess
    · simpa [Process.after] using hbody reply

/-- A client that moves stays on its course. -/
theorem Course.of_own {c : Client} (hcourse : s.Course N J Q i c.task)
    (hi : s.clients[i]? = some c) (hN : N s.host) (hN' : N t.host) (hhappens : s.Happens m t)
    (hm : m.client? = some i) :
    ∃ task, t.clients[i]? = some ⟨c.request, task⟩ ∧ t.Course N J Q i task := by
  cases hhappens with
  | arrived | changed => cases hm
  | acted hj | took hj hclaim | asked hj | answered hj =>
    obtain rfl := Option.some.inj hm
    obtain rfl := Option.some.inj (hi.symm.trans hj)
    refine ⟨_, getElem?_set_client hi _, ?_⟩
    first
      | exact hcourse.act hN hN'
      | exact hcourse.take hN hclaim
      | exact hcourse.ask
      | exact hcourse.answer _

/-- Assumes: a run that keeps `N` and in which nobody but the client makes `J` false. The client,
who has come during the run and is finished, has ended as its program is said to end. -/
theorem Run.tells {r : Request} {o : Outcome} {ms : List Move} (hs : s.Reachable)
    (habsent : s.clients[i]? = none) (hJ : ∀ h, N h → J [] h)
    (hrun : Run (fun u m ↦ N u.host ∧ ∀ v, u.step m = some v → N v.host ∧
      (m.client? ≠ some i → J (u.exchangesOf i) u.host → J (u.exchangesOf i) v.host)) ms s t)
    (htells : r.program.Tells N J Q [])
    (hi : t.clients[i]? = some ⟨r, .going (.done o)⟩) : Q (t.exchangesOf i) o := by
  have hcourse : ∀ c, t.clients[i]? = some c → c.request = r → t.Course N J Q i c.task := by
    refine hrun.keeps (I := fun t ↦ ∀ c, t.clients[i]? = some c → c.request = r →
      t.Course N J Q i c.task) hs ?_ (by simp [habsent])
    intro s t m hs hmove hstep hkept c hc hr
    obtain ⟨hN, hmove⟩ := hmove
    obtain ⟨hN', hstable⟩ := hmove t hstep
    have hhappens := happens_of_step hstep
    cases hbefore : s.clients[i]? with
    | none =>
      obtain ⟨-, hbegins⟩ := hhappens.task_of_new hbefore hc
      have hnothing := hs.exchangesOf_of_new hhappens hbefore hc
      rw [hbegins, hr]
      exact .atLarge (hnothing ▸ hJ _ hN') (hnothing ▸ htells)
    | some c₀ =>
      obtain ⟨task, htask, hothers⟩ := hhappens.exists_client hbefore
      obtain rfl : ⟨c₀.request, task⟩ = c := Option.some.inj (htask.symm.trans hc)
      have hcourse := hkept c₀ hbefore hr
      by_cases hm : m.client? = some i
      · obtain ⟨task', htask', hcourse'⟩ := hcourse.of_own hbefore hN hN' hhappens hm
        obtain rfl : task' = task := by simpa using htask'.symm.trans hc
        exact hcourse'
      · obtain rfl := hothers hm
        exact hcourse.of_others hs hstep hm (hstable hm)
  cases hcourse _ hi rfl with
  | atLarge _ hrest =>
    cases hrest with
    | done hQ => exact hQ
  | @working _ _ _ _ _ _ body _ hrest =>
    -- the lock is still to be given back
    cases body <;> cases hrest

end Traffic

end ComponentHost
