import ComponentHost.Proofs.Autostart
import ComponentHost.Proofs.Restart

/-!
The rounds that lifecycle calls make through the components of a process.

A start calls the components of its process in declared order, up to one that refuses, and stops
those before it again in the opposite order; a stop calls them in the opposite order, up to one that
refuses (`Section.Passes`). So no component is left out before the end of a round, and none has more
than one turn in it.

A lifecycle call makes a round for each of its sections, in their order and as far as it comes.
What it has called so far is a beginning of what whole rounds call, through processes as they are
now, and all of it once the call is finished (`Traffic.Reachable.exists_rounds`). That holds however
the calls interleave: inside a section nobody else changes the process, and a process keeps its
components for ever.
-/

set_option autoImplicit false

namespace ComponentHost

/-! ### Through the components -/

/-- The calls that a section makes of the components of a process, from its beginning to its end. -/
inductive Section.Passes (cs : List Component) : Section → List (Phase × Component) → Prop where
  | rejected {ctx : ContextRef} {id : String} : Passes cs (.start ctx id) []
  | started {ctx : ContextRef} {id : String} : Passes cs (.start ctx id) (cs.map (Phase.start, ·))
  | rolledBack {ctx : ContextRef} {id : String} {before after : List Component} {c : Component}
      (hcs : cs = before ++ c :: after) :
      Passes cs (.start ctx id)
        ((before ++ [c]).map (Phase.start, ·) ++ before.reverse.map (Phase.stop, ·))
  | stopped {ctx : ContextRef} {id : String} :
      Passes cs (.stop ctx id) (cs.reverse.map (Phase.stop, ·))
  | refused {ctx : ContextRef} {id : String} {before after : List Component} {c : Component}
      (hcs : cs.reverse = before ++ c :: after) :
      Passes cs (.stop ctx id) ((before ++ [c]).map (Phase.stop, ·))
  | failed {id reason : String} : Passes cs (.fail id reason) []

/-- Notes are no calls of components. -/
theorem callsIn_withoutNotes (xs : List Exchange) : callsIn (withoutNotes xs) = callsIn xs := by
  unfold callsIn withoutNotes
  rw [List.filterMap_filter]
  refine List.filterMap_congr fun x _ ↦ ?_
  rcases x with c | ⟨c, r⟩ <;> cases c <;> rfl

theorem callsIn_turns (phase : Phase) (ctx : ContextRef)
    (xs : List (Component × Except Error Unit)) :
    callsIn (told (turns phase ctx xs)) = (xs.map Prod.fst).map (phase, ·) := by
  induction xs with
  | nil => rfl
  | cons x xs ih => exact congrArg ((phase, x.1) :: ·) ih

/-- The calls a section makes are those of its account. -/
theorem callsIn_told_of_account {ds es : List Deed} (h : account ds = es) :
    callsIn (told ds) = callsIn (told es) := by
  rw [← h, told_account, callsIn_withoutNotes]

/-- The event at the end of a section is no call of a component. -/
theorem callsIn_announced (topic : String) (P : Process) :
    callsIn (told (announced topic P)) = [] := rfl

theorem Section.Does.passes {sec : Section} {P : Process} {ds : List Deed} {res : Except Error Unit}
    (h : sec.Does P ds res) : sec.Passes (P.ordered.map Prod.snd) (callsIn (told ds)) := by
  cases h with
  | rejected => exact .rejected
  | startFailed _ hfails =>
    obtain ⟨hcs, hstops, hds⟩ := hfails
    have hsplit := congrArg (List.map Prod.snd) hcs
    rw [List.map_append, List.map_cons] at hsplit
    rw [callsIn_told_of_account hds, told_append, callsIn_append, callsIn_turns, callsIn_turns,
      hstops]
    simpa using Section.Passes.rolledBack hsplit
  | started _ hds =>
    rw [callsIn_told_of_account hds, told_append, callsIn_append, callsIn_turns, fst_successes,
      told_became, callsIn_announced, List.append_nil]
    exact .started
  | stopFailed hfails =>
    obtain ⟨hcs, hds⟩ := hfails
    have hsplit := congrArg (List.map Prod.snd) hcs
    rw [List.map_reverse, List.map_append, List.map_cons] at hsplit
    rw [callsIn_told_of_account hds, callsIn_turns]
    simpa using Section.Passes.refused hsplit
  | stopped hds =>
    rw [callsIn_told_of_account hds, told_append, callsIn_append, callsIn_turns, fst_successes,
      told_became, callsIn_announced, List.append_nil, List.map_reverse]
    exact .stopped
  | failed hds =>
    rw [callsIn_told_of_account hds]
    exact .failed

/-! ### One section after the other -/

namespace Prog

variable {α β : Type} {secs : List Section}

/-- The program looks at the host and goes through sections, those given and in their order as far
as it comes, and ends as `Q` says of those that are left. -/
inductive Visits (Q : List Section → α → Prop) : List Section → Prog Host α → Prop where
  | done {secs : List Section} {a : α} (h : Q secs a) : Visits Q secs (.done a)
  | look {secs : List Section} {f : Host → Host} {k : Host → Prog Host α} (hf : ∀ h, f h = h)
      (hk : ∀ h, Visits Q secs (k h)) : Visits Q secs (.act f k)
  | visit {p : ProcessRef} {sec : Section} {secs : List Section}
      {next : Except Error Unit → Prog Host α} (hnext : ∀ res, Visits Q secs (next res)) :
      Visits Q (sec :: secs) (.await (Host.lock? p)
        ((sec.body p).run.bind fun res ↦ .act (Host.unlock p) fun _ ↦ next res))

namespace Visits

theorem mono {x : Prog Host α} {Q R : List Section → α → Prop} (hx : x.Visits Q secs)
    (hQR : ∀ rest a, Q rest a → R rest a) : x.Visits R secs := by
  induction hx with
  | done hQ => exact .done (hQR _ _ hQ)
  | look hf _ ih => exact .look hf ih
  | visit _ ih => exact .visit ih

theorem bind {x : Prog Host α} {g : α → Prog Host β} {Q : List Section → α → Prop}
    {R : List Section → β → Prop} (hx : x.Visits Q secs)
    (hg : ∀ rest a, Q rest a → (g a).Visits R rest) : (x.bind g).Visits R secs := by
  induction hx with
  | done hQ => exact hg _ _ hQ
  | look hf _ ih => exact .look hf ih
  | visit _ ih =>
    rw [Prog.bind, Prog.bind_assoc]
    exact .visit ih

/-- One action after another: the second is taken only if the first succeeds. -/
theorem andThen {x : Action α} {f : α → Action β} {Q : List Section → Except Error α → Prop}
    {R : List Section → Except Error β → Prop} (hx : x.run.Visits Q secs)
    (hok : ∀ rest a, Q rest (.ok a) → (f a).run.Visits R rest)
    (herror : ∀ rest e, Q rest (.error e) → R rest (.error e)) : (x >>= f).run.Visits R secs := by
  refine bind (x := x.run) (g := ExceptT.bindCont f) hx fun rest res hQ ↦ ?_
  cases res with
  | ok a => exact hok rest a hQ
  | error e => exact .done (herror rest e hQ)

theorem inspect (f : Host → Except Error α) :
    (Host.inspect f).run.Visits (fun rest _ ↦ rest = secs) secs :=
  .look (fun _ ↦ rfl) fun _ ↦ .done rfl

end Visits

end Prog

/-- Looking a process up and going through a section of it, which is left out only if the call
fails. -/
theorem Host.visit_visits (m : ManagerRef) (id : String) (sec : Section) {secs : List Section}
    {check : Action Unit}
    (hcheck : check.run.Visits (fun rest _ ↦ rest = sec :: secs) (sec :: secs)) :
    (do
      let p ← find m id
      check
      exclusively p (sec.body p) : Action Unit).run.Visits
        (fun rest res ↦ ∀ u, res = .ok u → rest = secs) (sec :: secs) := by
  refine .andThen (.inspect _) (fun rest p hrest ↦ ?_) fun _ _ _ _ hok ↦ by cases hok
  rw [hrest]
  refine .andThen hcheck (fun rest u hrest ↦ ?_) fun _ _ _ _ hok ↦ by cases hok
  rw [hrest]
  exact .visit fun res ↦ .done fun _ _ ↦ rfl

namespace Request

/-- Nothing is said of the end of a call. -/
theorem answer_visits {x : Action Unit} {Q : List Section → Except Error Unit → Prop}
    {secs : List Section} (hx : x.run.Visits Q secs) :
    (do
      x
      return none : Action (Option ProcessRef)).run.Visits (fun _ _ ↦ True) secs :=
  .andThen hx (fun _ _ _ ↦ .done trivial) fun _ _ _ ↦ trivial

/-- A lifecycle call goes through the sections of its request. -/
theorem visits {r : Request} (hr : r.isLifecycle = true) :
    r.program.Visits (fun _ _ ↦ True) r.sections := by
  cases r with
  | create | remove => cases hr
  | start m ctx id => exact answer_visits (Host.visit_visits m id (.start ctx id) (.inspect _))
  | stop m ctx id => exact answer_visits (Host.visit_visits m id (.stop ctx id) (.inspect _))
  | markFailed m id reason =>
    have hcheck : (pure () : Action Unit).run.Visits
        (fun rest _ ↦ rest = [.fail id reason]) [.fail id reason] := .done rfl
    exact answer_visits (Host.visit_visits m id (.fail id reason) hcheck)
  | restart m ctx id =>
    refine answer_visits (Q := fun _ _ ↦ True)
      (.andThen (.inspect _) (fun rest p hrest ↦ ?_) fun _ _ _ ↦ trivial)
    rw [hrest]
    refine .andThen (.inspect _) (fun rest u hrest ↦ ?_) fun _ _ _ ↦ trivial
    rw [hrest]
    refine .andThen (Host.visit_visits m id (.stop ctx id) (.inspect _)) (fun rest u hrest ↦ ?_)
      fun _ _ _ ↦ trivial
    rw [hrest u rfl]
    exact (Host.visit_visits m id (.start ctx id) (.inspect _)).mono fun _ _ _ ↦ trivial

end Request

/-! ### Following a call -/

/-- A round through the components of a process. -/
structure Round where
  process : ProcessRef
  sec : Section
  calls : List (Phase × Component)

/-- The round has come to its end: all is called that the section calls of the process. -/
structure Round.IsWhole (s : Traffic) (v : Round) : Prop where
  lt : v.process < s.host.processes.count
  passes : v.sec.Passes ((s.process v.process).ordered.map Prod.snd) v.calls

namespace Traffic

open Prog

variable {s t : Traffic} {i : Nat} {m : Move} {r : Request} {vs : List Round}
  {secs : List Section} {p : ProcessRef} {found : Process} {log : List Deed}

theorem Reachable.isWhole_step {v : Round} (hs : s.Reachable) (hstep : s.step m = some t)
    (hv : v.IsWhole s) : v.IsWhole t := by
  obtain ⟨hlt, status, locked, hkept⟩ := hs.process_step hv.lt hstep
  have hpasses := hv.passes
  refine ⟨hlt, ?_⟩
  rw [hkept]
  exact hpasses

/-- After whole rounds a client has a process to itself for another one, in which it has done
this. -/
structure InRound (s : Traffic) (i : Nat) (vs : List Round) (p : ProcessRef) (found : Process)
    (log : List Deed) : Prop extends Occupies s i p found log where
  told : callsIn (s.exchangesOf i) = vs.flatMap Round.calls ++ callsIn (told log)

namespace InRound

theorem of_others (h : s.InRound i vs p found log) (hs : s.Reachable) (hstep : s.step m = some t)
    (hm : m.client? ≠ some i) (htold : t.exchangesOf i = s.exchangesOf i) :
    t.InRound i vs p found log :=
  ⟨h.toOccupies.of_others hs hstep hm, htold ▸ h.told⟩

theorem looked (h : s.InRound i vs p found log) (rest : Prog Host Outcome) :
    (s.actAs i r s.host rest).InRound i vs p found log :=
  ⟨h.toOccupies.looked rest, h.told⟩

theorem became (h : s.InRound i vs p found log) (status : ProcessStatus)
    (rest : Prog Host Outcome) :
    (s.actAs i r (s.host.withStatus p status) rest).InRound i vs p found
      (log ++ [.became status]) := by
  refine ⟨h.toOccupies.became status rest, ?_⟩
  rw [exchangesOf_actAs, h.told]
  simp

theorem said (h : s.InRound i vs p found log) (x : Exchange) (task : Task) :
    (s.passAs i r x task).InRound i vs p found (log ++ [.said x]) := by
  refine ⟨h.toOccupies.said x task, ?_⟩
  rw [exchangesOf_passAs_self, callsIn_append, h.told, told_append, callsIn_append,
    List.append_assoc]
  rfl

/-- Once the section is at its end, the round is a whole one. -/
theorem isWhole (h : s.InRound i vs p found log) (hs : s.Reachable) {sec : Section}
    {ds : List Deed} {res : Except Error Unit} (hdoes : sec.Does found ds res) :
    Round.IsWhole s ⟨p, sec, callsIn (ComponentHost.told ds)⟩ := by
  obtain ⟨σ, hstaged⟩ := hs.exists_staged
  refine ⟨hstaged.lt_of_has ((hstaged.holder p i).mp h.holder), ?_⟩
  have hpasses := hdoes.passes
  show sec.Passes ((s.process p).ordered.map Prod.snd) _
  rw [h.process, found.after_eq]
  exact hpasses

/-- What has been called so far is a beginning of what is called by the end of the section. -/
theorem calls_prefix (h : s.InRound i vs p found log) (ds : List Deed) :
    callsIn (s.exchangesOf i) <+:
      vs.flatMap Round.calls ++ callsIn (ComponentHost.told (log ++ ds)) := by
  rw [h.told, told_append, callsIn_append, ← List.append_assoc]
  exact List.prefix_append _ _

end InRound

/-- A client is on its way through sections: it has made these rounds, and the sections are those it
has still to go through, the one it is inside first. -/
inductive Touring (s : Traffic) (i : Nat) (vs : List Round) : List Section → Task → Prop where
  | atLarge {secs : List Section} {rest : Prog Host Outcome}
      (htold : callsIn (s.exchangesOf i) = vs.flatMap Round.calls)
      (hrest : rest.Visits (fun _ _ ↦ True) secs) : Touring s i vs secs (.going rest)
  | working {p : ProcessRef} {sec : Section} {secs : List Section} {found : Process}
      {log : List Deed} {rest : Prog Host Outcome} {body : Prog Host (Except Error Unit)}
      {next : Except Error Unit → Prog Host Outcome} (hround : s.InRound i vs p found log)
      (hrest : rest = Stage.leaving p next body)
      (hbody : body.Yields p (found.after log) fun ds res ↦ sec.Does found (log ++ ds) res)
      (hnext : ∀ res, (next res).Visits (fun _ _ ↦ True) secs) :
      Touring s i vs (sec :: secs) (.going rest)
  | waiting {p : ProcessRef} {sec : Section} {secs : List Section} {found : Process}
      {log : List Deed} {c : Call} {rest : c.Reply → Prog Host Outcome}
      {body : c.Reply → Prog Host (Except Error Unit)}
      {next : Except Error Unit → Prog Host Outcome} (hround : s.InRound i vs p found log)
      (hrest : ∀ reply, rest reply = Stage.leaving p next (body reply))
      (hbody : ∀ reply, (body reply).Yields p (found.after log) fun ds res ↦
        sec.Does found (log ++ .said (.answered c reply) :: ds) res)
      (hnext : ∀ res, (next res).Visits (fun _ _ ↦ True) secs) :
      Touring s i vs (sec :: secs) (.asking c rest)

/-- The client goes on from `s` to `t`: the rounds it has made since are whole ones, and it is on
its way through the sections that are left. -/
def GoesOn (s t : Traffic) (i : Nat) (vs : List Round) (secs : List Section) (task : Task) : Prop :=
  ∃ ws rest, ws.map Round.sec ++ rest = secs ∧ (∀ v ∈ ws, v.IsWhole s) ∧
    t.Touring i (vs ++ ws) rest task

namespace Touring

theorem goesOn {task : Task} (h : t.Touring i vs secs task) : s.GoesOn t i vs secs task :=
  ⟨[], secs, rfl, by simp, by rwa [List.append_nil]⟩

theorem of_others {task : Task} (h : s.Touring i vs secs task) (hs : s.Reachable)
    (hstep : s.step m = some t) (hm : m.client? ≠ some i) : t.Touring i vs secs task := by
  obtain ⟨xs, hxs, hnothing⟩ := (happens_of_step hstep).exists_exchangesOf i
  have htold : t.exchangesOf i = s.exchangesOf i := by rw [hxs, hnothing hm, List.append_nil]
  cases h with
  | atLarge hcalls hrest => exact .atLarge (htold ▸ hcalls) hrest
  | working hround hrest hbody hnext =>
    exact .working (hround.of_others hs hstep hm htold) hrest hbody hnext
  | waiting hround hrest hbody hnext =>
    exact .waiting (hround.of_others hs hstep hm htold) hrest hbody hnext

/-- The client acts. If it gives its process back, it has made one more round. -/
theorem act {f : Host → Host} {k : Host → Prog Host Outcome} (hs : s.Reachable)
    (h : s.Touring i vs secs (.going (.act f k))) :
    s.GoesOn (s.actAs i r (f s.host) (k s.host)) i vs secs (.going (k s.host)) := by
  cases h with
  | atLarge htold hrest =>
    cases hrest with
    | look hf hk => exact goesOn (.atLarge htold (hk _))
  | @working p sec secs found log _ body next hround hrest hbody hnext =>
    cases body with
    | done res =>
      cases hrest
      have hdoes : sec.Does found (log ++ []) res := hbody
      rw [List.append_nil] at hdoes
      refine ⟨[⟨p, sec, callsIn (told log)⟩], secs, rfl, ?_, .atLarge ?_ (hnext res)⟩
      · exact fun v hv ↦ List.mem_singleton.mp hv ▸ hround.isWhole hs hdoes
      · rw [exchangesOf_actAs, hround.told]
        simp
    | act f' k' =>
      cases hrest
      refine goesOn ?_
      rcases hbody s.host hround.process with ⟨hf, hk⟩ | ⟨status, hf, hk⟩
      · rw [hf]
        exact .working (hround.looked _) rfl hk hnext
      · rw [hf]
        refine .working (hround.became status _) rfl ?_ hnext
        simpa [Process.after] using hk
    | await claim k' => exact hbody.elim
    | call c k' => cases hrest

/-- The client takes the lock it has waited for. -/
theorem take {claim : Host → Option Host} {k : Prog Host Outcome} {h : Host}
    (htouring : s.Touring i vs secs (.going (.await claim k))) (hclaim : claim s.host = some h) :
    (s.actAs i r h k).Touring i vs secs (.going k) := by
  cases htouring with
  | atLarge htold hrest =>
    cases hrest with
    | @visit p sec secs next hnext =>
      unfold Host.lock? at hclaim
      split_ifs at hclaim with hlocked
      obtain rfl := Option.some.inj hclaim
      have hfree : (s.process p).locked = false := by simpa [process] using hlocked
      refine .working ⟨Occupies.taken hfree _, ?_⟩ rfl (sec.yields p _) hnext
      rw [exchangesOf_actAs, htold]
      simp [callsIn]
  | @working p sec secs found log _ body next hround hrest hbody hnext =>
    cases body with
    | await claim' k' => exact hbody.elim
    | _ => cases hrest

/-- The client makes a call. -/
theorem ask {c : Call} {k : c.Reply → Prog Host Outcome}
    (h : s.Touring i vs secs (.going (.call c k))) :
    (s.passAs i r (.asked c) (.asking c k)).Touring i vs secs (.asking c k) := by
  cases h with
  | atLarge _ hrest => cases hrest
  | @working p sec secs found log _ body next hround hrest hbody hnext =>
    cases body with
    | call c' k' =>
      cases hrest
      refine .waiting (hround.said _ _) (fun _ ↦ rfl) (fun reply ↦ ?_) hnext
      simpa [Process.after] using hbody reply
    | await claim' k' => exact hbody.elim
    | _ => cases hrest

/-- The client is answered. -/
theorem answer {c : Call} {k : c.Reply → Prog Host Outcome} (h : s.Touring i vs secs (.asking c k))
    (reply : c.Reply) :
    (s.passAs i r (.answered c reply) (.going (k reply))).Touring i vs secs
      (.going (k reply)) := by
  cases h with
  | waiting hround hrest hbody hnext =>
    refine .working (hround.said _ _) (hrest reply) ?_ hnext
    simpa [Process.after] using hbody reply

/-- A client that moves stays on its way. -/
theorem of_own {c : Client} (h : s.Touring i vs secs c.task) (hs : s.Reachable)
    (hi : s.clients[i]? = some c) (hhappens : s.Happens m t) (hm : m.client? = some i) :
    ∃ task, t.clients[i]? = some ⟨c.request, task⟩ ∧ s.GoesOn t i vs secs task := by
  cases hhappens with
  | arrived | changed => cases hm
  | acted hj | took hj hclaim | asked hj | answered hj =>
    obtain rfl := Option.some.inj hm
    obtain rfl := Option.some.inj (hi.symm.trans hj)
    refine ⟨_, getElem?_set_client hi _, ?_⟩
    first
      | exact h.act hs
      | exact goesOn (h.take hclaim)
      | exact goesOn h.ask
      | exact goesOn (h.answer _)

/-- Who is on its way is between two rounds, or has begun one that can be brought to its end. -/
theorem between_or {task : Task} (h : s.Touring i vs secs task) (hs : s.Reachable) :
    callsIn (s.exchangesOf i) = vs.flatMap Round.calls ∨
      ∃ (v : Round) (rest : List Section), secs = v.sec :: rest ∧ v.IsWhole s ∧
        callsIn (s.exchangesOf i) <+: vs.flatMap Round.calls ++ v.calls ∧
        ∀ r, Client.isFinished ⟨r, task⟩ = false := by
  cases h with
  | atLarge htold => exact .inl htold
  | @working _ _ _ _ _ _ body _ hround hrest hbody =>
    obtain ⟨ds, res, hdoes⟩ := hbody.exists_deeds
    refine .inr ⟨_, _, rfl, hround.isWhole hs hdoes, hround.calls_prefix ds, fun r ↦ ?_⟩
    -- the lock is still to be given back
    cases body <;> exact hrest ▸ rfl
  | @waiting _ _ _ _ _ c _ _ _ hround _ hbody =>
    obtain ⟨reply⟩ := c.nonempty_reply
    obtain ⟨ds, res, hdoes⟩ := (hbody reply).exists_deeds
    exact .inr ⟨_, _, rfl, hround.isWhole hs hdoes, hround.calls_prefix _, fun r ↦ rfl⟩

end Touring

/-- Every lifecycle call is on its way through the sections of its request. -/
theorem Reachable.exists_touring {c : Client} (hs : s.Reachable) (hi : s.clients[i]? = some c)
    (hr : c.request.isLifecycle = true) :
    ∃ vs secs, (∀ v ∈ vs, v.IsWhole s) ∧ vs.map Round.sec ++ secs = c.request.sections ∧
      s.Touring i vs secs c.task := by
  obtain ⟨h, hunused, hlater⟩ := hs
  induction hlater generalizing c with
  | refl => simp at hi
  | @tail u t hlater hnext ih =>
    have hu : u.Reachable := ⟨h, hunused, hlater⟩
    obtain ⟨m, hstep⟩ := hnext
    have hhappens := happens_of_step hstep
    cases hbefore : u.clients[i]? with
    | none =>
      obtain ⟨-, htask⟩ := hhappens.task_of_new hbefore hi
      have hnothing := hu.exchangesOf_of_new hhappens hbefore hi
      rw [htask]
      exact ⟨[], c.request.sections, by simp, rfl,
        .atLarge (by rw [hnothing]; rfl) (Request.visits hr)⟩
    | some c₀ =>
      obtain ⟨task, htask, hothers⟩ := hhappens.exists_client hbefore
      obtain rfl : ⟨c₀.request, task⟩ = c := Option.some.inj (htask.symm.trans hi)
      obtain ⟨vs, secs, hwhole, hsecs, htouring⟩ := ih hbefore hr
      have hkept : ∀ v ∈ vs, v.IsWhole t := fun v hv ↦ hu.isWhole_step hstep (hwhole v hv)
      by_cases hm : m.client? = some i
      · obtain ⟨task', htask', ws, rest, hsplit, hnew, htouring'⟩ :=
          htouring.of_own hu hbefore hhappens hm
        obtain rfl : task' = task := by simpa using htask'.symm.trans hi
        refine ⟨vs ++ ws, rest, fun v hv ↦ ?_, ?_, htouring'⟩
        · rcases List.mem_append.mp hv with hv | hv
          · exact hkept v hv
          · exact hu.isWhole_step hstep (hnew v hv)
        · rw [List.map_append, List.append_assoc, hsplit, hsecs]
      · obtain rfl := hothers hm
        exact ⟨vs, secs, hkept, hsecs, htouring.of_others hu hstep hm⟩

/-- What a lifecycle call has called so far is a beginning of what whole rounds call, one for each
of its sections and in their order; and once it is finished it is all of it. -/
theorem Reachable.exists_rounds {c : Client} (hs : s.Reachable) (hi : s.clients[i]? = some c)
    (hr : c.request.isLifecycle = true) :
    ∃ vs : List Round, (∀ v ∈ vs, v.IsWhole s) ∧ vs.map Round.sec <+: c.request.sections ∧
      callsIn (s.exchangesOf i) <+: vs.flatMap Round.calls ∧
      (c.isFinished = true → callsIn (s.exchangesOf i) = vs.flatMap Round.calls) := by
  obtain ⟨vs, secs, hwhole, hsecs, htouring⟩ := hs.exists_touring hi hr
  rcases htouring.between_or hs with hcalls | ⟨v, rest, hrest, hv, hcalls, hgoing⟩
  · exact ⟨vs, hwhole, ⟨secs, hsecs⟩, hcalls ▸ List.prefix_refl _, fun _ ↦ hcalls⟩
  · refine ⟨vs ++ [v], fun w hw ↦ ?_, ⟨rest, ?_⟩, ?_, fun hfinished ↦ ?_⟩
    · rcases List.mem_append.mp hw with hw | hw
      · exact hwhole w hw
      · exact List.mem_singleton.mp hw ▸ hv
    · rw [← hsecs, hrest, List.map_append, List.append_assoc]
      rfl
    · rwa [List.flatMap_append, List.flatMap_singleton]
    · rw [hgoing c.request] at hfinished
      cases hfinished

end Traffic

end ComponentHost
