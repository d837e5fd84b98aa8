import ComponentHost.Proofs.Alone
import ComponentHost.Proofs.Run

/-!
Calls on one process, side by side and one after the other.

Any number of clients start, stop, or mark failed one recorded process, in any interleaving
(`Traffic.Concurrent`). What they tell the collaborators, how their calls end and what becomes of
the process is the same as if the calls had been carried out one after the other, with nobody beside
them, in the order in which they took the lock of the process
(`Traffic.exists_serveAll_of_concurrent`).

The proof follows the client that has the process to itself: what is left of its program, evaluated
on the host as it is, ends as the whole program ends on the host as it was when the lock was free
(`Traffic.Working`). Who does not have the process to itself has done nothing but look, and will end
in the same way wherever it takes the lock (`Traffic.Pending`).
-/

set_option autoImplicit false

namespace ComponentHost

open Prog

/-- A start, a stop or a failure of what a manager has recorded under an identifier. -/
def Request.IsSingle (m : ManagerRef) (id : String) : Request → Prop
  | .start m' _ id' | .stop m' _ id' | .markFailed m' id' _ => m' = m ∧ id' = id
  | _ => False

/-- Where things stand: what matters of a host, and what has passed, the latest first. -/
abbrev Point := Essence × List Exchange

/-! ### On the way to the lock -/

/-- The managers are those of the host, and the same contexts are cancelled. -/
def Host.Sees (h₀ : Host) (e : Essence) : Prop :=
  e.managers = h₀.managers ∧ e.cancelled = h₀.contexts.isCancelled

def Host.SameView (h₀ h : Host) : Prop := h₀.Sees h.essence

namespace Prog

variable {α β : Type} {h₀ : Host} {p : ProcessRef}

/-- The program looks at what does not change, and then goes through one section of the process, or
is at its end. -/
inductive Nears (h₀ : Host) (p : ProcessRef) : Prog Host α → Prop where
  | done {a : α} : Nears h₀ p (.done a)
  | look {f : Host → Host} {k : Host → Prog Host α} (hf : ∀ h, f h = h)
      (hsame : ∀ h, h₀.SameView h → k h = k h₀) (hk : Nears h₀ p (k h₀)) : Nears h₀ p (.act f k)
  | take {sec : Section} {g : Except Error Unit → α} :
      Nears h₀ p (.await (Host.lock? p)
        ((sec.body p).run.bind fun res ↦ .act (Host.unlock p) fun _ ↦ .done (g res)))

/-- The result may be changed in the end. -/
theorem Nears.map {x : Prog Host α} (hx : x.Nears h₀ p) (g : α → β) :
    (x.bind fun a ↦ .done (g a)).Nears h₀ p := by
  induction hx with
  | done => exact .done
  | look hf hsame _ ih =>
    exact .look hf (fun h hh ↦ congrArg (·.bind fun a ↦ .done (g a)) (hsame h hh)) ih
  | take =>
    rw [Prog.bind, Prog.bind_assoc]
    exact .take

/-- A look of which the result is known. -/
theorem Nears.inspect {look : Host → Except Error α} {g : α → Action β} {res : Except Error α}
    (hlook : ∀ h, h₀.SameView h → look h = res) (hres : ∀ a, res = .ok a → (g a).run.Nears h₀ p) :
    (Host.inspect look >>= g).run.Nears h₀ p := by
  have h₀_same : h₀.SameView h₀ := ⟨rfl, rfl⟩
  refine .look (fun _ ↦ rfl) (fun h hh ↦ ?_) ?_
  · show (Prog.done (look h)).bind (ExceptT.bindCont g) =
      (Prog.done (look h₀)).bind (ExceptT.bindCont g)
    rw [hlook h hh, hlook h₀ h₀_same]
  · show ((Prog.done (look h₀)).bind (ExceptT.bindCont g)).Nears h₀ p
    rw [hlook h₀ h₀_same]
    cases res with
    | ok a => exact hres a rfl
    | error e => exact .done

end Prog

/-- A call on a recorded process comes to take its lock, if the process stays recorded. -/
theorem Request.nears {h₀ : Host} {m : ManagerRef} {id : String} {p : ProcessRef} {r : Request}
    (hfind : (h₀.managers.get m).find id = .ok p) (hr : r.IsSingle m id) :
    r.program.Nears h₀ p := by
  have hfound (h : Host) (hh : h₀.SameView h) : (h.managers.get m).find id = .ok p := by
    have hmanagers : h.managers = h₀.managers := hh.1
    rw [hmanagers, hfind]
  have hcheck (ctx : ContextRef) (h : Host) (hh : h₀.SameView h) :
      h.contexts.check ctx = h₀.contexts.check ctx := by
    have hcancelled : h.contexts.isCancelled = h₀.contexts.isCancelled := hh.2
    simp only [Contexts.check, hcancelled]
  have hvisit (sec : Section) : (Host.exclusively p (sec.body p)).run.Nears h₀ p :=
    .take (g := fun res ↦ res)
  have hanswer {x : Action Unit} (hx : x.run.Nears h₀ p) : (do
      x
      return none : Action (Option ProcessRef)).run.Nears h₀ p := by
    have hmap := hx.map fun res ↦ res.map fun _ ↦ (none : Option ProcessRef)
    have heq : (x >>= fun _ ↦ pure none : Action (Option ProcessRef)).run =
        x.run.bind fun res ↦ .done (res.map fun _ ↦ none) := by
      refine congrArg (Prog.bind x.run) (funext fun res ↦ ?_)
      cases res <;> rfl
    rw [heq]
    exact hmap
  cases r with
  | create | restart | remove => exact hr.elim
  | start m' ctx id' =>
    obtain ⟨rfl, rfl⟩ := hr
    refine hanswer (.inspect hfound fun q hq ↦ .inspect (hcheck ctx) fun _ _ ↦ ?_)
    obtain rfl : p = q := Except.ok.inj hq
    exact hvisit (.start ctx id')
  | stop m' ctx id' =>
    obtain ⟨rfl, rfl⟩ := hr
    refine hanswer (.inspect hfound fun q hq ↦ .inspect (hcheck ctx) fun _ _ ↦ ?_)
    obtain rfl : p = q := Except.ok.inj hq
    exact hvisit (.stop ctx id')
  | markFailed m' id' reason =>
    obtain ⟨rfl, rfl⟩ := hr
    refine hanswer (.inspect hfound fun q hq ↦ ?_)
    obtain rfl : p = q := Except.ok.inj hq
    exact hvisit (.fail id' reason)

theorem Request.IsSingle.isLifecycle {m : ManagerRef} {id : String} {r : Request}
    (hr : r.IsSingle m id) : r.isLifecycle = true := by
  cases r <;> first | rfl | exact hr.elim

/-! ### One call after the other -/

/-- Carried out from a point on with nobody beside it, the request ends so, and leads to another
point. -/
def Request.Serves (f : Answers) (r : Request) (x : Point) (o : Outcome) (y : Point) : Prop :=
  ∀ d : Diary, d.point = x → r.program.result f d = some (o, y)

/-- Requests carried out one after the other from a point on end so, and lead to another point, all
of them points of hosts with the same view. -/
def Chain (f : Answers) (h₀ : Host) : List (Request × Outcome) → Point → Point → Prop
  | [], x, y => x = y
  | (r, o) :: rest, x, y => ∃ z : Point, r.Serves f x o z ∧ h₀.Sees z.1 ∧ Chain f h₀ rest z y

theorem Chain.exists_serveAll {f : Answers} {h₀ : Host} {calls : List (Request × Outcome)}
    {d : Diary} {y : Point} (h : Chain f h₀ calls d.point y) :
    ∃ d' N, d'.point = y ∧
      ∀ n ≥ N, d.serveAll f n (calls.map Prod.fst) = some (calls.map Prod.snd, d') := by
  induction calls generalizing d with
  | nil => exact ⟨d, 0, h, fun _ _ ↦ rfl⟩
  | cons call rest ih =>
    obtain ⟨r, o⟩ := call
    obtain ⟨z, hserves, -, hrest⟩ := h
    obtain ⟨⟨o', d₁⟩, hgoes, heq⟩ := Option.map_eq_some_iff.mp (hserves d rfl)
    obtain ⟨rfl, rfl⟩ : o' = o ∧ d₁.point = z := by simpa using heq
    obtain ⟨N₁, hN₁⟩ := alone_of_goes hgoes
    obtain ⟨d', N₂, hd', hN₂⟩ := ih hrest
    refine ⟨d', max N₁ N₂, hd', fun n hn ↦ ?_⟩
    have hfirst : d.serve f n r = some (o', d₁) := hN₁ n (Nat.le_trans (Nat.le_max_left ..) hn)
    have hothers := hN₂ n (Nat.le_trans (Nat.le_max_right ..) hn)
    simp [Diary.serveAll, hfirst, hothers]

/-- Calls that lead nowhere may be put in between. -/
theorem Chain.of_sublist {f : Answers} {h₀ : Host} {call : Nat → Option (Request × Outcome)}
    {is js : List Nat} {x y : Point} (hsub : is.Sublist js) (hnodup : js.Nodup)
    (hidle : ∀ j ∈ js, j ∉ is → ∀ r o, call j = some (r, o) → ∀ z : Point, h₀.Sees z.1 →
      r.Serves f z o z) (hx : h₀.Sees x.1) (h : Chain f h₀ (is.filterMap call) x y) :
    Chain f h₀ (js.filterMap call) x y := by
  induction hsub generalizing x with
  | slnil => exact h
  | @cons is js j hsub ih =>
    obtain ⟨hj, hnodup⟩ := List.nodup_cons.mp hnodup
    have hrest := ih hnodup (fun k hk ↦ hidle k (List.mem_cons_of_mem _ hk)) hx h
    cases hcall : call j with
    | none => rwa [List.filterMap_cons_none hcall]
    | some z =>
      obtain ⟨r, o⟩ := z
      rw [List.filterMap_cons_some hcall]
      have hnot : j ∉ is := fun hmem ↦ hj (hsub.subset hmem)
      exact ⟨x, hidle j List.mem_cons_self hnot r o hcall x hx, hx, hrest⟩
  | @cons_cons is js j hsub ih =>
    obtain ⟨hj, hnodup⟩ := List.nodup_cons.mp hnodup
    have hothers (k : Nat) (hk : k ∈ js) (hnot : k ∉ is) : k ∉ j :: is := by
      rintro hmem
      rcases List.mem_cons.mp hmem with rfl | hmem
      · exact hj hk
      · exact hnot hmem
    have ih {x : Point} (hx : h₀.Sees x.1) (h : Chain f h₀ (is.filterMap call) x y) :=
      ih hnodup (fun k hk hnot ↦ hidle k (List.mem_cons_of_mem _ hk) (hothers k hk hnot)) hx h
    cases hcall : call j with
    | none =>
      rw [List.filterMap_cons_none hcall] at h ⊢
      exact ih hx h
    | some z =>
      obtain ⟨r, o⟩ := z
      rw [List.filterMap_cons_some hcall] at h ⊢
      obtain ⟨z, hserves, hz, hrest⟩ := h
      exact ⟨z, hserves, hz, ih hz hrest⟩

/-! ### Side by side -/

namespace Traffic

/-- Clients from `n` on make calls on what a manager has recorded under an identifier, and are
answered by `f`; nothing from outside cancels a context. -/
def Concurrent (f : Answers) (m : ManagerRef) (id : String) (n : Nat) (s : Traffic) : Move → Prop
  | .arrive r => r.IsSingle m id
  | .proceed i => n ≤ i
  | .answer i reply => n ≤ i ∧ reply = f s.exchanges
  | .outside change => (change s.host).contexts.isCancelled = s.host.contexts.isCancelled

/-- Who has taken the lock of a process, in order. -/
def takers (p : ProcessRef) : List Move → Traffic → List Nat
  | [], _ => []
  | m :: rest, s =>
    match s.step m with
    | some t => (if s.holder p = none then (t.holder p).toList else []) ++ takers p rest t
    | none => []

def diary (s : Traffic) : Diary := ⟨s.host, s.exchanges⟩

/-- A client that has only looked, and will end in the same way wherever it goes on. -/
def Pending (f : Answers) (h₀ : Host) (p : ProcessRef) (c : Client) : Prop :=
  ∃ rest, c.task = .going rest ∧ rest.Nears h₀ p ∧ rest.Minds ∧
    ∀ d : Diary, h₀.SameView d.host → rest.result f d = c.request.program.result f d

/-- What is left to do inside a section ends, where things stand, as the whole request ends that is
carried out from the point `x` on. -/
inductive Working (f : Answers) (p : ProcessRef) (x : Point) (s : Traffic) (r : Request) :
    Task → Prop where
  | going {rest : Prog Host Outcome} {body : Prog Host (Except Error Unit)}
      {g : Except Error Unit → Outcome}
      (hrest : rest = Stage.leaving p (fun res ↦ .done (g res)) body)
      (hbody : body.Yields p (s.process p) fun _ _ ↦ True) (hminds : rest.Minds)
      (hresult : ∀ d : Diary, d.point = x → r.program.result f d = rest.result f s.diary) :
      Working f p x s r (.going rest)
  | asking {c : Call} {k : c.Reply → Prog Host Outcome}
      {body : c.Reply → Prog Host (Except Error Unit)}
      {g : Except Error Unit → Outcome}
      (hrest : ∀ reply, k reply = Stage.leaving p (fun res ↦ .done (g res)) (body reply))
      (hbody : ∀ reply, (body reply).Yields p (s.process p) fun _ _ ↦ True)
      (hminds : ∀ reply, (k reply).Minds)
      (hresult : ∀ d : Diary, d.point = x → r.program.result f d =
        (k (f s.exchanges c)).result f
          { s.diary with passed := .answered c (f s.exchanges c) :: s.exchanges }) :
      Working f p x s r (.asking c k)

/-- Nothing has changed of what calls look at on their way to the lock, and who does not have the
process to itself is finished, or has only looked. -/
structure Settled (f : Answers) (h₀ : Host) (p : ProcessRef) (n : Nat) (s : Traffic) : Prop where
  view : h₀.SameView s.host
  others : ∀ i c, n ≤ i → s.clients[i]? = some c → s.holder p ≠ some i →
    c.isFinished = true ∨ Pending f h₀ p c

/-- Where the calls that are at their end, carried out one after the other, have led to: the lock is
free, and that is where things stand, or one more call is on its way from there. -/
inductive Stands (f : Answers) (p : ProcessRef) (n : Nat) (x : Point) (s : Traffic) : Prop where
  | free (hfree : s.holder p = none) (hpoint : s.diary.point = x)
  | held {i : Nat} {c : Client} (hn : n ≤ i) (hholder : s.holder p = some i)
      (hi : s.clients[i]? = some c) (hworking : s.Working f p x c.request c.task)

section

variable {f : Answers} {h₀ : Host} {m : ManagerRef} {id : String} {p : ProcessRef} {n : Nat}
  {x : Point} {s t : Traffic} {move : Move} {i : Nat}

theorem Concurrent.le_client (hallowed : s.Concurrent f m id n move)
    (hm : move.client? = some i) : n ≤ i := by
  cases move with
  | arrive | outside => cases hm
  | proceed j =>
    obtain rfl := Option.some.inj hm
    exact hallowed
  | answer j reply =>
    obtain rfl := Option.some.inj hm
    exact hallowed.1

/-- The client that has the process to itself is at work. -/
theorem Stands.working {c : Client} (h : s.Stands f p n x) (hholder : s.holder p = some i)
    (hi : s.clients[i]? = some c) : s.Working f p x c.request c.task := by
  cases h with
  | free hfree => simp [hfree] at hholder
  | @held j c' _ hj hc' hworking =>
    obtain rfl : j = i := Option.some.inj (hj.symm.trans hholder)
    obtain rfl : c' = c := Option.some.inj (hc'.symm.trans hi)
    exact hworking

/-- A client that has not begun is one of those that have only looked. -/
theorem pending_of_isSingle {r : Request} (hfind : (h₀.managers.get m).find id = .ok p)
    (hr : r.IsSingle m id) : Pending f h₀ p ⟨r, .going r.program⟩ :=
  ⟨_, rfl, r.nears hfind hr, r.minds hr.isLifecycle, fun _ _ ↦ rfl⟩

/-- What the others do is nothing to the client that is at work, as long as it changes nothing that
matters. -/
theorem Working.of_point {r : Request} {task : Task} (h : s.Working f p x r task)
    (hpoint : t.diary.point = s.diary.point) : t.Working f p x r task := by
  obtain ⟨hessence, hpassed⟩ := Prod.mk.inj hpoint
  have hpassed : t.exchanges = s.exchanges := hpassed
  have hprocess : t.process p = s.process p :=
    congrArg (·.get p) (Host.processes_eq hessence)
  cases h with
  | going hrest hbody hminds hresult =>
    refine .going hrest (hprocess ▸ hbody) hminds fun d hd ↦ ?_
    rw [hresult d hd, hminds.result_eq hpoint]
  | asking hrest hbody hminds hresult =>
    refine .asking hrest (fun reply ↦ hprocess ▸ hbody reply) hminds fun d hd ↦ ?_
    rw [hresult d hd, hpassed]
    exact (hminds _).result_eq (Prod.ext hessence.symm rfl)

/-- A client that has only looked looks once more. -/
theorem Pending.look {r : Request} {g : Host → Host} {k : Host → Prog Host Outcome}
    (h : Pending f h₀ p ⟨r, .going (.act g k)⟩) {h' : Host} (hview : h₀.SameView h') :
    g h' = h' ∧ Pending f h₀ p ⟨r, .going (k h')⟩ := by
  obtain ⟨rest, hrest, hnears, hminds, hresult⟩ := h
  cases hrest
  cases hnears with
  | look hg hsame hk =>
    have hkh := hsame h' hview
    refine ⟨hg h', _, rfl, hkh ▸ hk, (hminds h' h' rfl).2.2, fun d hd ↦ ?_⟩
    rw [← hresult d hd]
    simp only [result, goes, hg, hkh, hsame d.host hd]

/-- A client that has only looked takes the lock, and is at work on the process. -/
theorem Pending.take {r : Request} {claim : Host → Option Host} {k : Prog Host Outcome} {h : Host}
    (hs : s.Reachable) (hpending : Pending f h₀ p ⟨r, .going (.await claim k)⟩)
    (hview : h₀.SameView s.host) (hclaim : claim s.host = some h) :
    s.holder p = none ∧ (s.actAs i r h k).holder p = some i ∧ h₀.SameView h ∧
      (s.actAs i r h k).Working f p s.diary.point r (.going k) := by
  obtain ⟨rest, hrest, hnears, hminds, hresult⟩ := hpending
  cases hrest
  cases hnears with
  | @take sec g =>
    unfold Host.lock? at hclaim
    split_ifs at hclaim with hlocked
    obtain rfl := Option.some.inj hclaim
    have hfree : (s.process p).locked = false := by simpa [process] using hlocked
    refine ⟨?_, by simp [actAs, holderAfter, hfree], hview, ?_⟩
    · by_contra hne
      obtain ⟨j, hj⟩ := Option.ne_none_iff_exists'.mp hne
      simp [hs.locked_of_holder hj] at hfree
    refine .going rfl ((sec.yields p _).mono fun _ _ _ ↦ trivial) hminds.2 fun d hd ↦ ?_
    have hgoes : (Prog.await (Host.lock? p) ((sec.body p).run.bind fun res ↦
        .act (Host.unlock p) fun _ ↦ .done (g res))).result f s.diary =
          ((sec.body p).run.bind fun res ↦
            .act (Host.unlock p) fun _ ↦ .done (g res)).result f
              ⟨{ s.host with
                processes := s.host.processes.modify p ({ · with locked := true }) },
                s.exchanges⟩ := by
      simp only [result, goes, diary, Host.lock?, hlocked]
      rfl
    have hdview : h₀.SameView d.host := by
      obtain ⟨hessence, -⟩ := Prod.mk.inj hd
      have hmanagers : d.host.managers = s.host.managers := congrArg Essence.managers hessence
      have hcancelled : d.host.contexts.isCancelled = s.host.contexts.isCancelled :=
        congrArg Essence.cancelled hessence
      exact ⟨hmanagers.trans hview.1, hcancelled.trans hview.2⟩
    rw [← hresult d hdview, hminds.result_eq hd, hgoes]
    rfl

/-- The client that has the process to itself acts, and still has it, or it is finished. -/
theorem Working.act {r : Request} {g : Host → Host} {k : Host → Prog Host Outcome}
    (hs : s.Reachable) (hholder : s.holder p = some i)
    (h : s.Working f p x r (.going (.act g k))) (hview : h₀.SameView s.host) :
    h₀.SameView (g s.host) ∧
      (((s.actAs i r (g s.host) (k s.host)).holder p = some i ∧
        (s.actAs i r (g s.host) (k s.host)).Working f p x r (.going (k s.host))) ∨
      ∃ o, k s.host = .done o ∧ (s.actAs i r (g s.host) (k s.host)).holder p = none ∧
        r.Serves f x o (s.actAs i r (g s.host) (k s.host)).diary.point) := by
  have hlocked := hs.locked_of_holder hholder
  cases h with
  | @going _ body g' hrest hbody hminds hresult =>
    cases body with
    | done res =>
      cases hrest
      refine ⟨hview, .inr ⟨_, rfl, ?_, fun d hd ↦ ?_⟩⟩
      · show s.holderAfter i (Host.unlock p s.host) p = none
        simp [holderAfter, Host.unlock]
      · rw [hresult d hd]
        rfl
    | act g₀ k₀ =>
      cases hrest
      rcases hbody s.host rfl with ⟨hg, hk⟩ | ⟨status, hg, hk⟩
      · refine ⟨by rwa [hg], .inl ⟨?_, .going rfl ?_ (hminds _ _ rfl).2.2 hresult⟩⟩
        · rw [hg, holder_actAs_of_locked hlocked hlocked, hholder]
        · rw [hg]
          exact hk
      · refine ⟨by rwa [hg], .inl ⟨?_, .going rfl ?_ (hminds _ _ rfl).2.2 hresult⟩⟩
        · rw [hg, holder_actAs_of_locked hlocked (by simpa [process] using hlocked), hholder]
        · rw [hg]
          simpa [actAs, process] using hk
    | await claim k' => exact hbody.elim
    | call c k' => cases hrest

theorem Working.ask {r : Request} {c : Call} {k : c.Reply → Prog Host Outcome}
    (h : s.Working f p x r (.going (.call c k))) :
    (s.passAs i r (.asked c) (.asking c k)).Working f p x r (.asking c k) := by
  cases h with
  | @going _ body g hrest hbody hminds hresult =>
    cases body with
    | call c' k' =>
      cases hrest
      exact .asking (fun _ ↦ rfl) hbody hminds hresult
    | await claim k' => exact hbody.elim
    | _ => cases hrest

theorem Working.answer {r : Request} {c : Call} {k : c.Reply → Prog Host Outcome}
    (h : s.Working f p x r (.asking c k)) :
    (s.passAs i r (.answered c (f s.exchanges c)) (.going (k (f s.exchanges c)))).Working f p x r
      (.going (k (f s.exchanges c))) := by
  cases h with
  | asking hrest hbody hminds hresult => exact .going (hrest _) (hbody _) (hminds _) hresult

/-- The client that has the process to itself moves: it still has it, or it has come to its end. -/
theorem Working.step {c : Client} (hs : s.Reachable) (hholder : s.holder p = some i)
    (hi : s.clients[i]? = some c) (h : s.Working f p x c.request c.task)
    (hview : h₀.SameView s.host) (hhappens : s.Happens move t) (hm : move.client? = some i)
    (hallowed : s.Concurrent f m id n move) :
    h₀.SameView t.host ∧
      ((t.holder p = some i ∧ ∃ task, t.clients[i]? = some ⟨c.request, task⟩ ∧
        t.Working f p x c.request task) ∨
      (t.holder p = none ∧ ∃ o, t.finished? i = some (c.request, o) ∧
        c.request.Serves f x o t.diary.point)) := by
  cases hhappens with
  | arrived | changed => cases hm
  | @acted _ r g k hj =>
    obtain rfl := Option.some.inj hm
    obtain rfl := Option.some.inj (hi.symm.trans hj)
    obtain ⟨hview, ⟨hkeeps, hworking⟩ | ⟨o, hk, hfree, hserves⟩⟩ := h.act hs hholder hview
    · exact ⟨hview, .inl ⟨hkeeps, _, getElem?_set_client hi _, hworking⟩⟩
    · have hdone := getElem?_set_client hi ⟨r, .going (k s.host)⟩
      rw [hk] at hdone
      exact ⟨hview, .inr ⟨hfree, o, finished?_eq_some (hk ▸ hdone), hserves⟩⟩
  | took hj hclaim =>
    obtain rfl := Option.some.inj hm
    obtain rfl := Option.some.inj (hi.symm.trans hj)
    cases h with
    | @going _ body g hrest hbody hminds hresult =>
      cases body with
      | await claim k => exact hbody.elim
      | _ => cases hrest
  | asked hj =>
    obtain rfl := Option.some.inj hm
    obtain rfl := Option.some.inj (hi.symm.trans hj)
    exact ⟨hview, .inl ⟨hholder, _, getElem?_set_client hi _, h.ask⟩⟩
  | answered hj =>
    obtain rfl := Option.some.inj hm
    obtain rfl := Option.some.inj (hi.symm.trans hj)
    obtain ⟨-, rfl⟩ := hallowed
    exact ⟨hview, .inl ⟨hholder, _, getElem?_set_client hi _, h.answer⟩⟩

/-- A client that has only looked moves: it looks once more, or it takes the lock. -/
theorem Pending.step {c : Client} (hs : s.Reachable) (hi : s.clients[i]? = some c)
    (h : Pending f h₀ p c) (hview : h₀.SameView s.host) (hhappens : s.Happens move t)
    (hm : move.client? = some i) :
    (t.diary = s.diary ∧ t.holder p = s.holder p ∧ ∃ task,
        t.clients[i]? = some ⟨c.request, task⟩ ∧ Pending f h₀ p ⟨c.request, task⟩) ∨
      (s.holder p = none ∧ t.holder p = some i ∧ h₀.SameView t.host ∧ ∃ task,
        t.clients[i]? = some ⟨c.request, task⟩ ∧ t.Working f p s.diary.point c.request task) := by
  cases hhappens with
  | arrived | changed => cases hm
  | @acted _ r g k hj =>
    obtain rfl := Option.some.inj hm
    obtain rfl := Option.some.inj (hi.symm.trans hj)
    obtain ⟨hg, hlooked⟩ := h.look hview
    rw [hg]
    exact .inl ⟨rfl, congrFun (hs.holder_actAs ..) p, _, getElem?_set_client hi _, hlooked⟩
  | took hj hclaim =>
    obtain rfl := Option.some.inj hm
    obtain rfl := Option.some.inj (hi.symm.trans hj)
    obtain ⟨hfree, hholder, hview, hworking⟩ := h.take hs hview hclaim
    exact .inr ⟨hfree, hholder, hview, _, getElem?_set_client hi _, hworking⟩
  | asked hj =>
    obtain rfl := Option.some.inj hm
    obtain rfl := Option.some.inj (hi.symm.trans hj)
    obtain ⟨rest, hrest, hnears, -⟩ := h
    cases hrest
    cases hnears
  | answered hj =>
    obtain rfl := Option.some.inj hm
    obtain rfl := Option.some.inj (hi.symm.trans hj)
    obtain ⟨rest, hrest, -⟩ := h
    cases hrest

/-! ### One move -/

/-- Nothing that matters has changed, and who has the process to itself has not moved. -/
theorem Stands.of_idle (h : s.Stands f p n x) (hhappens : s.Happens move t)
    (hpoint : t.diary.point = s.diary.point) (hholder : t.holder p = s.holder p)
    (hm : ∀ i, s.holder p = some i → move.client? ≠ some i) : t.Stands f p n x := by
  cases h with
  | free hfree hx => exact .free (hholder.trans hfree) (hpoint.trans hx)
  | @held i c hn hi hc hworking =>
    obtain ⟨task, htask, hsame⟩ := hhappens.exists_client hc
    obtain rfl := hsame (hm i hi)
    exact .held hn (hholder.trans hi) htask (hworking.of_point hpoint)

/-- Only who moves is to be looked at, and who has come just now has not begun. -/
theorem Settled.of_mover (hsettled : s.Settled f h₀ p n) (hhappens : s.Happens move t)
    (hfind : (h₀.managers.get m).find id = .ok p) (hallowed : s.Concurrent f m id n move)
    (hview : h₀.SameView t.host)
    (hothers : ∀ j, move.client? ≠ some j → t.holder p ≠ some j → s.holder p ≠ some j)
    (hmover : ∀ i c, move.client? = some i → t.clients[i]? = some c → t.holder p ≠ some i →
      c.isFinished = true ∨ Pending f h₀ p c) : t.Settled f h₀ p n := by
  refine ⟨hview, fun j c hj hc hnot ↦ ?_⟩
  by_cases hm : move.client? = some j
  · exact hmover j c hm hc hnot
  cases hbefore : s.clients[j]? with
  | none =>
    obtain ⟨rfl, hbegins⟩ := hhappens.task_of_new hbefore hc
    obtain ⟨r, task⟩ := c
    obtain rfl : task = .going r.program := hbegins
    exact .inr (pending_of_isSingle hfind hallowed)
  | some c₀ =>
    obtain ⟨task, htask, hsame⟩ := hhappens.exists_client hbefore
    obtain rfl := hsame hm
    obtain rfl : c₀ = c := Option.some.inj (htask.symm.trans hc)
    exact hsettled.others j c₀ hj hbefore (hothers j hm hnot)

theorem Settled.of_client (hsettled : s.Settled f h₀ p n) (hhappens : s.Happens move t)
    (hfind : (h₀.managers.get m).find id = .ok p) (hallowed : s.Concurrent f m id n move)
    (hview : h₀.SameView t.host) (hm : move.client? = some i)
    (hothers : ∀ j ≠ i, t.holder p ≠ some j → s.holder p ≠ some j)
    (hmover : ∀ c, t.clients[i]? = some c → t.holder p ≠ some i →
      c.isFinished = true ∨ Pending f h₀ p c) : t.Settled f h₀ p n := by
  refine hsettled.of_mover hhappens hfind hallowed hview (fun j hj ↦ hothers j ?_)
    fun j c hj hc hnot ↦ ?_
  · rintro rfl
    exact hj hm
  · obtain rfl : i = j := Option.some.inj (hm.symm.trans hj)
    exact hmover c hc hnot

/-- Somebody comes, or something happens elsewhere on the host. -/
theorem Settled.idle (hfind : (h₀.managers.get m).find id = .ok p)
    (hallowed : s.Concurrent f m id n move) (hhappens : s.Happens move t)
    (hm : move.client? = none) (hsettled : s.Settled f h₀ p n) :
    t.Settled f h₀ p n ∧ t.diary.point = s.diary.point ∧ t.holder p = s.holder p := by
  have hkept : t.diary.point = s.diary.point ∧ t.holder p = s.holder p := by
    cases hhappens with
    | arrived => exact ⟨rfl, rfl⟩
    | changed =>
      refine ⟨?_, rfl⟩
      simp only [Diary.point, diary, Host.essence]
      rw [hallowed]
      rfl
    | acted | took | asked | answered => cases hm
  obtain ⟨hpoint, hholder⟩ := hkept
  obtain ⟨hessence, -⟩ := Prod.mk.inj hpoint
  have hmanagers : t.host.managers = s.host.managers := congrArg Essence.managers hessence
  have hcancelled : t.host.contexts.isCancelled = s.host.contexts.isCancelled :=
    congrArg Essence.cancelled hessence
  have hview : h₀.SameView t.host :=
    ⟨hmanagers.trans hsettled.view.1, hcancelled.trans hsettled.view.2⟩
  refine ⟨hsettled.of_mover hhappens hfind hallowed hview (fun j _ hnot ↦ by rwa [hholder] at hnot)
    ?_, hpoint, hholder⟩
  intro i c hi
  cases hm.symm.trans hi

/-- The client moves that has the process to itself. It still has it, or it has come to its end as
if it had been carried out with nobody beside it. -/
theorem Stands.step_working {c : Client} (hs : s.Reachable)
    (hfind : (h₀.managers.get m).find id = .ok p) (hallowed : s.Concurrent f m id n move)
    (hhappens : s.Happens move t) (hsettled : s.Settled f h₀ p n) (hstands : s.Stands f p n x)
    (hm : move.client? = some i) (hi : s.clients[i]? = some c) (hholder : s.holder p = some i) :
    t.Settled f h₀ p n ∧
      ((t.Stands f p n x ∧ t.holder p = s.holder p) ∨
        ∃ o, t.holder p = none ∧ t.finished? i = some (c.request, o) ∧
          c.request.Serves f x o t.diary.point) := by
  have hothers (j : Nat) (hj : j ≠ i) : s.holder p ≠ some j := by
    rw [hholder]
    exact fun h ↦ hj (Option.some.inj h).symm
  obtain ⟨hview, hafter⟩ := (hstands.working hholder hi).step hs hholder hi hsettled.view
    hhappens hm hallowed
  rcases hafter with ⟨hkeeps, task, htask, hworking⟩ | ⟨hfree, o, hfinished, hserves⟩
  · have hsettled' : t.Settled f h₀ p n := hsettled.of_client hhappens hfind hallowed hview hm
      (fun j hj _ ↦ hothers j hj) fun c' _ hnot ↦ absurd hkeeps hnot
    exact ⟨hsettled', .inl
      ⟨.held (hallowed.le_client hm) hkeeps htask hworking, hkeeps.trans hholder.symm⟩⟩
  · have hsettled' : t.Settled f h₀ p n := by
      refine hsettled.of_client hhappens hfind hallowed hview hm (fun j hj _ ↦ hothers j hj)
        fun c' hc' _ ↦ .inl ?_
      rw [← Option.some.inj ((getElem?_of_finished? hfinished).symm.trans hc')]
      rfl
    exact ⟨hsettled', .inr ⟨o, hfree, hfinished, hserves⟩⟩

/-- A client moves that does not have the process to itself: it looks once more, or it takes the
lock. -/
theorem Stands.step_pending {c : Client} (hs : s.Reachable)
    (hfind : (h₀.managers.get m).find id = .ok p) (hallowed : s.Concurrent f m id n move)
    (hhappens : s.Happens move t) (hsettled : s.Settled f h₀ p n) (hstands : s.Stands f p n x)
    (hm : move.client? = some i) (hi : s.clients[i]? = some c) (hholder : s.holder p ≠ some i) :
    t.Settled f h₀ p n ∧ t.Stands f p n x ∧ (s.holder p = none ∨ t.holder p = s.holder p) := by
  have hn : n ≤ i := hallowed.le_client hm
  have hpending : Pending f h₀ p c := by
    rcases hsettled.others i c hn hi hholder with hfinished | hpending
    · exact absurd hfinished (hhappens.not_isFinished hm hi)
    · exact hpending
  rcases hpending.step hs hi hsettled.view hhappens hm with
    ⟨hdiary, hsame, task, htask, hlooked⟩ | ⟨hfree, htook, hview, task, htask, hworking⟩
  · have hpoint : t.diary.point = s.diary.point := congrArg Diary.point hdiary
    have hhost : t.host = s.host := congrArg Diary.host hdiary
    have hview : h₀.SameView t.host := by
      rw [hhost]
      exact hsettled.view
    have hmover (j : Nat) (hj : s.holder p = some j) : move.client? ≠ some j := by
      intro hmj
      exact hholder (Option.some.inj (hm.symm.trans hmj) ▸ hj)
    refine ⟨hsettled.of_client hhappens hfind hallowed hview hm (fun j _ hnot ↦ hsame ▸ hnot)
      fun c' hc' _ ↦ .inr ?_, hstands.of_idle hhappens hpoint hsame hmover, .inr hsame⟩
    rwa [← Option.some.inj (htask.symm.trans hc')]
  · have hsettled' : t.Settled f h₀ p n := hsettled.of_client hhappens hfind hallowed hview hm
      (fun j _ _ ↦ by simp [hfree]) fun c' _ hnot ↦ absurd htook hnot
    refine ⟨hsettled', ?_, .inl hfree⟩
    cases hstands with
    | free _ hx => exact .held hn htook htask (hx ▸ hworking)
    | held _ hj => simp [hfree] at hj

/-- A move of the calls leaves open which of them was carried out last, or brings the one that has
the process to itself to its end, as if it had been carried out with nobody beside it. -/
theorem Stands.step (hs : s.Reachable) (hfind : (h₀.managers.get m).find id = .ok p)
    (hallowed : s.Concurrent f m id n move) (hstep : s.step move = some t)
    (hsettled : s.Settled f h₀ p n) (hstands : s.Stands f p n x) :
    t.Settled f h₀ p n ∧
      ((t.Stands f p n x ∧ (s.holder p = none ∨ t.holder p = s.holder p)) ∨
        ∃ i r o, s.holder p = some i ∧ t.holder p = none ∧ t.finished? i = some (r, o) ∧
          r.Serves f x o t.diary.point) := by
  have hhappens := happens_of_step hstep
  cases hm : move.client? with
  | none =>
    obtain ⟨hsettled', hpoint, hholder⟩ := hsettled.idle hfind hallowed hhappens hm
    exact ⟨hsettled', .inl ⟨hstands.of_idle hhappens hpoint hholder (by simp [hm]), .inr hholder⟩⟩
  | some i =>
    obtain ⟨c, hi⟩ : ∃ c, s.clients[i]? = some c := hhappens.exists_mover hm
    by_cases hholder : s.holder p = some i
    · obtain ⟨hsettled', hafter⟩ :=
        hstands.step_working hs hfind hallowed hhappens hsettled hm hi hholder
      refine ⟨hsettled', hafter.imp (fun ⟨hstands', hsame⟩ ↦ ⟨hstands', .inr hsame⟩) ?_⟩
      rintro ⟨o, hfree, hfinished, hserves⟩
      exact ⟨i, c.request, o, hholder, hfree, hfinished, hserves⟩
    · obtain ⟨hsettled', hstands', hsame⟩ :=
        hstands.step_pending hs hfind hallowed hhappens hsettled hm hi hholder
      exact ⟨hsettled', .inl ⟨hstands', hsame⟩⟩

/-! ### A whole run -/

/-- The calls that have taken the lock, carried out one after the other. -/
theorem Run.chain {ms : List Move} (hs : s.Reachable)
    (hfind : (h₀.managers.get m).find id = .ok p) (hrun : Run (Concurrent f m id n) ms s t)
    (hsettled : s.Settled f h₀ p n) (hstands : s.Stands f p n x) (hlast : t.holder p = none) :
    Chain f h₀ (((s.holder p).toList ++ takers p ms s).filterMap t.finished?) x t.diary.point := by
  induction ms generalizing s x with
  | nil =>
    obtain rfl : s = t := hrun
    cases hstands with
    | free _ hx =>
      rw [hlast]
      exact hx.symm
    | held _ hi => simp [hlast] at hi
  | cons move rest ih =>
    obtain ⟨hallowed, u, hstep, hrest⟩ := hrun
    obtain ⟨hsettled', hnext⟩ := hstands.step hs hfind hallowed hstep hsettled
    rcases hnext with ⟨hstands', hholder⟩ | ⟨i, r, o, hi, hfree, hfinished, hserves⟩
    · have htakers : (s.holder p).toList ++ takers p (move :: rest) s =
          (u.holder p).toList ++ takers p rest u := by
        rcases hholder with hfree | hsame
        · simp [takers, hstep, hfree]
        · cases hs : s.holder p with
          | none => simp [takers, hstep, hs]
          | some i => simp [takers, hstep, hs, hsame]
      rw [htakers]
      exact ih (hs.step hstep) hrest hsettled' hstands'
    · have htakers : (s.holder p).toList ++ takers p (move :: rest) s =
          i :: ((u.holder p).toList ++ takers p rest u) := by
        simp [takers, hstep, hi, hfree]
      rw [htakers, List.filterMap_cons_some (hrest.finished? hfinished)]
      exact ⟨_, hserves, hsettled'.view,
        ih (hs.step hstep) hrest hsettled' (.free hfree rfl)⟩

/-- Who has come and has not taken the lock has only looked. -/
theorem Run.pending {ms : List Move} {c : Client} (hs : s.Reachable)
    (hfind : (h₀.managers.get m).find id = .ok p) (hrun : Run (Concurrent f m id n) ms s t)
    (hsettled : s.Settled f h₀ p n) (hstands : s.Stands f p n x) (hnot : i ∉ takers p ms s)
    (hbefore : ∀ c, s.clients[i]? = some c → Pending f h₀ p c) (hi : t.clients[i]? = some c) :
    Pending f h₀ p c := by
  induction ms generalizing s x with
  | nil =>
    obtain rfl : s = t := hrun
    exact hbefore c hi
  | cons move rest ih =>
    obtain ⟨hallowed, u, hstep, hrest⟩ := hrun
    have hhappens := happens_of_step hstep
    obtain ⟨hsettled', hnext⟩ := hstands.step hs hfind hallowed hstep hsettled
    obtain ⟨y, hstands'⟩ : ∃ y, u.Stands f p n y := by
      rcases hnext with ⟨hstands', -⟩ | ⟨i, r, o, -, hfree, -, -⟩
      · exact ⟨x, hstands'⟩
      · exact ⟨_, .free hfree rfl⟩
    have htakers : takers p (move :: rest) s =
        (if s.holder p = none then (u.holder p).toList else []) ++ takers p rest u := by
      simp [takers, hstep]
    rw [htakers, List.mem_append, not_or] at hnot
    refine ih (hs.step hstep) hrest hsettled' hstands' hnot.2 fun c hc ↦ ?_
    cases hcs : s.clients[i]? with
    | none =>
      obtain ⟨rfl, hbegins⟩ := hhappens.task_of_new hcs hc
      obtain ⟨r, task⟩ := c
      obtain rfl : task = .going r.program := hbegins
      exact pending_of_isSingle hfind hallowed
    | some c₀ =>
      have hpending := hbefore c₀ hcs
      obtain ⟨task, htask, hsame⟩ := hhappens.exists_client hcs
      obtain rfl := Option.some.inj (htask.symm.trans hc)
      by_cases hm : move.client? = some i
      · rcases hpending.step hs hcs hsettled.view hhappens hm with
          ⟨-, -, task', htask', hlooked⟩ | ⟨hfree, htook, -⟩
        · rwa [← Option.some.inj (htask'.symm.trans hc)]
        · simp [hfree, htook] at hnot
      · rw [hsame hm]
        exact hpending

end

/-- Assumes: a recorded process that nobody has to himself, and a run of calls on it at the end of
which nobody has it to himself again. Carried out one after the other with nobody beside them, in
any order in which those that have taken the lock come as they have taken it, the calls end as they
have ended in the run; what is told and answered is the same, and so are the processes and managers
in the end. -/
theorem exists_serveAll_of_concurrent {f : Answers} {m : ManagerRef} {id : String} {p : ProcessRef}
    {s t : Traffic} {ms : List Move} {order : List Nat} (hs : s.Reachable)
    (hfind : (s.host.managers.get m).find id = .ok p) (hfree : s.holder p = none)
    (hrun : Run (Concurrent f m id s.clients.length) ms s t) (hlast : t.holder p = none)
    (horder : order.Nodup)
    (hfinished : ∀ i ∈ order, s.clients.length ≤ i ∧ (t.finished? i).isSome = true)
    (htakers : (takers p ms s).Sublist order) :
    ∃ d N, (∀ fuel ≥ N, s.diary.serveAll f fuel ((order.filterMap t.finished?).map Prod.fst) =
        some ((order.filterMap t.finished?).map Prod.snd, d)) ∧
      d.passed = t.exchanges ∧ d.host.processes = t.host.processes ∧
      d.host.managers = t.host.managers := by
  have hview : s.host.SameView s.host := ⟨rfl, rfl⟩
  have hsettled : s.Settled f s.host p s.clients.length :=
    ⟨hview, fun i c hi hc ↦ by simp [List.getElem?_eq_none hi] at hc⟩
  have hstands : s.Stands f p s.clients.length s.diary.point := .free hfree rfl
  have hchain := hrun.chain hs hfind hsettled hstands hlast
  rw [hfree, Option.toList_none, List.nil_append] at hchain
  have hall : Chain f s.host (order.filterMap t.finished?) s.diary.point t.diary.point := by
    refine hchain.of_sublist htakers horder (fun i hi hnot r o hro z hz d hd ↦ ?_) hview
    have habsent (c : Client) (hc : s.clients[i]? = some c) : Pending f s.host p c := by
      simp [List.getElem?_eq_none (hfinished i hi).1] at hc
    obtain ⟨rest, hrest, -, -, hresult⟩ :=
      hrun.pending hs hfind hsettled hstands hnot habsent (getElem?_of_finished? hro)
    cases hrest
    have hdview : s.host.SameView d.host := by
      show s.host.Sees d.point.1
      rwa [hd]
    rw [← hresult d hdview, result, goes, Option.map_some, hd]
  obtain ⟨d, N, hpoint, hserve⟩ := hall.exists_serveAll
  obtain ⟨hessence, hpassed⟩ := Prod.mk.inj hpoint
  exact ⟨d, N, hserve, hpassed, Host.processes_eq hessence, congrArg Essence.managers hessence⟩

end Traffic

namespace Small

open Traffic

/-- While a client starts the process others come to mark it failed and to stop it. The one that is
to stop it gets the lock before the one that came first. -/
def crowd : List Move :=
  movesBy answers [.enter (.start 0 0 "p"), .play 1 6, .enter (.markFailed 0 "p" "broken"),
    .play 2 1, .enter (.stop 0 0 "p"), .play 3 2, .play 1 100, .play 3 100, .play 2 100] created

/-- A client that is given the same answers in any case makes moves that are allowed. -/
theorem concurrent_moveOf (answers : (call : Call) → call.Reply) (m : ManagerRef) (id : String)
    {n i : Nat} (hi : n ≤ i) (s : Traffic) :
    s.Concurrent (fun _ ↦ answers) m id n (s.moveOf i answers) := by
  unfold moveOf
  split
  · exact ⟨hi, rfl⟩
  · exact hi

theorem crowd_run : Run (Concurrent (fun _ ↦ answers) 0 "p" created.clients.length) crowd created
    (created.after crowd) := by
  have hlength : created.clients.length = 1 := by decide +kernel
  rw [hlength]
  refine run_movesBy (fun cue hcue ↦ ?_) created
  simp only [List.mem_cons, List.not_mem_nil, or_false] at hcue
  rcases hcue with rfl | rfl | rfl | rfl | rfl | rfl | rfl | rfl | rfl
  all_goals first
    | exact fun _ ↦ ⟨rfl, rfl⟩
    | exact concurrent_moveOf answers 0 "p" (by decide)

/-- The theorem on three calls, carried out in the order in which they took the lock. -/
theorem crowd_exists_serveAll :
    created.Reachable ∧ (created.host.managers.get 0).find "p" = .ok 0 ∧
    created.holder 0 = none ∧
    Run (Concurrent (fun _ ↦ answers) 0 "p" created.clients.length) crowd created
      (created.after crowd) ∧
    (created.after crowd).holder 0 = none ∧ [1, 3, 2].Nodup ∧
    (∀ i ∈ [1, 3, 2], created.clients.length ≤ i ∧
      ((created.after crowd).finished? i).isSome = true) ∧
    (takers 0 crowd created).Sublist [1, 3, 2] ∧
    ∃ d N, (∀ fuel ≥ N, created.diary.serveAll (fun _ ↦ answers) fuel
        (([1, 3, 2].filterMap (created.after crowd).finished?).map Prod.fst) =
          some (([1, 3, 2].filterMap (created.after crowd).finished?).map Prod.snd, d)) ∧
      d.passed = (created.after crowd).exchanges ∧
      d.host.processes = (created.after crowd).host.processes ∧
      d.host.managers = (created.after crowd).host.managers := by
  have hfind : (created.host.managers.get 0).find "p" = .ok 0 :=
    Manager.find_eq_ok (by decide +kernel)
  have hfree : created.holder 0 = none := by decide +kernel
  have hlast : (created.after crowd).holder 0 = none := by decide +kernel
  have hfinished : ∀ i ∈ [1, 3, 2], created.clients.length ≤ i ∧
      ((created.after crowd).finished? i).isSome = true := by decide +kernel
  have htakers : (takers 0 crowd created).Sublist [1, 3, 2] := by decide +kernel
  exact ⟨created_reachable, hfind, hfree, crowd_run, hlast, by decide, hfinished, htakers,
    exists_serveAll_of_concurrent created_reachable hfind hfree crowd_run hlast (by decide)
      hfinished htakers⟩

end Small

end ComponentHost
