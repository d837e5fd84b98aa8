import ComponentHost.Proofs.Effects
import ComponentHost.Proofs.Instances
import ComponentHost.Proofs.Publication
import ComponentHost.Proofs.Scope
import ComponentHost.Proofs.Serial
import ComponentHost.Proofs.Waiting

/-!
Calls on different processes, side by side.

Every client is concerned with one of several processes that a manager has recorded, and for each
process one call is made after the other (`Traffic.Apart`). The processes share no instance of a
component, and components answer by their own earlier calls (`Answers.IsLocal`). Then what happens
to one process is what would happen with nobody beside it: the calls end in the same way, the same
passes between the host and the components of the process, the same is published of it, and it ends
in the same status and recorded or not (`Traffic.apart_as_alone`).

What is concerned with one process keeps to a scope in which there is nothing but this process and
its record (`Host.soleScope`). A change within the scope of one process is none to those in the
scope of another (`Host.LeavesOthers.sameOf`), so the calls on one process can be replayed
on a host of their own (`Traffic.Replays`).
-/

set_option autoImplicit false

namespace ComponentHost

/-! ### What concerns a process -/

/-- The exchange is one with an instance of a component. -/
def Exchange.isOf (ref : InstanceRef) (x : Exchange) : Bool :=
  match x.call with
  | .lifecycle _ c _ => c.instanceRef = ref
  | _ => false

/-- Components answer by their own earlier calls. -/
def Answers.IsLocal (f : Answers) : Prop :=
  ∀ (xs ys : List Exchange) (phase : Phase) (c : Component) (ctx : ContextRef),
    xs.filter (·.isOf c.instanceRef) = ys.filter (·.isOf c.instanceRef) →
      f xs (.lifecycle phase c ctx) = f ys (.lifecycle phase c ctx)

/-- A component of the process is called, or it is published what has become of the process. -/
def Call.concerns (P : Process) : Call → Bool
  | .lifecycle _ c _ => c.instanceRef ∈ P.refs
  | .publish _ payload => payload.text? "process_id" = some P.id
  | _ => false

/-- What has passed that concerns a process. -/
def concerning (P : Process) (xs : List Exchange) : List Exchange :=
  xs.filter (·.call.concerns P)

theorem concerning_cons (P : Process) (x : Exchange) (xs : List Exchange) :
    concerning P (x :: xs) =
      if x.call.concerns P then x :: concerning P xs else concerning P xs := List.filter_cons

/-- The next thing that passes is the same. -/
theorem concerning_cons_congr {P : Process} {xs ys : List Exchange} (x : Exchange)
    (h : concerning P xs = concerning P ys) : concerning P (x :: xs) = concerning P (x :: ys) := by
  rw [concerning_cons, concerning_cons, h]

/-- The exchanges with a component concern its process. -/
theorem Exchange.concerns_of_isOf {P : Process} {ref : InstanceRef} (href : ref ∈ P.refs)
    {x : Exchange} (hx : x.isOf ref = true) : x.call.concerns P = true := by
  unfold isOf at hx
  split at hx
  · rename_i hcall
    rw [hcall]
    obtain rfl := of_decide_eq_true hx
    exact decide_eq_true href
  · cases hx

/-- A call for the sake of another process does not concern the process. -/
theorem Call.IsFor.not_concerns {P Q : Process} {c : Call} (hc : c.IsFor Q) (hid : Q.id ≠ P.id)
    (hrefs : ∀ ref ∈ Q.refs, ref ∉ P.refs) : c.concerns P = false := by
  cases c with
  | lifecycle phase c ctx =>
    have hc : c ∈ Q.ordered.map Prod.snd := hc
    have hmem : c.instanceRef ∈ Q.refs := List.mem_map_of_mem hc
    exact decide_eq_false (hrefs _ hmem)
  | publish topic payload =>
    obtain ⟨status, hannounced⟩ := hc
    obtain ⟨-, rfl⟩ := Call.publish.inj hannounced
    have htext := { Q with status }.payload_id
    unfold Process.payload at htext
    simp only [concerns, htext]
    simpa using hid
  | log | line => rfl
  | create | execute | plugin | release | generateId | deliver => exact hc.elim

/-- The answer to a call for the sake of a process is by what has passed that concerns it. -/
theorem Answers.IsLocal.eq {f : Answers} (hlocal : f.IsLocal) {P : Process} {c : Call}
    (hc : c.IsFor P) {xs ys : List Exchange} (h : concerning P xs = concerning P ys) :
    f xs c = f ys c := by
  cases c with
  | lifecycle phase c ctx =>
    have hc : c ∈ P.ordered.map Prod.snd := hc
    have hmem : c.instanceRef ∈ P.refs := List.mem_map_of_mem hc
    have hown (zs : List Exchange) :
        (concerning P zs).filter (·.isOf c.instanceRef) = zs.filter (·.isOf c.instanceRef) := by
      rw [concerning, List.filter_filter]
      refine List.filter_congr fun z _ ↦ ?_
      cases hz : z.isOf c.instanceRef with
      | true => simp [Exchange.concerns_of_isOf hmem hz]
      | false => rfl
    exact hlocal _ _ phase c ctx (by rw [← hown xs, ← hown ys, h])
  | publish | log | line => rfl
  | create | execute | plugin | release | generateId | deliver => exact hc.elim

/-! ### Processes that one manager has recorded -/

/-- Processes that one manager has recorded, as they are at first. -/
structure Team (ι : Type) where
  manager : ManagerRef
  id : ι → String
  ref : ι → ProcessRef
  first : ι → Process

/-- The host has these processes recorded, and no two of them are the same or have an instance in
common. -/
structure Team.IsRecorded {ι : Type} (T : Team ι) (h : Host) : Prop where
  find : ∀ x, (h.managers.get T.manager).find (T.id x) = .ok (T.ref x)
  first : ∀ x, T.first x = h.processes.get (T.ref x)
  distinct : Function.Injective T.ref
  disjoint : ∀ x y, x ≠ y → ∀ ref ∈ (T.first x).refs, ref ∉ (T.first y).refs

/-- The processes are told apart by their identifiers, and by the instances of their components. -/
structure Team.IsSeparate {ι : Type} (T : Team ι) : Prop where
  id_ne : ∀ {x y}, x ≠ y → T.id x ≠ T.id y
  ref_ne : ∀ {x y}, x ≠ y → T.ref x ≠ T.ref y
  named : ∀ x, (T.first x).id = T.id x
  disjoint : ∀ x y, x ≠ y → ∀ ref ∈ (T.first x).refs, ref ∉ (T.first y).refs

namespace Team

variable {ι : Type}

/-- The hosts look the same to who is concerned with one of the processes, and with what is recorded
under its identifier, which is this process or nothing. -/
structure Alike (T : Team ι) (x : ι) (h h' : Host) : Prop where
  find : (h.managers.get T.manager).find (T.id x) = (h'.managers.get T.manager).find (T.id x)
  recorded : ∀ p, (h.managers.get T.manager).find (T.id x) = .ok p → p = T.ref x
  process : h.processes.get (T.ref x) = h'.processes.get (T.ref x)
  kept : ∃ status locked, h.processes.get (T.ref x) = { T.first x with status, locked }
  cancelled : h.contexts.isCancelled = h'.contexts.isCancelled

/-- All has been left as it was but one of the processes and what is recorded under its
identifier. -/
structure LeavesOthers (T : Team ι) (x : ι) (h h' : Host) : Prop where
  find : ∀ id ≠ T.id x, (h'.managers.get T.manager).find id = (h.managers.get T.manager).find id
  process : ∀ p ≠ T.ref x, h'.processes.get p = h.processes.get p
  cancelled : h'.contexts.isCancelled = h.contexts.isCancelled

/-- The scope of those concerned with one of the processes. -/
def scope (T : Team ι) (x : ι) : Scope Host where
  alike := T.Alike x
  change := T.LeavesOthers x
  call c := c.IsFor (T.first x)
  idle _ := ⟨fun _ _ ↦ rfl, fun _ _ ↦ rfl, rfl⟩

variable {T : Team ι} {x y : ι} {h h' g : Host}

theorem Alike.left (hh : T.Alike x h h') : T.Alike x h h :=
  ⟨rfl, hh.recorded, rfl, hh.kept, rfl⟩

/-- Nothing has happened to managers, processes and contexts. -/
theorem Alike.of_same (hh : T.Alike x h g) (hmanagers : h'.managers = h.managers)
    (hprocesses : h'.processes = h.processes)
    (hcancelled : h'.contexts.isCancelled = h.contexts.isCancelled) : T.Alike x h' g where
  find := hmanagers ▸ hh.find
  recorded := hmanagers ▸ hh.recorded
  process := hprocesses ▸ hh.process
  kept := hprocesses ▸ hh.kept
  cancelled := hcancelled.trans hh.cancelled

theorem IsRecorded.alike (hT : T.IsRecorded h) (x : ι) : T.Alike x h h where
  find := rfl
  recorded p hp := by
    rw [hT.find x] at hp
    exact (Except.ok.inj hp).symm
  process := rfl
  kept := ⟨_, _, (hT.first x).symm⟩
  cancelled := rfl

theorem IsRecorded.separate (hT : T.IsRecorded h) (htidy : h.Tidy) : T.IsSeparate where
  id_ne {x y} hxy hid := by
    have hfind := hT.find x
    rw [hid, hT.find y] at hfind
    exact hxy (hT.distinct (Except.ok.inj hfind).symm)
  ref_ne hxy href := hxy (hT.distinct href)
  named x := by
    rw [hT.first]
    exact (htidy.named _ _ _ (Manager.mem_of_find (hT.find x))).2
  disjoint := hT.disjoint

/-- What is done for the sake of another process changes nothing. -/
theorem LeavesOthers.alike (hchange : T.LeavesOthers y h h') (hT : T.IsSeparate) (hxy : x ≠ y)
    (hh : T.Alike x h g) : T.Alike x h' g where
  find := (hchange.find _ (hT.id_ne hxy)).trans hh.find
  recorded p hp := hh.recorded p (hchange.find _ (hT.id_ne hxy) ▸ hp)
  process := (hchange.process _ (hT.ref_ne hxy)).trans hh.process
  kept := hchange.process _ (hT.ref_ne hxy) ▸ hh.kept
  cancelled := hchange.cancelled.trans hh.cancelled

theorem scope_takesNotes : (T.scope x).TakesNotes := by
  intro c hc
  cases c with
  | log | line => trivial
  | _ => cases hc

theorem scope_covers : (T.scope x).Covers (T.ref x) where
  get_eq _ _ hh := hh.process
  modify f h h' hh hf := by
    refine ⟨⟨hh.find, hh.recorded, ?_, ?_, hh.cancelled⟩, fun _ _ ↦ rfl, fun p hp ↦ ?_, rfl⟩
    · simp only [Store.get_modify_self, hh.process]
    · obtain ⟨status, locked, hP⟩ := hh.kept
      obtain ⟨status', locked', hfP⟩ := hf (h.processes.get (T.ref x))
      exact ⟨status', locked', by rw [Store.get_modify_self, hfP, hP]⟩
    · exact Store.get_modify_ne _ _ hp
  call h h' c hh hc := by
    obtain ⟨status, locked, hP⟩ := hh.kept
    rw [hP] at hc
    exact hc

theorem scope_reaches : (T.scope x).Reaches T.manager (T.id x) where
  find_eq _ _ hh := hh.find
  covers _ _ p hh hp := by
    obtain rfl := hh.recorded p hp
    exact scope_covers

theorem scope_forgets : (T.scope x).Forgets T.manager (T.id x) := by
  intro h h' hh
  have hgone (g : Host) : ((g.forgetting T.manager (T.id x)).managers.get T.manager).find (T.id x) =
      .error (.processNotFound (T.id x)) := by
    simp [Host.forgetting, Manager.find, Table.get?_erase]
  refine ⟨⟨?_, fun p hp ↦ ?_, hh.process, hh.kept, hh.cancelled⟩, fun id hid ↦ ?_, fun _ _ ↦ rfl,
    rfl⟩
  · rw [hgone, hgone]
  · rw [hgone] at hp
    cases hp
  · simp [Host.forgetting, Manager.find, Table.get?_erase, hid]

theorem scope_sees (ctx : ContextRef) : (T.scope x).Sees ctx :=
  fun _ _ hh ↦ congrFun hh.cancelled ctx

/-- Requests for what is recorded under an identifier are concerned with nothing else. -/
theorem keepsTo_of_isAbout {r : Request} (hr : r.IsAbout T.manager (T.id x)) :
    r.program.KeepsTo (T.scope x) :=
  r.keepsTo hr scope_takesNotes scope_reaches (fun _ ↦ scope_forgets) fun ctx _ ↦ scope_sees ctx

end Team

/-! ### Clients -/

/-- What is still to be done keeps to a scope. -/
def Task.KeepsTo (S : Scope Host) : Task → Prop
  | .going rest => rest.KeepsTo S
  | .asking c k => S.call c ∧ ∀ reply, (k reply).KeepsTo S

instance (m : ManagerRef) (id : String) : DecidablePred (Request.IsAbout m id)
  | .create .. => .isFalse False.elim
  | .start m' _ id' | .stop m' _ id' | .restart m' _ id' | .markFailed m' id' _ | .remove m' id' =>
    inferInstanceAs (Decidable (m' = m ∧ id' = id))

namespace Traffic

variable {ι : Type} {T : Team ι} {x : ι} {s t : Traffic} {move : Move} {i n : Nat}

/-- A client that keeps to a scope makes a move. -/
theorem Happens.keepsTo {S : Scope Host} {c : Client} (h : s.Happens move t)
    (hm : move.client? = some i) (hi : s.clients[i]? = some c) (htask : c.task.KeepsTo S)
    (halike : S.alike s.host s.host) :
    S.alike t.host t.host ∧ S.change s.host t.host ∧
      (∃ task, t.clients[i]? = some ⟨c.request, task⟩ ∧ task.KeepsTo S) ∧
      (t.exchanges = s.exchanges ∨
        ∃ y : Exchange, t.exchanges = y :: s.exchanges ∧ S.call y.call) := by
  cases h with
  | arrived | changed => cases hm
  | acted hj =>
    obtain rfl := Option.some.inj hm
    obtain rfl := Option.some.inj (hi.symm.trans hj)
    obtain ⟨halike', hchange, -, hrest⟩ := htask _ _ halike
    exact ⟨halike', hchange, ⟨_, getElem?_set_client hi _, hrest⟩, .inl rfl⟩
  | took hj hclaim =>
    obtain rfl := Option.some.inj hm
    obtain rfl := Option.some.inj (hi.symm.trans hj)
    have hrel := htask.1 _ _ halike
    rw [hclaim] at hrel
    cases hrel with
    | some hboth => exact ⟨hboth.1, hboth.2, ⟨_, getElem?_set_client hi _, htask.2⟩, .inl rfl⟩
  | asked hj =>
    obtain rfl := Option.some.inj hm
    obtain rfl := Option.some.inj (hi.symm.trans hj)
    exact ⟨halike, S.idle _, ⟨_, getElem?_set_client hi _, htask⟩, .inr ⟨_, rfl, htask.1⟩⟩
  | answered hj =>
    obtain rfl := Option.some.inj hm
    obtain rfl := Option.some.inj (hi.symm.trans hj)
    exact ⟨halike, S.idle _, ⟨_, getElem?_set_client hi _, htask.2 _⟩, .inr ⟨_, rfl, htask.1⟩⟩

theorem isSome_finished? {c : Client} (hi : s.clients[i]? = some c) :
    (s.finished? i).isSome = c.isFinished := by
  cases hc : c.isFinished with
  | false => rw [finished?_eq_none hi hc, Option.isSome_none]
  | true =>
    obtain ⟨r, task⟩ := c
    unfold Client.isFinished at hc
    split at hc
    · rename_i htask
      obtain rfl : task = _ := htask
      rw [finished?_eq_some hi, Option.isSome_some]
    · cases hc

/-- Calls that have ended have ended so for good. -/
theorem Happens.finished_same (h : s.Happens move t) {is : List Nat}
    (hfinished : ∀ i ∈ is, (s.finished? i).isSome = true) :
    (∀ i ∈ is, (t.finished? i).isSome = true) ∧
      is.filterMap t.finished? = is.filterMap s.finished? := by
  have hstays (i : Nat) (hi : i ∈ is) : t.finished? i = s.finished? i := by
    obtain ⟨y, hy⟩ := Option.isSome_iff_exists.mp (hfinished i hi)
    rw [hy, h.finished? hy]
  exact ⟨fun i hi ↦ hstays i hi ▸ hfinished i hi, List.filterMap_congr hstays⟩

/-- The clients from `n` on who make calls on one of the processes. -/
def callsOn (s : Traffic) (T : Team ι) (x : ι) (n : Nat) : List Nat :=
  (List.range s.clients.length).filter fun i ↦
    n ≤ i ∧ s.clients[i]?.any fun c ↦ c.request.IsAbout T.manager (T.id x)

/-- The calls on one of the processes that have ended, and how they have. -/
def endings (s : Traffic) (T : Team ι) (x : ι) (n : Nat) : List (Request × Outcome) :=
  (s.callsOn T x n).filterMap s.finished?

theorem mem_callsOn : i ∈ s.callsOn T x n ↔
    n ≤ i ∧ ∃ c, s.clients[i]? = some c ∧ c.request.IsAbout T.manager (T.id x) := by
  simp only [callsOn, List.mem_filter, List.mem_range, Option.any_eq_true, decide_eq_true_eq]
  constructor
  · rintro ⟨-, hn, c, hc, habout⟩
    exact ⟨hn, c, hc, habout⟩
  · rintro ⟨hn, c, hc, habout⟩
    exact ⟨(List.getElem?_eq_some_iff.mp hc).1, hn, c, hc, habout⟩

/-- Who has come makes the call he has come for. -/
theorem Happens.callsOn_eq (h : s.Happens move t) (hcount : t.clients.length = s.clients.length) :
    t.callsOn T x n = s.callsOn T x n := by
  rw [callsOn, callsOn, hcount]
  refine List.filter_congr fun i hi ↦ ?_
  have hc := List.getElem?_eq_getElem (List.mem_range.mp hi)
  obtain ⟨task, htask, -⟩ := h.exists_client hc
  simp only [hc, htask, Option.any_some]

theorem callsOn_arrived (hn : n ≤ s.clients.length) (r : Request) :
    callsOn { s with clients := s.clients ++ [⟨r, .going r.program⟩] } T x n =
      s.callsOn T x n ++
        if r.IsAbout T.manager (T.id x) then [s.clients.length] else [] := by
  rw [callsOn, callsOn, List.length_append, List.length_singleton, List.range_succ,
    List.filter_append]
  congr 1
  · refine List.filter_congr fun i hi ↦ ?_
    rw [List.getElem?_append_left (List.mem_range.mp hi)]
  · by_cases habout : r.IsAbout T.manager (T.id x) <;> simp [habout, hn]

end Traffic

/-! ### One call after the other -/

namespace Diary

variable {f : Answers} {d d' d'' : Diary} {r : Request} {o : Outcome}

/-- Carried out one after the other with nobody beside them, the calls end so, and lead to the
diary. -/
def Serves (f : Answers) (d : Diary) (calls : List (Request × Outcome)) (d' : Diary) : Prop :=
  ∃ N, ∀ n ≥ N, d.serveAll f n (calls.map Prod.fst) = some (calls.map Prod.snd, d')

theorem serveAll_append {n : Nat} {rs : List Request} {os : List Outcome}
    (h : d.serveAll f n rs = some (os, d')) (hlast : d'.serve f n r = some (o, d'')) :
    d.serveAll f n (rs ++ [r]) = some (os ++ [o], d'') := by
  induction rs generalizing d os with
  | nil =>
    cases h
    simp [serveAll, hlast]
  | cons r₁ rest ih =>
    obtain ⟨⟨o₁, d₁⟩, hfirst, h⟩ := Option.bind_eq_some_iff.mp h
    obtain ⟨⟨os₁, d₂⟩, hrest, h⟩ := Option.bind_eq_some_iff.mp h
    cases h
    simp [serveAll, hfirst, ih hrest]

theorem Serves.nil : Serves f d [] d := ⟨0, fun _ _ ↦ rfl⟩

/-- One more call. -/
theorem Serves.snoc {calls : List (Request × Outcome)} (h : d.Serves f calls d')
    (hlast : r.program.goes f d' = some (o, d'')) : d.Serves f (calls ++ [(r, o)]) d'' := by
  obtain ⟨N, hN⟩ := h
  obtain ⟨N', hN'⟩ := Prog.alone_of_goes hlast
  refine ⟨max N N', fun n hn ↦ ?_⟩
  have hcalls := hN n (Nat.le_trans (Nat.le_max_left ..) hn)
  have hlast : d'.serve f n r = some (o, d'') := hN' n (Nat.le_trans (Nat.le_max_right ..) hn)
  simpa using serveAll_append hcalls hlast

end Diary

/-! ### Side by side -/

namespace Traffic

variable {ι : Type} {T : Team ι} {x y : ι} {f : Answers} {n i : Nat} {s t : Traffic} {move : Move}
  {d d₀ : Diary}

/-- Clients from `n` on make calls on the processes, on each one after the other, and are answered
by `f`; nothing from outside cancels a context. -/
def Apart (f : Answers) (T : Team ι) (n : Nat) (s : Traffic) : Move → Prop
  | .arrive r => ∃ x, r.IsAbout T.manager (T.id x) ∧ ∀ i ∈ s.callsOn T x n,
      (s.finished? i).isSome = true
  | .proceed i => n ≤ i
  | .answer i reply => n ≤ i ∧ reply = f s.exchanges
  | .outside change => (change s.host).contexts.isCancelled = s.host.contexts.isCancelled

/-- The process is as it is in a diary, and the same has passed that concerns it. -/
structure Agrees (T : Team ι) (x : ι) (s : Traffic) (d : Diary) : Prop where
  alike : T.Alike x s.host d.host
  told : concerning (T.first x) s.exchanges = concerning (T.first x) d.passed

/-- What is left of a call ends, in a diary of which the process knows no difference, as the whole
call ends from the diary `d₀` on. -/
inductive Mirrors (f : Answers) (T : Team ι) (x : ι) (s : Traffic) (d₀ : Diary) (r : Request) :
    Task → Prop where
  | going {d : Diary} {rest : Prog Host Outcome}
      (hgoes : r.program.goes f d₀ = rest.goes f d) (hagrees : s.Agrees T x d)
      (hkeeps : rest.KeepsTo (T.scope x)) : Mirrors f T x s d₀ r (.going rest)
  | asking {d : Diary} {c : Call} {k : c.Reply → Prog Host Outcome}
      (hgoes : r.program.goes f d₀ = (Prog.call c k).goes f d)
      (hagrees : s.Agrees T x { d with passed := .asked c :: d.passed })
      (hcall : c.IsFor (T.first x)) (hkeeps : ∀ reply, (k reply).KeepsTo (T.scope x)) :
      Mirrors f T x s d₀ r (.asking c k)

/-- The calls on a process that have ended have ended as with nobody beside them, and then one more
may be on its way. -/
inductive Replays (f : Answers) (T : Team ι) (x : ι) (n : Nat) (d₀ : Diary) (s : Traffic) :
    Prop where
  | idle {d : Diary} (hfinished : ∀ i ∈ s.callsOn T x n, (s.finished? i).isSome = true)
      (hserves : d₀.Serves f ((s.callsOn T x n).filterMap s.finished?) d)
      (hagrees : s.Agrees T x d)
  | busy {before : List Nat} {d : Diary} {i : Nat} {c : Client}
      (hcalls : s.callsOn T x n = before ++ [i])
      (hfinished : ∀ j ∈ before, (s.finished? j).isSome = true)
      (hserves : d₀.Serves f (before.filterMap s.finished?) d)
      (hi : s.clients[i]? = some c) (hmirrors : s.Mirrors f T x d c.request c.task)

theorem Mirrors.of_agrees {r : Request} {task : Task} (h : s.Mirrors f T x d₀ r task)
    (hagrees : ∀ d, s.Agrees T x d → t.Agrees T x d) : t.Mirrors f T x d₀ r task := by
  cases h with
  | going hgoes h hkeeps => exact .going hgoes (hagrees _ h) hkeeps
  | asking hgoes h hcall hkeeps => exact .asking hgoes (hagrees _ h) hcall hkeeps

/-- A call makes a move, and still ends as with nobody beside it. -/
theorem Mirrors.step {c : Client} (h : s.Mirrors f T x d₀ c.request c.task) (hlocal : f.IsLocal)
    (hhappens : s.Happens move t) (hallowed : s.Apart f T n move) (hm : move.client? = some i)
    (hi : s.clients[i]? = some c) :
    ∃ task, t.clients[i]? = some ⟨c.request, task⟩ ∧ t.Mirrors f T x d₀ c.request task := by
  cases hhappens with
  | arrived | changed => cases hm
  | @acted _ r g k hj =>
    obtain rfl := Option.some.inj hm
    obtain rfl := Option.some.inj (hi.symm.trans hj)
    refine ⟨_, getElem?_set_client hi _, ?_⟩
    cases h with
    | going hgoes hagrees hkeeps =>
      obtain ⟨halike, -, hk, hrest⟩ := hkeeps _ _ hagrees.alike
      rw [Prog.goes, ← hk] at hgoes
      exact .going hgoes ⟨halike, hagrees.told⟩ hrest
  | @took _ r claim k h' hj hclaim =>
    obtain rfl := Option.some.inj hm
    obtain rfl := Option.some.inj (hi.symm.trans hj)
    refine ⟨_, getElem?_set_client hi _, ?_⟩
    cases h with
    | @going d _ hgoes hagrees hkeeps =>
      have hrel := hkeeps.1 _ _ hagrees.alike
      rw [hclaim] at hrel
      rw [Prog.goes] at hgoes
      generalize claim d.host = after at hrel hgoes
      cases hrel with
      | some hboth => exact .going hgoes ⟨hboth.1, hagrees.told⟩ hkeeps.2
  | asked hj =>
    obtain rfl := Option.some.inj hm
    obtain rfl := Option.some.inj (hi.symm.trans hj)
    refine ⟨_, getElem?_set_client hi _, ?_⟩
    cases h with
    | going hgoes hagrees hkeeps =>
      exact .asking hgoes ⟨hagrees.alike, concerning_cons_congr _ hagrees.told⟩ hkeeps.1 hkeeps.2
  | @answered _ r c k reply hj =>
    obtain rfl := Option.some.inj hm
    obtain rfl := Option.some.inj (hi.symm.trans hj)
    refine ⟨_, getElem?_set_client hi _, ?_⟩
    cases h with
    | @asking d _ _ hgoes hagrees hcall hkeeps =>
      obtain ⟨-, rfl⟩ := hallowed
      have hreply : f s.exchanges c = f (.asked c :: d.passed) c := hlocal.eq hcall hagrees.told
      refine .going (d := d.tell f c) ?_ ⟨hagrees.alike, ?_⟩ (hkeeps _)
      · rw [hgoes, hreply]
        rfl
      · rw [hreply]
        exact concerning_cons_congr _ hagrees.told

/-- Where the calls on a process that are made have ended, they have ended as with nobody beside
them. -/
theorem Replays.exists_serves (h : s.Replays f T x n d₀)
    (hfinished : ∀ i ∈ s.callsOn T x n, (s.finished? i).isSome = true) :
    ∃ d, d₀.Serves f ((s.callsOn T x n).filterMap s.finished?) d ∧
      s.Agrees T x d := by
  cases h with
  | idle _ hserves hagrees => exact ⟨_, hserves, hagrees⟩
  | @busy before d i c hcalls _ hserves hi hmirrors =>
    rw [hcalls] at hfinished ⊢
    obtain ⟨⟨r, o⟩, hro⟩ := Option.isSome_iff_exists.mp (hfinished i (by simp))
    obtain rfl := Option.some.inj (hi.symm.trans (getElem?_of_finished? hro))
    cases hmirrors with
    | going hgoes hagrees =>
      refine ⟨_, ?_, hagrees⟩
      rw [List.filterMap_append, List.filterMap_cons_some hro, List.filterMap_nil]
      exact hserves.snoc hgoes

/-- At most one of the calls on a process is on its way. -/
theorem Replays.eq_of_unfinished (h : s.Replays f T x n d₀) {j : Nat}
    (hi : i ∈ s.callsOn T x n) (hj : j ∈ s.callsOn T x n)
    (hunfinished : s.finished? i = none) (hunfinished' : s.finished? j = none) : i = j := by
  cases h with
  | idle hfinished => simpa [hunfinished] using hfinished i hi
  | @busy before d k c hcalls hfinished =>
    have hlast {i : Nat} (hi : i ∈ s.callsOn T x n)
        (hunfinished : s.finished? i = none) : i = k := by
      rw [hcalls, List.mem_append, List.mem_singleton] at hi
      refine hi.resolve_left fun hi ↦ ?_
      simpa [hunfinished] using hfinished i hi
    exact (hlast hi hunfinished).trans (hlast hj hunfinished').symm

/-- Nothing of the process has changed, and nobody who makes calls on it has moved. -/
theorem Replays.of_others (h : s.Replays f T x n d₀) (hhappens : s.Happens move t)
    (hcalls : t.callsOn T x n = s.callsOn T x n)
    (hagrees : ∀ d, s.Agrees T x d → t.Agrees T x d)
    (hm : ∀ i ∈ s.callsOn T x n, move.client? ≠ some i) :
    t.Replays f T x n d₀ := by
  cases h with
  | idle hfinished hserves h =>
    obtain ⟨hfinished', heq⟩ := hhappens.finished_same hfinished
    exact .idle (hcalls ▸ hfinished') (by rw [hcalls, heq]; exact hserves) (hagrees _ h)
  | @busy before d i c hbefore hfinished hserves hi hmirrors =>
    obtain ⟨hfinished', heq⟩ := hhappens.finished_same hfinished
    obtain ⟨task, htask, hothers⟩ := hhappens.exists_client hi
    rw [hothers (hm i (by simp [hbefore]))] at htask
    exact .busy (hcalls.trans hbefore) hfinished' (heq ▸ hserves) htask
      (hmirrors.of_agrees hagrees)

/-! ### A move -/

/-- What is known of clients each of which is concerned with one of the processes. -/
structure Parted (f : Answers) (T : Team ι) (n : Nat) (d₀ : Diary) (s : Traffic)
    (σ : Nat → Stage) : Prop where
  count : n ≤ s.clients.length
  before : ∀ i < n, ∀ c, s.clients[i]? = some c → c.isFinished = true
  clients : ∀ i c, n ≤ i → s.clients[i]? = some c → ∃ x, c.request.IsAbout T.manager (T.id x) ∧
    c.task.KeepsTo (T.scope x) ∧ ∀ p, (σ i).Claims p → p = T.ref x
  alike : ∀ x, T.Alike x s.host s.host
  replays : ∀ x, s.Replays f T x n d₀

variable {σ τ : Nat → Stage}

theorem Parted.step_clients (h : s.Parted f T n d₀ σ) (hs : s.Staged σ)
    (hallowed : s.Apart f T n move) (hhappens : s.Happens move t) (hshift : s.Shift σ move t τ)
    {c : Client} (hn : n ≤ i) (hi : t.clients[i]? = some c) :
    ∃ x, c.request.IsAbout T.manager (T.id x) ∧ c.task.KeepsTo (T.scope x) ∧
      ∀ p, (τ i).Claims p → p = T.ref x := by
  cases hbefore : s.clients[i]? with
  | none =>
    obtain ⟨rfl, hbegins⟩ := hhappens.task_of_new hbefore hi
    obtain ⟨x, habout, -⟩ := hallowed
    refine ⟨x, habout, ?_, fun p hclaims ↦ absurd hclaims (hshift.not_claims_of_new hs hbefore p)⟩
    rw [hbegins]
    exact Team.keepsTo_of_isAbout habout
  | some c₀ =>
    obtain ⟨x, habout, hkeeps, hclaims⟩ := h.clients i c₀ hn hbefore
    obtain ⟨task, htask, hothers⟩ := hhappens.exists_client hbefore
    obtain rfl := Option.some.inj (htask.symm.trans hi)
    refine ⟨x, habout, ?_, fun p hp ↦ ?_⟩
    · by_cases hm : move.client? = some i
      · obtain ⟨-, -, ⟨task', htask', hkeeps'⟩, -⟩ :=
          hhappens.keepsTo hm hbefore hkeeps (h.alike x)
        rwa [← Option.some.inj (htask'.symm.trans hi)]
      · rwa [hothers hm]
    · rcases hshift.claims hp with hp | ⟨c', M, id, hc', habout', hfind⟩
      · exact hclaims p hp
      · obtain rfl := Option.some.inj (hbefore.symm.trans hc')
        obtain ⟨rfl, rfl⟩ := habout.unique habout'
        exact (h.alike x).recorded p hfind

/-- A request arrives for one of the processes, all calls on which have ended. -/
theorem Parted.replays_arrived (h : s.Parted f T n d₀ σ) (hT : T.IsSeparate) {r : Request}
    (hallowed : s.Apart f T n (.arrive r)) (x : ι) :
    Replays f T x n d₀ { s with clients := s.clients ++ [⟨r, .going r.program⟩] } := by
  obtain ⟨y, habout, hfinished⟩ := hallowed
  have hhappens : s.Happens (.arrive r) _ := .arrived
  have hcalls := callsOn_arrived (T := T) (x := x) h.count r
  by_cases hxy : x = y
  · subst hxy
    rw [if_pos habout] at hcalls
    obtain ⟨d, hserves, hagrees⟩ := (h.replays x).exists_serves hfinished
    obtain ⟨hfinished', heq⟩ := hhappens.finished_same hfinished
    refine .busy (c := ⟨r, _⟩) hcalls hfinished' (heq ▸ hserves) ?_
      (.going rfl ⟨hagrees.alike, hagrees.told⟩ (Team.keepsTo_of_isAbout habout))
    simp
  · have hnot : ¬r.IsAbout T.manager (T.id x) := fun h ↦ hT.id_ne hxy (h.unique habout).2
    rw [if_neg hnot, List.append_nil] at hcalls
    exact (h.replays x).of_others hhappens hcalls (fun d hd ↦ ⟨hd.alike, hd.told⟩)
      (by simp [Move.client?])

theorem Apart.le_client (hallowed : s.Apart f T n move) (hm : move.client? = some i) : n ≤ i := by
  cases move with
  | arrive | outside => cases hm
  | proceed j =>
    obtain rfl := Option.some.inj hm
    exact hallowed
  | answer j reply =>
    obtain rfl := Option.some.inj hm
    exact hallowed.1

/-- Only who comes is one more. -/
theorem Happens.length_eq (h : s.Happens move t) (hm : move.client? = some i) :
    t.clients.length = s.clients.length := by
  cases h with
  | arrived | changed => cases hm
  | acted | took | asked | answered => exact List.length_set ..

/-- What is done for another process leaves the process in agreement with the diary. -/
theorem Agrees.of_other (hd : s.Agrees T x d) (hT : T.IsSeparate) (hxy : x ≠ y)
    (hchange : T.LeavesOthers y s.host t.host)
    (hpassed : t.exchanges = s.exchanges ∨
      ∃ z : Exchange, t.exchanges = z :: s.exchanges ∧ z.call.IsFor (T.first y)) :
    t.Agrees T x d := by
  refine ⟨hchange.alike hT hxy hd.alike, ?_⟩
  rcases hpassed with hsame | ⟨z, hz, hcall⟩
  · rw [hsame, hd.told]
  · have hnot : z.call.concerns (T.first x) = false := by
      refine Call.IsFor.not_concerns hcall ?_ (hT.disjoint y x (Ne.symm hxy))
      rw [hT.named, hT.named]
      exact Ne.symm (hT.id_ne hxy)
    rw [hz, concerning_cons, hnot, hd.told]
    rfl

/-- A client moves that makes a call on the process. -/
theorem Replays.of_own (h : s.Replays f T x n d₀) (hlocal : f.IsLocal)
    (hallowed : s.Apart f T n move) (hhappens : s.Happens move t) (hm : move.client? = some i)
    (hmem : i ∈ s.callsOn T x n) : t.Replays f T x n d₀ := by
  obtain ⟨c, hi⟩ := hhappens.exists_mover hm
  have hcalls : t.callsOn T x n = s.callsOn T x n := hhappens.callsOn_eq (hhappens.length_eq hm)
  have hunfinished : (s.finished? i).isSome = false := by
    rw [isSome_finished? hi]
    simpa using hhappens.not_isFinished hm hi
  cases h with
  | idle hfinished => simp [hfinished i hmem] at hunfinished
  | @busy before d j c' hbefore hfinished hserves hj hmirrors =>
    -- all calls but the last have ended, so it is the last that moves
    have hij : i = j := by
      rw [hbefore, List.mem_append, List.mem_singleton] at hmem
      refine hmem.resolve_left fun hmem ↦ ?_
      simp [hfinished i hmem] at hunfinished
    subst hij
    obtain rfl := Option.some.inj (hi.symm.trans hj)
    obtain ⟨hfinished', heq⟩ := hhappens.finished_same hfinished
    obtain ⟨task, htask, hmirrors'⟩ := hmirrors.step hlocal hhappens hallowed hm hi
    exact .busy (hcalls.trans hbefore) hfinished' (heq ▸ hserves) htask hmirrors'

/-- A client moves that makes a call on one of the processes. -/
theorem Parted.replays_moved (h : s.Parted f T n d₀ σ) (hT : T.IsSeparate) (hlocal : f.IsLocal)
    (hallowed : s.Apart f T n move) (hhappens : s.Happens move t) (hm : move.client? = some i)
    (x : ι) : T.Alike x t.host t.host ∧ t.Replays f T x n d₀ := by
  obtain ⟨c, hi⟩ := hhappens.exists_mover hm
  have hn := hallowed.le_client hm
  obtain ⟨y, habout, hkeeps, -⟩ := h.clients i c hn hi
  obtain ⟨halike, hchange, -, hpassed⟩ := hhappens.keepsTo hm hi hkeeps (h.alike y)
  by_cases hxy : x = y
  · subst hxy
    have hmem : i ∈ s.callsOn T x n := mem_callsOn.mpr ⟨hn, c, hi, habout⟩
    exact ⟨halike, (h.replays x).of_own hlocal hallowed hhappens hm hmem⟩
  · have hothers : T.LeavesOthers y s.host t.host := hchange
    refine ⟨(hothers.alike hT hxy (h.alike x)).left, ?_⟩
    refine (h.replays x).of_others hhappens (hhappens.callsOn_eq (hhappens.length_eq hm))
      (fun d hd ↦ hd.of_other hT hxy hothers hpassed) fun j hj hmj ↦ ?_
    obtain rfl : i = j := Option.some.inj (hm.symm.trans hmj)
    obtain ⟨-, c', hc', habout'⟩ := mem_callsOn.mp hj
    obtain rfl := Option.some.inj (hi.symm.trans hc')
    exact hT.id_ne hxy (habout'.unique habout).2

/-- The host changes from outside, and no context is cancelled. -/
theorem Parted.replays_changed (h : s.Parted f T n d₀ σ) {change : Host → Host}
    (hallowed : s.Apart f T n (.outside change)) (hhappens : s.Happens (.outside change) t)
    (x : ι) : T.Alike x t.host t.host ∧ t.Replays f T x n d₀ := by
  cases hhappens with
  | changed =>
    let h' : Host := { change s.host with
      managers := s.host.managers
      processes := s.host.processes }
    have halike {g : Host} (hg : T.Alike x s.host g) : T.Alike x h' g := hg.of_same rfl rfl hallowed
    refine ⟨(halike (h.alike x)).left, ?_⟩
    exact (h.replays x).of_others .changed rfl (fun d hd ↦ ⟨halike hd.alike, hd.told⟩)
      (by simp [Move.client?])

/-- Who has ended stays so. -/
theorem Happens.isFinished (h : s.Happens move t) {c c' : Client} (hi : s.clients[i]? = some c)
    (hfinished : c.isFinished = true) (hi' : t.clients[i]? = some c') : c'.isFinished = true := by
  rw [← isSome_finished? hi] at hfinished
  obtain ⟨y, hy⟩ := Option.isSome_iff_exists.mp hfinished
  rw [← isSome_finished? hi', h.finished? hy, Option.isSome_some]

/-- No client is lost. -/
theorem Happens.length_le (h : s.Happens move t) : s.clients.length ≤ t.clients.length := by
  cases h with
  | arrived => simp
  | changed => exact Nat.le_refl _
  | acted | took | asked | answered => exact Nat.le_of_eq (List.length_set ..).symm

/-- Every move leaves the calls on different processes apart. -/
theorem Parted.step (h : s.Parted f T n d₀ σ) (hT : T.IsSeparate) (hlocal : f.IsLocal)
    (hs : s.Staged σ) (hallowed : s.Apart f T n move) (hhappens : s.Happens move t)
    (hshift : s.Shift σ move t τ) : t.Parted f T n d₀ τ := by
  have hrest (x : ι) : T.Alike x t.host t.host ∧ t.Replays f T x n d₀ := by
    cases hmove : move with
    | arrive r =>
      subst hmove
      cases hhappens with
      | arrived => exact ⟨h.alike x, h.replays_arrived hT hallowed x⟩
    | outside change =>
      subst hmove
      exact h.replays_changed hallowed hhappens x
    | proceed i | answer i reply =>
      exact h.replays_moved hT hlocal hallowed hhappens (i := i) (by rw [hmove]; rfl) x
  exact {
    count := Nat.le_trans h.count hhappens.length_le
    before := fun i hn c hi ↦ by
      have hlt : i < s.clients.length := Nat.lt_of_lt_of_le hn h.count
      have hbefore := List.getElem?_eq_getElem hlt
      exact hhappens.isFinished hbefore (h.before i hn _ hbefore) hi
    clients := fun i c hn hi ↦ h.step_clients hs hallowed hhappens hshift hn hi
    alike := fun x ↦ (hrest x).1
    replays := fun x ↦ (hrest x).2 }

/-! ### A whole run -/

theorem Run.exists_parted {ms : List Move} (hT : T.IsSeparate) (hlocal : f.IsLocal)
    (hrun : Run (Apart f T n) ms s t) (hs : s.Staged σ) (h : s.Parted f T n d₀ σ) :
    ∃ τ, t.Staged τ ∧ t.Parted f T n d₀ τ := by
  induction ms generalizing s σ with
  | nil =>
    obtain rfl : s = t := hrun
    exact ⟨σ, hs, h⟩
  | cons move rest ih =>
    obtain ⟨hallowed, u, hstep, hrest⟩ := hrun
    obtain ⟨τ, hshift, hstaged⟩ := hs.exists_shift hstep
    exact ih hrest hstaged
      (h.step hT hlocal hs hallowed (happens_of_step hstep) hshift)

/-- A call on one of the processes that has not ended can go on, whatever the others do. -/
theorem Parted.exists_move (h : s.Parted f T n d₀ σ) (hT : T.IsSeparate) (hs : s.Staged σ)
    (hreachable : s.Reachable) (hi : i ∈ s.callsOn T x n)
    (hunfinished : s.finished? i = none) :
    ∃ move t, move.client? = some i ∧ s.Apart f T n move ∧ s.step move = some t := by
  obtain ⟨hn, c, hc, habout⟩ := mem_callsOn.mp hi
  have hgoing : c.isFinished = false := by
    rw [← isSome_finished? hc, hunfinished, Option.isSome_none]
  rcases hs.cases_of_unfinished hc hgoing with ⟨t, hstep⟩ | ⟨p, j, -, hawaits, hj⟩ | ⟨r, y, k, hask⟩
  · exact ⟨.proceed i, t, rfl, hn, hstep⟩
  · -- who has the process to himself would make another call on it that has not ended
    obtain ⟨y, habout', -, hclaims⟩ := h.clients i c hn hc
    obtain ⟨j', e, he, hbusy, hj'⟩ := hreachable.atWork hj
    obtain rfl := Option.some.inj (hj.symm.trans hj')
    have hnj : n ≤ j := by
      by_contra hlt
      rw [h.before j (Nat.lt_of_not_le hlt) e he] at hbusy
      cases hbusy
    obtain ⟨z, habouts, -, hclaims'⟩ := h.clients j e hnj he
    have hhas : (σ j).Has p := (hs.holder p j).mp hj
    have hyx : y = x := by
      by_contra hne
      exact hT.id_ne hne (habout'.unique habout).2
    have hzx : z = x := by
      by_contra hne
      refine hT.ref_ne hne ?_
      rw [← hclaims' p (.inl hhas), hclaims p (.inr hawaits), hyx]
    rw [hzx] at habouts
    have hmem : j ∈ s.callsOn T x n := mem_callsOn.mpr ⟨hnj, e, he, habouts⟩
    have hij : i = j := (h.replays x).eq_of_unfinished hi hmem hunfinished
      (finished?_eq_none he hbusy)
    subst hij
    exact absurd hawaits hhas.not_awaits
  · have hstep : s.step (.answer i (f s.exchanges)) =
        some (s.passAs i r (.answered y (f s.exchanges y)) (.going (k (f s.exchanges y)))) := by
      simp only [Traffic.step, hask]
    exact ⟨.answer i (f s.exchanges), _, rfl, ⟨hn, rfl⟩, hstep⟩

theorem Shift.tidy (hshift : s.Shift σ move t τ) (htidy : s.host.Tidy) : t.host.Tidy := by
  have hmakes {h : Host} (hh : s.host.Touches True h) : h.Tidy := hh.tidy htidy
  cases hshift with
  | arrived | told | looked | said => exact htidy
  | changed => exact htidy.of_same rfl rfl
  | dealt _ _ hdeal => exact hmakes (.of_deal hdeal)
  | entered => exact hmakes (.locked _ true)
  | became => exact hmakes (.became _ fun _ ↦ trivial)
  | left => exact hmakes (.locked _ false)

theorem Reachable.tidy (hs : s.Reachable) : s.host.Tidy := by
  obtain ⟨σ, -, htidy⟩ := hs.exists_stages (I := fun s _ ↦ s.host.Tidy)
    (fun _ hunused ↦ hunused.tidy) fun _ hshift htidy ↦ hshift.tidy htidy
  exact htidy

/-- Where nobody has come yet nobody is concerned with a process. -/
theorem Parted.initial (hT : T.IsRecorded s.host)
    (hquiet : ∀ c ∈ s.clients, c.isFinished = true) :
    s.Parted f T s.clients.length s.diary σ where
  count := Nat.le_refl _
  before _ _ c hi := hquiet c (List.mem_of_getElem? hi)
  clients i c hn hi := by simp [List.getElem?_eq_none hn] at hi
  alike := hT.alike
  replays x := by
    have hnone : s.callsOn T x s.clients.length = [] := by
      refine List.eq_nil_iff_forall_not_mem.mpr fun i hi ↦ ?_
      obtain ⟨hn, c, hc, -⟩ := mem_callsOn.mp hi
      simp [List.getElem?_eq_none hn] at hc
    exact .idle (by simp [hnone]) (by rw [hnone]; exact .nil) ⟨hT.alike x, rfl⟩

/-- Every request of a script may arrive when it does, and the clients may make any moves. -/
def Permits (A : Traffic → Move → Prop) (answers : (call : Call) → call.Reply) :
    Traffic → List Cue → Prop
  | _, [] => True
  | s, .enter r :: rest =>
    A s (.arrive r) ∧ Permits A answers (s.after (s.movesOn answers (.enter r))) rest
  | s, .play i n :: rest =>
    (∀ s, A s (s.moveOf i answers)) ∧
      Permits A answers (s.after (s.movesOn answers (.play i n))) rest

theorem run_of_permits {A : Traffic → Move → Prop} {answers : (call : Call) → call.Reply}
    {cues : List Cue} (h : s.Permits A answers cues) :
    Run A (movesBy answers cues s) s (s.after (movesBy answers cues s)) := by
  induction cues generalizing s with
  | nil => rfl
  | cons cue rest ih =>
    rw [movesBy, after_append]
    cases cue with
    | enter r =>
      have hfirst : Run A [.arrive r] s (s.after [.arrive r]) := ⟨h.1, _, rfl, rfl⟩
      exact hfirst.append (ih h.2)
    | play i n => exact (run_movesOf h.1 n s).append (ih h.2)

/-- Assumes: processes that a manager has recorded, no two of which are the same or share an
instance of a component; components that answer by their own earlier calls; and a run in which
clients make calls on the processes, on each one after the other, beginning where nobody is at work.
Whatever the calls on the others do, a call on one of the processes that has not ended can go on.
Where all calls on it have ended, they have ended as those that are carried out one after the other
with nobody beside them; and the same has passed that concerns the process, it is in the same
status, and it is recorded or not. -/
theorem apart_as_alone {ms : List Move} (hs : s.Reachable)
    (hquiet : ∀ c ∈ s.clients, c.isFinished = true) (hT : T.IsRecorded s.host)
    (hlocal : f.IsLocal) (hrun : Run (Apart f T s.clients.length) ms s t) (x : ι) :
    (∀ i ∈ t.callsOn T x s.clients.length, t.finished? i = none → ∃ move u,
      move.client? = some i ∧ t.Apart f T s.clients.length move ∧ t.step move = some u) ∧
    ((∀ i ∈ t.callsOn T x s.clients.length, (t.finished? i).isSome = true) → ∃ d N,
      (∀ fuel ≥ N, s.diary.serveAll f fuel ((t.endings T x s.clients.length).map Prod.fst) =
        some ((t.endings T x s.clients.length).map Prod.snd, d)) ∧
      concerning (T.first x) d.passed = concerning (T.first x) t.exchanges ∧
      d.host.processes.get (T.ref x) = t.process (T.ref x) ∧
      (d.host.managers.get T.manager).find (T.id x) =
        (t.host.managers.get T.manager).find (T.id x)) := by
  have hseparate := hT.separate hs.tidy
  obtain ⟨σ, hstaged⟩ := hs.exists_staged
  obtain ⟨τ, hstaged', hparted⟩ :=
    hrun.exists_parted hseparate hlocal hstaged (.initial hT hquiet)
  refine ⟨fun i hi hunfinished ↦ ?_, fun hfinished ↦ ?_⟩
  · exact hparted.exists_move hseparate hstaged' (hs.later hrun.later) hi hunfinished
  · obtain ⟨d, ⟨N, hserves⟩, hagrees⟩ := (hparted.replays x).exists_serves hfinished
    exact ⟨d, N, hserves, hagrees.told.symm, hagrees.alike.process.symm, hagrees.alike.find.symm⟩

end Traffic

namespace Small

open Traffic

/-- The generator gives another identifier, and the factory builds other instances. -/
def others : (call : Call) → call.Reply
  | .generateId _ => .ok "q"
  | .create _ config => .ok { component config.name with
      instanceRef := (component config.name).instanceRef + 2 }
  | call => answers call

/-- Two processes are created, one after the other. -/
def paired : Traffic := created.serve (.create 0 0 config) others 100

/-- The two processes. -/
def pair : Team Bool where
  manager := 0
  id x := if x then "p" else "q"
  ref x := if x then 0 else 1
  first x := paired.process (if x then 0 else 1)

theorem pair_isRecorded : pair.IsRecorded paired.host where
  find x := by cases x <;> exact Manager.find_eq_ok (by decide +kernel)
  first x := rfl
  distinct := by
    unfold Function.Injective
    decide
  disjoint := by decide +kernel

/-- While a client starts one process another restarts the other, and the first process is removed
before this has ended. -/
def mingling : List Cue :=
  [.enter (.start 0 0 "p"), .play 2 6, .enter (.restart 0 0 "q"), .play 3 12, .play 2 100,
    .enter (.remove 0 "p"), .play 3 5, .play 4 100, .play 3 100]

def mingled : List Move := movesBy answers mingling paired

/-- A client that is given the same answers in any case makes moves that are allowed. -/
theorem apart_moveOf {n i : Nat} (hi : n ≤ i) (s : Traffic) :
    s.Apart (fun _ ↦ answers) pair n (s.moveOf i answers) := by
  unfold moveOf
  split
  · exact ⟨hi, rfl⟩
  · exact hi

theorem mingled_run :
    Run (Apart (fun _ ↦ answers) pair paired.clients.length) mingled paired
      (paired.after mingled) := by
  have hlength : paired.clients.length = 2 := by decide +kernel
  rw [hlength]
  have hplay (i : Nat) (hi : 2 ≤ i) : ∀ s : Traffic,
      s.Apart (fun _ ↦ answers) pair 2 (s.moveOf i answers) := apart_moveOf hi
  refine run_of_permits ?_
  refine ⟨⟨true, ⟨rfl, rfl⟩, by decide +kernel⟩, hplay 2 (by decide), ?_⟩
  refine ⟨⟨false, ⟨rfl, rfl⟩, by decide +kernel⟩, hplay 3 (by decide), hplay 2 (by decide), ?_⟩
  exact ⟨⟨true, ⟨rfl, rfl⟩, by decide +kernel⟩, hplay 3 (by decide), hplay 4 (by decide),
    hplay 3 (by decide), trivial⟩

/-- The theorem on calls on different processes, for one of two processes. -/
theorem mingled_as_alone :
    paired.Reachable ∧ (∀ c ∈ paired.clients, c.isFinished = true) ∧
    pair.IsRecorded paired.host ∧ Answers.IsLocal (fun _ ↦ answers) ∧
    Run (Apart (fun _ ↦ answers) pair paired.clients.length) mingled paired
      (paired.after mingled) ∧
    (∀ i ∈ (paired.after mingled).callsOn pair true paired.clients.length,
      ((paired.after mingled).finished? i).isSome = true) ∧
    ∃ d N, (∀ fuel ≥ N, paired.diary.serveAll (fun _ ↦ answers) fuel
        (((paired.after mingled).endings pair true paired.clients.length).map Prod.fst) =
          some (((paired.after mingled).endings pair true paired.clients.length).map Prod.snd,
            d)) ∧
      concerning (pair.first true) d.passed =
        concerning (pair.first true) (paired.after mingled).exchanges ∧
      d.host.processes.get (pair.ref true) = (paired.after mingled).process (pair.ref true) ∧
      (d.host.managers.get pair.manager).find (pair.id true) =
        ((paired.after mingled).host.managers.get pair.manager).find (pair.id true) := by
  have hs : paired.Reachable := created_reachable.later (later_serve ..)
  have hquiet : ∀ c ∈ paired.clients, c.isFinished = true := by decide +kernel
  have hlocal : Answers.IsLocal (fun _ ↦ answers) := fun _ _ _ _ _ _ ↦ rfl
  have hfinished : ∀ i ∈ (paired.after mingled).callsOn pair true paired.clients.length,
      ((paired.after mingled).finished? i).isSome = true := by decide +kernel
  exact ⟨hs, hquiet, pair_isRecorded, hlocal, mingled_run, hfinished,
    (apart_as_alone hs hquiet pair_isRecorded hlocal mingled_run true).2 hfinished⟩

end Small

end ComponentHost
