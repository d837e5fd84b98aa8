import ComponentHost.Proofs.Creation
import ComponentHost.Proofs.Honesty
import ComponentHost.Proofs.Rounds
import ComponentHost.Proofs.Run
import ComponentHost.Proofs.Validation

/-!
The component table of a process, from its declaration to its use.

A process is recorded by a client who creates it (`Traffic.MadeBy`): for each declared component,
one after the other, that client has looked up the factory, had an instance built and had it set up.
The process keeps just these instances, each under its declared name and in the declared order, and
knows no other name; this rests on the names being there and distinct, which is what a declaration
is accepted for. So whoever goes through the components of a process misses none and comes to none
twice (`Traffic.component_tables_complete`).

Who has made a process is read off what the clients have done. No state of the traffic shows that;
`Traffic.Logged` says what lists of things done have to do with it, and such lists can be given for
every state that some run leads to (`Traffic.Reachable.exists_logs`).
-/

set_option autoImplicit false

namespace ComponentHost

/-! ### Logs -/

/-- Writing notes leaves no trace in what has passed but the notes. -/
theorem exchangesIn_substance (log : List Feat) :
    exchangesIn (substance log) = withoutNotes (exchangesIn log) := by
  induction log with
  | nil => rfl
  | cons x log ih =>
    cases x with
    | acted h h' => exact ih
    | said x => rcases x with c | ⟨c, r⟩ <;> cases hc : c.isNote <;> simp [hc, ih, Exchange.call]

/-- A program that waits for nothing can be brought to its end. -/
theorem Prog.Performs.exists_end {α : Type} {x : Prog Host α} {Q : List Feat → α → Prop}
    (hx : x.Performs Q) : ∃ more a, Q more a := by
  induction x generalizing Q with
  | done a => exact ⟨[], a, hx⟩
  | act f k ih =>
    obtain ⟨more, a, hQ⟩ := ih {} (hx {})
    exact ⟨_, a, hQ⟩
  | await claim k => exact hx.elim
  | call c k ih =>
    obtain ⟨r⟩ := c.nonempty_reply
    obtain ⟨more, a, hQ⟩ := ih r (hx r)
    exact ⟨_, a, hQ⟩

/-- Whatever it finds and is answered, what has been done at the end of the task is as `Q` says, if
`log` has been done so far. -/
def Task.Performs (Q : List Feat → Outcome → Prop) (log : List Feat) : Task → Prop
  | .going x => x.Performs fun more o ↦ Q (log ++ more) o
  | .asking c k => ∀ r, (k r).Performs fun more o ↦ Q (log ++ .said (.answered c r) :: more) o

namespace Task.Performs

variable {Q : List Feat → Outcome → Prop} {log : List Feat}

theorem act {f : Host → Host} {k : Host → Prog Host Outcome}
    (h : Task.Performs Q log (.going (.act f k))) (g : Host) :
    Task.Performs Q (log ++ [.acted g (f g)]) (.going (k g)) :=
  (h g).mono fun more o hQ ↦ by simpa using hQ

theorem ask {c : Call} {k : c.Reply → Prog Host Outcome}
    (h : Task.Performs Q log (.going (.call c k))) :
    Task.Performs Q (log ++ [.said (.asked c)]) (.asking c k) :=
  fun r ↦ (h r).mono fun more o hQ ↦ by simpa using hQ

theorem answer {c : Call} {k : c.Reply → Prog Host Outcome}
    (h : Task.Performs Q log (.asking c k)) (r : c.Reply) :
    Task.Performs Q (log ++ [.said (.answered c r)]) (.going (k r)) :=
  (h r).mono fun more o hQ ↦ by simpa using hQ

theorem exists_end {task : Task} (h : task.Performs Q log) : ∃ more o, Q (log ++ more) o := by
  cases task with
  | going x => exact Prog.Performs.exists_end h
  | asking c k =>
    obtain ⟨r⟩ := c.nonempty_reply
    obtain ⟨more, o, hQ⟩ := (h r).exists_end
    exact ⟨_, o, hQ⟩

end Task.Performs

/-- A client who creates a process does what a creation does. -/
theorem Request.create_performs (m : ManagerRef) (ctx : ContextRef) (config : ProcessConfig) :
    (Request.create m ctx config).program.Performs fun log _ ↦
      ∃ res, Creation m ctx config (substance log) res := by
  refine .andThen (Host.createProcess_performs.mono fun log res hcreation ↦ ?_)
  cases res with
  | ok p => exact ⟨_, by rwa [List.append_nil]⟩
  | error e => exact ⟨_, hcreation⟩

/-! ### How a process is put together -/

theorem mem_substance_acted {h h' : Host} {log : List Feat} (hact : .acted h h' ∈ log) :
    .acted h h' ∈ substance log := List.mem_filter.mpr ⟨hact, rfl⟩

theorem KeepsAllRecords.count_eq {log : List Feat} {h h' : Host} (hlog : KeepsAllRecords log)
    (hact : .acted h h' ∈ log) : h'.processes.count = h.processes.count :=
  congrArg Store.count (hlog (h, h') (mem_actsIn.mpr hact)).processes

/-- The process `P` of the components `xs` is put together: what is done before it is recorded, and
what is done afterwards. -/
structure Assembly (ctx : ContextRef) (config : ProcessConfig) (before after : List Feat)
    (P : Process) (xs : List Prepared) : Prop where
  valid : config.validate = .ok ()
  declared : xs.map Prepared.config = config.components
  config : P.config = config
  components : P.components = xs.map Prepared.named
  kept : KeepsAllRecords before
  opened : ∃ g, exchangesIn before = .asked (.generateId g) ::
    .answered (.generateId g) (.ok P.id) :: exchangesIn (xs.flatMap (·.feats ctx))
  news : ∃ Q, exchangesIn after = told (announced Topic.processInitialized Q)

/-- A creation that brings about a process has put it together, and the process is what it has
recorded. -/
theorem Creation.assembly {m : ManagerRef} {ctx : ContextRef} {config : ProcessConfig}
    {log : List Feat} {res : Except Error ProcessRef} {g g' : Host}
    (h : Creation m ctx config log res) (hact : .acted g g' ∈ log)
    (hlt : g.processes.count < g'.processes.count) :
    ∃ before after P xs, log = before ++ .acted g g' :: after ∧ g' = g.recording m P ∧
      Assembly ctx config before after P xs := by
  cases res with
  | error e => exact absurd (h.undone.kept.count_eq hact) (Nat.ne_of_gt hlt)
  | ok p =>
    cases h with
    | @recorded g₀ n h₁ h₂ h₃ a id more prepared P hvalid hctx hmore hP hfree =>
      obtain ⟨before, hbefore⟩ : ∃ before, before =
        opening m g₀ n (.ok id) ++ more ++ [.acted h₁ (h₁.counted m), .acted h₂ h₂] := ⟨_, rfl⟩
      obtain ⟨after, hafter⟩ : ∃ after, after = .acted a a :: saying (told (announced
        Topic.processInitialized (a.processes.get h₃.processes.count))) := ⟨_, rfl⟩
      have hlog : opening m g₀ n (.ok id) ++ more ++
          [.acted h₁ (h₁.counted m), .acted h₂ h₂, .acted h₃ (h₃.recording m P), .acted a a] ++
          saying (told (announced Topic.processInitialized
            (a.processes.get h₃.processes.count))) =
          before ++ .acted h₃ (h₃.recording m P) :: after := by simp [hbefore, hafter]
      have hkept : KeepsAllRecords before := hbefore ▸
        .append (.append (.opening m g₀ n _) (.preparation hmore))
          (.acted (.counted h₁ m) (.acted (.refl h₂) (.saying [])))
      have hkept' : KeepsAllRecords after := hafter ▸ .acted (.refl a) (.saying _)
      rw [hlog, List.mem_append, List.mem_cons] at hact
      rcases hact with hact | heq | hact
      · exact absurd (hkept.count_eq hact) (Nat.ne_of_gt hlt)
      · cases heq
        cases hmore with
        | @ready xs hconfigs =>
          refine ⟨before, after, P, xs, hlog, rfl, hvalid, hconfigs, ?_, ?_, hkept, ?_, ?_⟩
          · rw [hP]
          · rw [hP, List.nil_append]
          · exact ⟨(n.managers.get m).generator, by simp [hbefore, opening, hP]⟩
          · rw [hafter]
            exact ⟨_, rfl⟩
      · exact absurd (hkept'.count_eq hact) (Nat.ne_of_gt hlt)

/-- Part of what a creation does is done, and the process brought about: all that is done before
that is part of it. -/
theorem exists_told_of_assembly {log more before after : List Feat} {g g' : Host}
    (hlog : substance (log ++ more) = before ++ .acted g g' :: after)
    (hbefore : KeepsAllRecords before) (hact : .acted g g' ∈ log)
    (hlt : g.processes.count < g'.processes.count) :
    ∃ rest, withoutNotes (exchangesIn log) = exchangesIn before ++ rest ∧
      rest <+: exchangesIn after := by
  rw [substance_append, List.append_eq_append_iff] at hlog
  rcases hlog with ⟨between, hsplit, -⟩ | ⟨done, hsplit, hrest⟩
  -- the log cannot end before the act, as no act before it brings about a process
  · have hearly : .acted g g' ∈ before := by
      rw [hsplit]
      exact List.mem_append_left _ (mem_substance_acted hact)
    exact absurd (hbefore.count_eq hearly) (Nat.ne_of_gt hlt)
  · refine ⟨exchangesIn done, ?_, exchangesIn (substance more), ?_⟩
    · rw [← exchangesIn_substance, hsplit, exchangesIn_append]
    · rw [← exchangesIn_append, ← hrest, exchangesIn_acted]

namespace Traffic

open Function (update)

variable {s t : Traffic} {m : Move} {i : Nat} {p : ProcessRef} {logs : Nat → List Feat}

/-- The client `i` is there to create a process. -/
def Creates (s : Traffic) (i : Nat) : Prop :=
  ∃ m ctx config task, s.clients[i]? = some ⟨.create m ctx config, task⟩

/-- What each client has done so far, in full. -/
structure Logged (s : Traffic) (logs : Nat → List Feat) : Prop where
  told : ∀ i, exchangesIn (logs i) = s.exchangesOf i
  performs : ∀ i (c : Client), s.clients[i]? = some c → ∀ Q, c.request.program.Performs Q →
    c.task.Performs Q (logs i)
  absent : ∀ i, s.clients[i]? = none → logs i = []
  /-- Every process has come about by an act of a client who was to create one. -/
  made : ∀ p < s.host.processes.count, ∃ i h h', s.Creates i ∧ .acted h h' ∈ logs i ∧
    h.processes.count ≤ p ∧ p < h'.processes.count ∧
    ∃ status locked, s.process p = { h'.processes.get p with status, locked }

/-- Only a client who was to create a process brings about one. -/
theorem Shift.creates {σ τ : Nat → Stage} (h : Shift s σ m t τ) (hp : s.host.processes.count ≤ p)
    (hlt : p < t.host.processes.count) : ∃ i, m.client? = some i ∧ s.Creates i := by
  cases h with
  | @dealt _ c _ _ _ _ hi _ hdeal =>
    obtain ⟨request, task⟩ := c
    cases hdeal with
    | recorded => exact ⟨_, rfl, _, _, _, _, hi⟩
    | _ => exact absurd hlt (Nat.not_lt.mpr hp)
  | _ => exact absurd hlt (Nat.not_lt.mpr hp)

theorem Happens.creates (h : s.Happens m t) (hi : s.Creates i) : t.Creates i := by
  obtain ⟨m', ctx, config, task, hi⟩ := hi
  obtain ⟨task', htask, -⟩ := h.exists_client hi
  exact ⟨m', ctx, config, task', htask⟩

namespace Logged

theorem initial {h : Host} (hunused : h.Unused) : Logged { host := h } fun _ ↦ [] where
  told _ := rfl
  performs i c hi := by simp at hi
  absent _ _ := rfl
  made p hp := by simp [hunused.no_process] at hp

/-- A new client has done nothing. -/
theorem arrived (hs : s.Logged logs) (r : Request) :
    Logged { s with clients := s.clients ++ [⟨r, .going r.program⟩] } logs where
  told := hs.told
  performs := by
    intro i c hi Q hQ
    cases hbefore : s.clients[i]? with
    | some c' =>
      rw [List.getElem?_append_left (List.getElem?_eq_some_iff.mp hbefore).1, hbefore] at hi
      obtain rfl := Option.some.inj hi
      exact hs.performs i c' hbefore Q hQ
    | none =>
      obtain ⟨-, htask⟩ := (Happens.arrived (s := s) (r := r)).task_of_new hbefore hi
      rw [htask, hs.absent i hbefore]
      exact hQ
  absent := by
    intro i hi
    have hlen := List.getElem?_eq_none_iff.mp hi
    rw [List.length_append] at hlen
    exact hs.absent i (List.getElem?_eq_none_iff.mpr (Nat.le_of_add_right_le hlen))
  made := by
    intro p hp
    obtain ⟨i, h, h', hi, hact⟩ := hs.made p hp
    exact ⟨i, h, h', Happens.arrived.creates hi, hact⟩

/-- A client who is there does something. -/
theorem did {c : Client} {task : Task} {feat : Feat} (hs : s.Logged logs) (hreach : s.Reachable)
    (hstep : s.step m = some t) (hm : m.client? = some i) (hi : s.clients[i]? = some c)
    (hclients : t.clients = s.clients.set i ⟨c.request, task⟩)
    (htold : ∀ j, t.exchangesOf j = s.exchangesOf j ++ if i = j then exchangesIn [feat] else [])
    (htask : ∀ Q, c.task.Performs Q (logs i) → task.Performs Q (logs i ++ [feat]))
    (hnew : t.host.processes.count ≠ s.host.processes.count → feat = .acted s.host t.host) :
    t.Logged (update logs i (logs i ++ [feat])) where
  told := by
    intro j
    by_cases hji : j = i
    · subst hji
      rw [Function.update_self, exchangesIn_append, hs.told, htold, if_pos rfl]
    · rw [Function.update_of_ne hji, hs.told, htold, if_neg (Ne.symm hji), List.append_nil]
  performs := by
    intro j c' hj Q hQ
    rw [hclients] at hj
    by_cases hji : j = i
    · subst hji
      obtain rfl := Option.some.inj ((getElem?_set_client hi _).symm.trans hj)
      rw [Function.update_self]
      exact htask Q (hs.performs j c hi Q hQ)
    · rw [List.getElem?_set_ne (Ne.symm hji)] at hj
      rw [Function.update_of_ne hji]
      exact hs.performs j c' hj Q hQ
  absent := by
    intro j hj
    have hji : j ≠ i := by
      rintro rfl
      rw [hclients, getElem?_set_client hi _] at hj
      cases hj
    rw [hclients, List.getElem?_set_ne (Ne.symm hji)] at hj
    rw [Function.update_of_ne hji, hs.absent j hj]
  made := by
    intro p hp
    have hhappens := happens_of_step hstep
    by_cases hold : p < s.host.processes.count
    · obtain ⟨j, h, h', hj, hact, hle, hlt, status, locked, hprocess⟩ := hs.made p hold
      obtain ⟨-, status', locked', hkept⟩ := hreach.process_step hold hstep
      rw [hprocess] at hkept
      refine ⟨j, h, h', hhappens.creates hj, ?_, hle, hlt, status', locked', hkept⟩
      by_cases hji : j = i
      · subst hji
        rw [Function.update_self]
        exact List.mem_append_left _ hact
      · rwa [Function.update_of_ne hji]
    · obtain ⟨σ, hstaged⟩ := hreach.exists_staged
      obtain ⟨τ, hshift, -⟩ := hstaged.exists_shift hstep
      have hle : s.host.processes.count ≤ p := Nat.le_of_not_lt hold
      obtain ⟨j, hj, hcreates⟩ := hshift.creates hle hp
      obtain rfl : j = i := Option.some.inj (hj.symm.trans hm)
      have hfeat := hnew (Nat.ne_of_gt (Nat.lt_of_le_of_lt hle hp))
      refine ⟨j, s.host, t.host, hhappens.creates hcreates, ?_, hle, hp, _, _, rfl⟩
      rw [Function.update_self, hfeat]
      exact List.mem_append_right _ List.mem_cons_self

theorem step (hs : s.Logged logs) (hreach : s.Reachable) (hstep : s.step m = some t) :
    ∃ logs', t.Logged logs' := by
  cases happens_of_step hstep with
  | arrived => exact ⟨logs, hs.arrived _⟩
  | changed => exact ⟨logs, hs.told, hs.performs, hs.absent, hs.made⟩
  | @acted i _ f _ hi =>
    have htold (j : Nat) : s.exchangesOf j = s.exchangesOf j ++
        if i = j then exchangesIn [.acted s.host (f s.host)] else [] := by simp
    exact ⟨_, hs.did hreach hstep rfl hi rfl htold (fun Q h ↦ h.act s.host) fun _ ↦ rfl⟩
  -- who creates a process never waits for a lock, so `performs` says nothing of one who does
  | @took i _ _ _ h hi =>
    have htold (j : Nat) : s.exchangesOf j = s.exchangesOf j ++
        if i = j then exchangesIn [.acted s.host h] else [] := by simp
    exact ⟨_, hs.did hreach hstep rfl hi rfl htold (fun Q h ↦ h.elim) fun _ ↦ rfl⟩
  | asked hi =>
    exact ⟨_, hs.did hreach hstep rfl hi rfl (fun _ ↦ exchangesOf_passAs ..) (fun Q h ↦ h.ask)
      fun hne ↦ absurd rfl hne⟩
  | answered hi =>
    exact ⟨_, hs.did hreach hstep rfl hi rfl (fun _ ↦ exchangesOf_passAs ..)
      (fun Q h ↦ h.answer _) fun hne ↦ absurd rfl hne⟩

end Logged

/-- What the clients have done can be told of every state that some run leads to. -/
theorem Reachable.exists_logs (hs : s.Reachable) : ∃ logs, s.Logged logs := by
  obtain ⟨h, hunused, hlater⟩ := hs
  induction hlater with
  | refl => exact ⟨_, .initial hunused⟩
  | tail hlater hnext ih =>
    obtain ⟨logs, hlogs⟩ := ih
    obtain ⟨m, hstep⟩ := hnext
    exact hlogs.step ⟨h, hunused, hlater⟩ hstep

/-- The client `i` has made the process `p`: for each declared component, one after the other, it
has had an instance built and set up, and these are the components of the process, in that order and
under the declared names, and no others. -/
structure MadeBy (s : Traffic) (p : ProcessRef) (i : Nat) (xs : List Prepared) : Prop where
  declared : xs.map Prepared.config = (s.process p).config.components
  told : ∃ m ctx task g Q news,
    s.clients[i]? = some ⟨.create m ctx (s.process p).config, task⟩ ∧
    withoutNotes (s.exchangesOf i) = .asked (.generateId g) ::
      .answered (.generateId g) (.ok (s.process p).id) ::
        exchangesIn (xs.flatMap (·.feats ctx)) ++ news ∧
    news <+: told (announced Topic.processInitialized Q)
  ordered : (s.process p).ordered = xs.map Prepared.named
  found : ∀ name c, (s.process p).component? name = some c ↔ (name, c) ∈ xs.map Prepared.named

/-- Every process has been made by a client, of a declaration in which all names are there and
distinct. -/
theorem Reachable.exists_maker (hs : s.Reachable) (hp : p < s.host.processes.count) :
    (s.process p).config.WellNamed ∧ ∃ i xs, s.MadeBy p i xs := by
  obtain ⟨logs, hlogs⟩ := hs.exists_logs
  obtain ⟨i, g, g', ⟨m, ctx, config, task, hi⟩, hact, hle, hlt, status, locked, hprocess⟩ :=
    hlogs.made p hp
  have hbrought : g.processes.count < g'.processes.count := Nat.lt_of_le_of_lt hle hlt
  have hperforms := hlogs.performs i _ hi _ (Request.create_performs m ctx config)
  -- the creation may still be under way: brought to its end somehow, it is one that recorded
  obtain ⟨more, o, res, hcreation⟩ := hperforms.exists_end
  have hacted : .acted g g' ∈ substance (logs i ++ more) :=
    mem_substance_acted (List.mem_append_left _ hact)
  obtain ⟨before, after, P, xs, hlog, rfl, hassembly⟩ := hcreation.assembly hacted hbrought
  obtain ⟨rest, hrest, hnews⟩ :=
    exists_told_of_assembly hlog hassembly.kept hact hbrought
  obtain rfl : p = g.processes.count := Nat.le_antisymm (Nat.le_of_lt_succ hlt) hle
  have hrecorded : (g.recording m P).processes.get g.processes.count = P := Store.get_add_self ..
  have hsame : s.process g.processes.count = { P with status, locked } := by
    rw [hprocess, hrecorded]
  have hcomplete := hs.isComplete hp
  have hcomponents : (s.process g.processes.count).components = xs.map Prepared.named := by
    rw [hsame]
    exact hassembly.components
  have hconfig : (s.process g.processes.count).config = config := by
    rw [hsame]
    exact hassembly.config
  have hwell : config.WellNamed := ProcessConfig.validate_eq_ok_iff.mp hassembly.valid
  refine ⟨hconfig ▸ hwell, i, xs, hconfig ▸ hassembly.declared, ?_, ?_, fun name c ↦ ?_⟩
  · obtain ⟨generator, htold⟩ := hassembly.opened
    obtain ⟨Q, hafter⟩ := hassembly.news
    refine ⟨m, ctx, task, generator, Q, rest, hconfig ▸ hi, ?_, hafter ▸ hnews⟩
    rw [← hlogs.told, hrest, htold, hsame]
  · rw [hcomplete.ordered, hcomponents]
  · have hnodup : ((s.process g.processes.count).components.map Prod.fst).Nodup := by
      rw [hcomplete.named, Process.names, hconfig]
      exact hwell.nodup
    rw [Process.component?, Table.get?_eq_some_iff hnodup, hcomponents]

/-! ### The whole of it -/

/-- A declaration is accepted just if it names all its components and no two alike, and else it is
said what is wrong in the first place where it goes wrong. Every process was made of such a
declaration: it has for each declared name just the instance that was built and set up for it, and
has them in the declared order. And the calls that go through a process later make whole rounds,
however they interleave, that leave out none of these instances and call none of them twice. -/
theorem component_tables_complete (hs : s.Reachable) :
    (∀ config : ProcessConfig, (config.validate = .ok () ↔ config.WellNamed) ∧
      ∀ e, config.validate = .error e ↔ config.FirstOffence e) ∧
    (∀ p < s.host.processes.count, (s.process p).config.WellNamed ∧ ∃ i xs, s.MadeBy p i xs) ∧
    ∀ i c, s.clients[i]? = some c → c.request.isLifecycle = true →
      ∃ vs : List Round, (∀ v ∈ vs, v.IsWhole s) ∧ vs.map Round.sec <+: c.request.sections ∧
        callsIn (s.exchangesOf i) <+: vs.flatMap Round.calls ∧
        (c.isFinished = true → callsIn (s.exchangesOf i) = vs.flatMap Round.calls) :=
  ⟨fun _ ↦ ⟨ProcessConfig.validate_eq_ok_iff, fun _ ↦ ProcessConfig.validate_eq_error_iff⟩,
    fun _ hp ↦ hs.exists_maker hp, fun _ _ hi hr ↦ hs.exists_rounds hi hr⟩

end Traffic

namespace Small

open Traffic

/-- The theorem where a process of two components was created, was started, and was to be started
again, and the second component refused. -/
theorem refused_component_tables : refused.Reachable ∧ 0 < refused.host.processes.count ∧
    (refused.process 0).config.WellNamed ∧ (∃ i xs, refused.MadeBy 0 i xs) ∧
    callsIn (refused.exchangesOf 2) =
      [(.start, component "a"), (.start, component "b"), (.stop, component "a")] ∧
    ∃ vs : List Round, (∀ v ∈ vs, v.IsWhole refused) ∧
      callsIn (refused.exchangesOf 2) = vs.flatMap Round.calls := by
  have hcount : 0 < refused.host.processes.count := by decide +kernel
  obtain ⟨-, hmade, hrounds⟩ := component_tables_complete refused_reachable
  obtain ⟨c, hc⟩ : ∃ c, refused.clients[2]? = some c :=
    Option.isSome_iff_exists.mp (by decide +kernel)
  have hclient : refused.clients[2]?.map (fun c ↦ (c.request.isLifecycle, c.isFinished)) =
      some (true, true) := by decide +kernel
  rw [hc, Option.map_some, Option.some.injEq, Prod.mk.injEq] at hclient
  obtain ⟨vs, hvs, -, -, hcalls⟩ := hrounds 2 c hc hclient.1
  exact ⟨refused_reachable, hcount, (hmade 0 hcount).1, (hmade 0 hcount).2, by decide +kernel,
    vs, hvs, hcalls hclient.2⟩

end Small

end ComponentHost
