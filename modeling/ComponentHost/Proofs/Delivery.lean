import ComponentHost.Host.Collaborators
import ComponentHost.Proofs.Crowd
import ComponentHost.Proofs.Subscriptions

/-!
Who is told of an event.

To subscribe, to end a subscription and to publish are calls to the bus. The first two are carried
out in one step. A publisher looks once who is to receive its event, and then hands it to one
handler after the other; while a handler is at it others may call the bus, the handler itself among
them. Such a call is one more client, who comes and moves while the publisher waits.

What its users know of a bus are the calls that have returned and what they answered. From these
alone `Crowd.live` tells the subscriptions there are, in the order they were made, and
`Crowd.DeliversAsSubscribed` says how all answers and deliveries go by them.
-/

set_option autoImplicit false

namespace ComponentHost

/-! ### Clients that are carried out at once -/

namespace Crowd

section

variable {ε ρ : Type} {s t : Crowd ε ρ} {i : Nat} {m : Move ε} {A : Crowd ε ρ → Move ε → Prop}

theorem mem_feats {feat : Feat} : feat ∈ s.feats i ↔ (i, feat) ∈ s.past := by
  simp [feats]

variable [Errand ε ρ]

/-- Who has done nothing has everything still to do. -/
theorem Later.task_of_idle {h : Host} {c : Client ε ρ} (hlater : Later A { host := h } s)
    (hi : s.clients[i]? = some c) (hidle : s.feats i = []) :
    c.task = .going (Errand.program c.errand) := by
  induction hlater generalizing c with
  | refl => simp at hi
  | @tail u v hlater hnext ih =>
    obtain ⟨m, -, hstep⟩ := hnext
    have hhappens := happens_of_step hstep
    cases hbefore : u.clients[i]? with
    | none => exact (hhappens.task_of_new hbefore hi).2
    | some c₀ =>
      obtain ⟨task, htask, hothers⟩ := hhappens.exists_client hbefore
      obtain rfl : ⟨c₀.errand, task⟩ = c := Option.some.inj (htask.symm.trans hi)
      by_cases hm : m.client? = some i
      · cases hhappens with
        | arrived | changed => cases hm
        | acted | asked | answered =>
          obtain rfl := Option.some.inj hm
          simp at hidle
      · rw [hhappens.feats_of_others hm] at hidle
        exact (hothers hm).trans (ih hbefore hidle)

/-- Assumes: a client's program is a single act. The client has still to act, or has acted once and
is finished. -/
theorem Later.cases_of_single {h : Host} {e : ε} {f : Host → Host} {g : Host → ρ} {task : Task ρ}
    (hsingle : Errand.program e = .act f fun h ↦ .done (g h)) (hlater : Later A { host := h } s)
    (hi : s.clients[i]? = some ⟨e, task⟩) :
    (s.feats i = [] ∧ task = .going (.act f fun h ↦ .done (g h))) ∨
      ∃ h, s.feats i = [.acted h (f h)] ∧ task = .going (.done (g h)) := by
  induction hlater generalizing task with
  | refl => simp at hi
  | @tail u v hlater hnext ih =>
    obtain ⟨m, -, hstep⟩ := hnext
    have hhappens := happens_of_step hstep
    cases hbefore : u.clients[i]? with
    | none =>
      have hnobody := Later.nobodyElse hlater (nobodyElse_start h)
      have hnothing := hhappens.feats_of_new hnobody hbefore hi
      obtain ⟨rfl, htask⟩ := hhappens.task_of_new hbefore hi
      exact .inl ⟨hnothing, htask.trans (congrArg _ hsingle)⟩
    | some c₀ =>
      obtain ⟨e₀, task₀⟩ := c₀
      obtain ⟨task', htask', hothers⟩ := hhappens.exists_client hbefore
      obtain ⟨rfl, rfl⟩ : e₀ = e ∧ task' = task := by simpa [hi] using htask'.symm
      by_cases hm : m.client? = some i
      · cases hhappens with
        | arrived | changed => cases hm
        | acted hj hx =>
          obtain rfl := Option.some.inj hm
          cases Option.some.inj (hbefore.symm.trans hj)
          rw [getElem?_moved hbefore] at hi
          cases hi
          obtain ⟨hidle, heq⟩ | ⟨h', -, heq⟩ := ih hbefore <;> cases heq <;> cases hx
          exact .inr ⟨u.host, by rw [feats_moved_self, hidle, List.nil_append], rfl⟩
        | asked hj | answered hj =>
          obtain rfl := Option.some.inj hm
          cases Option.some.inj (hbefore.symm.trans hj)
          obtain ⟨-, heq⟩ | ⟨h', -, heq⟩ := ih hbefore <;> cases heq
      · rw [hhappens.feats_of_others hm, hothers hm]
        exact ih hbefore

/-- Such a client makes its one act, and is finished. -/
theorem Later.moved_of_single {h : Host} {e : ε} {f : Host → Host} {g : Host → ρ} {task : Task ρ}
    (hsingle : Errand.program e = .act f fun h ↦ .done (g h)) (hlater : Later A { host := h } s)
    (hi : s.clients[i]? = some ⟨e, task⟩) (hm : m.client? = some i) (hstep : s.step m = some t) :
    s.feats i = [] ∧ m = .proceed i ∧
      t = s.moved i e (.acted s.host (f s.host)) (f s.host) (.going (.done (g s.host))) := by
  have hcases := hlater.cases_of_single hsingle hi
  cases happens_of_step hstep with
  | arrived | changed => cases hm
  | acted hj hx =>
    obtain rfl := Option.some.inj hm
    cases Option.some.inj (hi.symm.trans hj)
    obtain ⟨hidle, heq⟩ | ⟨h', -, heq⟩ := hcases <;> cases heq <;> cases hx
    exact ⟨hidle, rfl, rfl⟩
  | asked hj | answered hj =>
    obtain rfl := Option.some.inj hm
    cases Option.some.inj (hi.symm.trans hj)
    obtain ⟨-, heq⟩ | ⟨h', -, heq⟩ := hcases <;> cases heq

/-- Assumes: no program is finished before it is begun. When others move, a client is as finished as
it was. -/
theorem Happens.finished?_of_others (hbegins : ∀ (e : ε) (o : ρ), Errand.program e ≠ .done o)
    (h : s.Happens m t) (hm : m.client? ≠ some i) : t.finished? i = s.finished? i := by
  cases hs : s.finished? i with
  | some y => exact (h.finished? hs).1
  | none =>
    cases ht : t.finished? i with
    | none => rfl
    | some y =>
      obtain ⟨e, o⟩ := y
      have hi := getElem?_of_finished? ht
      cases hbefore : s.clients[i]? with
      | none =>
        obtain ⟨-, htask⟩ := h.task_of_new hbefore hi
        exact absurd (Task.going.inj htask).symm (hbegins e o)
      | some c =>
        obtain ⟨e', task'⟩ := c
        obtain ⟨task, htask, hothers⟩ := h.exists_client hbefore
        rw [hi, hothers hm] at htask
        cases Option.some.inj htask
        rw [finished?_eq_some hbefore] at hs
        cases hs

end

end Crowd

/-! ### Calls to a bus -/

inductive BusCall where
  | subscribe (topic : String) (handler : HandlerRef)
  | unsubscribe (id : UInt64)
  | publish (topic : String) (payload : Json)

inductive BusAnswer where
  /-- The subscription has this number. -/
  | numbered (id : UInt64)
  | found (there : Bool)
  | delivered
  deriving DecidableEq

def BusCall.program : BusCall → Prog Host BusAnswer
  | .subscribe topic handler => return .numbered (← Host.subscribe topic handler)
  | .unsubscribe id => return .found (← Host.unsubscribe id)
  | .publish topic payload => do
    Host.publish topic payload
    return .delivered

/-- Nobody else has to do with the bus. -/
instance : Errand BusCall BusAnswer where
  program := BusCall.program
  spared before after := { after with bus := before.bus }

open EventBus

/-- A change of the subscriptions there are. -/
inductive BusChange where
  | made (x : Live)
  | ended (id : UInt64)

/-- What a call has changed, by its answer. -/
def BusChange.of? : BusCall × BusAnswer → Option BusChange
  | (.subscribe topic handler, .numbered id) => some (.made ⟨id, topic, handler⟩)
  | (.unsubscribe id, .found _) => some (.ended id)
  | _ => none

/-- The subscriptions there are after some changes, the latest of which comes first. -/
def liveAfter : List BusChange → List Live
  | [] => []
  | .made x :: earlier => liveAfter earlier ++ [x]
  | .ended id :: earlier => (liveAfter earlier).filter (·.id != id)

/-- All subscriptions ever made, each with its client, the latest first. -/
def subscribedIn (changes : List (Nat × BusChange)) : List (Nat × Live) :=
  changes.filterMap fun
    | (i, .made x) => some (i, x)
    | (_, .ended _) => none

/-- The event that a handler is given. -/
def Exchange.delivery? : Exchange → Option (HandlerRef × Event)
  | .asked (.deliver handler event) => some (handler, event)
  | _ => none

/-- The handlers that have been given an event, with the event, in order. -/
def deliveriesIn (log : List Feat) : List (HandlerRef × Event) :=
  (exchangesIn log).filterMap Exchange.delivery?

theorem deliveriesIn_append (xs ys : List Feat) :
    deliveriesIn (xs ++ ys) = deliveriesIn xs ++ deliveriesIn ys := by
  rw [deliveriesIn, exchangesIn_append, List.filterMap_append]
  rfl

namespace Crowd

variable {s t u v : Crowd BusCall BusAnswer} {i : Nat} {m : Move BusCall} {h : Host}
  {A : Crowd BusCall BusAnswer → Move BusCall → Prop}

def busChange? (s : Crowd BusCall BusAnswer) (i : Nat) : Option BusChange :=
  (s.finished? i).bind BusChange.of?

/-- What has come of something that was done, for the subscriptions. -/
def changeBy? (s : Crowd BusCall BusAnswer) : Nat × Feat → Option (Nat × BusChange)
  | (i, .acted _ _) => (s.busChange? i).map (i, ·)
  | (_, .said _) => none

/-- The changes that calls have made, each with its client, in the order in which the clients came
to the bus and the latest first. -/
def busChanges (s : Crowd BusCall BusAnswer) : List (Nat × BusChange) :=
  s.past.filterMap s.changeBy?

/-- The subscriptions that have been made and not ended, in the order they were made. -/
def live (s : Crowd BusCall BusAnswer) : List Live := liveAfter (s.busChanges.map Prod.snd)

/-- All subscriptions ever made, each with its client, the latest first. -/
def subscribed (s : Crowd BusCall BusAnswer) : List (Nat × Live) := subscribedIn s.busChanges

/-- What a client has handed to handlers, in order. -/
def deliveriesOf (s : Crowd BusCall BusAnswer) (i : Nat) : List (HandlerRef × Event) :=
  deliveriesIn (s.feats i)

/-! ### What a move does for the bus -/

theorem busChanges_of_past (xs : List (Nat × Feat)) (hpast : t.past = xs ++ s.past)
    (hsame : ∀ i h h', (i, .acted h h') ∈ s.past → t.busChange? i = s.busChange? i) :
    t.busChanges = xs.filterMap t.changeBy? ++ s.busChanges := by
  rw [busChanges, hpast, List.filterMap_append, busChanges]
  refine congrArg _ (List.filterMap_congr fun x hx ↦ ?_)
  obtain ⟨i, feat⟩ := x
  cases feat with
  | said => rfl
  | acted h h' => rw [changeBy?, changeBy?, hsame i h h' hx]

/-- Publishing changes nothing. -/
theorem busChange?_of_publish {topic : String} {payload : Json} {task : Task BusAnswer}
    (hi : s.clients[i]? = some ⟨.publish topic payload, task⟩) : s.busChange? i = none := by
  unfold busChange? finished?
  rw [hi]
  split
  next heq => cases heq; rfl
  next => rfl

/-- A client that has acted once, and is finished with it, has changed what its answer says. -/
theorem busChanges_moved {e : BusCall} {o : BusAnswer} {h' : Host} {change : BusChange}
    {c : Client BusCall BusAnswer} (hi : s.clients[i]? = some c) (hidle : s.feats i = [])
    (hchange : BusChange.of? (e, o) = some change) :
    (s.moved i e (.acted s.host h') h' (.going (.done o))).busChanges =
      (i, change) :: s.busChanges := by
  let t := s.moved i e (.acted s.host h') h' (.going (.done o))
  have hnow : t.busChange? i = some change := by
    have hfinished : t.finished? i = some (e, o) := finished?_eq_some (getElem?_moved hi ..)
    rw [busChange?, hfinished, Option.bind_some, hchange]
  have hothers : ∀ j h h', (j, .acted h h') ∈ s.past → t.busChange? j = s.busChange? j := by
    intro j h h' hmem
    have hij : i ≠ j := by
      rintro rfl
      rw [← mem_feats, hidle] at hmem
      cases hmem
    have hclient : t.clients[j]? = s.clients[j]? := List.getElem?_set_ne hij
    rw [busChange?, busChange?, finished?, finished?, hclient]
  have hnew : t.busChanges = _ := busChanges_of_past [(i, .acted s.host h')] rfl hothers
  rw [hnew]
  simp [changeBy?, hnow]

/-- What a move does for the bus: nothing, or a client subscribes or ends a subscription. -/
inductive BusStep (s t : Crowd BusCall BusAnswer) : Prop where
  | same (hbus : t.host.bus = s.host.bus) (hchanges : t.busChanges = s.busChanges)
  | subscribed (i : Nat) (topic : String) (handler : HandlerRef)
    (hbus : t.host.bus = (s.host.bus.subscribe topic handler).2)
    (hchanges : t.busChanges =
      (i, .made ⟨(s.host.bus.subscribe topic handler).1, topic, handler⟩) :: s.busChanges)
  | unsubscribed (i : Nat) (id : UInt64) (hbus : t.host.bus = (s.host.bus.unsubscribe id).2)
    (hchanges : t.busChanges = (i, .ended id) :: s.busChanges)

theorem program_ne_done (e : BusCall) (o : BusAnswer) : Errand.program e ≠ .done o := by
  cases e <;>
    · change Prog.act _ _ ≠ _
      exact nofun

theorem publish_acts (topic : String) (payload : Json) :
    (Errand.program (BusCall.publish topic payload)).Acts fun h h' ↦ h' = h := by
  have hdeliver (event : Event) (receivers : List Subscription) :
      (Host.deliverAll event receivers).Acts fun h h' ↦ h' = h := by
    induction receivers with
    | nil => exact .done ()
    | cons x rest ih => exact .call fun _ ↦ ih
  exact .act (fun _ ↦ rfl) fun h ↦ .bind (hdeliver _ _) fun _ ↦ .done _

theorem Later.subscribe_moved {topic : String} {handler : HandlerRef} {task : Task BusAnswer}
    (hlater : Later A { host := h } s) (hi : s.clients[i]? = some ⟨.subscribe topic handler, task⟩)
    (hm : m.client? = some i) (hstep : s.step m = some t) :
    t.host.bus = (s.host.bus.subscribe topic handler).2 ∧ t.busChanges =
      (i, .made ⟨(s.host.bus.subscribe topic handler).1, topic, handler⟩) :: s.busChanges := by
  obtain ⟨hidle, -, rfl⟩ := hlater.moved_of_single rfl hi hm hstep
  exact ⟨rfl, busChanges_moved hi hidle rfl⟩

theorem Later.unsubscribe_moved {id : UInt64} {task : Task BusAnswer}
    (hlater : Later A { host := h } s) (hi : s.clients[i]? = some ⟨.unsubscribe id, task⟩)
    (hm : m.client? = some i) (hstep : s.step m = some t) :
    t.host.bus = (s.host.bus.unsubscribe id).2 ∧
      t.busChanges = (i, .ended id) :: s.busChanges := by
  obtain ⟨hidle, -, rfl⟩ := hlater.moved_of_single rfl hi hm hstep
  exact ⟨rfl, busChanges_moved hi hidle rfl⟩

/-- A publisher only looks. -/
theorem Later.publish_moved {topic : String} {payload : Json} {task : Task BusAnswer}
    (hlater : Later A { host := h } s) (hi : s.clients[i]? = some ⟨.publish topic payload, task⟩)
    (hm : m.client? = some i) (hstep : s.step m = some t) :
    t.host.bus = s.host.bus ∧ t.busChanges = s.busChanges := by
  have hhappens := happens_of_step hstep
  obtain ⟨task', htask', -⟩ := hhappens.exists_client hi
  have hnone : t.busChange? i = none := busChange?_of_publish htask'
  have hsame : ∀ j h h', (j, .acted h h') ∈ s.past → t.busChange? j = s.busChange? j := by
    intro j _ _ _
    by_cases hij : i = j
    · subst hij
      rw [hnone, busChange?_of_publish hi]
    · have hj : m.client? ≠ some j := by simpa [hm] using hij
      rw [busChange?, busChange?, hhappens.finished?_of_others program_ne_done hj]
  cases hhappens with
  | arrived | changed => cases hm
  | acted hj hx =>
    obtain rfl := Option.some.inj hm
    cases Option.some.inj (hi.symm.trans hj)
    have hhost := hlater.act_of (publish_acts topic payload) hj hx
    refine ⟨congrArg Host.bus hhost, (busChanges_of_past [_] rfl hsame).trans ?_⟩
    simp [changeBy?, hnone]
  | asked hj | answered hj =>
    obtain rfl := Option.some.inj hm
    cases Option.some.inj (hi.symm.trans hj)
    exact ⟨rfl, (busChanges_of_past [_] rfl hsame).trans rfl⟩

/-- One step at the bus. -/
theorem Later.busStep (hlater : Later A { host := h } s) (hstep : s.step m = some t) :
    BusStep s t := by
  have hhappens := happens_of_step hstep
  cases hm : m.client? with
  | none =>
    have hsame : ∀ i h h', (i, .acted h h') ∈ s.past → t.busChange? i = s.busChange? i := by
      intro i _ _ _
      rw [busChange?, busChange?, hhappens.finished?_of_others program_ne_done (by simp [hm])]
    cases hhappens with
    | arrived | changed => exact .same rfl (busChanges_of_past [] rfl hsame)
    | acted | asked | answered => cases hm
  | some i =>
    obtain ⟨⟨e, task⟩, hi⟩ := hhappens.exists_mover hm
    cases e with
    | subscribe topic handler =>
      obtain ⟨hbus, hchanges⟩ := hlater.subscribe_moved hi hm hstep
      exact .subscribed i topic handler hbus hchanges
    | unsubscribe id =>
      obtain ⟨hbus, hchanges⟩ := hlater.unsubscribe_moved hi hm hstep
      exact .unsubscribed i id hbus hchanges
    | publish topic payload =>
      obtain ⟨hbus, hchanges⟩ := hlater.publish_moved hi hm hstep
      exact .same hbus hchanges

end Crowd

/-! ### What is kept -/

/-- The bus keeps the subscriptions there are after these changes, and has numbered in turn all that
were ever made. -/
structure EventBus.Reflects (b : EventBus) (changes : List (Nat × BusChange)) : Prop where
  active : b.active = true
  holds : b.Holds (liveAfter (changes.map Prod.snd))
  nextId : b.nextId = UInt64.ofNat (subscribedIn changes).length
  numbers : ((subscribedIn changes).map (·.2.id)).reverse =
    (List.range (subscribedIn changes).length).map UInt64.ofNat
  live_sublist :
    (liveAfter (changes.map Prod.snd)).Sublist ((subscribedIn changes).map Prod.snd).reverse

namespace EventBus.Reflects

variable {b : EventBus} {changes : List (Nat × BusChange)}

theorem initial : ({} : EventBus).Reflects [] where
  active := rfl
  holds := ⟨List.nodup_nil, nofun, fun _ ↦ rfl⟩
  nextId := rfl
  numbers := rfl
  live_sublist := .slnil

theorem subscribe (hb : b.Reflects changes) (i : Nat) (topic : String) (handler : HandlerRef) :
    (b.subscribe topic handler).2.Reflects
      ((i, .made ⟨(b.subscribe topic handler).1, topic, handler⟩) :: changes) where
  active := hb.active
  holds := hb.holds.subscribe hb.active topic handler
  nextId := by
    change b.nextId + 1 = UInt64.ofNat ((subscribedIn changes).length + 1)
    rw [hb.nextId, UInt64.ofNat_add]
    rfl
  numbers := by
    change (b.nextId :: (subscribedIn changes).map (·.2.id)).reverse =
      (List.range ((subscribedIn changes).length + 1)).map UInt64.ofNat
    rw [List.reverse_cons, List.range_succ, List.map_append, hb.numbers, hb.nextId]
    rfl
  live_sublist := by
    change (liveAfter (changes.map Prod.snd) ++ [_]).Sublist
      (_ :: (subscribedIn changes).map Prod.snd).reverse
    rw [List.reverse_cons]
    exact hb.live_sublist.append_right _

theorem unsubscribe (hb : b.Reflects changes) (i : Nat) (id : UInt64) :
    (b.unsubscribe id).2.Reflects ((i, .ended id) :: changes) where
  active := hb.active
  holds := hb.holds.unsubscribe id
  nextId := hb.nextId
  numbers := hb.numbers
  live_sublist := List.filter_sublist.trans hb.live_sublist

/-- As long as the numbers do not start over, no two subscriptions have the same. -/
theorem numbers_nodup (hb : b.Reflects changes) (hfew : (subscribedIn changes).length ≤ 2 ^ 64) :
    ((subscribedIn changes).map (·.2.id)).Nodup := by
  rw [← List.nodup_reverse, hb.numbers]
  refine List.Nodup.map_on (fun m hm n hn heq ↦ ?_) List.nodup_range
  have hm' : m < 2 ^ 64 := Nat.lt_of_lt_of_le (List.mem_range.mp hm) hfew
  have hn' : n < 2 ^ 64 := Nat.lt_of_lt_of_le (List.mem_range.mp hn) hfew
  have htoNat := congrArg UInt64.toNat heq
  rwa [UInt64.toNat_ofNat_of_lt' hm', UInt64.toNat_ofNat_of_lt' hn'] at htoNat

theorem live_nodup (hb : b.Reflects changes) (hfew : (subscribedIn changes).length ≤ 2 ^ 64) :
    ((liveAfter (changes.map Prod.snd)).map (·.id)).Nodup := by
  have hreverse : (((subscribedIn changes).map Prod.snd).reverse.map (·.id)).Nodup := by
    rw [List.map_reverse, List.nodup_reverse, List.map_map]
    exact hb.numbers_nodup hfew
  exact hreverse.sublist (hb.live_sublist.map _)

end EventBus.Reflects

namespace Crowd

variable {s t u v : Crowd BusCall BusAnswer} {i : Nat} {m : Move BusCall} {h : Host}
  {A : Crowd BusCall BusAnswer → Move BusCall → Prop}

theorem Later.reflects (hbus : h.bus = {}) (hlater : Later A { host := h } s) :
    s.host.bus.Reflects s.busChanges := by
  induction hlater with
  | refl => exact hbus ▸ .initial
  | @tail u v hlater hnext ih =>
    obtain ⟨m, -, hstep⟩ := hnext
    cases Later.busStep hlater hstep with
    | same hbus hchanges => exact hbus ▸ hchanges ▸ ih
    | subscribed i topic handler hbus hchanges =>
      rw [hbus, hchanges]
      exact ih.subscribe i topic handler
    | unsubscribed i id hbus hchanges =>
      rw [hbus, hchanges]
      exact ih.unsubscribe i id

/-! ### What a publisher does -/

/-- How a publisher hands out its event: it calls nobody but those who are still to receive it, each
in turn. -/
def handsOut (all : List (HandlerRef × Event)) : Manner :=
  { Manner.alert (fun _ _ _ ↦ False) fun log c ↦
      ∃ x, c = .deliver x.1 x.2 ∧ deliveriesIn log ++ [x] <+: all with
    wait := fun _ ↦ False }

theorem deliverAll_abides {all : List (HandlerRef × Event)} {event : Event}
    {receivers : List Subscription} {log : List Feat}
    (hall : deliveriesIn log ++ receivers.map (fun x ↦ (x.handler, event)) = all) :
    ((Host.deliverAll event receivers).bind fun _ ↦ .done BusAnswer.delivered).Abides (handsOut all)
      (fun log _ _ ↦ deliveriesIn log = all) log h := by
  induction receivers generalizing log with
  | nil =>
    rw [List.map_nil, List.append_nil] at hall
    exact hall
  | cons x rest ih =>
    rw [List.map_cons, List.append_cons] at hall
    refine ⟨⟨(x.handler, event), rfl, hall ▸ List.prefix_append _ _⟩, fun _ ↦ ih ?_⟩
    rw [deliveriesIn_append]
    exact hall

/-- Who hands out an event in this manner has given it to the first so many, and to all when it is
finished. -/
theorem Stands.deliveries_prefix {all : List (HandlerRef × Event)} {task : Task BusAnswer}
    (hs : s.Stands (handsOut all) (fun log _ _ ↦ deliveriesIn log = all) i task) :
    s.deliveriesOf i <+: all ∧ ∀ o, task = .going (.done o) → s.deliveriesOf i = all := by
  cases hs with
  | @going h x hrely hx =>
    cases x with
    | done o =>
      have hdone : s.deliveriesOf i = all := hx
      exact ⟨hdone ▸ List.prefix_refl _, fun _ _ ↦ hdone⟩
    | act f k => exact (hx h trivial).1.elim
    | await claim k => exact hx.1.elim
    | call c k =>
      obtain ⟨⟨x, -, hprefix⟩, -⟩ := hx
      exact ⟨(List.prefix_append _ _).trans hprefix, nofun⟩
  | asking hrely hlog hcall hk =>
    obtain ⟨x, rfl, hprefix⟩ := hcall
    refine ⟨?_, nofun⟩
    rw [deliveriesOf, hlog, deliveriesIn_append]
    exact hprefix

/-- A client comes to the bus with its first step, from `u` to `v`. -/
structure Comes (h : Host) (s : Crowd BusCall BusAnswer) (i : Nat)
    (u v : Crowd BusCall BusAnswer) : Prop where
  before : Later Freely { host := h } u
  idle : u.feats i = []
  step : u.step (.proceed i) = some v
  since : Later Freely v s

/-- Who has done anything has once come to the bus. -/
theorem Later.exists_comes {e : BusCall} {task : Task BusAnswer}
    (hlater : Later Freely { host := h } s) (hi : s.clients[i]? = some ⟨e, task⟩)
    (hbegun : s.feats i ≠ []) :
    ∃ u v, Comes h s i u v ∧ u.clients[i]? = some ⟨e, .going (Errand.program e)⟩ := by
  obtain ⟨u, v, m, hu, -, hstep, hidle, hdone, hv⟩ :=
    hlater.exists_last (P := fun x ↦ x.feats i ≠ []) (by simp [feats]) hbegun
  have hidle' : u.feats i = [] := not_not.mp hidle
  have hhappens := happens_of_step hstep
  have hm : m.client? = some i := by
    by_contra hm
    exact hdone (hhappens.feats_of_others hm ▸ hidle')
  obtain ⟨⟨e', task'⟩, hclient⟩ := hhappens.exists_mover hm
  have hus : Later Freely u s := .head ⟨m, trivial, hstep⟩ hv.freely
  obtain ⟨task'', hsame⟩ := hus.exists_client hclient
  cases Option.some.inj (hsame.symm.trans hi)
  have htask : task' = .going (Errand.program e') := hu.task_of_idle hclient hidle'
  subst htask
  obtain rfl : m = .proceed i := by
    cases hhappens with
    | arrived | changed => cases hm
    | acted | asked => exact congrArg _ (Option.some.inj hm)
    | answered hj =>
      obtain rfl := Option.some.inj hm
      cases Option.some.inj (hclient.symm.trans hj)
  exact ⟨u, v, ⟨hu, hidle', hstep, hv.freely⟩, hclient⟩

/-- A publisher that has come hands its event to the handlers of those who are to receive it at that
moment, each in turn, whatever others do meanwhile. -/
theorem Comes.deliveries {topic : String} {payload : Json} {task : Task BusAnswer}
    (hcomes : Comes h s i u v) (hi : s.clients[i]? = some ⟨.publish topic payload, task⟩)
    (hclient : u.clients[i]? =
      some ⟨.publish topic payload, .going (Errand.program (BusCall.publish topic payload))⟩)
    (all : List (HandlerRef × Event))
    (hall : all = (u.host.bus.receivers topic).map fun x ↦
      (x.handler, (⟨topic, payload, u.host.now⟩ : Event))) :
    s.deliveriesOf i <+: all ∧ ∀ o, task = .going (.done o) → s.deliveriesOf i = all := by
  let rest : Prog Host BusAnswer :=
    (Host.deliverAll ⟨topic, payload, u.host.now⟩ (u.host.bus.receivers topic)).bind
      fun _ ↦ .done BusAnswer.delivered
  have hv : v = u.moved i (.publish topic payload) (.acted u.host u.host) u.host (.going rest) := by
    have hstep := hcomes.step
    simp only [Crowd.step, hclient] at hstep
    exact (Option.some.inj hstep).symm
  have hnow : v.clients[i]? = some ⟨.publish topic payload, .going rest⟩ := by
    rw [hv]
    exact getElem?_moved hclient ..
  have hlog : v.feats i = [.acted u.host u.host] := by
    rw [hv, feats_moved_self, hcomes.idle, List.nil_append]
  have hstands : v.Stands (handsOut all) (fun log _ _ ↦ deliveriesIn log = all) i (.going rest) :=
    .going ((handsOut all).refl _) (deliverAll_abides (by rw [hlog, hall]; rfl))
  obtain ⟨task', htask', hstands'⟩ :=
    hcomes.since.stands_on hnow hstands fun _ _ _ _ ↦ trivial
  obtain rfl : task' = task := by simpa using htask'.symm.trans hi
  exact hstands'.deliveries_prefix

/-! ### The bus as its users see it -/

/-- Answers and deliveries are as the subscriptions are that the answers so far tell of. -/
structure DeliversAsSubscribed (h : Host) (s : Crowd BusCall BusAnswer) : Prop where
  /-- No two calls are given one number. -/
  distinct : ∀ i j topic topic' handler handler' id,
    s.finished? i = some (.subscribe topic handler, .numbered id) →
    s.finished? j = some (.subscribe topic' handler', .numbered id) → i = j
  subscribe : ∀ i topic handler o, s.finished? i = some (.subscribe topic handler, o) →
    ∃ id u v, o = .numbered id ∧ Comes h s i u v ∧ v.live = u.live ++ [⟨id, topic, handler⟩]
  /-- A subscription is found if it is there, and then it is taken out and the others stay where
  they are. -/
  unsubscribe : ∀ i id o, s.finished? i = some (.unsubscribe id, o) →
    ∃ found u v, o = .found found ∧ Comes h s i u v ∧
      (found = true ↔ ∃ x ∈ u.live, x.id = id) ∧
      (found = true → ∃ before x later, u.live = before ++ x :: later ∧ x.id = id ∧
        v.live = before ++ later) ∧
      (found = false → v.live = u.live)
  /-- An event goes to those who have subscribed when its publisher comes, to each once and to
  nobody else: to those of its topic first, both in the order in which they have subscribed. So far
  it has been given to the first so many of them, and in the end to all; what happens on the way
  changes nothing. -/
  publish : ∀ i topic payload task, s.clients[i]? = some ⟨.publish topic payload, task⟩ →
    s.feats i ≠ [] → ∃ u v, Comes h s i u v ∧
      (∀ x, x ∈ recipients u.live topic ↔ x ∈ u.live ∧ (x.topic = topic ∨ x.topic = Topic.all)) ∧
      (recipients u.live topic).Nodup ∧
      let all := (recipients u.live topic).map fun x ↦
        (x.handler, (⟨topic, payload, u.host.now⟩ : Event))
      s.deliveriesOf i <+: all ∧ ∀ o, task = .going (.done o) → s.deliveriesOf i = all
  subscriberCount : ∀ topic,
    s.host.bus.subscriberCount topic = s.live.countP (Live.isOn topic)

/-- The calls made on the way to a later state are among those of the later state. -/
theorem Later.exists_busChanges (hs : Later Freely { host := h } s) (hlater : Later A s t) :
    ∃ xs, t.busChanges = xs ++ s.busChanges := by
  induction hlater with
  | refl => exact ⟨[], rfl⟩
  | @tail u v hlater hnext ih =>
    obtain ⟨m, -, hstep⟩ := hnext
    obtain ⟨xs, hxs⟩ := ih
    cases (hs.trans (Later.freely hlater)).busStep hstep with
    | same _ hchanges => exact ⟨xs, hchanges.trans hxs⟩
    | subscribed _ _ _ _ hchanges => exact ⟨_ :: xs, by rw [hchanges, hxs]; rfl⟩
    | unsubscribed _ _ _ hchanges => exact ⟨_ :: xs, by rw [hchanges, hxs]; rfl⟩

theorem Later.length_subscribed_le (hs : Later Freely { host := h } s) (hlater : Later A s t) :
    s.subscribed.length ≤ t.subscribed.length := by
  obtain ⟨xs, hxs⟩ := hs.exists_busChanges hlater
  rw [subscribed, subscribed, hxs, subscribedIn, subscribedIn, List.filterMap_append,
    List.length_append]
  omega

/-- A client that is finished with a single act has come to the bus for it, and the answer is what
the act says of the host as it was. -/
theorem Later.exists_comes_of_single {e : BusCall} {o : BusAnswer} {f : Host → Host}
    {g : Host → BusAnswer} (hsingle : Errand.program e = .act f fun h ↦ .done (g h))
    (hlater : Later Freely { host := h } s) (hi : s.finished? i = some (e, o)) :
    ∃ u v, Comes h s i u v ∧ u.clients[i]? = some ⟨e, .going (Errand.program e)⟩ ∧
      o = g u.host := by
  have hclient := getElem?_of_finished? hi
  have hbegun : s.feats i ≠ [] := by
    obtain ⟨-, htask⟩ | ⟨h', hfeats, -⟩ := hlater.cases_of_single hsingle hclient
    · cases htask
    · simp [hfeats]
  obtain ⟨u, v, hcomes, hu⟩ := hlater.exists_comes hclient hbegun
  refine ⟨u, v, hcomes, hu, ?_⟩
  obtain ⟨-, -, hv⟩ := hcomes.before.moved_of_single hsingle hu rfl hcomes.step
  have hanswer : v.finished? i = some (e, g u.host) :=
    finished?_eq_some (hv ▸ getElem?_moved hu ..)
  simpa [hi] using (hcomes.since.finished? hanswer).1

theorem Comes.live_nodup (hbus : h.bus = {}) (hcomes : Comes h s i u v)
    (hfew : s.subscribed.length < 2 ^ 64) : (u.live.map (·.id)).Nodup := by
  have hle : u.subscribed.length ≤ s.subscribed.length :=
    hcomes.before.length_subscribed_le (.head ⟨_, trivial, hcomes.step⟩ hcomes.since)
  exact (hcomes.before.reflects hbus).live_nodup (Nat.le_of_lt (Nat.lt_of_le_of_lt hle hfew))

theorem Later.exists_subscribed {topic : String} {handler : HandlerRef} {o : BusAnswer}
    (hlater : Later Freely { host := h } s)
    (hi : s.finished? i = some (.subscribe topic handler, o)) :
    ∃ id u v, o = .numbered id ∧ Comes h s i u v ∧ v.live = u.live ++ [⟨id, topic, handler⟩] := by
  obtain ⟨u, v, hcomes, hu, ho⟩ := hlater.exists_comes_of_single rfl hi
  obtain ⟨-, hchanges⟩ := hcomes.before.subscribe_moved hu rfl hcomes.step
  refine ⟨_, u, v, ho, hcomes, ?_⟩
  rw [live, hchanges]
  rfl

theorem Later.exists_unsubscribed {id : UInt64} {o : BusAnswer} (hbus : h.bus = {})
    (hlater : Later Freely { host := h } s) (hfew : s.subscribed.length < 2 ^ 64)
    (hi : s.finished? i = some (.unsubscribe id, o)) :
    ∃ found u v, o = .found found ∧ Comes h s i u v ∧
      (found = true ↔ ∃ x ∈ u.live, x.id = id) ∧
      (found = true → ∃ before x later, u.live = before ++ x :: later ∧ x.id = id ∧
        v.live = before ++ later) ∧
      (found = false → v.live = u.live) := by
  obtain ⟨u, v, hcomes, hu, ho⟩ := hlater.exists_comes_of_single rfl hi
  have hlive : v.live = u.live.filter (·.id != id) := by
    obtain ⟨-, hchanges⟩ := hcomes.before.unsubscribe_moved hu rfl hcomes.step
    rw [live, hchanges]
    rfl
  have hiff : (u.host.bus.unsubscribe id).1 = true ↔ ∃ x ∈ u.live, x.id = id :=
    (hcomes.before.reflects hbus).holds.found_iff id
  refine ⟨(u.host.bus.unsubscribe id).1, u, v, ho, hcomes, hiff, fun htrue ↦ ?_, fun hfalse ↦ ?_⟩
  · obtain ⟨x, hx, rfl⟩ := hiff.mp htrue
    obtain ⟨before, later, hsplit, hleft⟩ := exists_filter_eq (hcomes.live_nodup hbus hfew) hx
    exact ⟨before, x, later, hsplit, rfl, hlive.trans hleft⟩
  · rw [hlive, List.filter_eq_self]
    intro x hx
    have hne : ¬∃ x ∈ u.live, x.id = id := by simp [← hiff, hfalse]
    simpa using fun hid ↦ hne ⟨x, hx, hid⟩

/-- A client that was given a number has made the subscription with this number. -/
theorem Later.mem_subscribed {topic : String} {handler : HandlerRef} {id : UInt64}
    (hlater : Later A { host := h } s)
    (hi : s.finished? i = some (.subscribe topic handler, .numbered id)) :
    (i, ⟨id, topic, handler⟩) ∈ s.subscribed := by
  have hacted : ∃ h',
      .acted h' { h' with bus := (h'.bus.subscribe topic handler).2 } ∈ s.feats i := by
    obtain ⟨-, htask⟩ | ⟨h', hfeats, -⟩ := hlater.cases_of_single rfl (getElem?_of_finished? hi)
    · cases htask
    · exact ⟨h', hfeats ▸ List.mem_singleton_self _⟩
  obtain ⟨h', hmem⟩ := hacted
  have hchange : (i, .made ⟨id, topic, handler⟩) ∈ s.busChanges := by
    refine List.mem_filterMap.mpr ⟨_, mem_feats.mp hmem, ?_⟩
    rw [changeBy?, busChange?, hi]
    rfl
  exact List.mem_filterMap.mpr ⟨_, hchange, rfl⟩

/-- However calls to a bus interleave, those made by handlers while they are given an event
included, as long as the numbers do not start over. -/
theorem deliversAsSubscribed (hbus : h.bus = {}) (hlater : Later Freely { host := h } s)
    (hfew : s.subscribed.length < 2 ^ 64) : s.DeliversAsSubscribed h where
  distinct i j topic topic' handler handler' id hi hj := by
    have hnodup := (hlater.reflects hbus).numbers_nodup (Nat.le_of_lt hfew)
    exact congrArg Prod.fst
      (List.inj_on_of_nodup_map hnodup (hlater.mem_subscribed hi) (hlater.mem_subscribed hj) rfl)
  subscribe i topic handler o hi := hlater.exists_subscribed hi
  unsubscribe i id o hi := hlater.exists_unsubscribed hbus hfew hi
  publish i topic payload task hi hbegun := by
    obtain ⟨u, v, hcomes, hclient⟩ := hlater.exists_comes hi hbegun
    have hholds := (hcomes.before.reflects hbus).holds
    refine ⟨u, v, hcomes, fun x ↦ mem_recipients,
      recipients_nodup ((hcomes.live_nodup hbus hfew).of_map _) topic,
      hcomes.deliveries hi hclient _ ?_⟩
    rw [hholds.receivers, List.map_map]
    rfl
  subscriberCount topic := (hlater.reflects hbus).holds.subscriberCount topic

end Crowd

/-! ### A handler that calls the bus -/

namespace Small

open Crowd

/-- Two have subscribed, one of them to everything. While the first is given an event it ends the
other's subscription, makes one more, and publishes an event of its own. -/
def nested : Crowd BusCall BusAnswer :=
  ({ host := bare } : Crowd BusCall BusAnswer).after <|
    [.arrive (.subscribe "t" 7), .proceed 0, .arrive (.subscribe "*" 8), .proceed 1,
      .arrive (.publish "t" .null), .proceed 2, .proceed 2,
      .arrive (.unsubscribe 1), .proceed 3, .arrive (.subscribe "t" 9), .proceed 4,
      .arrive (.publish "t" .null)] ++ Move.plays 5 answers 4 ++ Move.plays 2 answers 4 ++
      [.arrive (.unsubscribe 1), .proceed 6]

/-- The event is still given to the one whose subscription is ended, and not to the new one. -/
theorem nested_deliversAsSubscribed :
    bare.bus = {} ∧ nested.subscribed.length < 2 ^ 64 ∧ nested.DeliversAsSubscribed bare ∧
      (nested.deliveriesOf 2).map Prod.fst = [7, 8] ∧
      (nested.deliveriesOf 5).map Prod.fst = [7, 9] ∧
      [0, 1, 3, 4, 6].map (fun i ↦ (nested.finished? i).map (·.2)) =
        [some (.numbered 0), some (.numbered 1), some (.found true), some (.numbered 2),
          some (.found false)] ∧
      nested.live.map (·.handler) = [7, 9] := by
  have hlength : nested.subscribed.length = 3 := by decide +kernel
  have hfew : nested.subscribed.length < 2 ^ 64 := by omega
  exact ⟨rfl, hfew, deliversAsSubscribed rfl (later_after ..) hfew, by decide +kernel,
    by decide +kernel, by decide +kernel, by decide +kernel⟩

end Small

end ComponentHost
