import ComponentHost.Event.Bus
import ComponentHost.Proofs.Tables

/-!
The subscriptions of a bus as one list.

A bus keeps a table with a list for each topic that has subscribers. For those who use it there is
one list of the subscriptions that have been made and not ended, in the order they were made:
`EventBus.Holds` says that the table keeps such a list. Subscribing puts one more at its end
(`Holds.subscribe`), ending takes one out (`Holds.unsubscribe`), and receivers and counts are
read off the list (`Holds.receivers`, `Holds.subscriberCount`).
-/

set_option autoImplicit false

namespace ComponentHost

namespace EventBus

/-- A subscription, with what was asked for. -/
structure Live where
  id : UInt64
  topic : String
  handler : HandlerRef
  deriving DecidableEq, Repr

namespace Live

/-- The subscription as it is kept under its topic. -/
def entry (x : Live) : Subscription := ⟨x.id, x.handler⟩

def isOn (topic : String) (x : Live) : Bool := x.topic == topic

end Live

/-- Who is to receive an event: the subscriptions of its topic in the order they were made, and then
those of every topic; an event of every topic is for the latter alone. -/
def recipients (live : List Live) (topic : String) : List Live :=
  if topic = Topic.all then live.filter (Live.isOn Topic.all)
  else live.filter (Live.isOn topic) ++ live.filter (Live.isOn Topic.all)

theorem mem_recipients {live : List Live} {topic : String} {x : Live} :
    x ∈ recipients live topic ↔ x ∈ live ∧ (x.topic = topic ∨ x.topic = Topic.all) := by
  unfold recipients
  split
  next h => simp [Live.isOn, h]
  next => simp [Live.isOn, and_or_left]

/-- Nobody is to receive an event twice. -/
theorem recipients_nodup {live : List Live} (hnodup : live.Nodup) (topic : String) :
    (recipients live topic).Nodup := by
  unfold recipients
  split
  · exact hnodup.filter _
  next hne =>
    refine (hnodup.filter _).append (hnodup.filter _) fun x hx hx' ↦ hne ?_
    have htopic : x.topic = topic := eq_of_beq (List.mem_filter.mp hx).2
    have hall : x.topic = Topic.all := eq_of_beq (List.mem_filter.mp hx').2
    exact htopic.symm.trans hall

/-- The bus keeps these subscriptions, in this order. -/
structure Holds (b : EventBus) (live : List Live) : Prop where
  /-- No topic has two lists. -/
  topics : (b.subscribers.map Prod.fst).Nodup
  /-- Every list has subscriptions. -/
  nonempty : ∀ x ∈ b.subscribers, x.2 ≠ []
  ofTopic : ∀ topic, b.ofTopic topic = (live.filter (Live.isOn topic)).map Live.entry

variable {b : EventBus} {live : List Live} {topic : String} {id : UInt64}

/-! ### What is kept -/

theorem Holds.eq_of_mem {subscriptions : List Subscription} (h : b.Holds live)
    (hmem : (topic, subscriptions) ∈ b.subscribers) :
    subscriptions = (live.filter (Live.isOn topic)).map Live.entry := by
  have hget := (Table.get?_eq_some_iff h.topics).mpr hmem
  rw [← h.ofTopic, EventBus.ofTopic, hget, Option.getD_some]

theorem Holds.exists_mem {x : Live} (h : b.Holds live) (hx : x ∈ live) :
    ∃ subscriptions, (x.topic, subscriptions) ∈ b.subscribers ∧ x.entry ∈ subscriptions := by
  have hentry : x.entry ∈ b.ofTopic x.topic := by
    rw [h.ofTopic]
    exact List.mem_map_of_mem (List.mem_filter.mpr ⟨hx, beq_self_eq_true _⟩)
  cases hget : b.subscribers.get? x.topic with
  | none => simp [EventBus.ofTopic, hget] at hentry
  | some subscriptions =>
    rw [EventBus.ofTopic, hget] at hentry
    exact ⟨subscriptions, (Table.get?_eq_some_iff h.topics).mp hget, hentry⟩

/-! ### Subscribing -/

theorem get?_enter (topic : String) (s : Subscription) (t : Table (List Subscription))
    (topic' : String) : (enter topic s t).get? topic' =
      if topic' = topic then some ((t.get? topic).getD [] ++ [s]) else t.get? topic' := by
  induction t with
  | nil => rw [enter, Table.get?_cons]; rfl
  | cons x rest ih =>
    obtain ⟨t, subscriptions⟩ := x
    unfold enter
    split
    next heq =>
      subst heq
      simp only [Table.get?_cons, if_true, Option.getD_some]
      split <;> rfl
    next hne =>
      rw [Table.get?_cons, Table.get?_cons, Table.get?_cons, ih, if_neg (Ne.symm hne)]
      grind

theorem mem_enter {s : Subscription} {t : Table (List Subscription)}
    {x : String × List Subscription} (hx : x ∈ enter topic s t) : x ∈ t ∨ x.2 ≠ [] := by
  induction t with
  | nil =>
    obtain rfl := List.mem_singleton.mp hx
    exact .inr (List.cons_ne_nil _ _)
  | cons y rest ih =>
    unfold enter at hx
    split at hx
    · obtain rfl | hrest := List.mem_cons.mp hx
      · exact .inr (by simp)
      · exact .inl (List.mem_cons_of_mem _ hrest)
    · obtain rfl | hrest := List.mem_cons.mp hx
      · exact .inl List.mem_cons_self
      · exact (ih hrest).imp_left (List.mem_cons_of_mem _)

theorem enter_map_fst_nodup {s : Subscription} {t : Table (List Subscription)}
    (hnodup : (t.map Prod.fst).Nodup) : ((enter topic s t).map Prod.fst).Nodup := by
  induction t with
  | nil => exact List.nodup_singleton _
  | cons x rest ih =>
    obtain ⟨t, subscriptions⟩ := x
    obtain ⟨hnew, hrest⟩ := List.nodup_cons.mp hnodup
    unfold enter
    split
    · exact List.nodup_cons.mpr ⟨hnew, hrest⟩
    next hne =>
      refine List.nodup_cons.mpr ⟨?_, ih hrest⟩
      rw [← Table.get?_eq_none_iff, get?_enter, if_neg hne]
      exact Table.get?_eq_none_iff.mpr hnew

/-- A new subscription is the last one. -/
theorem Holds.subscribe (h : b.Holds live) (hactive : b.active = true) (topic : String)
    (handler : HandlerRef) :
    (b.subscribe topic handler).2.Holds
      (live ++ [⟨(b.subscribe topic handler).1, topic, handler⟩]) := by
  have htable : (b.subscribe topic handler).2.subscribers =
      enter topic ⟨b.nextId, handler⟩ b.subscribers := if_pos hactive
  refine ⟨?_, fun x hx ↦ ?_, fun topic' ↦ ?_⟩
  · rw [htable]
    exact enter_map_fst_nodup h.topics
  · exact (mem_enter (htable ▸ hx)).elim (h.nonempty x) id
  · have hbefore : (b.subscribers.get? topic').getD [] = _ := h.ofTopic topic'
    rw [EventBus.ofTopic, htable, get?_enter, List.filter_append, List.map_append, ← hbefore]
    by_cases htopic : topic' = topic
    · subst htopic
      simp [Live.isOn, Live.entry, EventBus.subscribe]
    · simp [Live.isOn, htopic, Ne.symm htopic]

/-! ### Ending a subscription -/

theorem without_map_entry (id : UInt64) (live : List Live) :
    without id (live.map Live.entry) = (live.filter (·.id != id)).map Live.entry := by
  rw [without, List.filter_map]
  rfl

/-- What is kept of a topic is what was there, but for the subscription that is ended. -/
theorem get?_kept {t : Table (List Subscription)} (hnodup : (t.map Prod.fst).Nodup) (id : UInt64)
    (topic : String) :
    (Table.get? ((t.map fun x ↦ (x.1, without id x.2)).filter fun x ↦ !x.2.isEmpty) topic).getD [] =
      without id ((t.get? topic).getD []) := by
  induction t with
  | nil => rfl
  | cons x rest ih =>
    obtain ⟨t, subscriptions⟩ := x
    obtain ⟨hnew, hrest⟩ := List.nodup_cons.mp hnodup
    have hnone : Table.get? rest t = none := Table.get?_eq_none_iff.mpr hnew
    rw [List.map_cons, Table.get?_cons]
    cases hkept : without id subscriptions with
    | nil =>
      rw [List.filter_cons_of_neg (by simp), ih hrest]
      split
      next heq => rw [heq, hnone, Option.getD_some, hkept]; rfl
      next => rfl
    | cons s kept =>
      rw [List.filter_cons_of_pos (by simp), Table.get?_cons]
      split
      · exact hkept.symm
      · exact ih hrest

theorem Holds.unsubscribe (h : b.Holds live) (id : UInt64) :
    (b.unsubscribe id).2.Holds (live.filter (·.id != id)) := by
  refine ⟨?_, fun x hx ↦ ?_, fun topic ↦ ?_⟩
  · have hsame : (b.subscribers.map fun x ↦ (x.1, without id x.2)).map Prod.fst =
        b.subscribers.map Prod.fst := by
      rw [List.map_map]
      rfl
    exact h.topics.sublist (hsame ▸ List.filter_sublist.map _)
  · have hkept := (List.mem_filter.mp hx).2
    simpa using hkept
  · have hbefore : (b.subscribers.get? topic).getD [] = _ := h.ofTopic topic
    refine (get?_kept h.topics id topic).trans ?_
    rw [hbefore, without_map_entry, List.filter_filter, List.filter_filter]
    simp only [Bool.and_comm]

theorem length_without_bne_iff {subscriptions : List Subscription} :
    ((without id subscriptions).length != subscriptions.length) = true ↔
      ∃ s ∈ subscriptions, s.id = id := by
  rw [bne_iff_ne, without, ne_eq, List.length_filter_eq_length_iff]
  simp

/-- Only a subscription that is there is found. -/
theorem Holds.found_iff (h : b.Holds live) (id : UInt64) :
    (b.unsubscribe id).1 = true ↔ ∃ x ∈ live, x.id = id := by
  have hfound : (b.unsubscribe id).1 = true ↔
      ∃ e ∈ b.subscribers, ∃ s ∈ e.2, s.id = id := by
    simp only [EventBus.unsubscribe, List.any_eq_true, length_without_bne_iff]
  rw [hfound]
  constructor
  · rintro ⟨⟨topic, subscriptions⟩, hmem, s, hs, hid⟩
    obtain ⟨x, hx, rfl⟩ := List.mem_map.mp (h.eq_of_mem hmem ▸ hs)
    exact ⟨x, (List.mem_filter.mp hx).1, hid⟩
  · rintro ⟨x, hx, hid⟩
    obtain ⟨subscriptions, hmem, hentry⟩ := h.exists_mem hx
    exact ⟨_, hmem, x.entry, hentry, hid⟩

/-- Among subscriptions with numbers of their own, leaving out a number leaves out one subscription
and the others where they are. -/
theorem exists_filter_eq {x : Live} (hnodup : (live.map (·.id)).Nodup) (hx : x ∈ live) :
    ∃ before later, live = before ++ x :: later ∧
      live.filter (·.id != x.id) = before ++ later := by
  obtain ⟨before, later, rfl⟩ := List.append_of_mem hx
  refine ⟨before, later, rfl, ?_⟩
  have hothers : ∀ y ∈ before ++ later, y.id ≠ x.id := by
    have hfront :=
      ((List.perm_middle : (before ++ x :: later).Perm _).map (·.id)).nodup_iff.mp hnodup
    intro y hy heq
    exact (List.nodup_cons.mp hfront).1 (List.mem_map.mpr ⟨y, hy, heq⟩)
  rw [List.filter_append, List.filter_cons_of_neg (by simp), ← List.filter_append,
    List.filter_eq_self.mpr]
  exact fun y hy ↦ bne_iff_ne.mpr (hothers y hy)

/-! ### Reading -/

theorem Holds.subscriberCount (h : b.Holds live) (topic : String) :
    b.subscriberCount topic = live.countP (Live.isOn topic) := by
  rw [EventBus.subscriberCount, h.ofTopic, List.length_map, List.countP_eq_length_filter]

theorem Holds.receivers (h : b.Holds live) (topic : String) :
    b.receivers topic = (recipients live topic).map Live.entry := by
  have hlist (topics : List String) :
      (topics.filterMap b.subscribers.get?).flatten = topics.flatMap b.ofTopic := by
    induction topics with
    | nil => rfl
    | cons t rest ih =>
      rw [List.flatMap_cons, ← ih]
      cases hget : b.subscribers.get? t <;> simp [hget, EventBus.ofTopic]
  unfold EventBus.receivers recipients
  rw [hlist]
  split <;> simp [h.ofTopic]

end EventBus

end ComponentHost
