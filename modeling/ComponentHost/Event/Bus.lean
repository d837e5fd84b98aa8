import ComponentHost.Event.Basic
import ComponentHost.Registry

/-!
Subscriptions to events.

An event goes to the subscriptions of its topic in the order they were made, and after them to
those of every topic.
-/

set_option autoImplicit false

namespace ComponentHost

/-- The number of an event handler; handlers are decided outside the host. -/
abbrev HandlerRef := Nat

/-- A subscription, by the number its subscriber was given. -/
structure Subscription where
  id : UInt64
  handler : HandlerRef
  deriving DecidableEq, Repr

/-- The subscriptions of a system. -/
structure EventBus where
  /-- A bus that is off numbers subscriptions and delivers nothing. -/
  active : Bool := true
  /-- The number of the next subscription; after the largest the numbers start over. -/
  nextId : UInt64 := 0
  /-- The subscriptions of every topic that has any, in the order they were made. -/
  subscribers : Table (List Subscription) := []
  deriving DecidableEq, Repr

namespace EventBus

/-- Puts a subscription behind the others of its topic. -/
def enter (topic : String) (s : Subscription) :
    Table (List Subscription) → Table (List Subscription)
  | [] => [(topic, [s])]
  | (t, subscriptions) :: rest =>
    if t = topic then (t, subscriptions ++ [s]) :: rest
    else (t, subscriptions) :: enter topic s rest

def subscribe (b : EventBus) (topic : String) (handler : HandlerRef) : UInt64 × EventBus :=
  (b.nextId,
    { b with
      nextId := b.nextId + 1
      subscribers :=
        if b.active then enter topic ⟨b.nextId, handler⟩ b.subscribers else b.subscribers })

/-- The subscriptions but one. -/
def without (id : UInt64) (subscriptions : List Subscription) : List Subscription :=
  subscriptions.filter (·.id != id)

/-- Ends a subscription; answers whether it was there. A topic is given up with its last
subscription. -/
def unsubscribe (b : EventBus) (id : UInt64) : Bool × EventBus :=
  (b.subscribers.any fun (_, subscriptions) ↦
      (without id subscriptions).length != subscriptions.length,
    { b with
      subscribers :=
        (b.subscribers.map fun (topic, subscriptions) ↦ (topic, without id subscriptions)).filter
          fun (_, subscriptions) ↦ !subscriptions.isEmpty })

/-- The subscriptions of exactly this topic. -/
def ofTopic (b : EventBus) (topic : String) : List Subscription :=
  (b.subscribers.get? topic).getD []

def subscriberCount (b : EventBus) (topic : String) : Nat := (b.ofTopic topic).length

/-- Who receives an event of this topic, in order. -/
def receivers (b : EventBus) (topic : String) : List Subscription :=
  let topics := if topic = Topic.all then [Topic.all] else [topic, Topic.all]
  (topics.filterMap b.subscribers.get?).flatten

/-- The topics with subscriptions. -/
def topics (b : EventBus) : List String := b.subscribers.map (·.1)

def summary (b : EventBus) : String :=
  "ZiCInMemoryEventBus \x7b topics: " ++ Registry.listSummary b.topics ++ " \x7d"

end EventBus

end ComponentHost
