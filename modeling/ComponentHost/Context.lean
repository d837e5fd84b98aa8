import ComponentHost.Error.Basic
import ComponentHost.Store

/-!
Contexts: what a caller cancels to call off the work it asked for.

A context is cancelled on its own or together with the context it was derived from, and stays
cancelled. Contexts form trees: each knows the one it derives from and those derived from it. When
nobody holds a context any more it leaves its tree, and what derived from it derives from its parent
then, so cancelling still reaches it.
-/

set_option autoImplicit false

namespace ComponentHost

/-- The number of a context. -/
abbrev ContextRef := Nat

/-- A context and its place in the tree. -/
structure Context where
  parent : Option ContextRef := none
  /-- The contexts derived from it. -/
  children : List ContextRef := []
  cancelled : Bool := false
  /-- How many hold it. -/
  holders : Nat := 1
  deriving DecidableEq, Repr

instance : Inhabited Context := ⟨{ holders := 0 }⟩

/-- All contexts so far. -/
abbrev Contexts := Store Context

namespace Contexts

def isCancelled (cs : Contexts) (ref : ContextRef) : Bool := (cs.get ref).cancelled

def check (cs : Contexts) (ref : ContextRef) : Except Error Unit :=
  if cs.isCancelled ref then .error .cancelled else .ok ()

/-! New contexts; each has one holder. -/

/-- A context on its own. -/
def background (cs : Contexts) : ContextRef × Contexts := cs.add { parent := none }

/-- A context that is cancelled with its parent. One that is cancelled already has no children. -/
def child (cs : Contexts) (parent : ContextRef) : ContextRef × Contexts :=
  if cs.isCancelled parent then cs.add { cancelled := true }
  else
    let (ref, cs) := cs.add { parent := some parent }
    (ref, cs.modify parent fun c ↦ { c with children := c.children ++ [ref] })

/-! Holders. -/

/-- One more holds a context. -/
def hold (cs : Contexts) (ref : ContextRef) : Contexts :=
  cs.modify ref fun c ↦ { c with holders := c.holders + 1 }

/-- Takes an element out of a list; the last one moves to its place. -/
def takeOut (ref : ContextRef) (refs : List ContextRef) : List ContextRef :=
  match refs.getLast? with
  | none => []
  | some last => if last = ref then refs.dropLast else refs.dropLast.replace ref last

/-- Gives contexts another parent. -/
def reparent (cs : Contexts) (refs : List ContextRef) (parent : Option ContextRef) : Contexts :=
  refs.foldl (fun cs ref ↦ cs.modify ref fun c ↦ { c with parent }) cs

/-- Takes a context out of its tree. Its children go to its parent. -/
def leave (cs : Contexts) (ref : ContextRef) : Contexts :=
  let c := cs.get ref
  let cs := (cs.reparent c.children c.parent).modify ref fun c ↦
    { c with parent := none, children := [] }
  match c.parent with
  | none => cs
  | some parent => cs.modify parent fun p ↦
    { p with children := takeOut ref (p.children ++ c.children) }

/-- One less holds a context. -/
def release (cs : Contexts) (ref : ContextRef) : Contexts :=
  let cs : Contexts := cs.modify ref fun c ↦ { c with holders := c.holders - 1 }
  if (cs.get ref).holders = 0 then cs.leave ref else cs

/-! Cancelling. -/

/-- The contexts below one in the order in which they are cancelled, beginning with `next`. The
first of the `queue` follows a context that is cancelled now, and behind the queue its own children
line up, the latest first; what is cancelled already is passed over for the last of the queue. -/
def sweep (cs : Contexts) : Nat → Option ContextRef → List ContextRef → List ContextRef
  | 0, _, _ => []
  | _, none, _ => []
  | fuel + 1, some next, queue =>
    if cs.isCancelled next then sweep cs fuel queue.getLast? queue.dropLast
    else
      let queue := queue ++ ((cs.get next).children.filter (!cs.isCancelled ·)).reverse
      next :: sweep cs fuel queue.head? queue.tail

/-- The contexts that are cancelled with one, that one last; none if it is cancelled already. -/
def cancelledWith (cs : Contexts) (ref : ContextRef) : List ContextRef :=
  if cs.isCancelled ref then []
  else
    let children := (cs.get ref).children
    sweep cs (cs.count + 1) children.getLast? children.dropLast ++ [ref]

/-- Cancels one context by itself. -/
def cancel (cs : Contexts) (ref : ContextRef) : Contexts :=
  let c := cs.get ref
  (cs.reparent c.children none).modify ref fun c ↦ { c with cancelled := true, children := [] }

end Contexts

end ComponentHost
