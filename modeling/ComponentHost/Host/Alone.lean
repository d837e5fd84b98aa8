import ComponentHost.Host.Collaborators
import ComponentHost.Machine

/-!
A host on its own: nothing from outside is attached to it and nobody else acts on it.

What would have to be answered from outside is refused.
-/

set_option autoImplicit false

namespace ComponentHost.Host

/-- The answer of a collaborator that is not there. -/
def refusal : (c : Call) → c.Reply
  | .create _ _ | .lifecycle _ _ _ | .execute _ _ _ | .plugin _ _ _ | .generateId _ =>
    .error (.internal "not attached to the host")
  | .release _ | .publish _ _ | .deliver _ _ | .log _ | .line _ => ()

/-- The collaborators of a host on its own. -/
def ownEnvironment : Environment Host := fun c ↦ (answer? c).getD (.done (refusal c))

/-- Carries out an action on a host on its own: its outcome and the host after it. -/
def perform? {α : Type} (fuel : Nat) (action : Action α) (h : Host) :
    Option (Except Error α × Host) :=
  action.run.alone ownEnvironment fuel h

end ComponentHost.Host
