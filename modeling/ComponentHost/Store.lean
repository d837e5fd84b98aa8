/-!
Things told apart by numbers that are handed out in order.
-/

set_option autoImplicit false

namespace ComponentHost

/-- The things numbered so far, and what each number stands for now. -/
structure Store (α : Type) where
  count : Nat
  get : Nat → α

namespace Store

variable {α : Type}

instance [Inhabited α] : Inhabited (Store α) := ⟨⟨0, fun _ ↦ default⟩⟩

def empty [Inhabited α] : Store α := default

/-- Numbers one more thing. -/
def add (s : Store α) (a : α) : Nat × Store α :=
  (s.count, ⟨s.count + 1, fun i ↦ if i = s.count then a else s.get i⟩)

def modify (s : Store α) (i : Nat) (f : α → α) : Store α :=
  { s with get := fun j ↦ if j = i then f (s.get j) else s.get j }

/-- Makes a number stand for something else. -/
def set (s : Store α) (i : Nat) (a : α) : Store α := s.modify i fun _ ↦ a

@[simp] theorem get_modify_self (s : Store α) (i : Nat) (f : α → α) :
    (s.modify i f).get i = f (s.get i) := by simp [modify]

@[simp] theorem get_modify_ne (s : Store α) {i j : Nat} (f : α → α) (h : j ≠ i) :
    (s.modify i f).get j = s.get j := by simp [modify, h]

@[simp] theorem count_modify (s : Store α) (i : Nat) (f : α → α) :
    (s.modify i f).count = s.count := rfl

@[simp] theorem get_add_self (s : Store α) (a : α) : (s.add a).2.get s.count = a := by simp [add]

@[simp] theorem get_add_ne (s : Store α) (a : α) {i : Nat} (h : i ≠ s.count) :
    (s.add a).2.get i = s.get i := by simp [add, h]

end Store

end ComponentHost
