import ComponentHost.Registry
import Mathlib.Data.List.Nodup
import Mathlib.Data.String.Basic

/-!
Tables, and the changes of what an identifier stands for in one.

The changes are told with the latest first. Where nothing is ever put in the place of something else
they alternate (`Change.Alternates`): what is removed was bound just before, and what is bound was
free.
-/

set_option autoImplicit false

namespace ComponentHost

/-! ### Looking up -/

namespace Table

variable {α : Type} {t : Table α} {id : String} {a : α}

theorem get?_cons (id : String) (a : α) (t : Table α) (id' : String) :
    get? ((id, a) :: t) id' = if id' = id then some a else t.get? id' := by
  unfold get?
  rw [List.lookup_cons]
  by_cases hid : id' = id
  · simp [hid]
  · have hne : (id' == id) = false := by simpa using hid
    rw [hne, if_neg hid]

theorem get?_eq_none_iff : t.get? id = none ↔ id ∉ t.map Prod.fst := by
  induction t with
  | nil => simp [get?]
  | cons x rest ih =>
    rw [get?_cons]
    by_cases hid : id = x.1 <;> simp [hid, ih]

theorem contains_eq_false_iff : t.contains id = false ↔ id ∉ t.map Prod.fst := by
  rw [← get?_eq_none_iff, contains, get?, Option.isSome_eq_false_iff, Option.isNone_iff_eq_none]

/-- Where no identifier is bound twice, what is bound under one is what is looked up. -/
theorem get?_eq_some_iff (hnodup : (t.map Prod.fst).Nodup) : t.get? id = some a ↔ (id, a) ∈ t := by
  induction t with
  | nil => simp [get?]
  | cons x rest ih =>
    obtain ⟨id', b⟩ := x
    obtain ⟨hnot, hrest⟩ := List.nodup_cons.mp hnodup
    rw [get?_cons]
    by_cases hid : id = id'
    · subst hid
      have hfree : (id, a) ∉ rest := fun hmem ↦ hnot (List.mem_map.mpr ⟨_, hmem, rfl⟩)
      simp [hfree, eq_comm]
    · simp [hid, ih hrest]

/-- One more binding, under an identifier that is free. -/
theorem get?_bind (hfree : t.contains id = false) (a : α) (id' : String) :
    (t.bind id a).get? id' = if id' = id then some a else t.get? id' := by
  have hnot : id ∉ t.map Prod.fst := contains_eq_false_iff.mp hfree
  unfold bind
  induction t with
  | nil => exact get?_cons id a [] id'
  | cons x rest ih =>
    obtain ⟨id'', b⟩ := x
    obtain ⟨hne, hrest⟩ : id ≠ id'' ∧ id ∉ rest.map Prod.fst := by simpa using hnot
    rw [List.cons_append, get?_cons, get?_cons, ih (contains_eq_false_iff.mpr hrest) hrest]
    grind

theorem get?_erase (t : Table α) (id id' : String) :
    (t.erase id).get? id' = if id' = id then none else t.get? id' := by
  unfold erase
  induction t with
  | nil => simp [get?]
  | cons x rest ih =>
    obtain ⟨id'', b⟩ := x
    by_cases hid : id'' = id
    · subst hid
      rw [List.filter_cons_of_neg (by simp), ih, get?_cons]
      grind
    · rw [List.filter_cons_of_pos (by simpa using hid), get?_cons, get?_cons, ih]
      grind

theorem bind_map_fst_nodup (hnodup : (t.map Prod.fst).Nodup) (hfree : t.contains id = false)
    (a : α) : ((t.bind id a).map Prod.fst).Nodup := by
  rw [bind, List.map_append]
  exact hnodup.append (List.nodup_singleton _)
    (List.disjoint_singleton.mpr (contains_eq_false_iff.mp hfree))

theorem erase_map_fst_nodup (hnodup : (t.map Prod.fst).Nodup) (id : String) :
    ((t.erase id).map Prod.fst).Nodup :=
  hnodup.sublist (List.filter_sublist.map _)

theorem mem_ids : id ∈ t.ids ↔ ∃ a, t.get? id = some a := by
  rw [ids, (List.mergeSort_perm ..).mem_iff, ← Option.ne_none_iff_exists', ne_eq, get?_eq_none_iff,
    not_not]

/-- The identifiers are listed in strictly increasing order. -/
theorem ids_pairwise_lt (hnodup : (t.map Prod.fst).Nodup) : t.ids.Pairwise (· < ·) := by
  have hsorted : t.ids.Pairwise fun a b ↦ decide (a ≤ b) = true :=
    List.pairwise_mergeSort (by grind) (by grind) _
  have hdistinct : t.ids.Nodup := ((List.mergeSort_perm ..).nodup_iff).mpr hnodup
  refine (hsorted.and hdistinct).imp fun ⟨hle, hne⟩ ↦ ?_
  exact lt_of_le_of_ne (of_decide_eq_true hle) hne

end Table

/-! ### Changes -/

/-- A change of what an identifier stands for. -/
inductive Change (α : Type) where
  | bound (a : α)
  | removed (a : α)
  | replaced (before after : α)
  deriving DecidableEq

namespace Change

variable {α : Type} {a : α} {xs : List (Change α)}

def isRemoval : Change α → Bool
  | .removed _ => true
  | _ => false

def isBinding : Change α → Bool
  | .bound _ => true
  | _ => false

/-- The change from one meaning of an identifier to another, if they differ. -/
def between? [DecidableEq α] : Option α → Option α → Option (Change α)
  | none, none => none
  | none, some a => some (.bound a)
  | some a, none => some (.removed a)
  | some a, some b => if a = b then none else some (.replaced a b)

@[simp] theorem between?_self [DecidableEq α] (x : Option α) : between? x x = none := by
  cases x <;> simp [between?]

theorem between?_bind [DecidableEq α] {t : Table α} {id : String} (hfree : t.contains id = false)
    (a : α) (id' : String) :
    between? (t.get? id') ((t.bind id a).get? id') =
      if id' = id then some (.bound a) else none := by
  rw [Table.get?_bind hfree]
  by_cases hid : id' = id
  · have hnone : t.get? id = none :=
      Table.get?_eq_none_iff.mpr (Table.contains_eq_false_iff.mp hfree)
    simp [hid, hnone, between?]
  · simp [hid]

theorem between?_erase [DecidableEq α] {t : Table α} {id : String} (hbound : t.get? id = some a)
    (id' : String) :
    between? (t.get? id') ((t.erase id).get? id') =
      if id' = id then some (.removed a) else none := by
  rw [Table.get?_erase]
  by_cases hid : id' = id
  · simp [hid, hbound, between?]
  · simp [hid]

/-- What an identifier stands for after the changes, the latest first: what was bound last, unless
it has been removed. -/
def standing : List (Change α) → Option α
  | .bound a :: _ | .replaced _ a :: _ => some a
  | .removed _ :: _ | [] => none

/-- Binding and removing by turns, beginning with a binding, where what is removed is what was
bound; the latest first. -/
def Alternates : List (Change α) → Prop
  | [] => True
  | .bound _ :: rest => standing rest = none ∧ Alternates rest
  | .removed a :: rest => standing rest = some a ∧ Alternates rest
  | .replaced _ _ :: _ => False

/-- One more change of an identifier, that is not a replacement. -/
theorem Alternates.step [DecidableEq α] {before after : Option α} (hxs : Alternates xs)
    (hbefore : standing xs = before) (hkept : before = none ∨ after = none ∨ after = before) :
    Alternates ((between? before after).toList ++ xs) ∧
      standing ((between? before after).toList ++ xs) = after := by
  cases before with
  | none =>
    cases after with
    | none => exact ⟨hxs, hbefore⟩
    | some b => exact ⟨⟨hbefore, hxs⟩, rfl⟩
  | some a =>
    cases after with
    | none => exact ⟨⟨hbefore, hxs⟩, rfl⟩
    | some b =>
      obtain rfl : b = a := by simpa using hkept
      rw [between?_self]
      exact ⟨hxs, hbefore⟩

/-- Where the changes alternate, there is one binding more than there are removals while something
is bound, and else as many. -/
theorem Alternates.countP_eq (hxs : Alternates xs) :
    xs.countP isBinding = xs.countP isRemoval + if (standing xs).isSome then 1 else 0 := by
  induction xs with
  | nil => rfl
  | cons x rest ih =>
    cases x with
    | bound a =>
      obtain ⟨hfree, hrest⟩ := hxs
      have hbefore := ih hrest
      rw [hfree] at hbefore
      rw [List.countP_cons_of_pos rfl, List.countP_cons_of_neg (by simp [isRemoval]), hbefore]
      rfl
    | removed a =>
      obtain ⟨hbound, hrest⟩ := hxs
      have hbefore := ih hrest
      rw [hbound] at hbefore
      rw [List.countP_cons_of_neg (by simp [isBinding]), List.countP_cons_of_pos rfl, hbefore]
      rfl
    | replaced a b => exact hxs.elim

end Change

end ComponentHost
