import ComponentHost.Proofs.ErrorReading

/-!
The causes of an error.

An error may wrap the one that caused it, and this again another one. Who follows the causes comes
to an end (`Error.Unwraps`), after as many of them as the error is deep, and the last of them is the
root cause. What a wrapping says comes before the text of what it wraps, so that the text of an
error ends with the text of each of its causes (`Error.unwraps_to_rootCause`).

What is to be shown of all errors is shown of those that wrap nothing, and carried over one wrapping
(`Error.source_induction`).
-/

set_option autoImplicit false

namespace ComponentHost.Error

/-- The causes of an error one after the other, the one it wraps first, until there is none. -/
inductive Unwraps : Error → List Error → Prop where
  | ends {e : Error} (hend : e.source? = none) : Unwraps e []
  | goes {e s : Error} {causes : List Error} (hsource : e.source? = some s)
      (hrest : Unwraps s causes) : Unwraps e (s :: causes)

variable {e s : Error}

/-! ### One wrapping -/

theorem source_induction {P : Error → Prop} (hroot : ∀ e, e.source? = none → P e)
    (hwraps : ∀ e s, e.source? = some s → P s → P e) (e : Error) : P e := by
  induction e with
  | operationFailed _ s ih | componentInitFailed _ _ s ih | componentStartFailed _ _ s ih
  | componentStopFailed _ _ s ih | plugin _ _ s ih => exact hwraps _ s rfl ih
  | _ => exact hroot _ rfl

theorem rootCause_of_source? (hs : e.source? = some s) : e.rootCause = s.rootCause := by
  cases e <;> simp_all [source?, rootCause]

theorem rootCause_eq_self (he : e.source? = none) : e.rootCause = e := by
  cases e <;> simp_all [source?, rootCause]

/-- What a wrapping says comes before the text of what it wraps. -/
theorem message_of_source? (hs : e.source? = some s) :
    ∃ lead, e.message = lead ++ s.message := by
  cases e with
  | operationFailed _ s' | componentInitFailed _ _ s' | componentStartFailed _ _ s'
  | componentStopFailed _ _ s' | plugin _ _ s' =>
    obtain rfl : s' = s := Option.some.inj hs
    exact ⟨_, rfl⟩
  | _ => cases hs

/-! ### All wrappings -/

theorem rootCause_source? (e : Error) : e.rootCause.source? = none := by
  induction e using source_induction with
  | hroot e he => rw [rootCause_eq_self he, he]
  | hwraps e s hs ih => rw [rootCause_of_source? hs, ih]

/-- The causes come to an end. -/
theorem exists_unwraps (e : Error) : ∃ causes, e.Unwraps causes := by
  induction e using source_induction with
  | hroot e he => exact ⟨[], .ends he⟩
  | hwraps e s hs ih =>
    obtain ⟨causes, hcauses⟩ := ih
    exact ⟨s :: causes, .goes hs hcauses⟩

namespace Unwraps

variable {causes causes' : List Error}

theorem unique (h : e.Unwraps causes) (h' : e.Unwraps causes') : causes' = causes := by
  induction h generalizing causes' with
  | ends hend =>
    cases h' with
    | ends => rfl
    | goes hsource => cases hend.symm.trans hsource
  | goes hsource _ ih =>
    cases h' with
    | ends hend => cases hend.symm.trans hsource
    | goes hsource' hrest =>
      cases hsource.symm.trans hsource'
      rw [ih hrest]

theorem length_eq (h : e.Unwraps causes) : causes.length = e.depth := by
  induction h with
  | ends hend => exact (depth_eq_zero_of_source? hend).symm
  | goes hsource _ ih => rw [depth_of_source? hsource, ← ih, List.length_cons]

/-- The last cause is the root cause, which is the error itself if it wraps nothing. -/
theorem getLast?_eq (h : e.Unwraps causes) : (e :: causes).getLast? = some e.rootCause := by
  induction h with
  | ends hend => rw [rootCause_eq_self hend, List.getLast?_singleton]
  | goes hsource _ ih => rw [List.getLast?_cons_cons, ih, rootCause_of_source? hsource]

/-- The text of a cause is the end of the text. -/
theorem exists_lead (h : e.Unwraps causes) {s : Error} (hs : s ∈ e :: causes) :
    ∃ lead, e.message = lead ++ s.message := by
  induction h generalizing s with
  | ends =>
    obtain rfl := List.mem_singleton.mp hs
    exact ⟨"", (String.empty_append ..).symm⟩
  | goes hsource _ ih =>
    obtain rfl | hs := List.mem_cons.mp hs
    · exact ⟨"", (String.empty_append ..).symm⟩
    · obtain ⟨inner, hinner⟩ := ih hs
      obtain ⟨lead, hlead⟩ := message_of_source? hsource
      exact ⟨lead ++ inner, by rw [hlead, hinner, String.append_assoc]⟩

end Unwraps

/-- Following the causes of an error comes to one end, after as many causes as the error is deep, at
the root cause, which wraps nothing and is its own root cause. The text of the error ends with the
text of each of its causes, and so with that of its root cause. -/
theorem unwraps_to_rootCause (e : Error) :
    (∃ causes, e.Unwraps causes ∧ (∀ causes', e.Unwraps causes' → causes' = causes) ∧
      causes.length = e.depth ∧ (e :: causes).getLast? = some e.rootCause ∧
        ∀ s ∈ causes, ∃ lead, e.message = lead ++ s.message) ∧
      e.rootCause.source? = none ∧ e.rootCause.rootCause = e.rootCause ∧
        ∃ lead, e.message = lead ++ e.rootCause.message := by
  obtain ⟨causes, hcauses⟩ := e.exists_unwraps
  have hlast := hcauses.getLast?_eq
  refine ⟨⟨causes, hcauses, fun _ ↦ hcauses.unique, hcauses.length_eq, hlast, fun s hs ↦ ?_⟩,
    e.rootCause_source?, rootCause_eq_self e.rootCause_source?, ?_⟩
  · exact hcauses.exists_lead (List.mem_cons_of_mem e hs)
  · exact hcauses.exists_lead (List.mem_of_getLast? hlast)

end ComponentHost.Error
