import ComponentHost.Proofs.Instances

/-!
What has passed about one instance of a component.

An instance is started if a start of it succeeded and no stop of it was asked for since; it has
refused if a start of it failed and none succeeded since. Both can be read off what has passed
(`Traffic.Started`, `Traffic.Refused`), and both follow from one exchange to the next (`Condition`),
so that the deeds of a section tell what becomes of every component (`Condition.foldl_turns_stop`
and those beside it).
-/

set_option autoImplicit false

namespace ComponentHost

namespace Exchange

/-- A start of the instance succeeded. -/
def hasStarted (ref : InstanceRef) : Exchange → Bool
  | .answered (.lifecycle .start c _) (.ok _) => c.instanceRef == ref
  | _ => false

/-- A start of the instance failed. -/
def hasRefused (ref : InstanceRef) : Exchange → Bool
  | .answered (.lifecycle .start c _) (.error _) => c.instanceRef == ref
  | _ => false

/-- The instance is called to stop. -/
def asksStop (ref : InstanceRef) : Exchange → Bool
  | .asked (.lifecycle .stop c _) => c.instanceRef == ref
  | _ => false

/-- A stop failed. -/
def stopFails : Exchange → Bool
  | .answered (.lifecycle .stop _ _) (.error _) => true
  | _ => false

end Exchange

namespace Traffic

/-- A start of the instance succeeded, and no stop of it was asked for since. -/
def Started (s : Traffic) (ref : InstanceRef) : Prop :=
  ∃ later x earlier, s.exchanges = later ++ x :: earlier ∧ x.hasStarted ref = true ∧
    ∀ y ∈ later, y.asksStop ref = false

/-- A start of the instance failed, and none succeeded since. -/
def Refused (s : Traffic) (ref : InstanceRef) : Prop :=
  ∃ later x earlier, s.exchanges = later ++ x :: earlier ∧ x.hasRefused ref = true ∧
    ∀ y ∈ later, y.hasStarted ref = false

end Traffic

/-- What has become of an instance. -/
structure Condition where
  started : Bool := false
  refused : Bool := false
  deriving DecidableEq

/-- The condition of an instance after one more exchange. -/
def Condition.after (ref : InstanceRef) (k : Condition) (x : Exchange) : Condition where
  started := x.hasStarted ref || (!x.asksStop ref && k.started)
  refused := x.hasRefused ref || (!x.hasStarted ref && k.refused)

/-- The condition of an instance after what has passed, the latest first. -/
def condition (ref : InstanceRef) (xs : List Exchange) : Condition :=
  xs.foldr (fun x k ↦ k.after ref x) {}

@[simp] theorem condition_nil (ref : InstanceRef) : condition ref [] = {} := rfl

@[simp] theorem condition_cons (ref : InstanceRef) (x : Exchange) (xs : List Exchange) :
    condition ref (x :: xs) = (condition ref xs).after ref x := rfl

/-- Something has passed, and nothing since that undoes it. -/
theorem exists_since_cons {P Q : Exchange → Bool} {x : Exchange} {xs : List Exchange} :
    (∃ later y earlier, x :: xs = later ++ y :: earlier ∧ P y = true ∧
        ∀ z ∈ later, Q z = false) ↔
      P x = true ∨ (Q x = false ∧ ∃ later y earlier, xs = later ++ y :: earlier ∧ P y = true ∧
        ∀ z ∈ later, Q z = false) := by
  constructor
  · rintro ⟨later, y, earlier, heq, hy, hlater⟩
    cases later with
    | nil =>
      obtain ⟨rfl, rfl⟩ := List.cons.inj heq
      exact .inl hy
    | cons z rest =>
      obtain ⟨rfl, rfl⟩ := List.cons.inj heq
      exact .inr ⟨hlater _ List.mem_cons_self, rest, y, earlier, rfl, hy,
        fun z hz ↦ hlater z (List.mem_cons_of_mem _ hz)⟩
  · rintro (hx | ⟨hx, later, y, earlier, rfl, hy, hlater⟩)
    · exact ⟨[], x, xs, rfl, hx, fun z hz ↦ by cases hz⟩
    · refine ⟨x :: later, y, earlier, rfl, hy, fun z hz ↦ ?_⟩
      rcases List.mem_cons.mp hz with rfl | hz
      · exact hx
      · exact hlater z hz

theorem Traffic.started_iff (s : Traffic) (ref : InstanceRef) :
    s.Started ref ↔ (condition ref s.exchanges).started = true := by
  unfold Started
  induction s.exchanges with
  | nil => simp
  | cons x xs ih => rw [exists_since_cons, ih]; simp [Condition.after]

theorem Traffic.refused_iff (s : Traffic) (ref : InstanceRef) :
    s.Refused ref ↔ (condition ref s.exchanges).refused = true := by
  unfold Refused
  induction s.exchanges with
  | nil => simp
  | cons x xs ih => rw [exists_since_cons, ih]; simp [Condition.after]

namespace Condition

variable {ref : InstanceRef} {k : Condition}

/-- What is no call of an instance changes nothing about it. -/
theorem after_eq_self {x : Exchange}
    (hx : ∀ phase c ctx, x.call = .lifecycle phase c ctx → c.instanceRef ≠ ref) :
    k.after ref x = k := by
  have hstarted : x.hasStarted ref = false := by
    unfold Exchange.hasStarted
    split
    · simpa using hx _ _ _ rfl
    · rfl
  have hrefused : x.hasRefused ref = false := by
    unfold Exchange.hasRefused
    split
    · simpa using hx _ _ _ rfl
    · rfl
  have hstop : x.asksStop ref = false := by
    unfold Exchange.asksStop
    split
    · simpa using hx _ _ _ rfl
    · rfl
  simp [after, hstarted, hrefused, hstop]

/-- An instance about which nothing has passed is left so by calls of those who only build it. -/
theorem after_private {own : List Component} {x : Exchange} (hx : x.call.IsPrivate own) :
    ({} : Condition).after ref x = {} := by
  have hstart : ∀ c ctx, x.call ≠ .lifecycle .start c ctx := fun c ctx h ↦ by
    rw [h] at hx
    exact hx.1 rfl
  have hstarted : x.hasStarted ref = false := by
    unfold Exchange.hasStarted
    split
    · exact absurd rfl (hstart _ _)
    · rfl
  have hrefused : x.hasRefused ref = false := by
    unfold Exchange.hasRefused
    split
    · exact absurd rfl (hstart _ _)
    · rfl
  simp [after, hstarted, hrefused]

/-- The condition of an instance after deeds, the earliest first. -/
def afterDeeds (ref : InstanceRef) (k : Condition) : List Deed → Condition
  | [] => k
  | .said x :: ds => (k.after ref x).afterDeeds ref ds
  | .became _ :: ds => k.afterDeeds ref ds

@[simp] theorem afterDeeds_append (ds es : List Deed) :
    k.afterDeeds ref (ds ++ es) = (k.afterDeeds ref ds).afterDeeds ref es := by
  induction ds generalizing k with
  | nil => rfl
  | cons d ds ih => cases d <;> exact ih

/-- The notes tell nothing about an instance. -/
theorem afterDeeds_account (ds : List Deed) :
    k.afterDeeds ref (account ds) = k.afterDeeds ref ds := by
  induction ds generalizing k with
  | nil => rfl
  | cons d ds ih =>
    cases d with
    | became status => exact ih
    | said x =>
      rw [account_cons]
      split
      · rename_i hnote
        have hx : k.after ref x = k := after_eq_self fun phase c ctx h ↦ by
          simp [Deed.isNote, h, Call.isNote] at hnote
        rw [ih, afterDeeds, hx]
      · exact ih

theorem after_asked_stop (ref : InstanceRef) (k : Condition) (c : Component) (ctx : ContextRef) :
    k.after ref (.asked (.lifecycle .stop c ctx)) =
      if ref = c.instanceRef then { k with started := false } else k := by
  by_cases href : ref = c.instanceRef
  · simp [after, Exchange.hasStarted, Exchange.asksStop, Exchange.hasRefused, href]
  · rw [if_neg href]
    refine after_eq_self fun _ _ _ h ↦ ?_
    cases h
    exact Ne.symm href

theorem after_started (ref : InstanceRef) (k : Condition) (c : Component) (ctx : ContextRef) :
    k.after ref (.answered (.lifecycle .start c ctx) (.ok ())) =
      if ref = c.instanceRef then ⟨true, false⟩ else k := by
  by_cases href : ref = c.instanceRef
  · simp [after, Exchange.hasStarted, Exchange.hasRefused, href]
  · rw [if_neg href]
    refine after_eq_self fun _ _ _ h ↦ ?_
    cases h
    exact Ne.symm href

theorem after_refused (ref : InstanceRef) (k : Condition) (c : Component) (ctx : ContextRef)
    (e : Error) : k.after ref (.answered (.lifecycle .start c ctx) (.error e)) =
      if ref = c.instanceRef then { k with refused := true } else k := by
  by_cases href : ref = c.instanceRef
  · simp [after, Exchange.hasStarted, Exchange.asksStop, Exchange.hasRefused, href]
  · rw [if_neg href]
    refine after_eq_self fun _ _ _ h ↦ ?_
    cases h
    exact Ne.symm href

/-- Calls to stop leave nothing started that they reach, whatever they are answered. -/
theorem afterDeeds_turns_stop (ctx : ContextRef) (xs : List (Component × Except Error Unit)) :
    k.afterDeeds ref (turns .stop ctx xs) =
      if ref ∈ Component.refs (xs.map Prod.fst) then { k with started := false } else k := by
  induction xs generalizing k with
  | nil => rfl
  | cons x xs ih =>
    obtain ⟨c, r⟩ := x
    have hanswer (k : Condition) : k.after ref (.answered (.lifecycle .stop c ctx) r) = k := rfl
    rw [turns_cons, afterDeeds, afterDeeds, ih, hanswer, after_asked_stop]
    by_cases href : ref = c.instanceRef
    · have hmem : ref ∈ Component.refs (((c, r) :: xs).map Prod.fst) := href ▸ List.mem_cons_self
      rw [if_pos href, if_pos hmem]
      split <;> rfl
    · simp only [Component.refs, List.map_cons, List.mem_cons, href, if_false, false_or]

/-- What is started has not refused since. -/
theorem afterDeeds_turns_start (ctx : ContextRef) (cs : List (String × Component)) :
    k.afterDeeds ref (turns .start ctx (successes cs)) =
      if ref ∈ Component.refs (cs.map Prod.snd) then ⟨true, false⟩ else k := by
  induction cs generalizing k with
  | nil => rfl
  | cons x cs ih =>
    obtain ⟨name, c⟩ := x
    have hasked (k : Condition) : k.after ref (.asked (.lifecycle .start c ctx)) = k := rfl
    show k.afterDeeds ref (turns .start ctx ((c, .ok ()) :: successes cs)) = _
    rw [turns_cons, afterDeeds, afterDeeds, ih, hasked, after_started]
    by_cases href : ref = c.instanceRef
    · have hmem : ref ∈ Component.refs (((name, c) :: cs).map Prod.snd) := href ▸ List.mem_cons_self
      rw [if_pos href, if_pos hmem, ite_self]
    · simp only [Component.refs, List.map_cons, List.mem_cons, href, if_false, false_or]

theorem afterDeeds_turns_refused (ctx : ContextRef) (c : Component) (e : Error) :
    k.afterDeeds ref (turns .start ctx [(c, .error e)]) =
      if ref = c.instanceRef then { k with refused := true } else k := after_refused ..

end Condition

end ComponentHost
