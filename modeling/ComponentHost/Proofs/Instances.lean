import ComponentHost.Proofs.Stages
import Mathlib.Data.List.Nodup

/-!
To whom the instances of components belong.

An instance belongs to the client that has built it, and from the moment a process is recorded with
it to the process. Where factories build a new instance every time (`Traffic.Fresh`), no instance
ever belongs to two owners, and no process has one twice (`Traffic.Owned`).
-/

set_option autoImplicit false

namespace ComponentHost

def Component.refs (cs : List Component) : List InstanceRef := cs.map (·.instanceRef)

/-- The instances of a process, in declared order. -/
def Process.refs (P : Process) : List InstanceRef := Component.refs (P.ordered.map Prod.snd)

theorem Process.refs_after (P : Process) (ds : List Deed) : (P.after ds).refs = P.refs := by
  rw [P.after_eq ds]
  rfl

/-- The instances that have been built, the latest first. -/
def built (xs : List Exchange) : List InstanceRef := Component.refs (xs.filterMap Exchange.built?)

@[simp] theorem built_cons (x : Exchange) (xs : List Exchange) :
    built (x :: xs) = Component.refs x.built?.toList ++ built xs := by
  cases hx : x.built? <;> simp [built, Component.refs, hx]

/-- A section builds nothing. -/
theorem Call.IsFor.built?_eq_none {P : Process} {x : Exchange} (h : x.call.IsFor P) :
    x.built? = none := by
  cases x with
  | asked c => rfl
  | answered c reply => cases c <;> first | exact h.elim | rfl

theorem Process.IsNew.refs_eq {P : Process} {own : List Component} (h : P.IsNew own) :
    P.refs = Component.refs own := by
  rw [Process.refs, h.complete.ordered, h.components]

/-- The instances a client owns at a stage. -/
def Stage.refs : Stage → List InstanceRef
  | .atLarge b => Component.refs b.own
  | .inside _ _ => []

namespace Traffic

open Function (update)

/-- Factories have built a new instance every time. -/
def Fresh (s : Traffic) : Prop := (built s.exchanges).Nodup

/-- Who may own instances. -/
inductive Owner where
  | process (p : ProcessRef)
  | client (i : Nat)
  deriving DecidableEq

def refsOf (s : Traffic) (σ : Nat → Stage) : Owner → List InstanceRef
  | .process p => if p < s.host.processes.count then (s.process p).refs else []
  | .client i => (σ i).refs

structure Owned (s : Traffic) (σ : Nat → Stage) : Prop where
  mem_built : ∀ o, ∀ ref ∈ s.refsOf σ o, ref ∈ built s.exchanges
  unique : ∀ o o' ref, ref ∈ s.refsOf σ o → ref ∈ s.refsOf σ o' → o = o'
  nodup : ∀ o, (s.refsOf σ o).Nodup

/-- What a move makes of what is owned: nothing; an instance more, that was built for a client; or
a process that takes over what a client has built. -/
inductive Passes (s : Traffic) (σ : Nat → Stage) (t : Traffic) (τ : Nat → Stage) : Prop where
  | nothing (hrefs : ∀ o, t.refsOf τ o = s.refsOf σ o)
      (hbuilt : built t.exchanges = built s.exchanges)
  | built {i : Nat} {ref : InstanceRef}
      (hrefs : t.refsOf τ = update (s.refsOf σ) (.client i) (s.refsOf σ (.client i) ++ [ref]))
      (hbuilt : built t.exchanges = ref :: built s.exchanges)
  | recorded {i : Nat} {p : ProcessRef}
      (hrefs : t.refsOf τ = update (update (s.refsOf σ) (.process p) (s.refsOf σ (.client i)))
        (.client i) [])
      (hbuilt : built t.exchanges = built s.exchanges)

variable {s t : Traffic} {σ τ : Nat → Stage} {m : Move} {p : ProcessRef}

theorem refsOf_update_client (σ : Nat → Stage) (i : Nat) (stage : Stage) :
    s.refsOf (update σ i stage) = update (s.refsOf σ) (.client i) stage.refs := by
  funext o
  by_cases ho : o = .client i
  · subst ho
    simp [refsOf]
  · rw [Function.update_of_ne ho]
    cases o with
    | process p => rfl
    | client j =>
      have hij : j ≠ i := fun h ↦ ho (h ▸ rfl)
      simp [refsOf, Function.update_of_ne hij]

/-- A client at another stage may own the same. -/
theorem refsOf_update_eq {i : Nat} {stage : Stage} (hstage : stage.refs = (σ i).refs) :
    s.refsOf (update σ i stage) = s.refsOf σ := by
  rw [refsOf_update_client, hstage]
  exact Function.update_eq_self (Owner.client i) (s.refsOf σ)

/-- A process that exists owns what it owned. -/
theorem Shift.refsOf_process (h : Shift s σ m t τ) (hp : p < s.host.processes.count) :
    t.refsOf τ (.process p) = s.refsOf σ (.process p) := by
  have hp' : p < t.host.processes.count := Nat.lt_of_lt_of_le hp h.count_le
  rw [refsOf, refsOf, if_pos hp, if_pos hp', Process.refs, Process.refs, h.ordered_eq hp]

/-- The processes that exist own what they owned if no process is new. -/
theorem Shift.refsOf_eq (h : Shift s σ m t τ)
    (hcount : t.host.processes.count = s.host.processes.count) : t.refsOf σ = s.refsOf σ := by
  funext o
  cases o with
  | client j => rfl
  | process p =>
    by_cases hp : p < s.host.processes.count
    · simp only [refsOf, hcount, if_pos hp, Process.refs, h.ordered_eq hp]
    · simp only [refsOf, hcount, if_neg hp]

/-- A process that is new owns the components it was made of. -/
theorem refsOf_add {own : List Component}
    (hget : ∀ p < s.host.processes.count, t.process p = s.process p)
    (hcount : t.host.processes.count = s.host.processes.count + 1)
    (hnew : (t.process s.host.processes.count).IsNew own) :
    t.refsOf σ =
      update (s.refsOf σ) (.process s.host.processes.count) (Component.refs own) := by
  funext o
  cases o with
  | client j => rfl
  | process p =>
    by_cases hp : p = s.host.processes.count
    · subst hp
      simp [refsOf, hcount, hnew.refs_eq]
    · rw [Function.update_of_ne (by simpa using hp)]
      by_cases hlt : p < s.host.processes.count
      · simp [refsOf, hcount, hlt, Nat.lt_succ_of_lt hlt, hget p hlt]
      · have hge : ¬p < s.host.processes.count + 1 := fun h ↦
          hlt (Nat.lt_of_le_of_ne (Nat.le_of_lt_succ h) hp)
        simp [refsOf, hcount, hlt, hge]

theorem Shift.passes (h : Shift s σ m t τ) : Passes s σ t τ := by
  have hsame := h.refsOf_eq
  cases h with
  | arrived | changed | looked => exact .nothing (congrFun (hsame rfl)) rfl
  | @entered _ _ _ _ _ _ hstage | @became _ _ _ _ _ _ _ hstage | @left _ _ _ _ _ _ _ hstage =>
    refine .nothing (congrFun ?_) rfl
    rw [refsOf_update_eq (by rw [hstage]; rfl), hsame rfl]
  | @said _ _ _ _ _ _ _ _ _ hstage _ hdoes =>
    obtain ⟨ds, res, hdoes⟩ := hdoes
    refine .nothing (congrFun ?_) ?_
    · rw [refsOf_update_eq (by rw [hstage]; rfl), hsame rfl]
    · have hbuilt := (hdoes.isFor (List.mem_append_right _ List.mem_cons_self)).built?_eq_none
      simp [passAs, exchanges, hbuilt, Component.refs]
  | @told _ i _ b x _ _ _ hstage =>
    cases hx : x.built? with
    | none =>
      refine .nothing (congrFun ?_) (by simp [passAs, exchanges, hx, Component.refs])
      rw [b.after_eq_self hx, refsOf_update_eq (by rw [hstage]), hsame rfl]
    | some c =>
      refine .built (i := i) ?_ (by simp [passAs, exchanges, hx, Component.refs]; rfl)
      rw [refsOf_update_client, hsame rfl]
      simp [Stage.refs, refsOf, hstage, Baggage.after, hx, Component.refs]
  | @dealt i c b b' h' rest _ hstage hdeal =>
    rcases hdeal.count_eq_or with ⟨hcount, hown⟩ | ⟨hcount, hnew, hown⟩
    · refine .nothing (congrFun ?_) rfl
      rw [refsOf_update_eq (by rw [hstage, Stage.refs, Stage.refs, hown]), hsame hcount]
    · refine .recorded (i := i) (p := s.host.processes.count) ?_ rfl
      have hclient : s.refsOf σ (.client i) = Component.refs b.own := by
        simp [refsOf, hstage, Stage.refs]
      have hempty : (Stage.atLarge b').refs = [] := by simp [Stage.refs, hown, Component.refs]
      have hadd :
          refsOf { s with host := h', clients := s.clients.set i ⟨c.request, .going rest⟩ } σ =
            update (s.refsOf σ) (.process s.host.processes.count) (Component.refs b.own) :=
        refsOf_add (fun p hp ↦ hdeal.get_eq hp) hcount hnew
      rw [refsOf_update_client, hadd, hclient, hempty]

theorem mem_update_append {f : Owner → List InstanceRef} {o o' : Owner} {ref ref' : InstanceRef} :
    ref' ∈ update f o (f o ++ [ref]) o' ↔ ref' ∈ f o' ∨ (o' = o ∧ ref' = ref) := by
  by_cases ho : o' = o
  · subst ho
    simp
  · simp [ho]

/-- An instance that nobody owns comes to a client. -/
theorem Owned.add (hs : Owned s σ) {i : Nat} {ref : InstanceRef}
    (hrefs : t.refsOf τ = update (s.refsOf σ) (.client i) (s.refsOf σ (.client i) ++ [ref]))
    (hbuilt : built t.exchanges = ref :: built s.exchanges)
    (hnew : ∀ o, ref ∉ s.refsOf σ o) : Owned t τ where
  mem_built := by
    intro o ref' href'
    rw [hbuilt]
    rw [hrefs, mem_update_append] at href'
    rcases href' with hold | ⟨-, rfl⟩
    · exact List.mem_cons_of_mem _ (hs.mem_built o ref' hold)
    · exact List.mem_cons_self
  unique := by
    intro o o' ref' ho ho'
    rw [hrefs, mem_update_append] at ho ho'
    rcases ho with hold | ⟨rfl, rfl⟩
    · rcases ho' with hold' | ⟨rfl, rfl⟩
      · exact hs.unique o o' ref' hold hold'
      · exact absurd hold (hnew o)
    · rcases ho' with hold' | ⟨rfl, -⟩
      · exact absurd hold' (hnew o')
      · rfl
  nodup := by
    intro o
    rw [hrefs]
    by_cases ho : o = .client i
    · have hout : ref ∉ s.refsOf σ (.client i) := hnew _
      rw [ho, Function.update_self, List.nodup_append']
      refine ⟨hs.nodup _, List.nodup_singleton _, ?_⟩
      simpa using hout
    · rw [Function.update_of_ne ho]
      exact hs.nodup o

/-- A process that owned nothing takes over what a client owns. -/
theorem Owned.handOver (hs : Owned s σ) {i : Nat}
    (hrefs : t.refsOf τ = update (update (s.refsOf σ) (.process p) (s.refsOf σ (.client i)))
      (.client i) [])
    (hbuilt : built t.exchanges = built s.exchanges) : Owned t τ := by
  have hmem {o : Owner} {ref : InstanceRef} (href : ref ∈ t.refsOf τ o) :
      (o = .process p ∧ ref ∈ s.refsOf σ (.client i)) ∨
        (o ≠ .process p ∧ o ≠ .client i ∧ ref ∈ s.refsOf σ o) := by
    rw [hrefs] at href
    by_cases hclient : o = .client i
    · simp [hclient] at href
    · rw [Function.update_of_ne hclient] at href
      by_cases hprocess : o = .process p
      · rw [hprocess, Function.update_self] at href
        exact .inl ⟨hprocess, href⟩
      · rw [Function.update_of_ne hprocess] at href
        exact .inr ⟨hprocess, hclient, href⟩
  constructor
  · intro o ref href
    rw [hbuilt]
    rcases hmem href with ⟨-, hold⟩ | ⟨-, -, hold⟩
    · exact hs.mem_built _ ref hold
    · exact hs.mem_built _ ref hold
  · intro o o' ref ho ho'
    rcases hmem ho with ⟨rfl, hold⟩ | ⟨-, hne, hold⟩
    · rcases hmem ho' with ⟨rfl, -⟩ | ⟨-, hne', hold'⟩
      · rfl
      · exact absurd (hs.unique _ _ ref hold' hold) hne'
    · rcases hmem ho' with ⟨rfl, hold'⟩ | ⟨-, -, hold'⟩
      · exact absurd (hs.unique _ _ ref hold hold') hne
      · exact hs.unique _ _ ref hold hold'
  · intro o
    rw [hrefs]
    by_cases hclient : o = .client i
    · simp [hclient]
    · rw [Function.update_of_ne hclient]
      by_cases hprocess : o = .process p
      · rw [hprocess, Function.update_self]
        exact hs.nodup _
      · rw [Function.update_of_ne hprocess]
        exact hs.nodup o

/-- Where every instance is a new one, each has one owner after a move if it had one before. -/
theorem Owned.passes (hs : Owned s σ) (h : Passes s σ t τ) (hfresh : t.Fresh) : Owned t τ := by
  cases h with
  | nothing hrefs hbuilt =>
    constructor
    · intro o ref
      rw [hrefs, hbuilt]
      exact hs.mem_built o ref
    · intro o o' ref
      rw [hrefs, hrefs]
      exact hs.unique o o' ref
    · intro o
      rw [hrefs]
      exact hs.nodup o
  | @built i ref hrefs hbuilt =>
    refine hs.add hrefs hbuilt fun o ho ↦ ?_
    unfold Fresh at hfresh
    rw [hbuilt] at hfresh
    have hout : ref ∉ built s.exchanges := (List.nodup_cons.mp hfresh).1
    exact hout (hs.mem_built o ref ho)
  | recorded hrefs hbuilt => exact hs.handOver hrefs hbuilt

end Traffic

end ComponentHost
