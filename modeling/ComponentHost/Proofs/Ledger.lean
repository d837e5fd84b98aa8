import ComponentHost.Proofs.Condition

/-!
What a process at rest tells about its components.

Let `J` relate the status of a process and the conditions of its instances, let every new process be
so, and let every section that finds a process so leave it so (`Sustained`). Then in every state
every process that no call has to itself is so (`Traffic.Reachable.sustained`): while a section is
at work on a process nobody else calls its instances, so that their conditions at the end follow
from those at the beginning by the deeds of the section.
-/

set_option autoImplicit false

namespace ComponentHost

/-- A relation between the status of a process and the conditions of its instances holds of new
processes, and is kept by every section in which only such things pass as `A` allows. -/
structure Sustained (A : Exchange → Prop) (J : ProcessStatus → List Condition → Prop) : Prop where
  new : ∀ ks, (∀ k ∈ ks, k = {}) → J .initialized ks
  section_keeps : ∀ {sec : Section} {P : Process} {ds : List Deed} {res : Except Error Unit}
    (k : InstanceRef → Condition), sec.Does P ds res → P.refs.Nodup →
    (∀ x, .said x ∈ ds → A x) → J P.status (P.refs.map k) →
    J (P.after ds).status (P.refs.map fun ref ↦ (k ref).afterDeeds ref ds)

namespace Traffic

open Function (update)

/-- The conditions of instances after what has passed. -/
def conditions (refs : List InstanceRef) (xs : List Exchange) : List Condition :=
  refs.map fun ref ↦ condition ref xs

/-- A section found its process as `J` says, and what has become of its instances since is its
own doing. -/
structure Accounts (J : ProcessStatus → List Condition → Prop) (s : Traffic) (v : Visit) :
    Prop where
  found : J v.found.status (conditions v.found.refs (v.since.map (·.exchange)))
  since : ∀ ref ∈ v.found.refs, condition ref s.exchanges =
    (condition ref (v.since.map (·.exchange))).afterDeeds ref v.log
  passed : ∀ x, .said x ∈ v.log → x ∈ s.exchanges

/-- What is known of the instances and the processes, with the stages of the clients. -/
structure Ledger (J : ProcessStatus → List Condition → Prop) (s : Traffic) (σ : Nat → Stage) :
    Prop where
  owned : Owned s σ
  clear : ∀ ref, (∀ p, ref ∉ s.refsOf σ (.process p)) → condition ref s.exchanges = {}
  rest : ∀ p < s.host.processes.count, (∀ i, ¬(σ i).Has p) →
    J (s.process p).status (conditions (s.process p).refs s.exchanges)
  visit : ∀ i p v, σ i = .inside p v → Accounts J s v

variable {A : Exchange → Prop} {J : ProcessStatus → List Condition → Prop} {s t : Traffic}
  {σ τ : Nat → Stage} {m : Move} {p : ProcessRef}

theorem Accounts.of_kept {v : Visit} (h : Accounts J s v)
    (hcondition : ∀ ref ∈ v.found.refs, condition ref t.exchanges = condition ref s.exchanges)
    (hpassed : s.exchanges ⊆ t.exchanges) : Accounts J t v :=
  ⟨h.found, fun ref href ↦ by rw [hcondition ref href, h.since ref href],
    fun x hx ↦ hpassed (h.passed x hx)⟩

/-- The instances of a process that a section is at work on. -/
theorem Staged.refsOf_inside (hs : Staged s σ) {i : Nat} {v : Visit} (hstage : σ i = .inside p v) :
    s.refsOf σ (.process p) = v.found.refs := by
  have hholds := hs.holds i
  rw [hstage] at hholds
  obtain ⟨hlt, -, hget⟩ := hholds
  rw [refsOf, if_pos hlt, process, hget, Process.refs_after]

/-- Two sections at work have no instance in common. -/
theorem Ledger.eq_of_mem_refs (hl : Ledger J s σ) (hs : Staged s σ) {i j : Nat} {q : ProcessRef}
    {v w : Visit} {ref : InstanceRef} (hi : σ i = .inside p v) (hj : σ j = .inside q w)
    (hv : ref ∈ v.found.refs) (hw : ref ∈ w.found.refs) : i = j := by
  rw [← hs.refsOf_inside hi] at hv
  rw [← hs.refsOf_inside hj] at hw
  cases hl.owned.unique _ _ ref hv hw
  exact hs.eq_of_has (by rw [hj]; rfl) (by rw [hi]; rfl)

/-- Calls of those who create a process tell nothing about any instance. -/
theorem Ledger.condition_told (hl : Ledger J s σ) {i : Nat} {b : Baggage} {x : Exchange}
    (hstage : σ i = .atLarge b) (hx : x.call.IsPrivate b.own) (ref : InstanceRef) :
    condition ref (x :: s.exchanges) = condition ref s.exchanges := by
  rw [condition_cons]
  by_cases href : ref ∈ s.refsOf σ (.client i)
  · have hclear : condition ref s.exchanges = {} := hl.clear ref fun p hp ↦ by
      cases hl.owned.unique _ _ ref href hp
    rw [hclear, Condition.after_private hx]
  · refine Condition.after_eq_self fun phase c ctx hcall ↦ ?_
    rintro rfl
    rw [hcall] at hx
    refine href ?_
    rw [refsOf, hstage]
    exact List.mem_map_of_mem hx.2

/-- What a section has to do with its components tells nothing about other instances. -/
theorem condition_said {P : Process} {x : Exchange} (hx : x.call.IsFor P) {ref : InstanceRef}
    (href : ref ∉ P.refs) (xs : List Exchange) :
    condition ref (x :: xs) = condition ref xs := by
  refine Condition.after_eq_self fun phase c ctx hcall ↦ ?_
  rintro rfl
  rw [hcall] at hx
  exact href (List.mem_map_of_mem hx)

/-- A move adds at most one exchange to what has passed. -/
theorem Shift.exchanges_suffix (h : Shift s σ m t τ) : s.exchanges <:+ t.exchanges := by
  cases h with
  | told | said => exact List.suffix_cons _ _
  | _ => exact List.suffix_rfl

/-- What is to be shown of the client that moves, and of the instances of the others. -/
theorem Ledger.visit_update (hl : Ledger J s σ) {i : Nat} {stage : Stage}
    (hself : ∀ p v, stage = .inside p v → Accounts J t v) (hpassed : s.exchanges ⊆ t.exchanges)
    (hothers : ∀ j ≠ i, ∀ p v, σ j = .inside p v → ∀ ref ∈ v.found.refs,
      condition ref t.exchanges = condition ref s.exchanges)
    {j : Nat} {v : Visit} (hj : update σ i stage j = .inside p v) : Accounts J t v := by
  by_cases hij : j = i
  · rw [hij, Function.update_self] at hj
    exact hself p v hj
  · rw [Function.update_of_ne hij] at hj
    exact (hl.visit j p v hj).of_kept (hothers j hij p v hj) hpassed

theorem Ledger.shift_visit (hl : Ledger J s σ) (hs : Staged s σ) (hshift : Shift s σ m t τ)
    {j : Nat} {w : Visit} (hj : τ j = .inside p w) : Accounts J t w := by
  have hpassed := hshift.exchanges_suffix.subset
  cases hshift with
  | arrived | changed | looked => exact (hl.visit j p w hj).of_kept (fun _ _ ↦ rfl) hpassed
  | dealt | left =>
    refine hl.visit_update ?_ hpassed ?_ hj
    · intro q v hstage
      cases hstage
    · intros
      rfl
  | told _ _ hstage _ hx =>
    refine hl.visit_update ?_ hpassed ?_ hj
    · intro q v hinside
      cases hinside
    · intro _ _ _ _ _ ref _
      exact hl.condition_told hstage hx ref
  | @entered i _ q _ _ _ hstage _ hfree =>
    refine hl.visit_update ?_ hpassed ?_ hj
    · intro q' v hinside
      cases hinside
      have hholds := hs.holds i
      rw [hstage] at hholds
      have hnobody (k : Nat) : ¬(σ k).Has q := by
        rw [← hs.holder, hs.holder_eq_none hfree]
        simp
      exact ⟨hl.rest q (hholds q rfl) hnobody, fun _ _ ↦ rfl, fun _ hx ↦ by cases hx⟩
    · intros
      rfl
  | @became i _ q v status _ _ hstage =>
    refine hl.visit_update ?_ hpassed ?_ hj
    · intro q' v' hinside
      cases hinside
      obtain ⟨hfound, hsince, hlog⟩ := hl.visit i q v hstage
      refine ⟨hfound, ?_, ?_⟩
      · intro ref href
        rw [Visit.add, Condition.afterDeeds_append]
        exact hsince ref href
      · intro y hy
        refine hlog y ?_
        simpa [Visit.add] using hy
    · intros
      rfl
  | @said _ i _ q v x _ _ _ hstage _ hdoes =>
    obtain ⟨ds, res, hdoes⟩ := hdoes
    have hfor : x.call.IsFor v.found := hdoes.isFor (List.mem_append_right _ List.mem_cons_self)
    refine hl.visit_update ?_ hpassed ?_ hj
    · intro q' v' hinside
      cases hinside
      obtain ⟨hfound, hsince, hlog⟩ := hl.visit i q v hstage
      refine ⟨hfound, ?_, ?_⟩
      · intro ref href
        rw [Visit.add, Condition.afterDeeds_append, ← hsince ref href]
        rfl
      · intro y hy
        rcases List.mem_append.mp hy with hy | hy
        · exact hpassed (hlog y hy)
        · cases List.mem_singleton.mp hy
          exact List.mem_cons_self
    · intro k hki q' v' hk ref href
      have hout : ref ∉ v.found.refs := fun hv ↦ hki (hl.eq_of_mem_refs hs hk hstage href hv)
      exact condition_said hfor hout _

/-- Nothing passes about an instance of no process that a section is at work on. -/
theorem Ledger.condition_eq (hl : Ledger J s σ) (hshift : Shift s σ m t τ) {ref : InstanceRef}
    (href : ∀ i p v, σ i = .inside p v → ref ∉ v.found.refs) :
    condition ref t.exchanges = condition ref s.exchanges := by
  cases hshift with
  | arrived | changed | dealt | entered | looked | became | left => rfl
  | told _ _ hstage _ hx => exact hl.condition_told hstage hx ref
  | said _ _ hstage _ hdoes =>
    obtain ⟨ds, res, hdoes⟩ := hdoes
    exact condition_said (hdoes.isFor (List.mem_append_right _ List.mem_cons_self))
      (href _ _ _ hstage) _

theorem Ledger.shift_clear (hl : Ledger J s σ) (hs : Staged s σ) (hshift : Shift s σ m t τ)
    {ref : InstanceRef} (href : ∀ p, ref ∉ t.refsOf τ (.process p)) :
    condition ref t.exchanges = {} := by
  have hold (p : ProcessRef) : ref ∉ s.refsOf σ (.process p) := fun hmem ↦ by
    by_cases hp : p < s.host.processes.count
    · exact href p (hshift.refsOf_process hp ▸ hmem)
    · simp [refsOf, hp] at hmem
  rw [hl.condition_eq hshift fun i p v hstage ↦ hs.refsOf_inside hstage ▸ hold p]
  exact hl.clear ref hold

/-- A process that was recorded just now. -/
theorem Ledger.shift_new (hJ : Sustained A J) (hl : Ledger J s σ) (hshift : Shift s σ m t τ)
    (hold : ¬p < s.host.processes.count) (hp : p < t.host.processes.count) :
    J (t.process p).status (conditions (t.process p).refs t.exchanges) := by
  cases hshift with
  | @dealt i _ b _ h' _ _ hstage hdeal =>
    rcases hdeal.get_eq_or p with ⟨-, hlt⟩ | ⟨-, -, hnew⟩
    · exact absurd (hlt hp) hold
    · show J (h'.processes.get p).status
        (conditions (h'.processes.get p).refs s.exchanges)
      rw [hnew.initialized, hnew.refs_eq]
      refine hJ.new _ fun k hk ↦ ?_
      obtain ⟨ref, href, rfl⟩ := List.mem_map.mp hk
      have hclient : ref ∈ s.refsOf σ (.client i) := by
        rw [refsOf, hstage]
        exact href
      refine hl.clear ref fun q hq ↦ ?_
      cases hl.owned.unique _ _ ref hclient hq
  | _ => exact absurd hp hold

/-- A process that its section has just given back. -/
theorem Ledger.shift_left (hJ : Sustained A J) (hA : ∀ x ∈ s.exchanges, A x) (hl : Ledger J s σ)
    (hs : Staged s σ) (hshift : Shift s σ m t τ) {i : Nat} (hhas : (σ i).Has p)
    (hleft : ¬(τ i).Has p) :
    J (t.process p).status (conditions (t.process p).refs t.exchanges) := by
  have hlt := hs.lt_of_has hhas
  have hturn := hshift.turn i
  generalize hstage : σ i = stage at hturn hhas
  generalize τ i = stage' at hturn hleft
  cases hturn with
  | stay | did => exact absurd hhas hleft
  | dealt | told | entered => exact hhas.elim
  | @left q v res hdoes hpast hstatus =>
    cases hhas
    have hholds := hs.holds i
    rw [hstage] at hholds
    have hget : s.process p = v.found.after v.log := hholds.2.2
    obtain ⟨hfound, hsince, hpassed⟩ := hl.visit i p v hstage
    have hrefs : (t.process p).refs = v.found.refs := by
      rw [Process.refs, hshift.ordered_eq hlt, ← Process.refs, hget, Process.refs_after]
    have hnodup : v.found.refs.Nodup := hs.refsOf_inside hstage ▸ hl.owned.nodup (.process p)
    have hconditions : conditions v.found.refs t.exchanges = v.found.refs.map fun ref ↦
        (condition ref (v.since.map (·.exchange))).afterDeeds ref v.log := by
      refine List.map_congr_left fun ref href ↦ ?_
      rw [← hsince ref href, exchanges, exchanges, hpast]
    rw [hstatus, hget, hrefs, hconditions]
    exact hJ.section_keeps _ hdoes hnodup (fun x hx ↦ hA x (hpassed x hx)) hfound

theorem Ledger.shift_rest (hJ : Sustained A J) (hA : ∀ x ∈ s.exchanges, A x) (hl : Ledger J s σ)
    (hs : Staged s σ) (hshift : Shift s σ m t τ) (hp : p < t.host.processes.count)
    (hnobody : ∀ i, ¬(τ i).Has p) :
    J (t.process p).status (conditions (t.process p).refs t.exchanges) := by
  by_cases hlt : p < s.host.processes.count
  · by_cases hhas : ∃ i, (σ i).Has p
    · obtain ⟨i, hi⟩ := hhas
      exact hl.shift_left hJ hA hs hshift hi (hnobody i)
    · have hidle (i : Nat) : ¬(σ i).Has p := fun hi ↦ hhas ⟨i, hi⟩
      have hstatus : (t.process p).status = (s.process p).status := by
        rcases hshift.status_eq_or hlt with hkept | ⟨i, _, _, _, _, -, -, -, hstage, -⟩
        · exact hkept
        · exact absurd (by rw [hstage]; rfl) (hidle i)
      have hconditions : conditions (s.process p).refs t.exchanges =
          conditions (s.process p).refs s.exchanges := by
        refine List.map_congr_left fun ref href ↦ hl.condition_eq hshift ?_
        rintro i q v hstage hv
        have hmem : ref ∈ s.refsOf σ (.process p) := by
          rw [refsOf, if_pos hlt]
          exact href
        cases hl.owned.unique _ _ ref hmem (hs.refsOf_inside hstage ▸ hv)
        exact hidle i (by rw [hstage]; rfl)
      rw [hstatus, Process.refs, hshift.ordered_eq hlt, ← Process.refs, hconditions]
      exact hl.rest p hlt hidle
  · exact hl.shift_new hJ hshift hlt hp

theorem Ledger.shift (hJ : Sustained A J) (hA : ∀ x ∈ s.exchanges, A x) (hfresh : t.Fresh)
    (hl : Ledger J s σ) (hs : Staged s σ) (hshift : Shift s σ m t τ) : Ledger J t τ where
  owned := hl.owned.passes hshift.passes hfresh
  clear _ := hl.shift_clear hs hshift
  rest _ := hl.shift_rest hJ hA hs hshift
  visit _ _ _ := hl.shift_visit hs hshift

theorem Ledger.initial {h : Host} (hunused : h.Unused) :
    Ledger J { host := h } fun _ ↦ .atLarge {} := by
  have hrefs (o : Owner) : refsOf { host := h } (fun _ ↦ .atLarge {}) o = [] := by
    cases o with
    | process p => simp [refsOf, hunused.no_process]
    | client i => rfl
  have howned : Owned { host := h } fun _ ↦ .atLarge {} := by
    constructor
    · intro o ref href
      simp [hrefs] at href
    · intro o o' ref href
      simp [hrefs] at href
    · intro o
      simp [hrefs]
  refine ⟨howned, fun _ _ ↦ rfl, ?_, ?_⟩
  · intro p hp
    simp [hunused.no_process] at hp
  · intro i p v hi
    cases hi

/-- Where every instance is a new one and only such things have passed as `A` allows, every process
that nobody has to himself is as `J` says. -/
theorem Reachable.sustained (hJ : Sustained A J) (hs : s.Reachable) (hfresh : s.Fresh)
    (hA : ∀ x ∈ s.exchanges, A x) (hp : p < s.host.processes.count) (hfree : s.holder p = none) :
    J (s.process p).status (conditions (s.process p).refs s.exchanges) := by
  have hkeep : ∀ {s t σ τ m}, Staged s σ → Shift s σ m t τ →
      (s.Fresh → (∀ x ∈ s.exchanges, A x) → Ledger J s σ) →
      t.Fresh → (∀ x ∈ t.exchanges, A x) → Ledger J t τ := by
    intro s t σ τ m hstaged hshift hl hfresh hA
    have hsuffix := hshift.exchanges_suffix
    have hA' : ∀ x ∈ s.exchanges, A x := fun x hx ↦ hA x (hsuffix.mem hx)
    have hfresh' : s.Fresh := ((hsuffix.sublist.filterMap _).map _).nodup hfresh
    exact (hl hfresh' hA').shift hJ hA' hfresh hstaged hshift
  obtain ⟨σ, hstaged, hl⟩ := hs.exists_stages (fun _ hunused _ _ ↦ Ledger.initial hunused) hkeep
  refine (hl hfresh hA).rest p hp fun i hi ↦ ?_
  rw [← hstaged.holder, hfree] at hi
  cases hi

end Traffic

end ComponentHost
