import ComponentHost.Host.Components
import ComponentHost.Proofs.Crowd
import ComponentHost.Proofs.Tables

/-!
Clients of a registry.

Binding and removing are indivisible, but building a component is not: its factory runs between the
look-up and the recording, and whatever it calls meanwhile is one more client. However the steps of
such clients interleave, what is done to the registry is a sequence of single changes
(`Registry.Step`), none of which puts one thing in the place of another.

`NeverOverwritten s t` says what follows for a state `s` of a run and any later one `t`.
-/

set_option autoImplicit false

namespace ComponentHost

/-! ### What an action makes of a registry -/

namespace Registry

/-- What a single action makes of a registry: nothing, or an identifier that is free is bound, or a
component is removed. -/
inductive Step (r : Registry) : Registry → Prop where
  | same : Step r r
  | boundFactory {id : String} (f : Factory) (hfree : r.factories.contains id = false) :
      Step r { r with factories := r.factories.bind id f }
  | boundComponent {id : String} (c : Component) (hfree : r.components.contains id = false) :
      Step r { r with components := r.components.bind id c }
  | removed (id : String) : Step r { r with components := r.components.erase id }

/-- No identifier is bound twice. -/
structure Unambiguous (r : Registry) : Prop where
  factories : (r.factories.map Prod.fst).Nodup
  components : (r.components.map Prod.fst).Nodup

variable {r r' : Registry} {id : String}

theorem Step.unambiguous (h : Step r r') (hr : r.Unambiguous) : r'.Unambiguous := by
  cases h with
  | same => exact hr
  | boundFactory f hfree => exact ⟨Table.bind_map_fst_nodup hr.factories hfree f, hr.components⟩
  | boundComponent c hfree => exact ⟨hr.factories, Table.bind_map_fst_nodup hr.components hfree c⟩
  | removed id => exact ⟨hr.factories, Table.erase_map_fst_nodup hr.components id⟩

theorem get?_bind_of_ne_none {α : Type} {t : Table α} {id' : String}
    (hfree : t.contains id = false) (a : α) (hbound : t.get? id' ≠ none) :
    (t.bind id a).get? id' = t.get? id' := by
  rw [Table.get?_bind hfree, if_neg]
  rintro rfl
  exact hbound (Table.get?_eq_none_iff.mpr (Table.contains_eq_false_iff.mp hfree))

/-- A factory stays bound. -/
theorem Step.factories_get? (h : Step r r') (id : String) :
    r.factories.get? id = none ∨ r'.factories.get? id = r.factories.get? id := by
  cases h with
  | same | boundComponent | removed => exact .inr rfl
  | boundFactory f hfree => exact or_iff_not_imp_left.mpr (get?_bind_of_ne_none hfree f)

/-- A component stays bound until it is removed. -/
theorem Step.components_get? (h : Step r r') (id : String) :
    r.components.get? id = none ∨ r'.components.get? id = none ∨
      r'.components.get? id = r.components.get? id := by
  cases h with
  | same | boundFactory => exact .inr (.inr rfl)
  | boundComponent c hfree =>
    exact (or_iff_not_imp_left.mpr (get?_bind_of_ne_none hfree c)).imp_right .inr
  | removed id' =>
    refine .inr ?_
    rw [Table.get?_erase]
    split
    · exact .inl rfl
    · exact .inr rfl

theorem factory_eq_ok_iff {f : Factory} : r.factory id = .ok f ↔ r.factories.get? id = some f := by
  unfold factory
  split <;> simp_all

theorem component_eq_ok_iff {c : Component} :
    r.component id = .ok c ↔ r.components.get? id = some c := by
  unfold component
  split <;> simp_all

end Registry

/-! ### Changes of a table -/

namespace Host

def factories (h : Host) : Table Factory := h.registry.factories

def components (h : Host) : Table Component := h.registry.components

end Host

/-- What was done has left a part of the host as it was. -/
def Feat.Keeps {α : Type} (part : Host → α) : Feat → Prop
  | .acted h h' => part h' = part h
  | .said _ => True

@[simp] theorem Feat.keeps_acted {α : Type} (part : Host → α) (h h' : Host) :
    (Feat.acted h h').Keeps part ↔ part h' = part h := Iff.rfl

@[simp] theorem Feat.keeps_said {α : Type} (part : Host → α) (x : Exchange) :
    (Feat.said x).Keeps part := trivial

/-- How something that was done has changed what an identifier stands for in a table of the host. -/
def Feat.change? {α : Type} [DecidableEq α] (T : Host → Table α) (id : String) :
    Feat → Option (Change α)
  | .acted h h' => Change.between? ((T h).get? id) ((T h').get? id)
  | .said _ => none

/-- The changes of what an identifier stands for among things that were done. -/
def changesIn {α : Type} [DecidableEq α] (T : Host → Table α) (feats : List Feat) (id : String) :
    List (Change α) :=
  feats.filterMap (Feat.change? T id)

theorem changesIn_cons {α : Type} [DecidableEq α] (T : Host → Table α) (x : Feat)
    (feats : List Feat) (id : String) :
    changesIn T (x :: feats) id = (x.change? T id).toList ++ changesIn T feats id := by
  cases hx : x.change? T id <;> simp [changesIn, hx]

theorem changesIn_append {α : Type} [DecidableEq α] (T : Host → Table α) (xs ys : List Feat)
    (id : String) : changesIn T (xs ++ ys) id = changesIn T xs id ++ changesIn T ys id :=
  List.filterMap_append

/-- Who leaves a table as it is changes nothing in it. -/
theorem changesIn_eq_nil {α : Type} [DecidableEq α] {T : Host → Table α} {feats : List Feat}
    (hsame : ∀ x ∈ feats, x.Keeps T) : changesIn T feats = fun _ ↦ [] := by
  funext id
  refine List.filterMap_eq_nil_iff.mpr fun x hx ↦ ?_
  have hkeeps := hsame x hx
  cases x with
  | said x => rfl
  | acted h h' => rw [Feat.change?, (Feat.keeps_acted T h h').mp hkeeps, Change.between?_self]

namespace Crowd

variable {ε ρ α : Type} [DecidableEq α] {T : Host → Table α} {s t : Crowd ε ρ} {i j : Nat}
  {id : String}

/-- The changes of what an identifier stands for so far, the latest first. -/
def changes (T : Host → Table α) (s : Crowd ε ρ) (id : String) : List (Change α) :=
  changesIn T (s.past.map Prod.snd) id

/-- The changes that a client has made, the earliest first. -/
def changesBy (T : Host → Table α) (s : Crowd ε ρ) (i : Nat) (id : String) : List (Change α) :=
  changesIn T (s.feats i) id

/-- How often a component was removed that had this identifier. -/
def removals (s : Crowd ε ρ) (id : String) : Nat :=
  (s.changes Host.components id).countP Change.isRemoval

theorem changes_acted (i : Nat) (e : ε) (h h' h'' : Host) (task : Task ρ) (id : String) :
    (s.moved i e (.acted h h') h'' task).changes T id =
      (Change.between? ((T h).get? id) ((T h').get? id)).toList ++ s.changes T id :=
  changesIn_cons T (.acted h h') _ id

/-- What a client has changed since a state before. -/
theorem countP_changesBy (p : Change α → Bool) {xs : List (Nat × Feat)}
    (hxs : t.past = xs ++ s.past) (i : Nat) (id : String) :
    (t.changesBy T i id).countP p =
      (changesIn T ((xs.filter (·.1 == i)).map Prod.snd) id).countP p +
        (s.changesBy T i id).countP p := by
  simp [changesBy, changesIn, feats, hxs, Nat.add_comm]

/-- What two clients have changed is part of what has been changed. -/
theorem countP_changesIn_filter_add_le (p : Change α → Bool) (hij : i ≠ j) (xs : List (Nat × Feat))
    (id : String) :
    (changesIn T ((xs.filter (·.1 == i)).map Prod.snd) id).countP p +
        (changesIn T ((xs.filter (·.1 == j)).map Prod.snd) id).countP p ≤
      (changesIn T (xs.map Prod.snd) id).countP p := by
  induction xs with
  | nil => exact Nat.le_refl 0
  | cons x rest ih =>
    obtain ⟨k, feat⟩ := x
    have hall : (changesIn T (((k, feat) :: rest).map Prod.snd) id).countP p =
        (feat.change? T id).toList.countP p + (changesIn T (rest.map Prod.snd) id).countP p := by
      rw [List.map_cons, changesIn_cons, List.countP_append]
    have hone (l : Nat) :
        (changesIn T ((((k, feat) :: rest).filter (·.1 == l)).map Prod.snd) id).countP p =
          (if k = l then (feat.change? T id).toList.countP p else 0) +
            (changesIn T ((rest.filter (·.1 == l)).map Prod.snd) id).countP p := by
      by_cases hkl : k = l
      · rw [List.filter_cons_of_pos (by simpa using hkl), List.map_cons, changesIn_cons,
          List.countP_append, if_pos hkl]
      · rw [List.filter_cons_of_neg (by simpa using hkl), if_neg hkl, Nat.zero_add]
    rw [hall, hone i, hone j]
    by_cases hki : k = i
    · have hkj : k ≠ j := fun h ↦ hij (hki.symm.trans h)
      rw [if_pos hki, if_neg hkj]
      omega
    · rw [if_neg hki]
      split <;> omega

end Crowd

/-! ### Crowds that leave the registry to its operations -/

/-- Clients with such errands, and what else happens, do with the registry only what it offers. -/
structure HeedsRegistry (ε : Type) {ρ : Type} [Errand ε ρ] : Prop where
  spared : ∀ before after, (Errand.spared ε before after).registry = before.registry
  acts : ∀ e : ε, (Errand.program e).Acts fun h h' ↦ Registry.Step h.registry h'.registry

namespace Crowd

variable {ε ρ : Type} {s t : Crowd ε ρ} {h : Host} {id : String}

/-- The registry is what the changes so far have made of an empty one. -/
structure Upright (s : Crowd ε ρ) : Prop where
  unambiguous : s.host.registry.Unambiguous
  factories_alternate : ∀ id, Change.Alternates (s.changes Host.factories id)
  factories_standing : ∀ id,
    Change.standing (s.changes Host.factories id) = s.host.registry.factories.get? id
  components_alternate : ∀ id, Change.Alternates (s.changes Host.components id)
  components_standing : ∀ id,
    Change.standing (s.changes Host.components id) = s.host.registry.components.get? id

theorem Upright.of_same (hs : s.Upright) (hregistry : t.host.registry = s.host.registry)
    (hfactories : ∀ id, t.changes Host.factories id = s.changes Host.factories id)
    (hcomponents : ∀ id, t.changes Host.components id = s.changes Host.components id) :
    t.Upright where
  unambiguous := hregistry ▸ hs.unambiguous
  factories_alternate id := hfactories id ▸ hs.factories_alternate id
  factories_standing id := by rw [hfactories, hs.factories_standing, hregistry]
  components_alternate id := hcomponents id ▸ hs.components_alternate id
  components_standing id := by rw [hcomponents, hs.components_standing, hregistry]

theorem Upright.acted (hs : s.Upright) {h' : Host}
    (hstep : Registry.Step s.host.registry h'.registry) (i : Nat) (e : ε) (task : Task ρ) :
    (s.moved i e (.acted s.host h') h' task).Upright := by
  have hfactories (id : String) := (hs.factories_alternate id).step (hs.factories_standing id)
    ((hstep.factories_get? id).imp_right .inr)
  have hcomponents (id : String) := (hs.components_alternate id).step (hs.components_standing id)
    (hstep.components_get? id)
  refine ⟨hstep.unambiguous hs.unambiguous, fun id ↦ ?_, fun id ↦ ?_, fun id ↦ ?_, fun id ↦ ?_⟩
  · exact changes_acted (T := Host.factories) .. ▸ (hfactories id).1
  · exact changes_acted (T := Host.factories) .. ▸ (hfactories id).2
  · exact changes_acted (T := Host.components) .. ▸ (hcomponents id).1
  · exact changes_acted (T := Host.components) .. ▸ (hcomponents id).2

variable [Errand ε ρ] {A : Crowd ε ρ → Move ε → Prop} {m : Move ε}

theorem Later.registry_step (hε : HeedsRegistry ε) (hlater : Later A { host := h } s)
    (hstep : s.step m = some t) : Registry.Step s.host.registry t.host.registry := by
  cases happens_of_step hstep with
  | arrived | asked | answered => exact .same
  | changed => exact hε.spared .. ▸ .same
  | acted hi hx => exact hlater.act_of (hε.acts _) hi hx

theorem Later.upright (hε : HeedsRegistry ε) (hlater : Later A { host := h } s)
    (hempty : h.registry = {}) : s.Upright := by
  induction hlater with
  | refl =>
    refine ⟨?_, fun id ↦ trivial, fun id ↦ ?_, fun id ↦ trivial, fun id ↦ ?_⟩
    · rw [hempty]
      exact ⟨List.nodup_nil, List.nodup_nil⟩
    · rw [hempty]
      rfl
    · rw [hempty]
      rfl
  | @tail u v hlater hnext ih =>
    obtain ⟨m, -, hstep⟩ := hnext
    cases happens_of_step hstep with
    | arrived | asked | answered => exact ih.of_same rfl (fun id ↦ rfl) fun id ↦ rfl
    | changed => exact ih.of_same (hε.spared ..) (fun id ↦ rfl) fun id ↦ rfl
    | acted hi hx => exact ih.acted (Later.act_of hlater (hε.acts _) hi hx) ..

/-- A factory stays bound for ever. -/
theorem Later.factory_stays (hε : HeedsRegistry ε) (hs : Later A { host := h } s)
    (hlater : Later A s t) {f : Factory} (hf : s.host.registry.factory id = .ok f) :
    t.host.registry.factory id = .ok f := by
  induction hlater with
  | refl => exact hf
  | @tail u v hsu hnext ih =>
    obtain ⟨m, -, hstep⟩ := hnext
    have hbound := Registry.factory_eq_ok_iff.mp ih
    have hkept := (Later.registry_step hε (hs.trans hsu) hstep).factories_get? id
    rw [hbound] at hkept
    exact Registry.factory_eq_ok_iff.mpr (hkept.resolve_left (by simp))

/-- One move: a component stays bound unless the move removes it. -/
theorem Later.component_step (hε : HeedsRegistry ε) (hlater : Later A { host := h } s)
    (hstep : s.step m = some t) (id : String) :
    s.removals id ≤ t.removals id ∧ (t.removals id = s.removals id →
      ∀ c, s.host.registry.component id = .ok c → t.host.registry.component id = .ok c) := by
  cases happens_of_step hstep with
  | arrived | asked | answered => exact ⟨Nat.le_refl _, fun _ _ hc ↦ hc⟩
  | changed => exact ⟨Nat.le_refl _, fun _ c hc ↦ by rwa [hε.spared]⟩
  | @acted i e _ rest h' hi hx =>
    have hkept := (hlater.act_of (hε.acts _) hi hx).components_get? id
    have hremovals : (s.moved i e (.acted s.host h') h' (.going rest)).removals id =
        (Change.between? (s.host.components.get? id) (h'.components.get? id)).toList.countP
          Change.isRemoval + s.removals id := by
      rw [removals, changes_acted, List.countP_append]
      rfl
    refine ⟨hremovals ▸ Nat.le_add_left .., fun hsame c hc ↦ ?_⟩
    rw [hremovals] at hsame
    rw [Registry.component_eq_ok_iff] at hc ⊢
    obtain hfree | hremoved | hstays := hkept
    · simp [hfree] at hc
    · simp [Host.components, hc, hremoved, Change.between?, Change.isRemoval] at hsame
    · exact hstays.trans hc

/-- A component stays bound as long as it is not removed. -/
theorem Later.component_stays (hε : HeedsRegistry ε) (hs : Later A { host := h } s)
    (hlater : Later A s t) (id : String) :
    s.removals id ≤ t.removals id ∧ (t.removals id = s.removals id →
      ∀ c, s.host.registry.component id = .ok c → t.host.registry.component id = .ok c) := by
  induction hlater with
  | refl => exact ⟨Nat.le_refl _, fun _ _ hc ↦ hc⟩
  | tail hlater hnext ih =>
    obtain ⟨m, -, hstep⟩ := hnext
    obtain ⟨hle, hstays⟩ := Later.component_step hε (hs.trans hlater) hstep id
    refine ⟨ih.1.trans hle, fun hsame c hc ↦ ?_⟩
    exact hstays (by omega) c (ih.2 (by omega) c hc)

variable (hε : HeedsRegistry ε) (hempty : h.registry = {}) (hs : Later A { host := h } s)
  (hlater : Later A s t)

include hε hempty hs hlater

/-- Of two clients that have bound nothing under an identifier yet, one does not do it as long as
none is removed. -/
theorem Later.one_binds {i j : Nat} (hij : i ≠ j) (hkept : t.removals id = s.removals id)
    (hi : s.changesBy Host.components i id = []) (hj : s.changesBy Host.components j id = []) :
    (t.changesBy Host.components i id).countP Change.isBinding +
      (t.changesBy Host.components j id).countP Change.isBinding ≤ 1 := by
  obtain ⟨xs, hxs⟩ := hlater.exists_past
  have hbefore := ((hs.upright hε hempty).components_alternate id).countP_eq
  have hafter := (((hs.trans hlater).upright hε hempty).components_alternate id).countP_eq
  have hchanges : t.changes Host.components id =
      changesIn Host.components (xs.map Prod.snd) id ++ s.changes Host.components id := by
    simp [changes, changesIn, hxs]
  have hboth := countP_changesIn_filter_add_le (T := Host.components) Change.isBinding hij xs id
  have hown (k : Nat) := countP_changesBy (T := Host.components) Change.isBinding hxs k id
  have hsum : (t.changes Host.components id).countP Change.isBinding =
      (changesIn Host.components (xs.map Prod.snd) id).countP Change.isBinding +
        (s.changes Host.components id).countP Change.isBinding := by
    rw [hchanges, List.countP_append]
  have hi' := hown i
  have hj' := hown j
  rw [hi, List.countP_nil] at hi'
  rw [hj, List.countP_nil] at hj'
  rw [removals, removals] at hkept
  split at hbefore <;> split at hafter <;> omega

end Crowd

/-! ### Calls -/

/-- What a client asks of a registry. -/
inductive RegistryCall where
  | registerFactory (id : String) (f : Factory)
  | create (config : ComponentConfig)
  | register (c : Component)
  | remove (id : String)

/-- How a call ends; it answers a component unless it registers a factory. -/
abbrev RegistryOutcome := Except Error (Option Component)

namespace RegistryCall

def action : RegistryCall → Action (Option Component)
  | .registerFactory id f => do
    Host.registerFactory id f
    return none
  | .create config => do return some (← Host.createComponent config)
  | .register c => do return some (← Host.registerComponent c)
  | .remove id => do return some (← Host.removeComponent id)

/-- The identifier under which the call records a component. -/
def recordsUnder? : RegistryCall → Option String
  | .create config => some config.id
  | .register c => some c.id
  | _ => none

/-- One change, of what this identifier stands for. -/
def only {α : Type} (id : String) (x : Change α) (id' : String) : List (Change α) :=
  if id' = id then [x] else []

/-- The changes that a call which ends so has made: what it was asked for, or none if it fails. -/
def Achieves (e : RegistryCall) (o : RegistryOutcome) (factories : String → List (Change Factory))
    (components : String → List (Change Component)) : Prop :=
  match e, o with
  | .registerFactory id f, .ok none => factories = only id (.bound f) ∧ components = fun _ ↦ []
  | .create config, .ok (some c) =>
    factories = (fun _ ↦ []) ∧ components = only config.id (.bound c)
  | .register c, .ok (some c') =>
    c' = c ∧ factories = (fun _ ↦ []) ∧ components = only c.id (.bound c)
  | .remove id, .ok (some c) => factories = (fun _ ↦ []) ∧ components = only id (.removed c)
  | _, .error _ => factories = (fun _ ↦ []) ∧ components = fun _ ↦ []
  | _, .ok _ => False

instance : Errand RegistryCall RegistryOutcome where
  program e := e.action.run
  spared before after := { after with registry := before.registry }

/-- What is told of a call that has ended so after these feats. -/
structure Accounts (e : RegistryCall) (log : List Feat) (o : RegistryOutcome) : Prop where
  achieves : e.Achieves o (changesIn Host.factories log) (changesIn Host.components log)
  untouched : ∀ err, o = .error err → ∀ x ∈ log, x.Keeps Host.registry
  built : ∀ config f config' c, e = .create config →
    .said (.answered (.create f config') (.ok c)) ∈ log →
    o = .ok (some c) ∨ o = .error (.componentAlreadyExists config.id)
  registered : ∀ c, e = .register c →
    o = .ok (some c) ∨ o = .error (.componentAlreadyExists c.id)

/-- Every step on the host is one of the registry. -/
def manner : Manner :=
  .alert (fun _ h h' ↦ Registry.Step h.registry h'.registry) fun _ _ ↦ True

variable {log : List Feat} {h : Host}

theorem record_abides {Q : List Feat → Host → Except Error Component → Prop} {id : String}
    {c : Component}
    (hok : ∀ h' h'' : Host, h'.registry.components.contains id = false →
      h'' = { h' with
        registry := { h'.registry with components := h'.registry.components.bind id c } } →
      ∀ line, Q (log ++ [.acted h' h''] ++
        [.said (.asked (.line line)), .said (.answered (.line line) ())]) h'' (.ok c))
    (herror : ∀ h' : Host, Q (log ++ [.acted h' h']) h' (.error (.componentAlreadyExists id))) :
    (Host.record id c).run.Abides manner Q log h := by
  refine .andThen (Host.abides_attempt (fun h' _ h'' _ hf ↦ ?_) fun h' e _ hf ↦ ?_)
  · simp only [Registry.bindComponent] at hf
    split at hf
    · cases hf
    · rename_i hfree
      cases hf
      refine ⟨.boundComponent c (Bool.eq_false_of_not_eq_true hfree), ?_⟩
      exact .andThen (Host.abides_diagnose (fun _ ↦ trivial) fun line ↦
        hok h' _ (Bool.eq_false_of_not_eq_true hfree) rfl line)
  · simp only [Registry.bindComponent] at hf
    split at hf
    · cases hf
      exact ⟨.same, herror h'⟩
    · cases hf

/-- A call that fails has left the registry as it is. -/
theorem Accounts.of_error {e : RegistryCall} {err : Error}
    (hsame : ∀ x ∈ log, x.Keeps Host.registry)
    (hbuilt : ∀ config f config' c, e = .create config →
      .said (.answered (.create f config') (.ok c)) ∈ log → err = .componentAlreadyExists config.id)
    (hregistered : ∀ c, e = .register c → err = .componentAlreadyExists c.id) :
    e.Accounts log (.error err) where
  achieves := by
    have hkeeps {α : Type} (table : Registry → α) :
        ∀ x ∈ log, x.Keeps fun h ↦ table h.registry := by
      intro x hx
      cases x with
      | said x => trivial
      | acted h h' => exact congrArg table (hsame _ hx)
    have hfactories := changesIn_eq_nil (hkeeps Registry.factories)
    have hcomponents := changesIn_eq_nil (hkeeps Registry.components)
    cases e <;> exact ⟨hfactories, hcomponents⟩
  untouched _ _ := hsame
  built config f config' c he hmem := .inr (congrArg _ (hbuilt config f config' c he hmem))
  registered c he := .inr (congrArg _ (hregistered c he))

/-- One step makes a change, and nothing before it and after it does. -/
theorem changesIn_eq_only {α : Type} [DecidableEq α] {T : Host → Table α} {before after : List Feat}
    {h h' : Host} {id : String} {x : Change α} (hbefore : ∀ y ∈ before, y.Keeps T)
    (hafter : ∀ y ∈ after, y.Keeps T)
    (hx : ∀ id', Change.between? ((T h).get? id') ((T h').get? id') =
      if id' = id then some x else none) :
    changesIn T (before ++ [.acted h h'] ++ after) = only id x := by
  funext id'
  rw [changesIn_append, changesIn_append, changesIn_eq_nil hbefore, changesIn_eq_nil hafter,
    changesIn_cons, Feat.change?, hx, only]
  split <;> rfl

theorem registerFactory_abides (id : String) (f : Factory) :
    (registerFactory id f).action.run.Abides manner
      (fun log _ o ↦ (registerFactory id f).Accounts log o) [] h := by
  refine .andThen (.andThen (Host.abides_attempt (fun h' _ h'' _ hf ↦ ?_) fun h' e _ hf ↦ ?_))
  · simp only [Registry.bindFactory] at hf
    split at hf
    · cases hf
    · rename_i hnot
      cases hf
      have hfree := Bool.eq_false_of_not_eq_true hnot
      refine ⟨.boundFactory f hfree, Host.abides_diagnose (fun _ ↦ trivial) fun line ↦ ?_⟩
      refine ⟨⟨?_, ?_⟩, by simp, by simp, by simp⟩
      · exact changesIn_eq_only (T := Host.factories) (by simp) (by simp)
          (Change.between?_bind hfree f)
      · exact changesIn_eq_nil (by simp [Host.components])
  · simp only [Registry.bindFactory] at hf
    split at hf
    · cases hf
      exact ⟨.same, .of_error (by simp) (by simp) (by simp)⟩
    · cases hf

theorem create_abides (config : ComponentConfig) :
    (create config).action.run.Abides manner
      (fun log _ o ↦ (create config).Accounts log o) [] h := by
  refine .andThen (.andThen (Host.abides_inspect fun h' _ ↦ ⟨.same, ?_⟩))
  cases h'.registry.factory config.factory with
  | error e => exact .of_error (by simp) (by simp) (by simp)
  | ok f =>
    refine .andThen ⟨trivial, fun res ↦ ?_⟩
    cases res with
    | error e => exact .of_error (by simp) (by simp) (by simp)
    | ok c =>
      refine record_abides (fun h'' h₃ hfree hh₃ line ↦ ⟨⟨?_, ?_⟩, by simp, ?_, by simp⟩)
        fun h'' ↦ ?_
      · exact changesIn_eq_nil (by simp [Host.factories, hh₃])
      · refine changesIn_eq_only (T := Host.components) (by simp) (by simp) ?_
        rw [hh₃]
        exact Change.between?_bind hfree c
      · simp only [List.mem_append, List.mem_cons]
        grind
      · exact .of_error (by simp) (by grind) (by simp)

theorem register_abides (c : Component) :
    (register c).action.run.Abides manner
      (fun log _ o ↦ (register c).Accounts log o) [] h := by
  refine .andThen (record_abides (fun h' h'' hfree hh'' line ↦ ?_) fun h' ↦ ?_)
  · refine ⟨⟨rfl, ?_, ?_⟩, by simp, by simp, by simp⟩
    · exact changesIn_eq_nil (by simp [Host.factories, hh''])
    · refine changesIn_eq_only (T := Host.components) (by simp) (by simp) ?_
      rw [hh'']
      exact Change.between?_bind hfree c
  · exact .of_error (by simp) (by simp) (by simp)

theorem remove_abides (id : String) :
    (remove id).action.run.Abides manner
      (fun log _ o ↦ (remove id).Accounts log o) [] h := by
  refine .andThen (Host.abides_attempt (fun h' c h'' _ hf ↦ ?_) fun h' e _ hf ↦ ?_)
  · simp only [Registry.removeComponent] at hf
    cases hbound : h'.registry.components.get? id with
    | none => simp [hbound] at hf
    | some c' =>
      simp only [hbound] at hf
      cases hf
      refine ⟨.removed id, ⟨?_, ?_⟩, by simp, by simp, by simp⟩
      · exact changesIn_eq_nil (by simp [Host.factories])
      · change changesIn _ ([] ++ [.acted h' _] ++ []) = _
        exact changesIn_eq_only (T := Host.components) (by simp) (by simp)
          (Change.between?_erase hbound)
  · simp only [Registry.removeComponent] at hf
    split at hf
    · cases hf
    · cases hf
      exact ⟨.same, .of_error (by simp) (by simp) (by simp)⟩

theorem abides (e : RegistryCall) (h : Host) :
    (Errand.program e).Abides manner (fun log _ o ↦ e.Accounts log o) [] h := by
  cases e with
  | registerFactory id f => exact registerFactory_abides id f
  | create config => exact create_abides config
  | register c => exact register_abides c
  | remove id => exact remove_abides id

theorem heedsRegistry : HeedsRegistry RegistryCall where
  spared _ _ := rfl
  acts e := .of_abides (e.abides {}) fun _ _ _ hact ↦ hact

end RegistryCall

/-! ### The registry over a run -/

namespace Crowd

/-- The registry of `s`, a state of a run, and of any later state `t`: a pair of maps in which
nothing is ever overwritten. -/
structure NeverOverwritten (s t : Crowd RegistryCall RegistryOutcome) : Prop where
  /-- A factory identifier, once bound, resolves to the same factory for ever. -/
  factory_stays : ∀ id f, s.host.registry.factory id = .ok f → t.host.registry.factory id = .ok f
  /-- Under every identifier components are bound and removed by turns, and bound first. -/
  alternate : ∀ id, Change.Alternates (t.changes Host.components id)
  /-- What is got is what was bound last, unless it has been removed. -/
  component_eq : ∀ id, t.host.registry.component id =
    match Change.standing (t.changes Host.components id) with
    | some c => .ok c
    | none => .error (.componentNotFound id)
  /-- As long as nothing is removed that has the identifier, what is bound stays in place. -/
  component_stays : ∀ id c, t.removals id = s.removals id →
    s.host.registry.component id = .ok c → t.host.registry.component id = .ok c
  /-- Of calls that record under one identifier, and had not done so in `s`, at most one succeeds
  as long as nothing is removed that has it. -/
  one_succeeds : ∀ id i j e e' r r', i ≠ j → t.removals id = s.removals id →
    e.recordsUnder? = some id → s.changesBy Host.components i id = [] →
    e'.recordsUnder? = some id → s.changesBy Host.components j id = [] →
    t.finished? i = some (e, .ok r) → t.finished? j ≠ some (e', .ok r')
  /-- A creation whose factory has built a component answers it, or the identifier was taken. -/
  created : ∀ i config o f config' c, t.finished? i = some (.create config, o) →
    .answered (.create f config') (.ok c) ∈ t.exchangesOf i →
    o = .ok (some c) ∨ o = .error (.componentAlreadyExists config.id)
  registered : ∀ i c o, t.finished? i = some (.register c, o) →
    o = .ok (some c) ∨ o = .error (.componentAlreadyExists c.id)
  /-- A call that has ended has changed the tables just as its answer says. -/
  achieves : ∀ i e o, t.finished? i = some (e, o) →
    e.Achieves o (t.changesBy Host.factories i) (t.changesBy Host.components i)
  /-- A call that has failed has left both tables as they were at each of its steps. -/
  untouched : ∀ i e err, t.finished? i = some (e, .error err) → ∀ x ∈ t.feats i,
    x.Keeps Host.registry
  componentIds_increasing : t.host.registry.componentIds.Pairwise (· < ·)
  mem_componentIds : ∀ id, id ∈ t.host.registry.componentIds ↔
    ∃ c, t.host.registry.component id = .ok c
  factoryIds_increasing : t.host.registry.factoryIds.Pairwise (· < ·)
  mem_factoryIds : ∀ id, id ∈ t.host.registry.factoryIds ↔
    ∃ f, t.host.registry.factory id = .ok f

variable {A : Crowd RegistryCall RegistryOutcome → Move RegistryCall → Prop}
  {s t : Crowd RegistryCall RegistryOutcome} {h : Host} {i : Nat} {e : RegistryCall}
  {o : RegistryOutcome}

theorem Later.accounts (hlater : Later A { host := h } s) (hi : s.finished? i = some (e, o)) :
    e.Accounts (s.feats i) o := by
  obtain ⟨-, -, haccounts⟩ :=
    (hlater.stands_alert (fun e ↦ e.abides) (getElem?_of_finished? hi)).done
  exact haccounts

/-- A call that has recorded a component has bound its identifier once. -/
theorem Later.countP_isBinding {r : Option Component} {id : String}
    (hlater : Later A { host := h } s) (hi : s.finished? i = some (e, .ok r))
    (he : e.recordsUnder? = some id) :
    (s.changesBy Host.components i id).countP Change.isBinding = 1 := by
  have hachieves := (hlater.accounts hi).achieves
  have hone {c : Component} (hchanges : changesIn Host.components (s.feats i) =
      RegistryCall.only id (.bound c)) :
      (s.changesBy Host.components i id).countP Change.isBinding = 1 := by
    rw [changesBy, hchanges, RegistryCall.only, if_pos rfl]
    rfl
  cases e with
  | registerFactory | remove => cases he
  | create config =>
    cases he
    cases r with
    | none => exact hachieves.elim
    | some c => exact hone hachieves.2
  | register c =>
    cases he
    cases r with
    | none => exact hachieves.elim
    | some c' => exact hone hachieves.2.2

/-- However calls on a registry interleave, nothing in it is ever overwritten. -/
theorem neverOverwritten (hempty : h.registry = {}) (hs : Later Freely { host := h } s)
    (hlater : Later Freely s t) : NeverOverwritten s t := by
  have hheeds := RegistryCall.heedsRegistry
  have ht := hs.trans hlater
  have hupright := ht.upright hheeds hempty
  exact {
    factory_stays := fun id f ↦ hs.factory_stays hheeds hlater
    alternate := hupright.components_alternate
    component_eq := fun id ↦ by
      rw [hupright.components_standing]
      rfl
    component_stays := fun id c hkept ↦ (hs.component_stays hheeds hlater id).2 hkept c
    one_succeeds := fun id i j e e' r r' hij hkept he hi he' hj hfinished hfinished' ↦ by
      have hone := Later.one_binds hheeds hempty hs hlater hij hkept hi hj
      rw [ht.countP_isBinding hfinished he, ht.countP_isBinding hfinished' he'] at hone
      omega
    created := fun i config o f config' c hfinished hmem ↦
      (ht.accounts hfinished).built config f config' c rfl (mem_exchangesOf.mp hmem)
    registered := fun i c o hfinished ↦ (ht.accounts hfinished).registered c rfl
    achieves := fun i e o hfinished ↦ (ht.accounts hfinished).achieves
    untouched := fun i e err hfinished ↦ (ht.accounts hfinished).untouched err rfl
    componentIds_increasing := Table.ids_pairwise_lt hupright.unambiguous.components
    mem_componentIds := fun id ↦ by
      rw [Registry.componentIds, Table.mem_ids]
      exact exists_congr fun c ↦ Registry.component_eq_ok_iff.symm
    factoryIds_increasing := Table.ids_pairwise_lt hupright.unambiguous.factories
    mem_factoryIds := fun id ↦ by
      rw [Registry.factoryIds, Table.mem_ids]
      exact exists_congr fun f ↦ Registry.factory_eq_ok_iff.symm }

end Crowd

/-! ### A factory that asks for its own component -/

namespace Small

open Crowd

/-- A factory has been registered and asked for a component `a`, and has not answered yet. -/
def building : Crowd RegistryCall RegistryOutcome :=
  ({ host := bare } : Crowd RegistryCall RegistryOutcome).after <|
    [.arrive (.registerFactory "f" (.external 0))] ++ Move.plays 0 answers 4 ++
      [.arrive (.create ⟨"a", "a", "", "f", []⟩), .proceed 1, .proceed 1]

/-- Meanwhile it has itself created a component `a`. -/
def builtInside : Crowd RegistryCall RegistryOutcome :=
  building.after <|
    [.arrive (.create ⟨"a", "a", "", "f", []⟩)] ++ Move.plays 2 answers 8 ++ Move.plays 1 answers 8

theorem builtInside_neverOverwritten :
    bare.registry = {} ∧ NeverOverwritten building builtInside ∧
      builtInside.host.registry.componentIds = ["a"] ∧
      (builtInside.finished? 2).map (·.2.isOk) = some true ∧
      (builtInside.finished? 1).map (·.2.isOk) = some false := by
  refine ⟨rfl, ?_, by decide +kernel, by decide +kernel, by decide +kernel⟩
  exact neverOverwritten rfl (later_after ..) (later_after ..)

end Small

end ComponentHost
