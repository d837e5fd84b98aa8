import ComponentHost.Host.Collaborators
import ComponentHost.Machine
import ComponentHost.Proofs.Scope

/-!
A host in the company of its collaborators, with one call carried out at a time.

Of its collaborators the host answers for its own (`Host.answer?`). What those from outside do is
given as one computation for each call: they may keep something themselves, look at the host and
change it, and make calls in turn. A company is the host, what the collaborators from outside keep,
and a record of everything that has passed, which nobody reads. `Company.Ends` says how a
computation of the host ends in a company and what it leaves behind; a computation that waits for
what never comes, or goes on forever, does not end.

`Prog.Leads` is the same for any state. A computation leads to at most one end (`Leads.unique`), and
is followed step by step (`leads_bind_iff`, `leads_call_iff`). The calls that are made on the way,
those of collaborators included, are given by `Prog.Makes`.
-/

set_option autoImplicit false

namespace ComponentHost

/-! ### Where a computation leads -/

namespace Prog

variable {σ α β : Type} {env : Environment σ}

/-- More steps than enough are enough. -/
theorem alone_mono {n m : Nat} (hle : n ≤ m) {x : Prog σ α} {s : σ} {y : α × σ}
    (h : x.alone env n s = some y) : x.alone env m s = some y := by
  induction n generalizing m x s with
  | zero => cases x <;> cases h
  | succ n ih =>
    obtain ⟨m, rfl⟩ := Nat.exists_eq_add_of_le' (Nat.le_trans (Nat.le_add_left 1 n) hle)
    have hle := Nat.le_of_succ_le_succ hle
    cases x with
    | done a => exact h
    | act f k => exact ih hle h
    | await claim k =>
      obtain ⟨t, hclaim, h⟩ := Option.bind_eq_some_iff.mp h
      exact Option.bind_eq_some_iff.mpr ⟨t, hclaim, ih hle h⟩
    | call c k => exact ih hle h

/-- The first part of a computation ends before the second begins. -/
theorem alone_bind {n : Nat} {x : Prog σ α} {g : α → Prog σ β} {s : σ} {y : β × σ}
    (h : (x.bind g).alone env n s = some y) :
    ∃ a t, x.alone env n s = some (a, t) ∧ (g a).alone env n t = some y := by
  induction n generalizing x s with
  | zero => cases hx : x.bind g <;> rw [hx] at h <;> cases h
  | succ n ih =>
    cases x with
    | done a => exact ⟨a, s, rfl, h⟩
    | act f k =>
      obtain ⟨a, t, hx, hg⟩ := ih h
      exact ⟨a, t, hx, alone_mono (Nat.le_succ n) hg⟩
    | await claim k =>
      obtain ⟨u, hclaim, h⟩ := Option.bind_eq_some_iff.mp h
      obtain ⟨a, t, hx, hg⟩ := ih h
      exact ⟨a, t, Option.bind_eq_some_iff.mpr ⟨u, hclaim, hx⟩, alone_mono (Nat.le_succ n) hg⟩
    | call c k =>
      have h : (((env c).bind k).bind g).alone env n s = some y := by
        rw [bind_assoc]
        exact h
      obtain ⟨a, t, hx, hg⟩ := ih h
      exact ⟨a, t, hx, alone_mono (Nat.le_succ n) hg⟩

/-- One computation after another takes no more steps than both. -/
theorem alone_bind_add {n m : Nat} {x : Prog σ α} {g : α → Prog σ β} {s t : σ} {a : α} {y : β × σ}
    (hx : x.alone env n s = some (a, t)) (hg : (g a).alone env m t = some y) :
    (x.bind g).alone env (n + m) s = some y := by
  induction n generalizing x s with
  | zero => cases x <;> cases hx
  | succ n ih =>
    rw [Nat.succ_add]
    cases x with
    | done b =>
      cases hx
      exact alone_mono (by omega) hg
    | act f k => exact ih hx
    | await claim k =>
      obtain ⟨u, hclaim, hx⟩ := Option.bind_eq_some_iff.mp hx
      exact Option.bind_eq_some_iff.mpr ⟨u, hclaim, ih hx⟩
    | call c k =>
      have h := ih hx
      rw [bind_assoc] at h
      exact h

/-- With nobody beside it the computation ends so. -/
def Leads (env : Environment σ) (x : Prog σ α) (s : σ) (a : α) (t : σ) : Prop :=
  ∃ n, x.alone env n s = some (a, t)

/-- A computation has at most one end. -/
theorem Leads.unique {x : Prog σ α} {s t u : σ} {a b : α} (h : Leads env x s a t)
    (h' : Leads env x s b u) : a = b ∧ t = u := by
  obtain ⟨n, hn⟩ := h
  obtain ⟨m, hm⟩ := h'
  have hn := alone_mono (Nat.le_max_left n m) hn
  have hm := alone_mono (Nat.le_max_right n m) hm
  simpa using hn.symm.trans hm

variable {s t : σ} {b : β}

theorem leads_done_iff {a : β} : Leads env (.done a) s b t ↔ b = a ∧ t = s := by
  constructor
  · rintro ⟨_ | n, hn⟩
    · cases hn
    · cases hn
      exact ⟨rfl, rfl⟩
  · rintro ⟨rfl, rfl⟩
    exact ⟨1, rfl⟩

theorem leads_act_iff {f : σ → σ} {k : σ → Prog σ β} :
    Leads env (.act f k) s b t ↔ Leads env (k s) (f s) b t := by
  constructor
  · rintro ⟨_ | n, hn⟩
    · cases hn
    · exact ⟨n, hn⟩
  · rintro ⟨n, hn⟩
    exact ⟨n + 1, hn⟩

theorem leads_await_iff {claim : σ → Option σ} {k : Prog σ β} :
    Leads env (.await claim k) s b t ↔ ∃ u, claim s = some u ∧ Leads env k u b t := by
  constructor
  · rintro ⟨_ | n, hn⟩
    · cases hn
    · obtain ⟨u, hclaim, hn⟩ := Option.bind_eq_some_iff.mp hn
      exact ⟨u, hclaim, n, hn⟩
  · rintro ⟨u, hclaim, n, hn⟩
    exact ⟨n + 1, Option.bind_eq_some_iff.mpr ⟨u, hclaim, hn⟩⟩

theorem leads_bind_iff {x : Prog σ α} {g : α → Prog σ β} :
    Leads env (x.bind g) s b t ↔ ∃ a u, Leads env x s a u ∧ Leads env (g a) u b t := by
  constructor
  · rintro ⟨n, hn⟩
    obtain ⟨a, u, hx, hg⟩ := alone_bind hn
    exact ⟨a, u, ⟨n, hx⟩, n, hg⟩
  · rintro ⟨a, u, ⟨n, hx⟩, m, hg⟩
    exact ⟨n + m, alone_bind_add hx hg⟩

theorem leads_call_iff {c : Call} {k : c.Reply → Prog σ β} :
    Leads env (.call c k) s b t ↔ ∃ r u, Leads env (env c) s r u ∧ Leads env (k r) u b t := by
  rw [← leads_bind_iff]
  constructor
  · rintro ⟨_ | n, hn⟩
    · cases hn
    · exact ⟨n, hn⟩
  · rintro ⟨n, hn⟩
    exact ⟨n + 1, hn⟩

/-- On the way of the computation the call is made, the state being the second one. -/
inductive Makes (env : Environment σ) {α : Type} : Prog σ α → σ → Call → σ → Prop where
  | act {f : σ → σ} {k : σ → Prog σ α} {s t : σ} {c : Call} (h : Makes env (k s) (f s) c t) :
      Makes env (.act f k) s c t
  | await {claim : σ → Option σ} {k : Prog σ α} {s t u : σ} {c : Call} (hclaim : claim s = some u)
      (h : Makes env k u c t) : Makes env (.await claim k) s c t
  | now {c : Call} {k : c.Reply → Prog σ α} {s : σ} : Makes env (.call c k) s c s
  /-- The collaborator that is called makes the call, or the caller makes it afterwards. -/
  | later {c c' : Call} {k : c.Reply → Prog σ α} {s t : σ}
      (h : Makes env ((env c).bind k) s c' t) : Makes env (.call c k) s c' t

namespace Makes

variable {c : Call} {u : σ}

/-- The calls of the first part of a computation. -/
theorem bind_left {x : Prog σ α} {g : α → Prog σ β} (h : Makes env x s c t) :
    Makes env (x.bind g) s c t := by
  induction h with
  | act _ ih => exact .act ih
  | await hclaim _ ih => exact .await hclaim ih
  | now => exact .now
  | later _ ih =>
    refine .later ?_
    rw [← bind_assoc]
    exact ih

/-- The calls of the second part of a computation. -/
theorem bind_right {x : Prog σ α} {g : α → Prog σ β} {a : α} (hx : Leads env x s a u)
    (h : Makes env (g a) u c t) : Makes env (x.bind g) s c t := by
  obtain ⟨n, hx⟩ := hx
  induction n generalizing x s with
  | zero => cases x <;> cases hx
  | succ n ih =>
    cases x with
    | done b =>
      cases hx
      exact h
    | act f k => exact .act (ih hx)
    | await claim k =>
      obtain ⟨v, hclaim, hx⟩ := Option.bind_eq_some_iff.mp hx
      exact .await hclaim (ih hx)
    | call c' k =>
      have hrest := ih hx
      rw [bind_assoc] at hrest
      exact .later hrest

/-- What a collaborator calls that is called on the way is called on the way. -/
theorem nested {x : Prog σ α} {c' : Call} {v : σ} (h : Makes env x s c t)
    (h' : Makes env (env c) t c' v) : Makes env x s c' v := by
  induction h with
  | act _ ih => exact .act (ih h')
  | await hclaim _ ih => exact .await hclaim (ih h')
  | now => exact .later h'.bind_left
  | later _ ih => exact .later (ih h')

end Makes

/-- Where states look the same a computation that keeps to the scope leads to the same result, and
to states that look the same, if every call it may make is answered by a computation that does. -/
theorem KeepsTo.exists_leads {S : Scope σ}
    (henv : ∀ c, S.call c → (env c).KeepsTo S ∨ ∀ s s' r t, S.alike s s' → Leads env (env c) s r t →
      ∃ t', Leads env (env c) s' r t' ∧ S.alike t t')
    {x : Prog σ α} {s s' t : σ} {a : α} (hx : x.KeepsTo S) (hs : S.alike s s')
    (h : Leads env x s a t) : ∃ t', Leads env x s' a t' ∧ S.alike t t' := by
  obtain ⟨n, hn⟩ := h
  induction n generalizing x s s' with
  | zero => cases x <;> cases hn
  | succ n ih =>
    cases x with
    | done b =>
      cases hn
      exact ⟨s', leads_done_iff.mpr ⟨rfl, rfl⟩, hs⟩
    | act f k =>
      obtain ⟨hf, -, hk, hrest⟩ := hx s s' hs
      obtain ⟨t', hleads, ht⟩ := ih hrest hf hn
      exact ⟨t', leads_act_iff.mpr (hk ▸ hleads), ht⟩
    | await claim k =>
      obtain ⟨u, hclaim, hn⟩ := Option.bind_eq_some_iff.mp hn
      have hboth := hx.1 s s' hs
      rw [hclaim] at hboth
      generalize hclaim' : claim s' = after at hboth
      cases hboth with
      | @some _ u' hu =>
        obtain ⟨t', hleads, ht⟩ := ih hx.2 hu.1 hn
        exact ⟨t', leads_await_iff.mpr ⟨u', hclaim', hleads⟩, ht⟩
    | call c k =>
      rcases henv c hx.1 with hc | hc
      · -- the answer and what follows it keep to the scope together
        obtain ⟨t', hleads, ht⟩ := ih (hc.bind hx.2) hs hn
        exact ⟨t', leads_call_iff.mpr (leads_bind_iff.mp hleads), ht⟩
      · obtain ⟨r, u, hanswer, hrest⟩ := alone_bind hn
        obtain ⟨u', hanswer', hu⟩ := hc s s' r u hs ⟨n, hanswer⟩
        obtain ⟨t', hleads, ht⟩ := ih (hx.2 r) hu hrest
        exact ⟨t', leads_call_iff.mpr ⟨r, u', hanswer', hleads⟩, ht⟩

end Prog

/-! ### Companies -/

/-- A host with its collaborators. -/
structure Company (ω : Type) where
  host : Host
  /-- What the collaborators from outside keep. -/
  others : ω
  /-- What has passed between the host and its collaborators, the latest first. -/
  passed : List Exchange := []

/-- What the collaborators from outside do, with the host and what they keep. -/
abbrev Outside (ω : Type) := Environment (Host × ω)

namespace Company

variable {ω α β : Type} {ext : Outside ω} {w w' : Company ω}

def noted (w : Company ω) (x : Exchange) : Company ω := { w with passed := x :: w.passed }

/-- A computation of the host. -/
def program (x : Prog Host α) : Prog (Company ω) α :=
  x.within Company.host fun h w ↦ { w with host := h }

/-- A computation of a collaborator from outside. -/
def foreign (x : Prog (Host × ω) α) : Prog (Company ω) α :=
  x.within (fun w ↦ (w.host, w.others)) fun y w ↦ { w with host := y.1, others := y.2 }

/-- What a collaborator does to answer a call. -/
def answering (ext : Outside ω) : Environment (Company ω) := fun c ↦
  match Host.answer? c with
  | some x => program x
  | none => foreign (ext c)

/-- A call is made, and answered. -/
def environment (ext : Outside ω) : Environment (Company ω) := fun c ↦
  .act (·.noted (.asked c)) fun _ ↦ (answering ext c).bind fun r ↦
    .act (·.noted (.answered c r)) fun _ ↦ .done r

/-- The computation of the host ends so. -/
def Ends (ext : Outside ω) (x : Prog Host α) (w : Company ω) (a : α)
    (w' : Company ω) : Prop := Prog.Leads (environment ext) (program x) w a w'

/-- The collaborator answers so. -/
def Replies (ext : Outside ω) (c : Call) (w : Company ω) (r : c.Reply)
    (w' : Company ω) : Prop := Prog.Leads (environment ext) (answering ext c) w r w'

theorem Ends.unique {x : Prog Host α} {a b : α} {u : Company ω} (h : Ends ext x w a w')
    (h' : Ends ext x w b u) : a = b ∧ w' = u := Prog.Leads.unique h h'

theorem program_bind (x : Prog Host α) (g : α → Prog Host β) :
    (program (x.bind g) : Prog (Company ω) β) = (program x).bind fun a ↦ program (g a) := by
  induction x with
  | done a => rfl
  | act f k ih => exact congrArg (Prog.act _) (funext fun w ↦ ih w.host)
  | await claim k ih => exact congrArg (Prog.await _) ih
  | call c k ih => exact congrArg (Prog.call c) (funext ih)

theorem ends_done_iff {a b : α} : Ends ext (.done a) w b w' ↔ b = a ∧ w' = w :=
  Prog.leads_done_iff

theorem ends_act_iff {f : Host → Host} {k : Host → Prog Host α} {a : α} :
    Ends ext (.act f k) w a w' ↔ Ends ext (k w.host) { w with host := f w.host } a w' :=
  Prog.leads_act_iff

theorem ends_await_iff {claim : Host → Option Host} {k : Prog Host α} {a : α} :
    Ends ext (.await claim k) w a w' ↔
      ∃ h, claim w.host = some h ∧ Ends ext k { w with host := h } a w' := by
  refine Prog.leads_await_iff.trans ⟨?_, ?_⟩
  · rintro ⟨u, hclaim, hrest⟩
    obtain ⟨h, hh, rfl⟩ := Option.map_eq_some_iff.mp hclaim
    exact ⟨h, hh, hrest⟩
  · rintro ⟨h, hclaim, hrest⟩
    exact ⟨_, Option.map_eq_some_iff.mpr ⟨h, hclaim, rfl⟩, hrest⟩

theorem ends_bind_iff {x : Prog Host α} {g : α → Prog Host β} {b : β} :
    Ends ext (x.bind g) w b w' ↔ ∃ a u, Ends ext x w a u ∧ Ends ext (g a) u b w' := by
  unfold Ends
  rw [program_bind, Prog.leads_bind_iff]

theorem ends_modify_iff {f : Host → Host} {u : Unit} :
    Ends ext (Prog.modify f) w u w' ↔ u = () ∧ w' = { w with host := f w.host } :=
  ends_act_iff.trans ends_done_iff

/-- The call is noted, the collaborator answers, and the answer is noted. -/
theorem ends_call_iff {c : Call} {k : c.Reply → Prog Host α} {a : α} :
    Ends ext (.call c k) w a w' ↔ ∃ r u, Replies ext c (w.noted (.asked c)) r u ∧
      Ends ext (k r) (u.noted (.answered c r)) a w' := by
  have hleads : Ends ext (.call c k) w a w' ↔
      ∃ r u, Prog.Leads (environment ext) (environment ext c) w r u ∧ Ends ext (k r) u a w' :=
    Prog.leads_call_iff
  rw [hleads]
  unfold environment
  simp only [Prog.leads_act_iff, Prog.leads_bind_iff, Prog.leads_done_iff]
  constructor
  · rintro ⟨r, u, ⟨r', v, hreplies, rfl, rfl⟩, hrest⟩
    exact ⟨r, v, hreplies, hrest⟩
  · rintro ⟨r, v, hreplies, hrest⟩
    exact ⟨r, _, ⟨r, v, hreplies, rfl, rfl⟩, hrest⟩

/-- A call that the host answers itself. -/
theorem replies_iff_of_answer? {c : Call} {x : Prog Host c.Reply} {r : c.Reply}
    (hc : Host.answer? c = some x) : Replies ext c w r w' ↔ Ends ext x w r w' := by
  unfold Replies answering
  rw [hc]
  exact Iff.rfl

/-- A call that is answered from outside. -/
theorem replies_iff_of_outside {c : Call} {r : c.Reply} (hc : Host.answer? c = none) :
    Replies ext c w r w' ↔ Prog.Leads (environment ext) (foreign (ext c)) w r w' := by
  unfold Replies answering
  rw [hc]

/-- On the way of the computation of the host the call is made in the second company. -/
def Makes (ext : Outside ω) (x : Prog Host α) (w : Company ω) (c : Call) (v : Company ω) : Prop :=
  Prog.Makes (environment ext) (program x) w c v

namespace Makes

variable {c : Call} {v u : Company ω} {x : Prog Host α} {g : α → Prog Host β}

theorem left (h : Makes ext x w c v) : Makes ext (x.bind g) w c v := by
  unfold Makes
  rw [program_bind]
  exact Prog.Makes.bind_left h

theorem right {a : α} (hx : Ends ext x w a u) (h : Makes ext (g a) u c v) :
    Makes ext (x.bind g) w c v := by
  unfold Makes
  rw [program_bind]
  exact Prog.Makes.bind_right hx h

/-- What one of the host's own collaborators calls that is called on the way. -/
theorem inner {c' : Call} {u' : Company ω} {y : Prog Host c.Reply} (h : Makes ext x w c v)
    (hc : Host.answer? c = some y) (h' : Makes ext y (v.noted (.asked c)) c' u') :
    Makes ext x w c' u' := by
  have hanswering : answering ext c = program y := by
    unfold answering
    rw [hc]
  refine Prog.Makes.nested h (.act (Prog.Makes.bind_left ?_))
  rw [hanswering]
  exact h'

/-- The calls after one that is answered. -/
theorem next {c' : Call} {r : c'.Reply} {k : c'.Reply → Prog Host α}
    (hreplies : Replies ext c' (w.noted (.asked c')) r u)
    (h : Makes ext (k r) (u.noted (.answered c' r)) c v) : Makes ext (.call c' k) w c v := by
  have hends : Ends ext (.call c' .done) w r (u.noted (.answered c' r)) :=
    ends_call_iff.mpr ⟨r, u, hreplies, ends_done_iff.mpr ⟨rfl, rfl⟩⟩
  exact right (x := .call c' .done) (g := k) hends h

end Makes

/-- What every change and every call on the way of a computation keeps is kept in the end. -/
theorem Ends.related {R : Host → Host → Prop} {S : Scope Host} {x : Prog Host α} {a : α}
    (hrefl : ∀ h, R h h) (htrans : ∀ {h h' h''}, R h h' → R h' h'' → R h h'')
    (hS : ∀ h, S.alike h h) (hchange : ∀ h h', S.change h h' → R h h') (hx : x.KeepsTo S)
    (hcalls : ∀ c v r v', S.call c → Makes ext x w c v →
      Replies ext c (v.noted (.asked c)) r v' → R v.host v'.host)
    (h : Ends ext x w a w') : R w.host w'.host := by
  induction x generalizing w with
  | done b =>
    obtain ⟨-, rfl⟩ := ends_done_iff.mp h
    exact hrefl _
  | act f k ih =>
    obtain ⟨-, hf, -, hrest⟩ := hx w.host w.host (hS _)
    have hkept := ih w.host hrest (fun c v r v' hc hmakes ↦ hcalls c v r v' hc (.act hmakes))
      (ends_act_iff.mp h)
    exact htrans (hchange _ _ hf) hkept
  | await claim k ih =>
    obtain ⟨hclaim, hrest⟩ := hx
    obtain ⟨t, ht, h⟩ := ends_await_iff.mp h
    have hkept := ih hrest (fun c v r v' hc hmakes ↦ hcalls c v r v' hc
      (.await (Option.map_eq_some_iff.mpr ⟨t, ht, rfl⟩) hmakes)) h
    have htaken := hclaim w.host w.host (hS _)
    rw [ht] at htaken
    cases htaken with
    | some htaken => exact htrans (hchange _ _ htaken.2) hkept
  | call c k ih =>
    obtain ⟨hc, hrest⟩ := hx
    obtain ⟨r, u, hreplies, h⟩ := ends_call_iff.mp h
    have hanswered := hcalls c w r u hc .now hreplies
    have hkept := ih r (hrest r) (fun c v r v' hc hmakes ↦ hcalls c v r v' hc
      (.next hreplies hmakes)) h
    exact htrans hanswered hkept

/-! ### Actions -/

/-- One action after another: the second is taken only if the first succeeds. -/
theorem ends_andThen_iff {x : Action α} {f : α → Action β} {o : Except Error β} :
    Ends ext (x >>= f).run w o w' ↔ ∃ res u, Ends ext x.run w res u ∧ match res with
      | .ok a => Ends ext (f a).run u o w'
      | .error e => o = .error e ∧ w' = u := by
  have hbind : Ends ext (x >>= f).run w o w' ↔
      ∃ res u, Ends ext x.run w res u ∧ Ends ext (ExceptT.bindCont f res) u o w' := ends_bind_iff
  rw [hbind]
  refine exists_congr fun res ↦ exists_congr fun u ↦ and_congr_right fun _ ↦ ?_
  cases res with
  | ok a => exact Iff.rfl
  | error e => exact ends_done_iff

/-- The second action, after the first has succeeded. -/
theorem ends_andThen_iff_of_ok {x : Action α} {f : α → Action β} {o : Except Error β} {a : α}
    {u : Company ω} (hx : Ends ext x.run w (.ok a) u) :
    Ends ext (x >>= f).run w o w' ↔ Ends ext (f a).run u o w' := by
  rw [ends_andThen_iff]
  constructor
  · rintro ⟨res, v, hx', hres⟩
    obtain ⟨rfl, rfl⟩ := hx.unique hx'
    exact hres
  · intro h
    exact ⟨_, u, hx, h⟩

/-- An action, and what is done if it fails. -/
theorem ends_rescue_iff {x : Action α} {f : Error → Action α} {o : Except Error α} :
    Ends ext (tryCatch x f).run w o w' ↔ ∃ res u, Ends ext x.run w res u ∧ match res with
      | .ok a => o = .ok a ∧ w' = u
      | .error e => Ends ext (f e).run u o w' := by
  refine (ends_bind_iff (x := x.run)).trans ?_
  refine exists_congr fun res ↦ exists_congr fun u ↦ and_congr_right fun _ ↦ ?_
  cases res with
  | ok a => exact ends_done_iff
  | error e => exact Iff.rfl

theorem ends_throw_iff {e : Error} {o : Except Error α} :
    Ends ext (throw e : Action α).run w o w' ↔ o = .error e ∧ w' = w := ends_done_iff

/-- A look that may fail. -/
theorem ends_inspect_iff {f : Host → Except Error α} {o : Except Error α} :
    Ends ext (Host.inspect f).run w o w' ↔ o = f w.host ∧ w' = w := by
  show Ends ext (.act id fun h ↦ .done (f h)) w o w' ↔ _
  rw [ends_act_iff]
  exact ends_done_iff

/-- The company after a line of diagnostics was written. -/
def said (w : Company ω) (line : LogLine) : Company ω :=
  (({ w with host := { w.host with lines := w.host.lines ++ [line] } } : Company ω).noted
    (.asked (.line line))).noted (.answered (.line line) ())

theorem ends_diagnose_iff {level : LineLevel} {message : String} {o : Except Error Unit} :
    Ends ext (Host.diagnose level message).run w o w' ↔
      o = .ok () ∧ w' = w.said ⟨level, "zi_runtime", message⟩ := by
  show Ends ext (.call (.line ⟨level, "zi_runtime", message⟩) fun _ ↦ .done (.ok ())) w o w' ↔ _
  simp only [ends_call_iff, ends_done_iff,
    replies_iff_of_answer? (c := .line ⟨level, "zi_runtime", message⟩) rfl]
  constructor
  · rintro ⟨r, u, hline, rfl, rfl⟩
    obtain ⟨-, rfl⟩ := ends_modify_iff.mp hline
    exact ⟨rfl, rfl⟩
  · rintro ⟨rfl, rfl⟩
    exact ⟨(), _, ends_modify_iff.mpr ⟨rfl, rfl⟩, rfl, rfl⟩

end Company

end ComponentHost
