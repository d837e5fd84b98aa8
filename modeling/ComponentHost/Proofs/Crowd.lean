import ComponentHost.Proofs.Section
import Mathlib.Logic.Relation
import Mathlib.Tactic.ByContra

/-!
Clients with errands of some kind, side by side on one host.

A client carries out one errand (`Errand.program`). It acts on the host, waits until it can make a
claim, or asks a collaborator and waits for the answer; between any two of these steps others may
move, also those whom a collaborator sends while it is asked. Collaborators answer what they like.
What else happens on the host leaves alone what the errands are about (`Errand.spared`).

Every state knows what each client has done, with the host as it was found and as it was left
(`Crowd.feats`). What a client may do is told by the client's program alone: `Prog.Abides M Q` says
of a program that whatever it finds and is answered, its acts and calls are as the manner `M` allows
after what it has done by then, and that it ends as `Q` says. It may rely on what the others make of
the host in the meantime. Every client of a crowd stands where such a program may have come to
(`Crowd.Later.stands`).
-/

set_option autoImplicit false

namespace ComponentHost

/-! ### Errands -/

/-- Errands that clients may have. -/
class Errand (ε : Type) (ρ : outParam Type) where
  program : ε → Prog Host ρ
  /-- What becomes of a host when something else happens on it. -/
  spared (before after : Host) : Host

/-- Something that a client has done. -/
inductive Feat where
  | acted (before after : Host)
  | said (x : Exchange)

namespace Feat

def exchange? : Feat → Option Exchange
  | .acted _ _ => none
  | .said x => some x

def act? : Feat → Option (Host × Host)
  | .acted h h' => some (h, h')
  | .said _ => none

end Feat

/-- What has passed, in a list of things done. -/
def exchangesIn (log : List Feat) : List Exchange := log.filterMap Feat.exchange?

@[simp] theorem exchangesIn_nil : exchangesIn [] = [] := rfl

@[simp] theorem exchangesIn_append (xs ys : List Feat) :
    exchangesIn (xs ++ ys) = exchangesIn xs ++ exchangesIn ys := List.filterMap_append

@[simp] theorem exchangesIn_acted (h h' : Host) (xs : List Feat) :
    exchangesIn (.acted h h' :: xs) = exchangesIn xs := rfl

@[simp] theorem exchangesIn_said (x : Exchange) (xs : List Feat) :
    exchangesIn (.said x :: xs) = x :: exchangesIn xs := rfl

/-- The host before and after each act. -/
def actsIn (log : List Feat) : List (Host × Host) := log.filterMap Feat.act?

@[simp] theorem actsIn_nil : actsIn [] = [] := rfl

@[simp] theorem actsIn_append (xs ys : List Feat) : actsIn (xs ++ ys) = actsIn xs ++ actsIn ys :=
  List.filterMap_append

@[simp] theorem actsIn_acted (h h' : Host) (xs : List Feat) :
    actsIn (.acted h h' :: xs) = (h, h') :: actsIn xs := rfl

@[simp] theorem actsIn_said (x : Exchange) (xs : List Feat) :
    actsIn (.said x :: xs) = actsIn xs := rfl

theorem mem_actsIn {x : Host × Host} {log : List Feat} :
    x ∈ actsIn log ↔ .acted x.1 x.2 ∈ log := by
  rw [actsIn, List.mem_filterMap]
  constructor
  · rintro ⟨feat, hmem, hfeat⟩
    cases feat with
    | said y => cases hfeat
    | acted h h' =>
      cases hfeat
      exact hmem
  · exact fun hmem ↦ ⟨_, hmem, rfl⟩

/-- The host and the rest of a computation after its next step, if that is a step on the host and
can be made. -/
def Prog.next? {α : Type} : Prog Host α → Host → Option (Host × Prog Host α)
  | .done _, _ | .call _ _, _ => none
  | .act f k, h => some (f h, k h)
  | .await claim k, h => (claim h).map fun h' ↦ (h', k)

/-! ### Crowds -/

namespace Crowd

/-- What a client has still to do. -/
inductive Task (ρ : Type) where
  | going (rest : Prog Host ρ)
  /-- The call is made and its answer awaited. -/
  | asking (call : Call) (next : call.Reply → Prog Host ρ)

/-- The client has to wait, or has nothing to do any more. -/
def Task.waits {ρ : Type} : Task ρ → Bool
  | .going (.done _) | .going (.await _ _) => true
  | .going _ => false
  | .asking c _ => c.suspends

structure Client (ε ρ : Type) where
  errand : ε
  task : Task ρ

/-- What may happen next. -/
inductive Move (ε : Type) where
  /-- A new client comes. -/
  | arrive (errand : ε)
  /-- A client acts, takes what it waits for, or makes a call. -/
  | proceed (client : Nat)
  /-- A client is given the answer to its call. -/
  | answer (client : Nat) (reply : (call : Call) → call.Reply)
  /-- Something else happens on the host. -/
  | outside (change : Host → Host)

/-- The client who moves. -/
def Move.client? {ε : Type} : Move ε → Option Nat
  | .proceed i | .answer i _ => some i
  | _ => none

end Crowd

/-- The clients of a host, each known by its place in the list. -/
structure Crowd (ε ρ : Type) where
  host : Host
  clients : List (Crowd.Client ε ρ) := []
  /-- What the clients have done so far, the latest first. -/
  past : List (Nat × Feat) := []

namespace Crowd

variable {ε ρ : Type} {s t u : Crowd ε ρ} {i j : Nat} {m : Move ε} {A : Crowd ε ρ → Move ε → Prop}

/-- What a client has done, the earliest first. -/
def feats (s : Crowd ε ρ) (i : Nat) : List Feat :=
  ((s.past.filter (·.1 == i)).map (·.2)).reverse

/-- What has passed between a client and the collaborators, the earliest first. -/
def exchangesOf (s : Crowd ε ρ) (i : Nat) : List Exchange := exchangesIn (s.feats i)

theorem mem_exchangesOf {x : Exchange} : x ∈ s.exchangesOf i ↔ .said x ∈ s.feats i := by
  rw [exchangesOf, exchangesIn, List.mem_filterMap]
  constructor
  · rintro ⟨feat, hmem, hfeat⟩
    cases feat with
    | acted h h' => cases hfeat
    | said y =>
      cases hfeat
      exact hmem
  · exact fun hmem ↦ ⟨_, hmem, rfl⟩

/-- The errand of a client that is finished, and how it has ended. -/
def finished? (s : Crowd ε ρ) (i : Nat) : Option (ε × ρ) :=
  match s.clients[i]? with
  | some ⟨e, .going (.done o)⟩ => some (e, o)
  | _ => none

/-- Everybody waits, or is finished. -/
def Quiet (s : Crowd ε ρ) : Prop := ∀ c ∈ s.clients, c.task.waits = true

instance (s : Crowd ε ρ) : Decidable s.Quiet := by
  unfold Quiet
  infer_instance

/-- A client has done something, and left the host and its own task so. -/
def moved (s : Crowd ε ρ) (i : Nat) (e : ε) (feat : Feat) (h : Host) (task : Task ρ) : Crowd ε ρ :=
  { host := h, clients := s.clients.set i ⟨e, task⟩, past := (i, feat) :: s.past }

theorem feats_moved (j : Nat) (e : ε) (feat : Feat) (h : Host) (task : Task ρ) :
    (s.moved j e feat h task).feats i = s.feats i ++ if j = i then [feat] else [] := by
  by_cases hij : j = i <;> simp [feats, moved, hij]

@[simp] theorem feats_moved_self (e : ε) (feat : Feat) (h : Host) (task : Task ρ) :
    (s.moved i e feat h task).feats i = s.feats i ++ [feat] := by
  rw [feats_moved, if_pos rfl]

theorem getElem?_moved {c : Client ε ρ} (hi : s.clients[i]? = some c) (e : ε) (feat : Feat)
    (h : Host) (task : Task ρ) : (s.moved i e feat h task).clients[i]? = some ⟨e, task⟩ :=
  List.getElem?_set_self (List.getElem?_eq_some_iff.mp hi).1

theorem finished?_eq_some {e : ε} {o : ρ} (hi : s.clients[i]? = some ⟨e, .going (.done o)⟩) :
    s.finished? i = some (e, o) := by
  rw [finished?, hi]

theorem getElem?_of_finished? {e : ε} {o : ρ} (h : s.finished? i = some (e, o)) :
    s.clients[i]? = some ⟨e, .going (.done o)⟩ := by
  unfold finished? at h
  split at h
  · rename_i hi
    cases h
    exact hi
  · cases h

/-- Nobody has done anything who is not there. -/
def NobodyElse (s : Crowd ε ρ) : Prop := ∀ i, s.clients[i]? = none → s.feats i = []

theorem nobodyElse_start (h : Host) : NobodyElse ({ host := h } : Crowd ε ρ) := fun _ _ ↦ rfl

/-- All clients but some have errands of a kind. -/
def AllBut (P : Nat → Prop) (E : ε → Prop) (s : Crowd ε ρ) : Prop :=
  ∀ i c, s.clients[i]? = some c → P i ∨ E c.errand

theorem allBut_start (P : Nat → Prop) (E : ε → Prop) (h : Host) :
    AllBut P E ({ host := h } : Crowd ε ρ) := by
  simp [AllBut]

variable [Errand ε ρ]

/-- A new client has come. -/
def joined (s : Crowd ε ρ) (e : ε) : Crowd ε ρ :=
  { s with clients := s.clients ++ [⟨e, .going (Errand.program e)⟩] }

/-- The state after a move, if the move can be made. -/
def step (s : Crowd ε ρ) : Move ε → Option (Crowd ε ρ)
  | .arrive e => some (s.joined e)
  | .proceed i =>
    match s.clients[i]? with
    | some ⟨e, .going (.call c k)⟩ => some (s.moved i e (.said (.asked c)) s.host (.asking c k))
    | some ⟨e, .going x⟩ =>
      (x.next? s.host).map fun (h, rest) ↦ s.moved i e (.acted s.host h) h (.going rest)
    | _ => none
  | .answer i reply =>
    match s.clients[i]? with
    | some ⟨e, .asking c k⟩ =>
      some (s.moved i e (.said (.answered c (reply c))) s.host (.going (k (reply c))))
    | _ => none
  | .outside change => some { s with host := Errand.spared ε s.host (change s.host) }

/-- One move that is allowed leads from a state to another. -/
def Next (A : Crowd ε ρ → Move ε → Prop) (s t : Crowd ε ρ) : Prop :=
  ∃ m, A s m ∧ s.step m = some t

/-- Some moves lead from a state to another, and each is allowed where it is made. -/
def Later (A : Crowd ε ρ → Move ε → Prop) : Crowd ε ρ → Crowd ε ρ → Prop :=
  Relation.ReflTransGen (Next A)

theorem Later.trans (hlater : Later A s t) (hlater' : Later A t u) : Later A s u :=
  Relation.ReflTransGen.trans hlater hlater'

/-- Every move is allowed. -/
def Freely (_ : Crowd ε ρ) (_ : Move ε) : Prop := True

/-- The state after some moves; what cannot be done is passed over. -/
def after (s : Crowd ε ρ) : List (Move ε) → Crowd ε ρ
  | [] => s
  | m :: rest => ((s.step m).getD s).after rest

/-- Each of the moves is allowed where it is made. -/
def Allows (A : Crowd ε ρ → Move ε → Prop) : List (Move ε) → Crowd ε ρ → Prop
  | [], _ => True
  | m :: rest, s => A s m ∧ Allows A rest ((s.step m).getD s)

instance decidableAllows [∀ (s : Crowd ε ρ) m, Decidable (A s m)] :
    (ms : List (Move ε)) → (s : Crowd ε ρ) → Decidable (Allows A ms s)
  | [], _ => .isTrue trivial
  | m :: rest, s =>
    have := decidableAllows rest ((s.step m).getD s)
    inferInstanceAs (Decidable (_ ∧ _))

theorem later_of_allows {ms : List (Move ε)} (hms : Allows A ms s) : Later A s (s.after ms) := by
  induction ms generalizing s with
  | nil => exact .refl
  | cons m rest ih =>
    obtain ⟨hA, hrest⟩ := hms
    rw [after]
    cases hstep : s.step m with
    | none => exact ih (by rwa [hstep] at hrest)
    | some t =>
      have hnext : Next A s t := ⟨m, hA, hstep⟩
      exact .head hnext (ih (by rwa [hstep] at hrest))

theorem later_after (s : Crowd ε ρ) (ms : List (Move ε)) : Later Freely s (s.after ms) := by
  refine later_of_allows ?_
  induction ms generalizing s with
  | nil => trivial
  | cons m rest ih => exact ⟨trivial, ih _⟩

/-- A client makes its moves, at most so many, and is given these answers. -/
def Move.plays (i : Nat) (answers : (call : Call) → call.Reply) (n : Nat) : List (Move ε) :=
  (List.replicate n [.proceed i, .answer i answers]).flatten

/-! ### What a move is -/

/-- What happens in a move. -/
inductive Happens (s : Crowd ε ρ) : Move ε → Crowd ε ρ → Prop where
  | arrived {e : ε} : Happens s (.arrive e) (s.joined e)
  | changed {change : Host → Host} :
      Happens s (.outside change) { s with host := Errand.spared ε s.host (change s.host) }
  | acted {i : Nat} {e : ε} {x rest : Prog Host ρ} {h : Host}
      (hi : s.clients[i]? = some ⟨e, .going x⟩) (hx : x.next? s.host = some (h, rest)) :
      Happens s (.proceed i) (s.moved i e (.acted s.host h) h (.going rest))
  | asked {i : Nat} {e : ε} {c : Call} {k : c.Reply → Prog Host ρ}
      (hi : s.clients[i]? = some ⟨e, .going (.call c k)⟩) :
      Happens s (.proceed i) (s.moved i e (.said (.asked c)) s.host (.asking c k))
  | answered {i : Nat} {e : ε} {c : Call} {k : c.Reply → Prog Host ρ}
      {reply : (c : Call) → c.Reply} (hi : s.clients[i]? = some ⟨e, .asking c k⟩) :
      Happens s (.answer i reply)
        (s.moved i e (.said (.answered c (reply c))) s.host (.going (k (reply c))))

theorem happens_of_step (hstep : s.step m = some t) : s.Happens m t := by
  cases m with
  | arrive e =>
    cases hstep
    exact .arrived
  | outside change =>
    cases hstep
    exact .changed
  | proceed i =>
    simp only [step] at hstep
    split at hstep
    · rename_i hi
      cases hstep
      exact .asked hi
    · rename_i hi
      obtain ⟨⟨h, rest⟩, hx, rfl⟩ := Option.map_eq_some_iff.mp hstep
      exact .acted hi hx
    · cases hstep
  | answer i reply =>
    simp only [step] at hstep
    split at hstep
    · rename_i hi
      cases hstep
      exact .answered hi
    · cases hstep

/-- A client who is there stays there, with the same errand; if somebody else moves, with the same
task. -/
theorem Happens.exists_client {c : Client ε ρ} (h : s.Happens m t) (hi : s.clients[i]? = some c) :
    ∃ task, t.clients[i]? = some ⟨c.errand, task⟩ ∧ (m.client? ≠ some i → task = c.task) := by
  have hset {j : Nat} {c₀ : Client ε ρ} (hj : s.clients[j]? = some c₀) (task : Task ρ) :
      ∃ task', (s.clients.set j ⟨c₀.errand, task⟩)[i]? = some ⟨c.errand, task'⟩ ∧
        (some j ≠ some i → task' = c.task) := by
    by_cases hji : j = i
    · subst hji
      obtain rfl : c₀ = c := Option.some.inj (hj.symm.trans hi)
      exact ⟨task, List.getElem?_set_self (List.getElem?_eq_some_iff.mp hi).1, fun h ↦ absurd rfl h⟩
    · exact ⟨c.task, by rw [List.getElem?_set_ne hji, hi], fun _ ↦ rfl⟩
  cases h with
  | arrived =>
    have hlt : i < s.clients.length := (List.getElem?_eq_some_iff.mp hi).1
    exact ⟨c.task, by rw [joined, List.getElem?_append_left hlt, hi], fun _ ↦ rfl⟩
  | changed => exact ⟨c.task, hi, fun _ ↦ rfl⟩
  | acted hj | asked hj | answered hj => exact hset hj _

/-- Who was not there before has not begun. -/
theorem Happens.task_of_new {c : Client ε ρ} (h : s.Happens m t) (hbefore : s.clients[i]? = none)
    (hi : t.clients[i]? = some c) :
    m = .arrive c.errand ∧ c.task = .going (Errand.program c.errand) := by
  have hset {j : Nat} {c₀ c' : Client ε ρ} (hj : s.clients[j]? = some c₀) :
      (s.clients.set j c')[i]? ≠ some c := by
    intro hc
    have hlt : i < (s.clients.set j c').length := (List.getElem?_eq_some_iff.mp hc).1
    rw [List.length_set] at hlt
    exact Nat.not_lt.mpr (List.getElem?_eq_none_iff.mp hbefore) hlt
  cases h with
  | changed => simp [hbefore] at hi
  | acted hj | asked hj | answered hj => exact absurd hi (hset hj)
  | arrived =>
    have hle : s.clients.length ≤ i := List.getElem?_eq_none_iff.mp hbefore
    rw [joined, List.getElem?_append_right hle] at hi
    obtain rfl := List.mem_singleton.mp (List.mem_of_getElem? hi)
    exact ⟨rfl, rfl⟩

/-- Who is there has been there with the same errand, or has come in between. -/
theorem Later.errand_cases {c : Client ε ρ} (hlater : Later A s t) (hi : t.clients[i]? = some c) :
    (∃ c₀, s.clients[i]? = some c₀ ∧ c.errand = c₀.errand) ∨ ∃ u, A u (.arrive c.errand) := by
  induction hlater generalizing c with
  | refl => exact .inl ⟨c, hi, rfl⟩
  | @tail u v _ hnext ih =>
    obtain ⟨m, hA, hstep⟩ := hnext
    have hhappens := happens_of_step hstep
    cases hbefore : u.clients[i]? with
    | none =>
      obtain ⟨rfl, -⟩ := hhappens.task_of_new hbefore hi
      exact .inr ⟨u, hA⟩
    | some c₁ =>
      obtain ⟨task, htask, -⟩ := hhappens.exists_client hbefore
      obtain rfl : ⟨c₁.errand, task⟩ = c := Option.some.inj (htask.symm.trans hi)
      exact ih (c := c₁) hbefore

theorem AllBut.later {P : Nat → Prop} {E : ε → Prop} (hs : s.AllBut P E)
    (hA : ∀ u e, A u (.arrive e) → E e) (hlater : Later A s t) : t.AllBut P E := by
  intro i c hc
  obtain ⟨c₀, hc₀, he⟩ | ⟨u, hu⟩ := hlater.errand_cases hc
  · exact he ▸ hs i c₀ hc₀
  · exact .inr (hA u _ hu)

theorem AllBut.joined {P : Nat → Prop} {E : ε → Prop} (hs : s.AllBut P E) (e : ε) :
    (s.joined e).AllBut (fun i ↦ P i ∨ i = s.clients.length) E := by
  intro i c hc
  rw [Crowd.joined, List.getElem?_append] at hc
  split at hc
  · exact (hs i c hc).imp_left .inl
  · rename_i hlt
    have hi : i - s.clients.length < 1 := by simpa using (List.getElem?_eq_some_iff.mp hc).1
    exact .inl (.inr (by omega))

/-- Who moves, if anybody does, has an errand of a kind. -/
def MovesAs (E : ε → Prop) (s : Crowd ε ρ) (m : Move ε) : Prop :=
  ∀ i c, m.client? = some i → s.clients[i]? = some c → E c.errand

/-- Who moves is there. -/
theorem Happens.exists_mover (h : s.Happens m t) (hm : m.client? = some i) :
    ∃ c, s.clients[i]? = some c := by
  cases h with
  | arrived | changed => cases hm
  | acted hj | asked hj | answered hj =>
    obtain rfl := Option.some.inj hm
    exact ⟨_, hj⟩

/-- What clients have done is not forgotten, and the others do nothing in a client's name. -/
theorem Happens.exists_feats (h : s.Happens m t) (i : Nat) :
    ∃ xs, t.feats i = s.feats i ++ xs ∧ (m.client? ≠ some i → xs = []) := by
  cases h with
  | arrived | changed => exact ⟨[], (List.append_nil _).symm, fun _ ↦ rfl⟩
  | acted | asked | answered =>
    exact ⟨_, feats_moved .., fun hne ↦ if_neg fun hji ↦ hne (congrArg some hji)⟩

theorem Happens.feats_of_others (h : s.Happens m t) (hm : m.client? ≠ some i) :
    t.feats i = s.feats i := by
  obtain ⟨xs, hxs, hothers⟩ := h.exists_feats i
  rw [hxs, hothers hm, List.append_nil]

/-- With an act the client led from one state of the run to the next, unless it was done before. -/
theorem Later.exists_act {h h' : Host} (hlater : Later A s t) (hmem : .acted h h' ∈ t.feats i)
    (hnew : .acted h h' ∉ s.feats i) :
    ∃ u v, Later A s u ∧ A u (.proceed i) ∧ u.step (.proceed i) = some v ∧ Later A v t ∧
      u.host = h ∧ v.host = h' := by
  induction hlater with
  | refl => exact absurd hmem hnew
  | @tail u v hlater hnext ih =>
    by_cases hbefore : .acted h h' ∈ u.feats i
    · obtain ⟨u', v', hsu, hA, hstep, hvu, hu, hv⟩ := ih hbefore
      exact ⟨u', v', hsu, hA, hstep, .tail hvu hnext, hu, hv⟩
    · obtain ⟨m, hA, hstep⟩ := hnext
      have hhappens := happens_of_step hstep
      cases hhappens with
      | arrived | changed => exact absurd hmem hbefore
      | asked | answered => simp [feats_moved, hbefore] at hmem
      | @acted j _ _ _ left =>
        have hlast : Feat.acted h h' ∈ if j = i then [Feat.acted u.host left] else [] :=
          (List.mem_append.mp (feats_moved .. ▸ hmem)).resolve_left hbefore
        split at hlast
        · rename_i hji
          subst hji
          cases List.mem_singleton.mp hlast
          exact ⟨u, _, hlater, hA, hstep, .refl, rfl, rfl⟩
        · cases hlast

/-- What holds at the end and not at the beginning some move has brought about for the last time. -/
theorem Later.exists_last {P : Crowd ε ρ → Prop} (hlater : Later A s t) (hs : ¬P s) (ht : P t) :
    ∃ u v m, Later A s u ∧ A u m ∧ u.step m = some v ∧ ¬P u ∧ P v ∧
      Later (fun x m ↦ A x m ∧ P x) v t := by
  induction hlater with
  | refl => exact absurd ht hs
  | @tail u v hlater hnext ih =>
    obtain ⟨m, hA, hstep⟩ := hnext
    by_cases hu : P u
    · obtain ⟨u', v', m', hsu, hA', hstep', hnot, hv, hvu⟩ := ih hu
      have hnext : Next (fun x m ↦ A x m ∧ P x) u v := ⟨m, ⟨hA, hu⟩, hstep⟩
      exact ⟨u', v', m', hsu, hA', hstep', hnot, hv, .tail hvu hnext⟩
    · exact ⟨u, v, m, hlater, hA, hstep, hu, ht, .refl⟩

/-- What has been done stays in the past. -/
theorem Happens.exists_past (h : s.Happens m t) : ∃ xs, t.past = xs ++ s.past := by
  cases h with
  | arrived | changed => exact ⟨[], rfl⟩
  | acted | asked | answered => exact ⟨[_], rfl⟩

theorem Later.exists_past (hlater : Later A s t) : ∃ xs, t.past = xs ++ s.past := by
  induction hlater with
  | refl => exact ⟨[], rfl⟩
  | tail _ hnext ih =>
    obtain ⟨m, -, hstep⟩ := hnext
    obtain ⟨xs, hxs⟩ := ih
    obtain ⟨ys, hys⟩ := (happens_of_step hstep).exists_past
    exact ⟨ys ++ xs, by rw [hys, hxs, List.append_assoc]⟩

/-- Who is finished stays so. -/
theorem Happens.finished? {y : ε × ρ} (h : s.Happens m t) (hi : s.finished? i = some y) :
    t.finished? i = some y ∧ m.client? ≠ some i := by
  obtain ⟨e, o⟩ := y
  have hclient := getElem?_of_finished? hi
  have hm : m.client? ≠ some i := by
    intro hm
    cases h with
    | arrived | changed => cases hm
    | acted hj hx =>
      obtain rfl := Option.some.inj hm
      cases Option.some.inj (hclient.symm.trans hj)
      cases hx
    | asked hj | answered hj =>
      obtain rfl := Option.some.inj hm
      cases Option.some.inj (hclient.symm.trans hj)
  obtain ⟨task, htask, hothers⟩ := h.exists_client hclient
  rw [hothers hm] at htask
  exact ⟨finished?_eq_some htask, hm⟩

/-- A client stays, with the same errand. -/
theorem Later.exists_client {c : Client ε ρ} (hlater : Later A s t)
    (hi : s.clients[i]? = some c) : ∃ task, t.clients[i]? = some ⟨c.errand, task⟩ := by
  induction hlater with
  | refl => exact ⟨c.task, hi⟩
  | tail _ hnext ih =>
    obtain ⟨m, -, hstep⟩ := hnext
    obtain ⟨task, htask⟩ := ih
    obtain ⟨task', htask', -⟩ := (happens_of_step hstep).exists_client htask
    exact ⟨task', htask'⟩

theorem Later.finished? {y : ε × ρ} (hlater : Later A s t) (hi : s.finished? i = some y) :
    t.finished? i = some y ∧ t.feats i = s.feats i := by
  induction hlater with
  | refl => exact ⟨hi, rfl⟩
  | tail _ hnext ih =>
    obtain ⟨m, -, hstep⟩ := hnext
    obtain ⟨hfinished, hfeats⟩ := ih
    have hhappens := happens_of_step hstep
    obtain ⟨hfinished', hm⟩ := hhappens.finished? hfinished
    exact ⟨hfinished', by rw [hhappens.feats_of_others hm, hfeats]⟩

theorem Later.mono {B : Crowd ε ρ → Move ε → Prop} (hAB : ∀ s m, A s m → B s m)
    (hlater : Later A s t) : Later B s t := by
  induction hlater with
  | refl => exact .refl
  | tail _ hnext ih =>
    obtain ⟨m, hA, hstep⟩ := hnext
    exact .tail ih ⟨m, hAB _ m hA, hstep⟩

/-- With an act the client led from one state of the run to the next, having done by then what it
has done before the act. -/
theorem Later.exists_act_after {before : List Feat} {h h' : Host} (hlater : Later A s t)
    (hs : s.feats i = []) (ht : before ++ [.acted h h'] <+: t.feats i) :
    ∃ u v, Later A s u ∧ A u (.proceed i) ∧ u.step (.proceed i) = some v ∧ Later A v t ∧
      u.feats i = before ∧ u.host = h ∧ v.host = h' := by
  obtain ⟨u, v, m, hu, hA, hstep, hnot, hdone, hv⟩ :=
    hlater.exists_last (P := fun x ↦ before ++ [.acted h h'] <+: x.feats i) (by simp [hs]) ht
  have hhappens := happens_of_step hstep
  have hm : m.client? = some i := by
    by_contra hm
    exact hnot (hhappens.feats_of_others hm ▸ hdone)
  cases hhappens with
  | arrived | changed => cases hm
  | asked | answered =>
    obtain rfl := Option.some.inj hm
    rw [feats_moved_self, List.prefix_concat_iff] at hdone
    obtain heq | hbefore := hdone
    · simp at heq
    · exact absurd hbefore hnot
  | acted =>
    obtain rfl := Option.some.inj hm
    rw [feats_moved_self, List.prefix_concat_iff] at hdone
    obtain heq | hbefore := hdone
    · obtain ⟨rfl, hfeat⟩ := List.append_inj' heq rfl
      cases hfeat
      exact ⟨u, _, hu, hA, hstep, hv.mono fun _ _ ↦ And.left, rfl, rfl, rfl⟩
    · exact absurd hbefore hnot

/-- Somebody has come. -/
theorem later_joined (s : Crowd ε ρ) (e : ε) : Later Freely s (s.joined e) :=
  have hnext : Next Freely s (s.joined e) := ⟨.arrive e, trivial, rfl⟩
  .single hnext

theorem Later.freely (hlater : Later A s t) : Later Freely s t := hlater.mono fun _ _ _ ↦ trivial

/-- What every move makes of the host the whole run makes of it. -/
theorem Later.hosts {R : Host → Host → Prop} (hrefl : ∀ h, R h h)
    (htrans : ∀ {h h' h''}, R h h' → R h' h'' → R h h'') (hlater : Later A s t)
    (hmoves : ∀ {u v m}, Later A s u → A u m → u.step m = some v → R u.host v.host) :
    R s.host t.host := by
  induction hlater with
  | refl => exact hrefl _
  | tail hlater hnext ih =>
    obtain ⟨m, hA, hstep⟩ := hnext
    exact htrans ih (hmoves hlater hA hstep)

theorem Happens.nobodyElse (h : s.Happens m t) (hs : s.NobodyElse) : t.NobodyElse := by
  intro i hi
  have hbefore : s.clients[i]? = none := by
    by_contra hne
    obtain ⟨c, hc⟩ := Option.ne_none_iff_exists'.mp hne
    obtain ⟨task, htask, -⟩ := h.exists_client hc
    simp [hi] at htask
  have hm : m.client? ≠ some i := fun hm ↦ by
    obtain ⟨c, hc⟩ := h.exists_mover hm
    simp [hbefore] at hc
  rw [h.feats_of_others hm, hs i hbefore]

theorem Later.nobodyElse (hlater : Later A s t) (hs : s.NobodyElse) : t.NobodyElse := by
  induction hlater with
  | refl => exact hs
  | tail _ hnext ih =>
    obtain ⟨m, -, hstep⟩ := hnext
    exact (happens_of_step hstep).nobodyElse ih

/-- Who was not there before has done nothing yet. -/
theorem Happens.feats_of_new {c : Client ε ρ} (h : s.Happens m t) (hs : s.NobodyElse)
    (hbefore : s.clients[i]? = none) (hi : t.clients[i]? = some c) : t.feats i = [] := by
  obtain ⟨rfl, -⟩ := h.task_of_new hbefore hi
  rw [h.feats_of_others (by simp [Move.client?]), hs i hbefore]

theorem NobodyElse.feats_joined (hs : s.NobodyElse) (e : ε) :
    (s.joined e).feats s.clients.length = [] := hs s.clients.length (by simp)

/-- With each act, a client who has come led from one state of the run to the next. -/
theorem Later.exists_act_joined {e : ε} {x : Host × Host} (hs : s.NobodyElse)
    (hlater : Later A (s.joined e) t) (hx : x ∈ actsIn (t.feats s.clients.length)) :
    ∃ u v, Later A (s.joined e) u ∧ A u (.proceed s.clients.length) ∧
      u.step (.proceed s.clients.length) = some v ∧ Later A v t ∧ u.host = x.1 ∧ v.host = x.2 :=
  hlater.exists_act (mem_actsIn.mp hx) (by simp [hs.feats_joined])

end Crowd

/-! ### Manners -/

/-- How a client goes about its errand. -/
structure Manner where
  /-- What others may make of the host, between two steps of the client. -/
  rely : Host → Host → Prop
  refl : ∀ h, rely h h
  trans : ∀ {h h' h''}, rely h h' → rely h' h'' → rely h h''
  /-- The client may act so after what it has done. -/
  act : List Feat → Host → Host → Prop
  /-- The client may make such a call. -/
  call : List Feat → Call → Prop
  /-- The client may wait for something it can take. -/
  wait : List Feat → Prop := fun _ ↦ True

/-- The manner of a client that relies on nothing. -/
def Manner.alert (act : List Feat → Host → Host → Prop) (call : List Feat → Call → Prop) :
    Manner where
  rely _ _ := True
  refl _ := trivial
  trans _ _ := trivial
  act := act
  call := call

/-- The manner of a client that may do anything, and relies on what the others do. -/
def Manner.relying (rely : Host → Host → Prop) (refl : ∀ h, rely h h)
    (trans : ∀ {h h' h''}, rely h h' → rely h' h'' → rely h h'') : Manner where
  rely := rely
  refl := refl
  trans := trans
  act _ _ _ := True
  call _ _ := True

/-- The client may do anything. -/
structure Manner.IsFree (M : Manner) : Prop where
  act : ∀ log h h', M.act log h h'
  call : ∀ log c, M.call log c
  wait : ∀ log, M.wait log

namespace Prog

variable {α β : Type} {M : Manner} {log : List Feat} {h : Host}

/-- The program keeps to a manner, after what has been done and from the host on as it has been
left, and ends as `Q` says. -/
def Abides (M : Manner) (Q : List Feat → Host → α → Prop) : Prog Host α → List Feat → Host → Prop
  | .done a, log, h => Q log h a
  | .act f k, log, h => ∀ h', M.rely h h' →
      M.act log h' (f h') ∧ (k h').Abides M Q (log ++ [.acted h' (f h')]) (f h')
  | .await claim k, log, h => M.wait log ∧ ∀ h' h'', M.rely h h' → claim h' = some h'' →
      M.act log h' h'' ∧ k.Abides M Q (log ++ [.acted h' h'']) h''
  | .call c k, log, h => M.call log c ∧
      ∀ r, (k r).Abides M Q (log ++ [.said (.asked c), .said (.answered c r)]) h

@[simp] theorem abides_done {Q : List Feat → Host → α → Prop} (a : α) :
    (done a).Abides M Q log h ↔ Q log h a := Iff.rfl

namespace Abides

variable {Q : List Feat → Host → α → Prop}

theorem mono {R : List Feat → Host → α → Prop} {x : Prog Host α} (hx : x.Abides M Q log h)
    (hQR : ∀ log h a, Q log h a → R log h a) : x.Abides M R log h := by
  induction x generalizing log h with
  | done a => exact hQR _ _ _ hx
  | act f k ih => exact fun h' hh' ↦ ⟨(hx h' hh').1, ih h' (hx h' hh').2⟩
  | await claim k ih =>
    refine ⟨hx.1, fun h' h'' hh' hclaim ↦ ?_⟩
    obtain ⟨hact, hrest⟩ := hx.2 h' h'' hh' hclaim
    exact ⟨hact, ih hrest⟩
  | call c k ih => exact ⟨hx.1, fun r ↦ ih r (hx.2 r)⟩

theorem bind {R : List Feat → Host → β → Prop} {x : Prog Host α} {g : α → Prog Host β}
    (hx : x.Abides M (fun log h a ↦ (g a).Abides M R log h) log h) :
    (x.bind g).Abides M R log h := by
  induction x generalizing log h with
  | done a => exact hx
  | act f k ih => exact fun h' hh' ↦ ⟨(hx h' hh').1, ih h' (hx h' hh').2⟩
  | await claim k ih =>
    refine ⟨hx.1, fun h' h'' hh' hclaim ↦ ?_⟩
    obtain ⟨hact, hrest⟩ := hx.2 h' h'' hh' hclaim
    exact ⟨hact, ih hrest⟩
  | call c k ih => exact ⟨hx.1, fun r ↦ ih r (hx.2 r)⟩

/-- One action after another: the second is taken only if the first succeeds. -/
theorem andThen {R : List Feat → Host → Except Error β → Prop} {x : Action α} {f : α → Action β}
    (hx : x.run.Abides M (fun log h res ↦ match res with
      | .ok a => (f a).run.Abides M R log h
      | .error e => R log h (.error e)) log h) : (x >>= f).run.Abides M R log h := by
  refine bind (x := x.run) (g := ExceptT.bindCont f) (hx.mono fun log h res hres ↦ ?_)
  cases res with
  | ok a => exact hres
  | error e => exact hres

theorem lift {R : List Feat → Host → Except Error α → Prop} {x : Prog Host α}
    (hx : x.Abides M (fun log h a ↦ R log h (.ok a)) log h) :
    (Action.of x).run.Abides M R log h :=
  bind (x := x) (g := fun a ↦ .done (Except.ok a : Except Error α)) hx

/-- The second action is taken only if the first fails. -/
theorem rescue {R : List Feat → Host → Except Error α → Prop} {x : Action α} {f : Error → Action α}
    (hx : x.run.Abides M (fun log h res ↦ match res with
      | .ok a => R log h (.ok a)
      | .error e => (f e).run.Abides M R log h) log h) : (tryCatch x f).run.Abides M R log h := by
  refine bind (x := x.run) (hx.mono fun log h res hres ↦ ?_)
  cases res with
  | ok a => exact hres
  | error e => exact hres

theorem and {R : List Feat → Host → α → Prop} {x : Prog Host α} (hx : x.Abides M Q log h)
    (hx' : x.Abides M R log h) : x.Abides M (fun log h a ↦ Q log h a ∧ R log h a) log h := by
  induction x generalizing log h with
  | done a => exact ⟨hx, hx'⟩
  | act f k ih => exact fun h' hh' ↦ ⟨(hx h' hh').1, ih h' (hx h' hh').2 (hx' h' hh').2⟩
  | await claim k ih =>
    refine ⟨hx.1, fun h' h'' hh' hclaim ↦ ?_⟩
    exact ⟨(hx.2 h' h'' hh' hclaim).1, ih (hx.2 h' h'' hh' hclaim).2 (hx'.2 h' h'' hh' hclaim).2⟩
  | call c k ih => exact ⟨hx.1, fun r ↦ ih r (hx.2 r) (hx'.2 r)⟩

theorem of_forall {x : Prog Host α} (hM : M.IsFree) (hQ : ∀ log h a, Q log h a) :
    x.Abides M Q log h := by
  induction x generalizing log h with
  | done a => exact hQ log h a
  | act f k ih => exact fun h' _ ↦ ⟨hM.act _ _ _, ih h'⟩
  | await claim k ih => exact ⟨hM.wait _, fun h' h'' _ _ ↦ ⟨hM.act _ _ _, ih⟩⟩
  | call c k ih => exact ⟨hM.call _ _, fun r ↦ ih r⟩

/-- What no further deed makes false of all that has been done stays true. -/
theorem of_log {P : List Feat → Prop} {x : Prog Host α} (hM : M.IsFree)
    (hP : ∀ log more, P log → P (log ++ more)) (hlog : P log) :
    x.Abides M (fun log _ _ ↦ P log) log h := by
  induction x generalizing log h with
  | done a => exact hlog
  | act f k ih => exact fun h' _ ↦ ⟨hM.act _ _ _, ih h' (hP _ _ hlog)⟩
  | await claim k ih => exact ⟨hM.wait _, fun h' h'' _ _ ↦ ⟨hM.act _ _ _, ih (hP _ _ hlog)⟩⟩
  | call c k ih => exact ⟨hM.call _ _, fun r ↦ ih r (hP _ _ hlog)⟩

/-- A step on the host is as the manner allows, and the rest of the program abides. -/
theorem next? {x rest : Prog Host α} {h' h'' : Host} (hx : x.Abides M Q log h) (hh' : M.rely h h')
    (hnext : x.next? h' = some (h'', rest)) :
    M.act log h' h'' ∧ rest.Abides M Q (log ++ [.acted h' h'']) h'' := by
  cases x with
  | done | call => cases hnext
  | act f k =>
    cases hnext
    exact hx h' hh'
  | await claim k =>
    obtain ⟨h'', hclaim, heq⟩ := Option.map_eq_some_iff.mp hnext
    cases heq
    exact hx.2 h' _ hh' hclaim

end Abides

/-- Whatever it finds and is answered, what the program makes of the host is as `G` says. -/
def Acts (G : Host → Host → Prop) (x : Prog Host α) : Prop :=
  ∀ log h, x.Abides (.alert (fun _ ↦ G) fun _ _ ↦ True) (fun _ _ _ ↦ True) log h

namespace Acts

variable {G : Host → Host → Prop}

/-- What the program does where it relies on nothing it does everywhere. -/
theorem of_abides {act : List Feat → Host → Host → Prop} {call : List Feat → Call → Prop}
    {Q : List Feat → Host → α → Prop} {x : Prog Host α} (hx : x.Abides (.alert act call) Q log h)
    (hG : ∀ log h h', act log h h' → G h h') : x.Acts G := by
  intro log' h'
  induction x generalizing log log' h h' with
  | done a => trivial
  | act f k ih =>
    intro h' _
    obtain ⟨hact, hrest⟩ := hx h' trivial
    exact ⟨hG _ _ _ hact, ih h' hrest _ _⟩
  | await claim k ih =>
    refine ⟨trivial, fun h' h'' _ hclaim ↦ ?_⟩
    obtain ⟨hact, hrest⟩ := hx.2 h' h'' trivial hclaim
    exact ⟨hG _ _ _ hact, ih hrest _ _⟩
  | call c k ih => exact ⟨trivial, fun r ↦ ih r (hx.2 r) _ _⟩

theorem mono {G' : Host → Host → Prop} {x : Prog Host α} (hx : x.Acts G)
    (hG : ∀ h h', G h h' → G' h h') : x.Acts G' := of_abides (hx [] {}) fun _ _ _ hact ↦ hG _ _ hact

theorem done (a : α) : (Prog.done a).Acts G := fun _ _ ↦ trivial

theorem act {f : Host → Host} {k : Host → Prog Host α} (hf : ∀ h, G h (f h))
    (hk : ∀ h, (k h).Acts G) : (Prog.act f k).Acts G := fun _ _ h' _ ↦ ⟨hf h', hk h' _ _⟩

theorem await {claim : Host → Option Host} {x : Prog Host α}
    (hclaim : ∀ h h', claim h = some h' → G h h') (hx : x.Acts G) : (Prog.await claim x).Acts G :=
  fun _ _ ↦ ⟨trivial, fun h' h'' _ hh'' ↦ ⟨hclaim h' h'' hh'', hx _ _⟩⟩

theorem call {c : Call} {k : c.Reply → Prog Host α} (hk : ∀ r, (k r).Acts G) :
    (Prog.call c k).Acts G := fun _ _ ↦ ⟨trivial, fun r ↦ hk r _ _⟩

theorem of_act {f : Host → Host} {k : Host → Prog Host α} (hx : (Prog.act f k).Acts G) (h : Host) :
    G h (f h) ∧ (k h).Acts G :=
  have hnow := hx [] h h trivial
  ⟨hnow.1, of_abides hnow.2 fun _ _ _ hact ↦ hact⟩

theorem of_await {claim : Host → Option Host} {x : Prog Host α} {h h' : Host}
    (hx : (Prog.await claim x).Acts G) (hclaim : claim h = some h') : G h h' ∧ x.Acts G :=
  have hnow := (hx [] h).2 h h' trivial hclaim
  ⟨hnow.1, of_abides hnow.2 fun _ _ _ hact ↦ hact⟩

theorem of_call {c : Call} {k : c.Reply → Prog Host α} (hx : (Prog.call c k).Acts G) (r : c.Reply) :
    (k r).Acts G := of_abides ((hx [] {}).2 r) fun _ _ _ hact ↦ hact

theorem bind {x : Prog Host α} {g : α → Prog Host β} (hx : x.Acts G) (hg : ∀ a, (g a).Acts G) :
    (x.bind g).Acts G :=
  fun log h ↦ Abides.bind ((hx log h).mono fun log h a _ ↦ hg a log h)

theorem andThen {x : Action α} {f : α → Action β} (hx : x.run.Acts G)
    (hf : ∀ a, (f a).run.Acts G) : (x >>= f).run.Acts G := by
  refine bind (x := x.run) (g := ExceptT.bindCont f) hx fun res ↦ ?_
  cases res with
  | ok a => exact hf a
  | error e => exact fun _ _ ↦ trivial

theorem lift {x : Prog Host α} (hx : x.Acts G) : (Action.of x).run.Acts G :=
  fun log h ↦ Abides.lift ((hx log h).mono fun _ _ _ _ ↦ trivial)

theorem rescue {x : Action α} {f : Error → Action α} (hx : x.run.Acts G)
    (hf : ∀ e, (f e).run.Acts G) : (tryCatch x f).run.Acts G := by
  refine bind (x := x.run) hx fun res ↦ ?_
  cases res with
  | ok a => exact fun _ _ ↦ trivial
  | error e => exact hf e

/-- Who acts so keeps to a manner that allows it, as long as nobody makes false what it takes. -/
theorem abides {P : Host → Prop} {x : Prog Host α} (hx : x.Acts G)
    (hact : ∀ log h h', P h → G h h' → M.act log h h' ∧ P h') (hcall : ∀ log c, M.call log c)
    (hwait : ∀ log, M.wait log) (hothers : ∀ h h', M.rely h h' → P h → P h') (hP : P h) :
    x.Abides M (fun _ h _ ↦ P h) log h := by
  induction x generalizing log h with
  | done a => exact hP
  | act f k ih =>
    intro h' hh'
    obtain ⟨hf, hk⟩ := hx.of_act h'
    obtain ⟨hnow, hP'⟩ := hact log h' _ (hothers _ _ hh' hP) hf
    exact ⟨hnow, ih h' hk hP'⟩
  | await claim k ih =>
    refine ⟨hwait _, fun h' h'' hh' hclaim ↦ ?_⟩
    obtain ⟨hf, hk⟩ := hx.of_await hclaim
    obtain ⟨hnow, hP'⟩ := hact log h' h'' (hothers _ _ hh' hP) hf
    exact ⟨hnow, ih hk hP'⟩
  | call c k ih => exact ⟨hcall _ _, fun r ↦ ih r (hx.of_call r) hP⟩

/-- What nobody makes false stays true. -/
theorem keeps {P : Host → Prop} {x : Prog Host α} (hx : x.Acts fun h h' ↦ P h → P h')
    (hM : M.IsFree) (hothers : ∀ h h', M.rely h h' → P h → P h') (hP : P h) :
    x.Abides M (fun _ h _ ↦ P h) log h :=
  hx.abides (fun _ _ _ hP hf ↦ ⟨hM.act _ _ _, hf hP⟩) hM.call hM.wait hothers hP

end Acts

end Prog

/-! ### Actions of the host -/

namespace Host

variable {α : Type} {M : Manner} {log : List Feat} {h : Host}

theorem abides_attempt {Q : List Feat → Host → Except Error α → Prop}
    {f : Host → Except Error (α × Host)}
    (hok : ∀ h' a h'', M.rely h h' → f h' = .ok (a, h'') →
      M.act log h' h'' ∧ Q (log ++ [.acted h' h'']) h'' (.ok a))
    (herror : ∀ h' e, M.rely h h' → f h' = .error e →
      M.act log h' h' ∧ Q (log ++ [.acted h' h']) h' (.error e)) :
    (attempt f).run.Abides M Q log h := by
  intro h' hh'
  cases hf : f h' with
  | ok y =>
    obtain ⟨a, h''⟩ := y
    obtain ⟨hact, hQ⟩ := hok h' a h'' hh' hf
    simp only [hf]
    exact ⟨hact, hQ⟩
  | error e =>
    obtain ⟨hact, hQ⟩ := herror h' e hh' hf
    simp only [hf]
    exact ⟨hact, hQ⟩

theorem attempt_acts {G : Host → Host → Prop} {f : Host → Except Error (α × Host)}
    (hok : ∀ h a h', f h = .ok (a, h') → G h h') (herror : ∀ h, G h h) :
    (attempt f).run.Acts G :=
  fun _ _ ↦ abides_attempt (fun h a h' _ hf ↦ ⟨hok h a h' hf, trivial⟩)
    fun h _ _ _ ↦ ⟨herror h, trivial⟩

theorem abides_inspect {Q : List Feat → Host → Except Error α → Prop} {f : Host → Except Error α}
    (hf : ∀ h', M.rely h h' → M.act log h' h' ∧ Q (log ++ [.acted h' h']) h' (f h')) :
    (inspect f).run.Abides M Q log h :=
  fun h' hh' ↦ hf h' hh'

/-- A process that one has to oneself is given back at the end, whatever has come of it. -/
theorem abides_exclusively {Q : List Feat → Host → Except Error α → Prop} {p : ProcessRef}
    {body : Action α} (hM : M.IsFree)
    (hbody : ∀ h' h'', M.rely h h' → lock? p h' = some h'' →
      body.run.Abides M (fun log h r ↦ ∀ h', M.rely h h' →
        Q (log ++ [.acted h' (unlock p h')]) (unlock p h') r) (log ++ [.acted h' h'']) h'') :
    (exclusively p body).run.Abides M Q log h := by
  refine ⟨hM.wait _, fun h' h'' hh' hlock ↦ ⟨hM.act _ _ _, .bind (x := body.run) ?_⟩⟩
  refine (hbody h' h'' hh' hlock).mono fun log h r hQ h' hh' ↦ ?_
  exact ⟨hM.act _ _ _, hQ h' hh'⟩

theorem abides_diagnose {Q : List Feat → Host → Except Error Unit → Prop} {level : LineLevel}
    {message : String} (hcall : ∀ line, M.call log (.line line))
    (hQ : ∀ line, Q (log ++ [.said (.asked (.line line)), .said (.answered (.line line) ())]) h
      (.ok ())) : (diagnose level message).run.Abides M Q log h :=
  ⟨hcall _, fun _ ↦ hQ _⟩

theorem abides_log {Q : List Feat → Host → Except Error Unit → Prop} {level : LogLevel}
    {message : String} {entries : Entries} (hcall : ∀ record, M.call log (.log record))
    (hQ : ∀ record, Q (log ++ [.said (.asked (.log record)), .said (.answered (.log record) ())]) h
      (.ok ())) : (Host.log level message entries).run.Abides M Q log h :=
  ⟨hcall _, fun _ ↦ hQ _⟩

end Host

namespace Crowd

variable {ε ρ : Type} {s t : Crowd ε ρ} {i : Nat} {M : Manner} {Q : List Feat → Host → ρ → Prop}

/-- The client has come so far in its manner. -/
inductive Stands (M : Manner) (Q : List Feat → Host → ρ → Prop) (s : Crowd ε ρ) (i : Nat) :
    Task ρ → Prop where
  | going {h : Host} {x : Prog Host ρ} (hrely : M.rely h s.host)
      (hx : x.Abides M Q (s.feats i) h) : Stands M Q s i (.going x)
  | asking {h : Host} {log : List Feat} {c : Call} {k : c.Reply → Prog Host ρ}
      (hrely : M.rely h s.host) (hlog : s.feats i = log ++ [.said (.asked c)])
      (hcall : M.call log c)
      (hk : ∀ r, (k r).Abides M Q (log ++ [.said (.asked c), .said (.answered c r)]) h) :
      Stands M Q s i (.asking c k)

/-- Who is finished has ended as `Q` says. -/
theorem Stands.done {o : ρ} (h : s.Stands M Q i (.going (.done o))) :
    ∃ h, M.rely h s.host ∧ Q (s.feats i) h o := by
  cases h with
  | going hrely hx => exact ⟨_, hrely, hx⟩

/-- Others may do what the client relies on. -/
theorem Stands.of_others {task : Task ρ} (h : s.Stands M Q i task) (hhost : M.rely s.host t.host)
    (hfeats : t.feats i = s.feats i) : t.Stands M Q i task := by
  cases h with
  | going hrely hx => exact .going (M.trans hrely hhost) (hfeats ▸ hx)
  | asking hrely hlog hcall hk => exact .asking (M.trans hrely hhost) (hfeats ▸ hlog) hcall hk

/-- An act of the client is as its manner allows. -/
theorem Stands.act {x rest : Prog Host ρ} {h : Host} (hs : s.Stands M Q i (.going x))
    (hx : x.next? s.host = some (h, rest)) : M.act (s.feats i) s.host h := by
  cases hs with
  | going hrely habides => exact (habides.next? hrely hx).1

/-- A call of the client is as its manner allows. -/
theorem Stands.call {c : Call} {k : c.Reply → Prog Host ρ}
    (hs : s.Stands M Q i (.going (.call c k))) : M.call (s.feats i) c := by
  cases hs with
  | going _ habides => exact habides.1

variable [Errand ε ρ] {m : Move ε} {A : Crowd ε ρ → Move ε → Prop}

/-- A client that moves goes on in its manner. -/
theorem Stands.of_own {c : Client ε ρ} (hs : s.Stands M Q i c.task) (hi : s.clients[i]? = some c)
    (h : s.Happens m t) (hm : m.client? = some i) :
    ∃ task, t.clients[i]? = some ⟨c.errand, task⟩ ∧ t.Stands M Q i task := by
  cases h with
  | arrived | changed => cases hm
  | acted hj hx =>
    obtain rfl := Option.some.inj hm
    obtain rfl := Option.some.inj (hi.symm.trans hj)
    refine ⟨_, getElem?_moved hi .., ?_⟩
    cases hs with
    | going hrely habides =>
      exact .going (M.refl _) ((feats_moved_self ..).symm ▸ (habides.next? hrely hx).2)
  | asked hj =>
    obtain rfl := Option.some.inj hm
    obtain rfl := Option.some.inj (hi.symm.trans hj)
    refine ⟨_, getElem?_moved hi .., ?_⟩
    cases hs with
    | going hrely habides => exact .asking hrely (by simp) habides.1 habides.2
  | answered hj =>
    obtain rfl := Option.some.inj hm
    obtain rfl := Option.some.inj (hi.symm.trans hj)
    refine ⟨_, getElem?_moved hi .., ?_⟩
    cases hs with
    | asking hrely hlog _ hk => exact .going hrely (by simpa [hlog] using hk _)

theorem getElem?_joined (s : Crowd ε ρ) (e : ε) :
    (s.joined e).clients[s.clients.length]? = some ⟨e, .going (Errand.program e)⟩ := by
  simp [joined]

/-- A client who has come and is finished has done what it came for. -/
theorem Later.finished?_joined {e : ε} {o : ρ} (hlater : Later A (s.joined e) t)
    (hdone : (t.finished? s.clients.length).map Prod.snd = some o) :
    t.finished? s.clients.length = some (e, o) := by
  obtain ⟨⟨e', o'⟩, hfinished, rfl⟩ := Option.map_eq_some_iff.mp hdone
  obtain ⟨task, htask⟩ := hlater.exists_client (getElem?_joined s e)
  obtain ⟨rfl, -⟩ : e = e' ∧ task = .going (.done o') := by
    simpa [htask] using getElem?_of_finished? hfinished
  exact hfinished

/-- A client who has just come has all before it. -/
theorem stands_joined {e : ε} (hs : s.NobodyElse)
    (hprogram : (Errand.program e).Abides M Q [] s.host) :
    (s.joined e).Stands M Q s.clients.length (.going (Errand.program e)) :=
  .going (M.refl _) (hs.feats_joined e ▸ hprogram)

/-- Whoever moves, the client goes on in its manner if the others do what it relies on. -/
theorem Stands.of_happens {c : Client ε ρ} (hs : s.Stands M Q i c.task)
    (hi : s.clients[i]? = some c) (h : s.Happens m t)
    (hothers : m.client? ≠ some i → M.rely s.host t.host) :
    ∃ task, t.clients[i]? = some ⟨c.errand, task⟩ ∧ t.Stands M Q i task := by
  by_cases hm : m.client? = some i
  · exact hs.of_own hi h hm
  · obtain ⟨task, htask, hkept⟩ := h.exists_client hi
    obtain rfl := hkept hm
    exact ⟨c.task, htask, hs.of_others (hothers hm) (h.feats_of_others hm)⟩

/-- Assumes: the client is on its way, and the others do what it relies on. It goes on in its
manner. -/
theorem Later.stands_on {c : Client ε ρ} (hlater : Later A s t) (hi : s.clients[i]? = some c)
    (hs : s.Stands M Q i c.task)
    (hothers : ∀ {u v m}, Later A s u → A u m → u.step m = some v → m.client? ≠ some i →
      M.rely u.host v.host) :
    ∃ task, t.clients[i]? = some ⟨c.errand, task⟩ ∧ t.Stands M Q i task := by
  induction hlater with
  | refl => exact ⟨c.task, hi, hs⟩
  | tail hlater hnext ih =>
    obtain ⟨m, hA, hstep⟩ := hnext
    obtain ⟨task, htask, hstands⟩ := ih
    exact hstands.of_happens (c := ⟨c.errand, task⟩) htask (happens_of_step hstep)
      (hothers hlater hA hstep)

/-- Assumes: a client comes while everybody else who is not finished has an errand of a kind, and it
may rely on what is done on errands of this kind. It goes on in its manner. -/
theorem Later.stands_among {h : Host} {P : Nat → Prop} {E : ε → Prop} {e : ε}
    (hs : Later Freely { host := h } s) (hbut : s.AllBut P E)
    (hfinished : ∀ i, P i → ∃ y, s.finished? i = some y) (hA : ∀ u e, A u (.arrive e) → E e)
    (hlater : Later A (s.joined e) t) (hprogram : (Errand.program e).Abides M Q [] s.host)
    (hothers : ∀ {u v m}, Later Freely { host := h } u → u.step m = some v → u.MovesAs E m →
      M.rely u.host v.host) :
    ∃ task, t.clients[s.clients.length]? = some ⟨e, task⟩ ∧ t.Stands M Q s.clients.length task := by
  have hjoined := hs.trans (later_joined s e)
  refine hlater.stands_on (getElem?_joined s e)
    (stands_joined (hs.nobodyElse (nobodyElse_start h)) hprogram) fun {u v m} hu _ hstep hne ↦ ?_
  refine hothers (hjoined.trans hu.freely) hstep fun i c hm hi ↦ ?_
  obtain (hP | rfl) | hE := (hbut.joined e).later hA hu i c hi
  · obtain ⟨y, hy⟩ := hfinished i hP
    have hu' := ((later_joined s e).trans hu.freely).finished? hy
    exact absurd hm ((happens_of_step hstep).finished? hu'.1).2
  · exact absurd hm hne
  · exact hE

/-- Assumes: the client comes during the run, and the others do what it relies on. It goes about its
errand in its manner. -/
theorem Later.stands {e : ε} (hlater : Later A s t) (hs : s.NobodyElse)
    (habsent : s.clients[i]? = none)
    (hprogram : ∀ h, (Errand.program e).Abides M Q [] h)
    (hothers : ∀ {u v m}, Later A s u → A u m → u.step m = some v → m.client? ≠ some i →
      M.rely u.host v.host) :
    ∀ c, t.clients[i]? = some c → c.errand = e → t.Stands M Q i c.task := by
  induction hlater with
  | refl => simp [habsent]
  | @tail u v hlater hnext ih =>
    obtain ⟨m, hA, hstep⟩ := hnext
    intro c hc he
    have hhappens := happens_of_step hstep
    cases hbefore : u.clients[i]? with
    | none =>
      have hnothing := hhappens.feats_of_new (Later.nobodyElse hlater hs) hbefore hc
      rw [(hhappens.task_of_new hbefore hc).2, he]
      exact .going (M.refl _) (hnothing ▸ hprogram _)
    | some c₀ =>
      obtain ⟨kept, hkept, -⟩ := hhappens.exists_client hbefore
      obtain rfl : ⟨c₀.errand, kept⟩ = c := Option.some.inj (hkept.symm.trans hc)
      obtain ⟨task, htask, hstands⟩ :=
        (ih c₀ hbefore he).of_happens hbefore hhappens (hothers hlater hA hstep)
      obtain rfl : task = kept := by simpa using htask.symm.trans hc
      exact hstands

/-- Where all that clients may do on their errands is what the others rely on, every client that has
come goes about its errand in its manner. -/
theorem Later.stands_all {h : Host} {M : ε → Manner} {Q : ε → List Feat → Host → ρ → Prop}
    (hlater : Later A { host := h } s)
    (hprogram : ∀ e h, (Errand.program e).Abides (M e) (Q e) [] h)
    (hguarantee : ∀ e e' log h h', (M e).act log h h' → (M e').rely h h')
    (hspared : ∀ e h h', (M e).rely h (Errand.spared ε h h')) {c : Client ε ρ}
    (hi : s.clients[i]? = some c) : s.Stands (M c.errand) (Q c.errand) i c.task := by
  induction hlater generalizing i c with
  | refl => simp at hi
  | @tail u v hlater hnext ih =>
    obtain ⟨m, -, hstep⟩ := hnext
    have hhappens := happens_of_step hstep
    cases hbefore : u.clients[i]? with
    | none =>
      have hnobody := Later.nobodyElse hlater (nobodyElse_start h)
      have hnothing := hhappens.feats_of_new hnobody hbefore hi
      rw [(hhappens.task_of_new hbefore hi).2]
      exact .going ((M c.errand).refl _) (hnothing ▸ hprogram _ _)
    | some c₀ =>
      have hmoved : (M c₀.errand).rely u.host v.host := by
        cases hhappens with
        | arrived | asked | answered => exact (M c₀.errand).refl _
        | changed => exact hspared ..
        | acted hj hx => exact hguarantee _ _ _ _ _ ((ih hj).act hx)
      obtain ⟨task, htask, hstands⟩ := (ih hbefore).of_happens hbefore hhappens fun _ ↦ hmoved
      obtain rfl : ⟨c₀.errand, task⟩ = c := Option.some.inj (htask.symm.trans hi)
      exact hstands

/-- Every client that has come stands as its errand lets it, whatever others do. -/
theorem Later.stands_alert {h : Host} {act : List Feat → Host → Host → Prop}
    {call : List Feat → Call → Prop} {Q : ε → List Feat → Host → ρ → Prop}
    (hlater : Later A { host := h } s)
    (hprogram : ∀ e h, (Errand.program e).Abides (.alert act call) (Q e) [] h) {c : Client ε ρ}
    (hi : s.clients[i]? = some c) : s.Stands (.alert act call) (Q c.errand) i c.task :=
  hlater.stands_all hprogram (fun _ _ _ _ _ _ ↦ trivial) (fun _ _ _ ↦ trivial) hi

/-- What a client does with the host is as its program lets it. -/
theorem Later.act_of {h h' : Host} {G : Host → Host → Prop} {e : ε} {x rest : Prog Host ρ}
    (hlater : Later A { host := h } s) (hacts : (Errand.program e).Acts G)
    (hi : s.clients[i]? = some ⟨e, .going x⟩) (hx : x.next? s.host = some (h', rest)) :
    G s.host h' :=
  (hlater.stands (nobodyElse_start h) rfl (hacts []) (fun _ _ _ _ ↦ trivial) _ hi rfl).act hx

end Crowd

namespace Small

/-- Nothing has happened yet. -/
def bare : Host := {}

end Small

end ComponentHost
