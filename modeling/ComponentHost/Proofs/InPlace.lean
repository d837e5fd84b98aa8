import ComponentHost.Proofs.Crowd

/-!
Programs in which the host answers some of the calls itself.

`x.inPlace own` is the program `x` where each call with an answer among `own` is answered in place:
what is done for the answer is done by the caller, and nothing passes between them. A program that
makes no such call stays as it is (`Prog.inPlace_eq_self`).
-/

set_option autoImplicit false

namespace ComponentHost

namespace Prog

variable {α β : Type} {own : (c : Call) → Option (Prog Host c.Reply)}

/-- The program in which the calls that have an answer here are answered in place. -/
def inPlace (own : (c : Call) → Option (Prog Host c.Reply)) : Prog Host α → Prog Host α
  | .done a => .done a
  | .act f k => .act f fun h ↦ (k h).inPlace own
  | .await claim k => .await claim (k.inPlace own)
  | .call c k =>
    match own c with
    | some x => x.bind fun r ↦ (k r).inPlace own
    | none => .call c fun r ↦ (k r).inPlace own

theorem inPlace_call_of_some {c : Call} {k : c.Reply → Prog Host α} {x : Prog Host c.Reply}
    (hx : own c = some x) :
    (Prog.call c k).inPlace own = x.bind fun r ↦ (k r).inPlace own := by
  simp [inPlace, hx]

theorem inPlace_call_of_none {c : Call} {k : c.Reply → Prog Host α} (hx : own c = none) :
    (Prog.call c k).inPlace own = .call c fun r ↦ (k r).inPlace own := by
  simp [inPlace, hx]

theorem inPlace_bind (x : Prog Host α) (g : α → Prog Host β) :
    (x.bind g).inPlace own = (x.inPlace own).bind fun a ↦ (g a).inPlace own := by
  induction x with
  | done a => rfl
  | act f k ih => simp [bind, inPlace, ih]
  | await claim k ih => simp [bind, inPlace, ih]
  | call c k ih =>
    cases hc : own c with
    | some y => simp [bind, inPlace_call_of_some hc, ih, bind_assoc]
    | none => simp [bind, inPlace_call_of_none hc, ih]

theorem Acts.inPlace {G : Host → Host → Prop} {x : Prog Host α} (hx : x.Acts G)
    (hG : ∀ (c : Call) y, own c = some y → y.Acts G) : (x.inPlace own).Acts G := by
  induction x with
  | done a => exact .done a
  | act f k ih => exact .act (fun h ↦ (hx.of_act h).1) fun h ↦ ih h (hx.of_act h).2
  | await claim k ih =>
    intro log h
    refine ⟨trivial, fun h' h'' _ hclaim ↦ ?_⟩
    obtain ⟨hact, hk⟩ := hx.of_await hclaim
    exact ⟨hact, ih hk _ _⟩
  | call c k ih =>
    cases hc : own c with
    | some y =>
      rw [inPlace_call_of_some hc]
      exact .bind (hG c y hc) fun r ↦ ih r (hx.of_call r)
    | none =>
      rw [inPlace_call_of_none hc]
      exact .call fun r ↦ ih r (hx.of_call r)

/-- One action after another: the second is taken only if the first succeeds. -/
theorem Abides.andThen_inPlace {M : Manner} {log : List Feat} {h : Host}
    {R : List Feat → Host → Except Error β → Prop} {x : Action α} {f : α → Action β}
    (hx : (x.run.inPlace own).Abides M (fun log h res ↦ match res with
      | .ok a => ((f a).run.inPlace own).Abides M R log h
      | .error e => R log h (.error e)) log h) : ((x >>= f).run.inPlace own).Abides M R log h := by
  have hbind : (x >>= f).run.inPlace own =
      (x.run.inPlace own).bind fun res ↦ (ExceptT.bindCont f res).inPlace own :=
    inPlace_bind x.run (ExceptT.bindCont f)
  rw [hbind]
  refine .bind (hx.mono fun log h res hres ↦ ?_)
  cases res with
  | ok a => exact hres
  | error e => exact hres

/-! ### Programs that talk -/

/-- The manner of a client that looks at the host and leaves it as it is, does not wait, and makes
calls of this kind. -/
def talking (C : Call → Prop) : Manner :=
  { Manner.alert (fun _ h h' ↦ h' = h) fun _ ↦ C with wait := fun _ ↦ False }

variable {M : Manner} {log log₀ : List Feat} {h h₀ : Host}

theorem inPlace_eq_self {Q : List Feat → Host → α → Prop} {x : Prog Host α}
    (hx : x.Abides (talking fun c ↦ own c = none) Q log h) : x.inPlace own = x := by
  induction x generalizing log h with
  | done a => rfl
  | act f k ih => rw [inPlace, funext fun h' ↦ ih h' (hx h' trivial).2]
  | await claim k => exact hx.1.elim
  | call c k ih => rw [inPlace_call_of_none hx.1, funext fun r ↦ ih r (hx.2 r)]

/-- Who only talks may keep to another manner meanwhile, with what holds after any such talk. -/
theorem Abides.of_talking {C : Call → Prop} {P : List Feat → Host → Prop} {R : α → Prop}
    {x : Prog Host α} (hx : x.Abides (talking C) (fun _ _ ↦ R) log₀ h₀)
    (hrely : ∀ log h h', M.rely h h' → P log h → P log h')
    (hact : ∀ log h, P log h → M.act log h h ∧ P (log ++ [.acted h h]) h)
    (hcall : ∀ log h c, C c → P log h → M.call log c ∧
      ∀ r, P (log ++ [.said (.asked c), .said (.answered c r)]) h)
    (hP : P log h) : x.Abides M (fun log h a ↦ P log h ∧ R a) log h := by
  induction x generalizing log log₀ h h₀ with
  | done a => exact ⟨hP, hx⟩
  | act f k ih =>
    intro h' hh'
    obtain ⟨hsame, hk⟩ := hx h' trivial
    rw [hsame] at hk ⊢
    obtain ⟨hnow, hnext⟩ := hact log h' (hrely log h h' hh' hP)
    exact ⟨hnow, ih h' hk hnext⟩
  | await claim k => exact hx.1.elim
  | call c k ih =>
    obtain ⟨hnow, hnext⟩ := hcall log h c hx.1 hP
    exact ⟨hnow, fun r ↦ ih r (hx.2 r) (hnext r)⟩

end Prog

end ComponentHost
