import ComponentHost.Proofs.Effects
import ComponentHost.Proofs.Restart

/-!
A client amid given surroundings.

What a client finds whenever it takes a step, and what it is answered, is settled by what surrounds
it (`Surroundings`): the others, who may have acted on the host since its last step, and the
collaborators. Both may go by all that the client has done. Amid given surroundings a program has
one end (`Prog.amid`), or none if it does not get what it waits for.

A client that is finished among others has done what its program does amid some surroundings
(`Crowd.Later.exists_amid`).

`Prog.EndsAmid w Q` says that the program comes to its end and that `Q` is true of what has been
done by then, of the host and of the result. There is one rule for each form of a program and for
one action after another. What the others leave alone, and no act of the program changes, is the
same at the end (`Surroundings.Drifts.kept`). A program that works on a process alone ends with the
deeds it yields (`Prog.Yields.endsAmid`), so that a section of a lifecycle call ends as it is
described (`Host.exclusively_endsAmid`). A program that never waits ends amid any surroundings
(`Prog.Performs.endsAmid`). What is known of the end of a program whatever the others do is so amid
any surroundings in which it ends (`Prog.Abides.of_amid`).
-/

set_option autoImplicit false

namespace ComponentHost

/-! ### Surroundings -/

/-- What surrounds a client, by all the client has done so far. -/
structure Surroundings where
  /-- What the others have made of the host when the client takes its next step. -/
  found : List Feat → Host → Host
  /-- The answer to a call. -/
  reply : List Feat → (c : Call) → c.Reply

namespace Surroundings

/-- Nobody else does anything. -/
def undisturbed (reply : (c : Call) → c.Reply) : Surroundings := ⟨fun _ h ↦ h, fun _ ↦ reply⟩

/-- The others leave something alone. -/
def Keeps {β : Type} (w : Surroundings) (f : Host → β) : Prop := ∀ log h, f (w.found log h) = f h

/-- The others leave something alone as long as the client has made no call. -/
def KeepsAtFirst {β : Type} (w : Surroundings) (f : Host → β) : Prop :=
  ∀ log h, exchangesIn log = [] → f (w.found log h) = f h

theorem undisturbed_keeps {β : Type} (reply : (c : Call) → c.Reply) (f : Host → β) :
    (undisturbed reply).Keeps f := fun _ _ ↦ rfl

/-- The others, and acts as `G` says, may lead from one host to another. -/
def Drifts (w : Surroundings) (G : Host → Host → Prop) : Host → Host → Prop :=
  Relation.ReflTransGen fun h h' ↦ (∃ log, w.found log h = h') ∨ G h h'

variable {w : Surroundings}

theorem Keeps.comp {β γ : Type} {f : Host → β} (h : w.Keeps f) (g : β → γ) :
    w.Keeps fun x ↦ g (f x) := fun log x ↦ congrArg g (h log x)

namespace Drifts

variable {G : Host → Host → Prop} {h h' h'' : Host}

theorem found (log : List Feat) (h : Host) : w.Drifts G h (w.found log h) :=
  .single (.inl ⟨log, rfl⟩)

theorem acted (hG : G h h') : w.Drifts G h h' := .single (.inr hG)

theorem trans (hh : w.Drifts G h h') (hh' : w.Drifts G h' h'') : w.Drifts G h h'' :=
  Relation.ReflTransGen.trans hh hh'

/-- What nobody makes false stays true. -/
theorem keeps {P : Host → Prop} (hh : w.Drifts G h h') (hw : ∀ log g, P g → P (w.found log g))
    (hG : ∀ g g', G g g' → P g → P g') (hP : P h) : P h' := by
  induction hh with
  | refl => exact hP
  | tail _ hstep ih =>
    obtain ⟨log, rfl⟩ | hstep := hstep
    · exact hw log _ ih
    · exact hG _ _ hstep ih

/-- What nobody changes is the same. -/
theorem kept {β : Type} {f : Host → β} (hh : w.Drifts G h h') (hw : w.Keeps f)
    (hG : ∀ g g', G g g' → f g' = f g) : f h' = f h :=
  hh.keeps (P := fun g ↦ f g = f h) (fun log g hg ↦ (hw log g).trans hg)
    (fun g g' hstep hg ↦ (hG g g' hstep).trans hg) rfl

end Drifts

end Surroundings

/-! ### Ends -/

/-- The client has only looked at the host. -/
def OnlyLooks (log : List Feat) : Prop := ∀ x ∈ log, ∃ h, x = .acted h h

theorem onlyLooks_nil : OnlyLooks [] := fun _ hx ↦ absurd hx List.not_mem_nil

theorem OnlyLooks.looked {log : List Feat} (hlog : OnlyLooks log) (h : Host) :
    OnlyLooks (log ++ [.acted h h]) := by
  intro x hx
  obtain hx | hx := List.mem_append.mp hx
  · exact hlog x hx
  · exact ⟨h, List.mem_singleton.mp hx⟩

namespace Prog

variable {α β : Type} {w : Surroundings} {log : List Feat} {h : Host}

/-- The result of a program amid surroundings, all that has been done by then, and the host as the
program has left it; nothing if it waits for what it does not get. -/
def amid (w : Surroundings) : Prog Host α → List Feat → Host → Option (α × List Feat × Host)
  | .done a, log, h => some (a, log, h)
  | .act f k, log, h =>
    (k (w.found log h)).amid w (log ++ [.acted (w.found log h) (f (w.found log h))])
      (f (w.found log h))
  | .await claim k, log, h => (claim (w.found log h)).bind fun h' ↦
    k.amid w (log ++ [.acted (w.found log h) h']) h'
  | .call c k, log, h =>
    (k (w.reply log c)).amid w (log ++ [.said (.asked c), .said (.answered c (w.reply log c))]) h

/-- The program comes to its end, and ends as `Q` says. -/
def EndsAmid (w : Surroundings) (Q : List Feat → Host → α → Prop) (x : Prog Host α)
    (log : List Feat) (h : Host) : Prop :=
  ∃ a log' h', x.amid w log h = some (a, log', h') ∧ Q log' h' a

theorem amid_bind (x : Prog Host α) (g : α → Prog Host β) (log : List Feat) (h : Host) :
    (x.bind g).amid w log h = (x.amid w log h).bind fun y ↦ (g y.1).amid w y.2.1 y.2.2 := by
  induction x generalizing log h with
  | done a => rfl
  | act f k ih => exact ih _ _ _
  | await claim k ih =>
    show (claim _).bind _ = ((claim _).bind _).bind _
    rw [Option.bind_assoc]
    exact congrArg _ (funext fun h' ↦ ih _ _)
  | call c k ih => exact ih _ _ _

/-- What has been done goes on from what was done before. -/
theorem prefix_of_amid {x : Prog Host α} {a : α} {log' : List Feat} {h' : Host}
    (hends : x.amid w log h = some (a, log', h')) : log <+: log' := by
  induction x generalizing log h with
  | done b =>
    cases hends
    exact List.prefix_refl _
  | act f k ih => exact (List.prefix_append ..).trans (ih _ hends)
  | await claim k ih =>
    obtain ⟨h'', -, hends⟩ := Option.bind_eq_some_iff.mp hends
    exact (List.prefix_append ..).trans (ih hends)
  | call c k ih => exact (List.prefix_append ..).trans (ih _ hends)

namespace EndsAmid

variable {Q : List Feat → Host → α → Prop}

theorem mono {R : List Feat → Host → α → Prop} {x : Prog Host α} (hx : x.EndsAmid w Q log h)
    (hQR : ∀ log h a, Q log h a → R log h a) : x.EndsAmid w R log h := by
  obtain ⟨a, log', h', hends, hQ⟩ := hx
  exact ⟨a, log', h', hends, hQR _ _ _ hQ⟩

theorem done {a : α} (hQ : Q log h a) : (Prog.done a).EndsAmid w Q log h := ⟨a, log, h, rfl, hQ⟩

theorem act {f : Host → Host} {k : Host → Prog Host α}
    (hk : (k (w.found log h)).EndsAmid w Q
      (log ++ [.acted (w.found log h) (f (w.found log h))]) (f (w.found log h))) :
    (Prog.act f k).EndsAmid w Q log h := hk

theorem await {claim : Host → Option Host} {x : Prog Host α} {h' : Host}
    (hclaim : claim (w.found log h) = some h')
    (hx : x.EndsAmid w Q (log ++ [.acted (w.found log h) h']) h') :
    (Prog.await claim x).EndsAmid w Q log h := by
  obtain ⟨a, log', h'', hends, hQ⟩ := hx
  refine ⟨a, log', h'', ?_, hQ⟩
  rw [amid, hclaim]
  exact hends

theorem call {c : Call} {k : c.Reply → Prog Host α}
    (hk : ∀ r, (k r).EndsAmid w Q (log ++ [.said (.asked c), .said (.answered c r)]) h) :
    (Prog.call c k).EndsAmid w Q log h := hk _

theorem bind {R : List Feat → Host → β → Prop} {x : Prog Host α} {g : α → Prog Host β}
    (hx : x.EndsAmid w (fun log h a ↦ (g a).EndsAmid w R log h) log h) :
    (x.bind g).EndsAmid w R log h := by
  obtain ⟨a, log', h', hends, b, log'', h'', hends', hR⟩ := hx
  refine ⟨b, log'', h'', ?_, hR⟩
  rw [amid_bind, hends]
  exact hends'

theorem gets {f : Host → β} {k : β → Prog Host α}
    (hk : (k (f (w.found log h))).EndsAmid w Q
      (log ++ [.acted (w.found log h) (w.found log h)]) (w.found log h)) :
    ((Prog.gets f).bind k).EndsAmid w Q log h := hk

theorem modify {f : Host → Host} {k : Unit → Prog Host α}
    (hk : (k ()).EndsAmid w Q
      (log ++ [.acted (w.found log h) (f (w.found log h))]) (f (w.found log h))) :
    ((Prog.modify f).bind k).EndsAmid w Q log h := hk

/-- What is known of the end of a program holds where it ends. -/
theorem of_amid {x : Prog Host α} {a : α} {log' : List Feat} {h' : Host}
    (hx : x.EndsAmid w Q log h) (hends : x.amid w log h = some (a, log', h')) : Q log' h' a := by
  obtain ⟨_, _, _, hends', hQ⟩ := hx
  cases hends.symm.trans hends'
  exact hQ

/-- What has been done by the end of a program may be computed. -/
theorem of_map {x : Prog Host α} {f : List Feat → β} {b : β}
    (hx : (x.amid w log h).map (fun y ↦ f y.2.1) = some b) :
    x.EndsAmid w (fun log' _ _ ↦ f log' = b) log h := by
  obtain ⟨⟨a, log', h'⟩, hends, hb⟩ := Option.map_eq_some_iff.mp hx
  exact ⟨a, log', h', hends, hb⟩

theorem growing {x : Prog Host α} (hx : x.EndsAmid w Q log h) :
    x.EndsAmid w (fun log' h' a ↦ Q log' h' a ∧ log <+: log') log h := by
  obtain ⟨a, log', h', hends, hQ⟩ := hx
  exact ⟨a, log', h', hends, hQ, prefix_of_amid hends⟩

/-- One action after another: the second is taken only if the first succeeds. -/
theorem andThen {R : List Feat → Host → Except Error β → Prop} {x : Action α} {f : α → Action β}
    (hx : x.run.EndsAmid w (fun log h res ↦ match res with
      | .ok a => (f a).run.EndsAmid w R log h
      | .error e => R log h (.error e)) log h) : (x >>= f).run.EndsAmid w R log h := by
  refine bind (x := x.run) (g := ExceptT.bindCont f) (hx.mono fun log h res hres ↦ ?_)
  cases res with
  | ok a => exact hres
  | error e => exact .done hres

/-- The second action is taken only if the first fails. -/
theorem rescue {R : List Feat → Host → Except Error α → Prop} {x : Action α}
    {f : Error → Action α} (hx : x.run.EndsAmid w (fun log h res ↦ match res with
      | .ok a => R log h (.ok a)
      | .error e => (f e).run.EndsAmid w R log h) log h) :
    (tryCatch x f).run.EndsAmid w R log h := by
  refine bind (x := x.run) (hx.mono fun log h res hres ↦ ?_)
  cases res with
  | ok a => exact .done hres
  | error e => exact hres

theorem lift {R : List Feat → Host → Except Error α → Prop} {x : Prog Host α}
    (hx : x.EndsAmid w (fun log h a ↦ R log h (.ok a)) log h) :
    (Action.of x).run.EndsAmid w R log h :=
  bind (x := x) (g := fun a ↦ .done (Except.ok a : Except Error α))
    (hx.mono fun _ _ _ hR ↦ .done hR)

end EndsAmid

/-- What is known of the end of a program that relies on what the others do holds where it ends amid
others who do that. -/
theorem Abides.of_amid {M : Manner} {Q : List Feat → Host → α → Prop} {x : Prog Host α} {a : α}
    {log' : List Feat} {h' : Host} (hx : x.Abides M Q log h)
    (hw : ∀ log h, M.rely h (w.found log h)) (hends : x.amid w log h = some (a, log', h')) :
    Q log' h' a := by
  induction x generalizing log h with
  | done b =>
    cases hends
    exact hx
  | act f k ih => exact ih _ (hx _ (hw log h)).2 hends
  | await claim k ih =>
    obtain ⟨h'', hclaim, hends⟩ := Option.bind_eq_some_iff.mp hends
    exact ih (hx.2 _ _ (hw log h) hclaim).2 hends
  | call c k ih => exact ih _ (hx.2 _) hends

/-! ### What stays the same -/

theorem drifts_of_acted {G : Host → Host → Prop} {log' : List Feat} {h' h'' : Host}
    (hG : G (w.found log h) h'')
    (hrest : w.Drifts G h'' h' ∧ ∀ g g', .acted g g' ∈ log' →
      .acted g g' ∈ log ++ [.acted (w.found log h) h''] ∨ w.Drifts G h'' g) :
    w.Drifts G h h' ∧ ∀ g g', .acted g g' ∈ log' → .acted g g' ∈ log ∨ w.Drifts G h g := by
  have hfound : w.Drifts G h (w.found log h) := .found log h
  have hacted : w.Drifts G h h'' := hfound.trans (.acted hG)
  refine ⟨hacted.trans hrest.1, fun g g' hg ↦ ?_⟩
  obtain hold | hlater := hrest.2 g g' hg
  · obtain hold | hnew := List.mem_append.mp hold
    · exact .inl hold
    · cases List.mem_singleton.mp hnew
      exact .inr hfound
  · exact .inr (hacted.trans hlater)

/-- What a program does to the host goes on from what the others have made of it. -/
theorem Acts.drifts {G : Host → Host → Prop} {x : Prog Host α} {a : α} {log' : List Feat}
    {h' : Host} (hx : x.Acts G) (hends : x.amid w log h = some (a, log', h')) :
    w.Drifts G h h' ∧ ∀ g g', .acted g g' ∈ log' → .acted g g' ∈ log ∨ w.Drifts G h g := by
  induction x generalizing log h with
  | done b =>
    cases hends
    exact ⟨.refl, fun g g' ↦ .inl⟩
  | act f k ih =>
    obtain ⟨hf, hk⟩ := hx.of_act (w.found log h)
    exact drifts_of_acted hf (ih _ hk hends)
  | await claim k ih =>
    obtain ⟨h'', hclaim, hends⟩ := Option.bind_eq_some_iff.mp hends
    obtain ⟨hf, hk⟩ := hx.of_await hclaim
    exact drifts_of_acted hf (ih hk hends)
  | call c k ih => simpa using ih _ (hx.of_call _) hends

theorem EndsAmid.drifting {G : Host → Host → Prop} {Q : List Feat → Host → α → Prop}
    {x : Prog Host α} (hx : x.EndsAmid w Q log h) (hacts : x.Acts G) :
    x.EndsAmid w (fun log' h' a ↦ Q log' h' a ∧ w.Drifts G h h') log h := by
  obtain ⟨a, log', h', hends, hQ⟩ := hx
  exact ⟨a, log', h', hends, hQ, (hacts.drifts hends).1⟩

/-! ### A client among others -/

end Prog

namespace Surroundings

/-- What has been recorded comes about again: the host is found and calls are answered as it was
put down, where others have done what `rely` says. -/
structure Repeats (w : Surroundings) (rely : Host → Host → Prop) (log : List Feat) : Prop where
  found : ∀ before h g g', before ++ [.acted g g'] <+: log → rely h g → w.found before h = g
  reply : ∀ before c r,
    before ++ [.said (.asked c), .said (.answered c r)] <+: log → w.reply before c = r

/-- Any record is repeated amid some surroundings. -/
theorem exists_repeats {rely : Host → Host → Prop} (hrefl : ∀ h, rely h h) (log : List Feat) :
    ∃ w : Surroundings, w.Repeats rely log ∧ ∀ before h, rely h (w.found before h) := by
  classical
  refine ⟨{
    found := fun before h ↦
      if hx : ∃ g, (∃ g', before ++ [.acted g g'] <+: log) ∧ rely h g then hx.choose else h
    reply := fun before c ↦
      if hx : ∃ r, before ++ [.said (.asked c), .said (.answered c r)] <+: log then hx.choose
      else Classical.choice c.nonempty_reply }, ⟨?_, ?_⟩, ?_⟩
  · intro before h g g' hg hrely
    have hx : ∃ g, (∃ g', before ++ [.acted g g'] <+: log) ∧ rely h g := ⟨g, ⟨g', hg⟩, hrely⟩
    obtain ⟨g'', hchosen⟩ := hx.choose_spec.1
    have hsame := List.prefix_of_prefix_length_le hchosen hg (by simp)
    simp only [dif_pos hx]
    exact (by simpa using hsame : hx.choose = g ∧ g'' = g').1
  · intro before c r hr
    have hx : ∃ r, before ++ [.said (.asked c), .said (.answered c r)] <+: log := ⟨r, hr⟩
    have hsame := List.prefix_of_prefix_length_le hx.choose_spec hr (by simp)
    simp only [dif_pos hx]
    simpa using hsame
  · intro before h
    by_cases hx : ∃ g, (∃ g', before ++ [.acted g g'] <+: log) ∧ rely h g
    · simp only [dif_pos hx]
      exact hx.choose_spec.2
    · simp only [dif_neg hx]
      exact hrefl h

end Surroundings

/-- Whatever the others do, a program ends as it would amid surroundings that repeat it. -/
theorem Prog.abides_amid {α : Type} {M : Manner} (hM : M.IsFree) (x : Prog Host α) (log : List Feat)
    (h : Host) :
    x.Abides M (fun log' h' a ↦ log <+: log' ∧
      ∀ w : Surroundings, w.Repeats M.rely log' → x.amid w log h = some (a, log', h')) log h := by
  induction x generalizing log h with
  | done a => exact ⟨List.prefix_refl _, fun _ _ ↦ rfl⟩
  | act f k ih =>
    intro g hg
    refine ⟨hM.act _ _ _, (ih g (log ++ [.acted g (f g)]) (f g)).mono ?_⟩
    rintro log' h' a ⟨hgrown, hends⟩
    refine ⟨(List.prefix_append ..).trans hgrown, fun w hw ↦ ?_⟩
    rw [amid, hw.found log h g (f g) hgrown hg]
    exact hends w hw
  | await claim k ih =>
    refine ⟨hM.wait _, fun g g' hg hclaim ↦ ⟨hM.act _ _ _, (ih (log ++ [.acted g g']) g').mono ?_⟩⟩
    rintro log' h' a ⟨hgrown, hends⟩
    refine ⟨(List.prefix_append ..).trans hgrown, fun w hw ↦ ?_⟩
    rw [amid, hw.found log h g g' hgrown hg, hclaim]
    exact hends w hw
  | call c k ih =>
    refine ⟨hM.call _ _, fun r ↦ ?_⟩
    refine (ih r (log ++ [.said (.asked c), .said (.answered c r)]) h).mono ?_
    rintro log' h' a ⟨hgrown, hends⟩
    refine ⟨(List.prefix_append ..).trans hgrown, fun w hw ↦ ?_⟩
    rw [amid, hw.reply log c r hgrown]
    exact hends w hw

namespace Crowd

variable {ε ρ : Type} [Errand ε ρ] {s t : Crowd ε ρ} {A : Crowd ε ρ → Move ε → Prop}

/-- Assumes: the others do what the client may rely on. If it is finished then it has done what its
program does amid some surroundings that do the same. -/
theorem Later.exists_amid {M : Manner} (hM : M.IsFree) {e : ε} {o : ρ} (hs : s.NobodyElse)
    (hlater : Later A (s.joined e) t)
    (hothers : ∀ {u v m}, Later A (s.joined e) u → A u m → u.step m = some v →
      m.client? ≠ some s.clients.length → M.rely u.host v.host)
    (hdone : t.finished? s.clients.length = some (e, o)) :
    ∃ (w : Surroundings) (h' : Host), (∀ log h, M.rely h (w.found log h)) ∧ M.rely h' t.host ∧
      (Errand.program e).amid w [] s.host = some (o, t.feats s.clients.length, h') := by
  have hprogram := Prog.abides_amid hM (Errand.program e) [] s.host
  obtain ⟨task, htask, hstands⟩ := hlater.stands_on (getElem?_joined s e)
    (stands_joined hs hprogram) hothers
  obtain rfl : task = .going (.done o) := by
    simpa using htask.symm.trans (getElem?_of_finished? hdone)
  obtain ⟨h', hrely, -, hends⟩ := hstands.done
  obtain ⟨w, hrepeats, hw⟩ := Surroundings.exists_repeats M.refl (t.feats s.clients.length)
  exact ⟨w, h', hw, hrely, hends w hrepeats⟩

end Crowd

namespace Prog

variable {α β : Type} {w : Surroundings} {log : List Feat} {h : Host}

/-! ### Programs that never wait -/

/-- Whatever it finds and is answered, the program waits for nothing, and what it has done at its
end, together with its result, is as `Q` says. -/
def Performs : Prog Host α → (List Feat → α → Prop) → Prop
  | .done a, Q => Q [] a
  | .act f k, Q => ∀ g, (k g).Performs fun more ↦ Q (.acted g (f g) :: more)
  | .await _ _, _ => False
  | .call c k, Q =>
    ∀ r, (k r).Performs fun more ↦ Q (.said (.asked c) :: .said (.answered c r) :: more)

namespace Performs

theorem mono {x : Prog Host α} {Q R : List Feat → α → Prop} (hx : x.Performs Q)
    (hQR : ∀ more a, Q more a → R more a) : x.Performs R := by
  induction x generalizing Q R with
  | done a => exact hQR _ _ hx
  | act f k ih => exact fun g ↦ ih g (hx g) fun _ a ↦ hQR _ a
  | await claim k => exact hx
  | call c k ih => exact fun r ↦ ih r (hx r) fun _ a ↦ hQR _ a

theorem bind {x : Prog Host α} {g : α → Prog Host β} {Q : List Feat → β → Prop}
    (hx : x.Performs fun before a ↦ (g a).Performs fun more ↦ Q (before ++ more)) :
    (x.bind g).Performs Q := by
  induction x generalizing Q with
  | done a => exact hx
  | act f k ih => exact fun h ↦ ih h (hx h)
  | await claim k => exact hx.elim
  | call c k ih => exact fun r ↦ ih r (hx r)

/-- One action after another: the second is taken only if the first succeeds. -/
theorem andThen {x : Action α} {f : α → Action β} {Q : List Feat → Except Error β → Prop}
    (hx : x.run.Performs fun before res ↦ match res with
      | .ok a => (f a).run.Performs fun more ↦ Q (before ++ more)
      | .error e => Q before (.error e)) : (x >>= f).run.Performs Q := by
  refine bind (x := x.run) (g := ExceptT.bindCont f) (hx.mono fun before res hres ↦ ?_)
  cases res with
  | ok a => exact hres
  | error e => simpa [ExceptT.bindCont, Performs] using hres

/-- The second action is taken only if the first fails. -/
theorem rescue {x : Action α} {f : Error → Action α} {Q : List Feat → Except Error α → Prop}
    (hx : x.run.Performs fun before res ↦ match res with
      | .ok a => Q before (.ok a)
      | .error e => (f e).run.Performs fun more ↦ Q (before ++ more)) :
    (tryCatch x f).run.Performs Q := by
  refine bind (x := x.run) (hx.mono fun before res hres ↦ ?_)
  cases res with
  | ok a => simpa [Performs] using hres
  | error e => exact hres

/-- Amid any surroundings the program comes to its end. -/
theorem endsAmid {x : Prog Host α} {Q : List Feat → α → Prop} (hx : x.Performs Q) :
    x.EndsAmid w (fun log' _ a ↦ ∃ more, log' = log ++ more ∧ Q more a) log h := by
  induction x generalizing log h Q with
  | done a => exact .done ⟨[], (List.append_nil _).symm, hx⟩
  | act f k ih =>
    refine .act ((ih _ (hx _)).mono ?_)
    rintro log' h' a ⟨more, rfl, hQ⟩
    exact ⟨_, List.append_assoc .., hQ⟩
  | await claim k => exact hx.elim
  | call c k ih =>
    refine .call fun r ↦ (ih r (hx r)).mono ?_
    rintro log' h' a ⟨more, rfl, hQ⟩
    exact ⟨_, List.append_assoc .., hQ⟩

/-- In whatever manner it is allowed to do anything. -/
theorem abides {M : Manner} (hM : M.IsFree) {x : Prog Host α} {Q : List Feat → α → Prop}
    (hx : x.Performs Q) :
    x.Abides M (fun log' _ a ↦ ∃ more, log' = log ++ more ∧ Q more a) log h := by
  induction x generalizing log h Q with
  | done a => exact ⟨[], (List.append_nil _).symm, hx⟩
  | act f k ih =>
    refine fun g _ ↦ ⟨hM.act _ _ _, (ih g (hx g)).mono ?_⟩
    rintro log' h' a ⟨more, rfl, hQ⟩
    exact ⟨_, List.append_assoc .., hQ⟩
  | await claim k => exact hx.elim
  | call c k ih =>
    refine ⟨hM.call _ _, fun r ↦ (ih r (hx r)).mono ?_⟩
    rintro log' h' a ⟨more, rfl, hQ⟩
    exact ⟨_, List.append_assoc .., hQ⟩

end Performs

/-! ### Deeds -/

/-- The others leaving its process alone, a program ends with deeds that it yields. -/
theorem Yields.endsAmid {p : ProcessRef} {P : Process} {x : Prog Host α}
    {Q : List Deed → α → Prop} (hx : x.Yields p P Q) (hw : w.Keeps (·.processes.get p))
    (hP : h.processes.get p = P) :
    x.EndsAmid w (fun log' h' a ↦ ∃ ds, Q ds a ∧ exchangesIn log' = exchangesIn log ++ told ds ∧
      h'.processes.get p = P.after ds) log h := by
  induction x generalizing log h P Q with
  | done a => exact .done ⟨[], hx, (List.append_nil _).symm, hP⟩
  | act f k ih =>
    have hfound : (w.found log h).processes.get p = P := (hw log h).trans hP
    refine .act ?_
    obtain ⟨hf, hk⟩ | ⟨status, hf, hk⟩ := hx _ hfound
    · rw [hf]
      refine (ih _ hk hfound).mono ?_
      rintro log' h' a ⟨ds, hQ, htold, hget⟩
      exact ⟨ds, hQ, by simpa using htold, hget⟩
    · rw [hf]
      have hbecame : ((w.found log h).withStatus p status).processes.get p = { P with status } := by
        rw [Host.get_withStatus_self, hfound]
      refine (ih _ hk hbecame).mono ?_
      rintro log' h' a ⟨ds, hQ, htold, hget⟩
      exact ⟨_, hQ, by simpa using htold, hget⟩
  | await claim k => exact hx.elim
  | call c k ih =>
    refine .call fun r ↦ (ih r (hx r) hP).mono ?_
    rintro log' h' a ⟨ds, hQ, htold, hget⟩
    exact ⟨_, hQ, by simpa using htold, hget⟩

end Prog

namespace Host

variable {w : Surroundings} {log : List Feat} {h : Host} {p : ProcessRef}

/-- Nothing differs but a process. -/
structure SameBut (p : ProcessRef) (h h' : Host) : Prop where
  rest : h' = { h with processes := h'.processes }
  others : ∀ q ≠ p, h'.processes.get q = h.processes.get q

namespace SameBut

theorem refl (p : ProcessRef) (h : Host) : h.SameBut p h := ⟨rfl, fun _ _ ↦ rfl⟩

theorem modify (p : ProcessRef) (h : Host) (f : Process → Process) :
    h.SameBut p { h with processes := h.processes.modify p f } :=
  ⟨rfl, fun _ hq ↦ Store.get_modify_ne _ _ hq⟩

end SameBut

/-- Who has a process to himself for a section changes nothing but this process. -/
theorem exclusively_acts (sec : Section) (p : ProcessRef) :
    (exclusively p (sec.body p)).run.Acts (SameBut p) := by
  refine .await (fun g g' hclaim ↦ ?_) (.bind (x := (sec.body p).run) ?_ fun res ↦ ?_)
  · rw [lock?] at hclaim
    split at hclaim
    · cases hclaim
    · cases hclaim
      exact .modify p g _
  · exact sec.body_acts p (.refl p) fun g status _ ↦ .modify p g _
  · exact .act (fun g ↦ .modify p g _) fun _ ↦ .done _

theorem inspect_endsAmid {α : Type} {f : Host → Except Error α}
    {Q : List Feat → Host → Except Error α → Prop}
    (hQ : Q (log ++ [.acted (w.found log h) (w.found log h)]) (w.found log h) (f (w.found log h))) :
    (inspect f).run.EndsAmid w Q log h := .act (.done hQ)

/-- A process that is not locked, and that the others leave alone, is gone through as the section
says, and is not locked at the end. -/
theorem exclusively_endsAmid (sec : Section) (hw : w.Keeps (·.processes.get p))
    (hfree : (h.processes.get p).locked = false) :
    (exclusively p (sec.body p)).run.EndsAmid w (fun log' h' res ↦
      ∃ ds, sec.Does { h.processes.get p with locked := true } ds res ∧
        exchangesIn log' = exchangesIn log ++ told ds ∧
        h'.processes.get p = (h.processes.get p).after ds) log h := by
  have hfound : (w.found log h).processes.get p = h.processes.get p := hw log h
  have hclaim : lock? p (w.found log h) = some { w.found log h with
      processes := (w.found log h).processes.modify p ({ · with locked := true }) } := by
    rw [lock?, hfound, hfree]
    rfl
  refine .await hclaim (.bind (x := (sec.body p).run) ?_)
  have hlocked : ((w.found log h).processes.modify p ({ · with locked := true })).get p =
      { h.processes.get p with locked := true } := by rw [Store.get_modify_self, hfound]
  refine ((sec.yields p _).endsAmid hw hlocked).mono ?_
  rintro log' h' res ⟨ds, hdoes, htold, hget⟩
  refine .act (.done ⟨ds, hdoes, by simpa using htold, ?_⟩)
  have hleft : (w.found log' h').processes.get p =
      { (h.processes.get p).after ds with locked := true } :=
    (hw log' h').trans (hget.trans (Process.after_locked _ _ _))
  simp only [unlock, Store.get_modify_self, hleft]
  rw [(h.processes.get p).after_eq ds, hfree]

/-- Looking up a process that is recorded, looking at the context, and going through a section of
the process, which the others leave alone: the section is gone through unless the context was found
cancelled. -/
theorem visit_endsAmid {m : ManagerRef} {ctx : ContextRef} {id : String} (sec : Section)
    (hw : w.Keeps (·.processes.get p)) (hfree : (h.processes.get p).locked = false)
    (hfind : ((w.found log h).managers.get m).find id = .ok p) :
    (do
      let p ← find m id
      checkContext ctx
      exclusively p (sec.body p) : Action Unit).run.EndsAmid w (fun log' h' res ↦
        ∃ g, g = w.found (log ++ [.acted (w.found log h) (w.found log h)]) (w.found log h) ∧
          log ++ [.acted (w.found log h) (w.found log h), .acted g g] <+: log' ∧
            w.Drifts (SameBut p) h h' ∧
            if g.contexts.isCancelled ctx then
              res = .error .cancelled ∧ exchangesIn log' = exchangesIn log ∧ h' = g
            else ∃ ds, sec.Does { h.processes.get p with locked := true } ds res ∧
              exchangesIn log' = exchangesIn log ++ told ds ∧
                h'.processes.get p = (h.processes.get p).after ds) log h := by
  refine .andThen (inspect_endsAmid ?_)
  simp only [hfind]
  refine .andThen (inspect_endsAmid ?_)
  have hkept : (w.found (log ++ [.acted (w.found log h) (w.found log h)])
      (w.found log h)).processes.get p = h.processes.get p := (hw _ _).trans (hw _ _)
  have hdrift : w.Drifts (SameBut p) h
      (w.found (log ++ [.acted (w.found log h) (w.found log h)]) (w.found log h)) :=
    .trans (.found _ _) (.found _ _)
  generalize w.found (log ++ [.acted (w.found log h) (w.found log h)]) (w.found log h) = g at *
  cases hctx : g.contexts.isCancelled ctx with
  | true =>
    simp only [Contexts.check, hctx, if_true]
    exact ⟨g, rfl, by simp, hdrift, by simp [hctx]⟩
  | false =>
    simp only [Contexts.check, hctx, Bool.false_eq_true, if_false]
    refine ((exclusively_endsAmid sec hw (by rw [hkept, hfree])).growing.drifting
      (exclusively_acts sec p)).mono ?_
    rintro log' h' res ⟨⟨⟨ds, hdoes, htold, hget⟩, hgrown⟩, hdrift'⟩
    rw [hkept] at hdoes hget
    refine ⟨g, rfl, by simpa using hgrown, hdrift.trans hdrift', ?_⟩
    rw [hctx, if_neg Bool.false_ne_true]
    exact ⟨ds, hdoes, by simpa using htold, hget⟩

end Host

end ComponentHost
