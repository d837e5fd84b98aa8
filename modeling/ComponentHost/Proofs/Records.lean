import ComponentHost.Proofs.Orderly
import ComponentHost.Proofs.Tables
import Mathlib.Data.List.Nodup

/-!
What an orderly scene shows of the processes that managers have recorded.

In every scene to which clients come by whole turns (`Scene.Orderly`) the records are kept
(`Scene.Kept`): a manager has recorded just those processes that a call has created for it and no
call has removed, each under its own identifier and in the order in which they were recorded; and
each process was created by one call, which was given its identifier.

Only two things a turn does touch the records. `Scene.Recording` and `Scene.Forgetting` say what
they make of a scene, and what is kept is shown from that.
-/

set_option autoImplicit false

namespace ComponentHost

open Function (update update_self update_of_ne)

/-! ### Hosts -/

namespace Host

theorem recorded_recording (h : Host) (m : ManagerRef) (P : Process) (m' : ManagerRef) :
    (((h.counted m).recording m P).managers.get m').recorded =
      if m' = m then (h.managers.get m).recorded.bind P.id h.processes.count
      else (h.managers.get m').recorded := by
  by_cases hm : m' = m <;> simp [recording, counted, hm]

theorem get_recording_self (h : Host) (m : ManagerRef) (P : Process) :
    ((h.counted m).recording m P).processes.get h.processes.count = P := Store.get_add_self ..

theorem get_recording (h : Host) (m : ManagerRef) (P : Process) {p : ProcessRef}
    (hp : p < h.processes.count) :
    ((h.counted m).recording m P).processes.get p = h.processes.get p :=
  Store.get_add_ne _ _ (Nat.ne_of_lt hp)

theorem recorded_forgetting (h : Host) (m : ManagerRef) (id : String) (m' : ManagerRef) :
    ((h.forgetting m id).managers.get m').recorded =
      if m' = m then (h.managers.get m).recorded.erase id else (h.managers.get m').recorded := by
  by_cases hm : m' = m <;> simp [forgetting, hm]

end Host

namespace Scene

/-- A call has created the process for the manager. -/
def Made (w : Scene) (i : Nat) (m : ManagerRef) (p : ProcessRef) : Prop :=
  ∃ ctx config, w.finished i = some (.create m ctx config, .ok (some p))

/-- A call has removed the process. -/
def Removed (w : Scene) (p : ProcessRef) : Prop :=
  ∃ i m id, w.finished i = some (.remove m id, .ok (some p))

/-- A client was given the identifier. -/
def Named (w : Scene) (i : Nat) (id : String) : Prop :=
  ∃ generator, ⟨i, .answered (.generateId generator) (.ok id)⟩ ∈ w.past

/-- The records are kept. -/
structure Kept (w : Scene) : Prop where
  known : ∀ e ∈ w.past, (w.request e.client).isSome = true
  asked : ∀ i x, w.finished i = some x → w.request i = some x.1
  ids : ∀ m, ((w.managers.get m).recorded.map Prod.fst).Nodup
  recorded : ∀ m id p, (id, p) ∈ (w.managers.get m).recorded →
    (w.processes.get p).id = id ∧ (∃ i, w.Made i m p) ∧ ¬w.Removed p
  made : ∀ i m p, w.Made i m p → p < w.processes.count ∧ w.Named i (w.processes.get p).id ∧
    (((w.processes.get p).id, p) ∈ (w.managers.get m).recorded ∨ w.Removed p)
  removed : ∀ p, w.Removed p → ∃ i m, w.Made i m p
  numbered : ∀ p < w.processes.count, ∃ i m, w.Made i m p
  /-- No process was created by two calls. -/
  maker : ∀ i j m m' p, w.Made i m p → w.Made j m' p → i = j
  ordered : ∀ m, (w.managers.get m).recorded.Pairwise fun x y ↦ x.2 < y.2

variable {w w' : Scene} {i j : Nat} {r : Request} {o : Outcome} {m m' : ManagerRef}
  {p q : ProcessRef}

/-! ### What is not taken back -/

theorem Made.eq (h : w.Made i m p) (h' : w.Made i m' q) : m = m' ∧ p = q := by
  obtain ⟨ctx, config, hfinished⟩ := h
  obtain ⟨ctx', config', hfinished'⟩ := h'
  simp_all

theorem Made.grows (h : w.Made i m p) (hgrows : w.Grows w') : w'.Made i m p := by
  obtain ⟨ctx, config, hfinished⟩ := h
  exact ⟨ctx, config, hgrows.finished i _ hfinished⟩

theorem Removed.grows (h : w.Removed p) (hgrows : w.Grows w') : w'.Removed p := by
  obtain ⟨i, m, id, hfinished⟩ := h
  exact ⟨i, m, id, hgrows.finished i _ hfinished⟩

theorem Named.grows {id : String} (h : w.Named i id) (hgrows : w.Grows w') : w'.Named i id := by
  obtain ⟨generator, hmem⟩ := h
  exact ⟨generator, hgrows.past.subset hmem⟩

theorem finished_ended (hunfinished : w.finished i = none) {x : Request × Outcome} :
    (w.ended i r o).finished j = some x ↔ (j = i ∧ x = (r, o)) ∨ w.finished j = some x := by
  by_cases hji : j = i
  · subst hji
    simp [ended, hunfinished, eq_comm]
  · simp [ended, hji]

theorem made_ended (hunfinished : w.finished i = none) :
    (w.ended i r o).Made j m p ↔
      (j = i ∧ ∃ ctx config, r = .create m ctx config ∧ o = .ok (some p)) ∨ w.Made j m p := by
  simp only [Made, finished_ended hunfinished, Prod.mk.injEq]
  grind

theorem removed_ended (hunfinished : w.finished i = none) :
    (w.ended i r o).Removed p ↔ (∃ m id, r = .remove m id ∧ o = .ok (some p)) ∨ w.Removed p := by
  simp only [Removed, finished_ended hunfinished, Prod.mk.injEq]
  grind

theorem known_said (hknown : ∀ e ∈ w.past, (w.request e.client).isSome = true)
    (hi : w.request i = some r) {x : Exchange} :
    ∀ e ∈ (w.said i x).past, (w.request e.client).isSome = true := by
  intro e he
  rcases List.mem_cons.mp he with rfl | he
  · exact Option.isSome_of_eq_some hi
  · exact hknown e he

theorem asked_ended (hasked : ∀ j x, w.finished j = some x → w.request j = some x.1)
    (hi : w.request i = some r) (hunfinished : w.finished i = none) :
    ∀ j x, (w.ended i r o).finished j = some x → w.request j = some x.1 := by
  intro j x hx
  rcases (finished_ended hunfinished).mp hx with ⟨rfl, rfl⟩ | hx
  · exact hi
  · exact hasked j x hx

/-- A process keeps its identifier. -/
theorem Grows.id_eq (hgrows : w.Grows w') (hp : p < w.processes.count) :
    (w'.processes.get p).id = (w.processes.get p).id := by
  obtain ⟨status, locked, heq⟩ := hgrows.process p hp
  rw [heq]

namespace Kept

theorem lt_of_recorded {id : String} (hw : w.Kept)
    (h : (id, p) ∈ (w.managers.get m).recorded) : p < w.processes.count := by
  obtain ⟨-, ⟨i, hmade⟩, -⟩ := hw.recorded m id p h
  exact (hw.made i m p hmade).1

/-- Nothing happens to the records, and nobody answers a process. -/
theorem of_same (hw : w.Kept) (hgrows : w.Grows w')
    (hknown : ∀ e ∈ w'.past, (w'.request e.client).isSome = true)
    (hasked : ∀ i x, w'.finished i = some x → w'.request i = some x.1)
    (hrecorded : ∀ m, (w'.managers.get m).recorded = (w.managers.get m).recorded)
    (hcount : w'.processes.count = w.processes.count)
    (hmade : ∀ i m p, w'.Made i m p → w.Made i m p) (hremoved : ∀ p, w'.Removed p → w.Removed p) :
    w'.Kept where
  known := hknown
  asked := hasked
  ids m := hrecorded m ▸ hw.ids m
  recorded m id p hmem := by
    rw [hrecorded] at hmem
    obtain ⟨hid, ⟨i, hi⟩, hkept⟩ := hw.recorded m id p hmem
    rw [hgrows.id_eq (hw.lt_of_recorded hmem)]
    exact ⟨hid, ⟨i, hi.grows hgrows⟩, fun hgone ↦ hkept (hremoved p hgone)⟩
  made i m p h := by
    obtain ⟨hlt, hnamed, hor⟩ := hw.made i m p (hmade i m p h)
    rw [hgrows.id_eq hlt, hrecorded, hcount]
    exact ⟨hlt, hnamed.grows hgrows, hor.imp_right (·.grows hgrows)⟩
  removed p h := by
    obtain ⟨i, m, hi⟩ := hw.removed p (hremoved p h)
    exact ⟨i, m, hi.grows hgrows⟩
  numbered p hp := by
    obtain ⟨i, m, hi⟩ := hw.numbered p (hcount ▸ hp)
    exact ⟨i, m, hi.grows hgrows⟩
  maker i j m m' p hi hj := hw.maker i j m m' p (hmade i m p hi) (hmade j m' p hj)
  ordered m := hrecorded m ▸ hw.ordered m

theorem joined (hw : w.Kept) (hnew : w.request i = none) (r : Request) : (w.joined i r).Kept := by
  refine hw.of_same (.joined hnew r) (fun e he ↦ ?_) (fun j x hx ↦ ?_) (fun _ ↦ rfl) rfl
    (fun _ _ _ h ↦ h) fun _ h ↦ h
  · obtain ⟨r', hr'⟩ := Option.isSome_iff_exists.mp (hw.known e he)
    rw [(Grows.joined hnew r).request _ _ hr']
    rfl
  · exact (Grows.joined hnew r).request _ _ (hw.asked j x hx)

theorem said (hw : w.Kept) (hi : w.request i = some r) (x : Exchange) : (w.said i x).Kept :=
  hw.of_same (.said w i x) (known_said hw.known hi) hw.asked (fun _ ↦ rfl) rfl
    (fun _ _ _ h ↦ h) fun _ h ↦ h

theorem ended (hw : w.Kept) (hi : w.request i = some r) (hunfinished : w.finished i = none)
    (ho : ∀ p, o ≠ .ok (some p)) : (w.ended i r o).Kept := by
  refine hw.of_same (.ended hunfinished r o) hw.known (asked_ended hw.asked hi hunfinished)
    (fun _ ↦ rfl) rfl (fun j m p h ↦ ?_) fun p h ↦ ?_
  · rcases (made_ended hunfinished).mp h with ⟨-, -, -, -, hp⟩ | h
    · exact absurd hp (ho p)
    · exact h
  · rcases (removed_ended hunfinished).mp h with ⟨-, -, -, hp⟩ | h
    · exact absurd hp (ho p)
    · exact h

theorem on_modify {h : Host} (hw : w.Kept) (hshows : w.Shows h) (p : ProcessRef)
    {f : Process → Process} (hf : ∀ P, ∃ status locked, f P = { P with status, locked }) :
    (w.on { h with processes := h.processes.modify p f }).Kept :=
  hw.of_same (.on_modify hshows p hf) hw.known hw.asked (fun _ ↦ by simp [on, hshows.1])
    (by simp [on, hshows.2]) (fun _ _ _ h ↦ h) fun _ h ↦ h

theorem counted {h : Host} (hw : w.Kept) (hshows : w.Shows h) (m : ManagerRef) :
    (w.on (h.counted m)).Kept := by
  have hgrows : w.Grows (w.on (h.counted m)) := by
    refine { Grows.refl w with count := ?_, process := fun p _ ↦ ?_ }
    · simp [on, Host.counted, hshows.2]
    · exact ⟨_, _, by simp [on, Host.counted, hshows.2]; rfl⟩
  refine hw.of_same hgrows hw.known hw.asked (fun m' ↦ ?_)
    (by simp [on, Host.counted, hshows.2]) (fun _ _ _ h ↦ h) fun _ h ↦ h
  by_cases hm : m' = m <;> simp [on, Host.counted, hshows.1, hm]

end Kept

/-! ### A process is recorded -/

/-- What becomes of a scene where a client records a process for a manager, and is answered it. -/
structure Recording (w : Scene) (i : Nat) (m : ManagerRef) (P : Process) (w' : Scene) : Prop where
  grows : w.Grows w'
  count : w'.processes.count = w.processes.count + 1
  newest : w'.processes.get w.processes.count = P
  older : ∀ p < w.processes.count, w'.processes.get p = w.processes.get p
  recorded : ∀ m', (w'.managers.get m').recorded =
    if m' = m then (w.managers.get m).recorded.bind P.id w.processes.count
    else (w.managers.get m').recorded
  made : ∀ j m' p, w'.Made j m' p ↔ (j = i ∧ m' = m ∧ p = w.processes.count) ∨ w.Made j m' p
  removed : ∀ p, w'.Removed p ↔ w.Removed p

theorem recording_of_create {h : Host} (ctx : ContextRef) (config : ProcessConfig) (P : Process)
    (hunfinished : w.finished i = none) (hshows : w.Shows h) (x : Exchange) :
    w.Recording i m P
      (((w.on ((h.counted m).recording m P)).said i x).ended i (.create m ctx config)
        (.ok (some h.processes.count))) := by
  obtain ⟨hmanagers, hprocesses⟩ := hshows
  have hcount : h.processes.count = w.processes.count := congrArg Store.count hprocesses
  have hold {p : ProcessRef} (hp : p < w.processes.count) :
      ((h.counted m).recording m P).processes.get p = w.processes.get p := by
    rw [← hprocesses]
    exact h.get_recording m P (hcount ▸ hp)
  have hunfinished' : ((w.on ((h.counted m).recording m P)).said i x).finished i = none :=
    hunfinished
  constructor
  case grows =>
    refine ⟨fun _ _ hr ↦ hr, (Grows.ended hunfinished _ _).finished, List.suffix_cons .., ?_,
      fun p hp ↦ ⟨_, _, hold hp⟩⟩
    rw [← hcount]
    exact Nat.le_succ _
  case count => exact congrArg (· + 1) hcount
  case newest => exact hcount ▸ h.get_recording_self m P
  case older => exact fun p hp ↦ hold hp
  case recorded =>
    rw [← hmanagers, ← hcount]
    exact h.recorded_recording m P
  case made =>
    intro j m' p
    rw [made_ended hunfinished']
    refine or_congr_left ⟨?_, ?_⟩
    · rintro ⟨rfl, ctx', config', hr, ho⟩
      cases hr
      cases ho
      exact ⟨rfl, rfl, hcount⟩
    · rintro ⟨rfl, rfl, rfl⟩
      exact ⟨rfl, ctx, config, rfl, by rw [hcount]⟩
  case removed =>
    intro p
    rw [removed_ended hunfinished']
    refine or_iff_right ?_
    simp

namespace Recording

variable {P : Process} {id : String}

theorem mem_recorded (h : w.Recording i m P w') :
    (id, p) ∈ (w'.managers.get m').recorded ↔
      (id, p) ∈ (w.managers.get m').recorded ∨ (m' = m ∧ id = P.id ∧ p = w.processes.count) := by
  rw [h.recorded]
  by_cases hm : m' = m <;> simp [hm, Table.bind]

theorem maker (h : w.Recording i m P w') : w'.Made i m w.processes.count :=
  (h.made i m _).mpr (.inl ⟨rfl, rfl, rfl⟩)

/-- The process that is recorded is new: nobody has created it. -/
theorem not_made (hw : w.Kept) : ¬w.Made j m' w.processes.count :=
  fun hmade ↦ Nat.lt_irrefl _ (hw.made _ _ _ hmade).1

theorem nodup_ids (h : w.Recording i m P w') (hw : w.Kept)
    (hfree : (w.managers.get m).recorded.contains P.id = false) (m' : ManagerRef) :
    ((w'.managers.get m').recorded.map Prod.fst).Nodup := by
  rw [h.recorded]
  split
  · rw [Table.bind, List.map_append]
    have hnot := Table.contains_eq_false_iff.mp hfree
    exact List.nodup_append_comm.mp (List.nodup_cons.mpr ⟨hnot, hw.ids m⟩)
  · exact hw.ids m'

theorem recorded_made (h : w.Recording i m P w') (hw : w.Kept)
    (hmem : (id, p) ∈ (w'.managers.get m').recorded) :
    (w'.processes.get p).id = id ∧ (∃ i, w'.Made i m' p) ∧ ¬w'.Removed p := by
  rw [h.removed]
  rcases h.mem_recorded.mp hmem with hmem | ⟨rfl, rfl, rfl⟩
  · obtain ⟨hid, ⟨j, hj⟩, hkept⟩ := hw.recorded m' id p hmem
    rw [h.older p (hw.lt_of_recorded hmem)]
    exact ⟨hid, ⟨j, hj.grows h.grows⟩, hkept⟩
  · refine ⟨congrArg Process.id h.newest, ⟨i, h.maker⟩, fun hremoved ↦ ?_⟩
    obtain ⟨j, m'', hj⟩ := hw.removed _ hremoved
    exact not_made hw hj

theorem made_named (h : w.Recording i m P w') (hw : w.Kept) (hnamed : w.Named i P.id)
    (hmade : w'.Made j m' p) :
    p < w'.processes.count ∧ w'.Named j (w'.processes.get p).id ∧
      (((w'.processes.get p).id, p) ∈ (w'.managers.get m').recorded ∨ w'.Removed p) := by
  rw [h.count, h.removed]
  rcases (h.made j m' p).mp hmade with ⟨rfl, rfl, rfl⟩ | hmade
  · rw [h.newest]
    exact ⟨Nat.lt_succ_self _, hnamed.grows h.grows,
      .inl (h.mem_recorded.mpr (.inr ⟨rfl, rfl, rfl⟩))⟩
  · obtain ⟨hlt, hnamed, hor⟩ := hw.made j m' p hmade
    rw [h.older p hlt]
    exact ⟨Nat.lt_succ_of_lt hlt, hnamed.grows h.grows,
      hor.imp_left fun hmem ↦ h.mem_recorded.mpr (.inl hmem)⟩

theorem exists_made (h : w.Recording i m P w') (hw : w.Kept) (hp : p < w'.processes.count) :
    ∃ i m, w'.Made i m p := by
  rcases Nat.lt_succ_iff_lt_or_eq.mp (h.count ▸ hp) with hp | rfl
  · obtain ⟨j, m', hj⟩ := hw.numbered p hp
    exact ⟨j, m', hj.grows h.grows⟩
  · exact ⟨i, m, h.maker⟩

theorem maker_eq {j' : Nat} {m'' : ManagerRef} (h : w.Recording i m P w') (hw : w.Kept)
    (hj : w'.Made j m' p) (hj' : w'.Made j' m'' p) : j = j' := by
  rcases (h.made ..).mp hj with ⟨rfl, rfl, rfl⟩ | hj
  · rcases (h.made ..).mp hj' with ⟨rfl, -, -⟩ | hj'
    · rfl
    · exact absurd hj' (not_made hw)
  · rcases (h.made ..).mp hj' with ⟨-, -, rfl⟩ | hj'
    · exact absurd hj (not_made hw)
    · exact hw.maker j j' m' m'' p hj hj'

/-- The process that is recorded comes last. -/
theorem ordered (h : w.Recording i m P w') (hw : w.Kept) (m' : ManagerRef) :
    (w'.managers.get m').recorded.Pairwise fun x y ↦ x.2 < y.2 := by
  rw [h.recorded]
  split
  · refine List.pairwise_append.mpr ⟨hw.ordered m, List.pairwise_singleton .., fun y hy z hz ↦ ?_⟩
    obtain rfl := List.mem_singleton.mp hz
    exact hw.lt_of_recorded hy
  · exact hw.ordered m'

end Recording

/-- One more process is recorded, under an identifier that is free. -/
theorem Kept.recording {h : Host} {ctx : ContextRef} {config : ProcessConfig} {P : Process}
    {x : Exchange} (hw : w.Kept) (hi : w.request i = some (.create m ctx config))
    (hunfinished : w.finished i = none) (hshows : w.Shows h) (hnamed : w.Named i P.id)
    (hfree : (h.managers.get m).recorded.contains P.id = false) :
    (((w.on ((h.counted m).recording m P)).said i x).ended i (.create m ctx config)
      (.ok (some h.processes.count))).Kept := by
  have hnew : w.Recording i m P _ := recording_of_create ctx config P hunfinished hshows x
  rw [hshows.1] at hfree
  exact
    { known := known_said hw.known hi
      asked := asked_ended hw.asked hi hunfinished
      ids := hnew.nodup_ids hw hfree
      recorded := fun _ _ _ ↦ hnew.recorded_made hw
      made := fun _ _ _ ↦ hnew.made_named hw hnamed
      removed := fun p hp ↦ by
        obtain ⟨j, m', hj⟩ := hw.removed p ((hnew.removed p).mp hp)
        exact ⟨j, m', hj.grows hnew.grows⟩
      numbered := fun _ ↦ hnew.exists_made hw
      maker := fun _ _ _ _ _ ↦ hnew.maker_eq hw
      ordered := hnew.ordered hw }

/-! ### A process is removed -/

/-- What becomes of a scene where a client removes a process from the records of a manager, and is
answered it. -/
structure Forgetting (w : Scene) (m : ManagerRef) (id : String) (p : ProcessRef)
    (w' : Scene) : Prop where
  grows : w.Grows w'
  processes : w'.processes = w.processes
  recorded : ∀ m', (w'.managers.get m').recorded =
    if m' = m then (w.managers.get m).recorded.erase id else (w.managers.get m').recorded
  made : ∀ j m' q, w'.Made j m' q ↔ w.Made j m' q
  removed : ∀ q, w'.Removed q ↔ q = p ∨ w.Removed q

theorem forgetting_of_remove {h : Host} {id : String} (hunfinished : w.finished i = none)
    (hshows : w.Shows h) (x : Exchange) :
    w.Forgetting m id p
      (((w.on (h.forgetting m id)).said i x).ended i (.remove m id) (.ok (some p))) := by
  obtain ⟨hmanagers, hprocesses⟩ := hshows
  have hunfinished' : ((w.on (h.forgetting m id)).said i x).finished i = none := hunfinished
  constructor
  case grows =>
    refine ⟨fun _ _ hr ↦ hr, (Grows.ended hunfinished _ _).finished, List.suffix_cons .., ?_,
      fun q _ ↦ ⟨_, _, congrArg (Store.get · q) hprocesses⟩⟩
    exact Nat.le_of_eq (congrArg Store.count hprocesses.symm)
  case processes => exact hprocesses
  case recorded =>
    rw [← hmanagers]
    exact h.recorded_forgetting m id
  case made =>
    intro j m' q
    rw [made_ended hunfinished']
    refine or_iff_right ?_
    simp
  case removed =>
    intro q
    rw [removed_ended hunfinished']
    refine or_congr_left ?_
    simp [eq_comm]

namespace Forgetting

variable {id id' : String}

theorem mem_recorded (h : w.Forgetting m id p w') :
    (id', q) ∈ (w'.managers.get m').recorded ↔
      (id', q) ∈ (w.managers.get m').recorded ∧ ¬(m' = m ∧ id' = id) := by
  rw [h.recorded]
  by_cases hm : m' = m <;> simp [hm, Table.erase]

theorem recorded_sublist (h : w.Forgetting m id p w') (m' : ManagerRef) :
    (w'.managers.get m').recorded.Sublist (w.managers.get m').recorded := by
  rw [h.recorded]
  split
  · rename_i hm
    subst hm
    exact List.filter_sublist
  · exact List.Sublist.refl _

theorem recorded_made (h : w.Forgetting m id p w') (hw : w.Kept)
    (hfound : (id, p) ∈ (w.managers.get m).recorded)
    (hmem : (id', q) ∈ (w'.managers.get m').recorded) :
    (w'.processes.get q).id = id' ∧ (∃ i, w'.Made i m' q) ∧ ¬w'.Removed q := by
  obtain ⟨hmem, hother⟩ := h.mem_recorded.mp hmem
  obtain ⟨hid, ⟨j, hj⟩, hkept⟩ := hw.recorded m' id' q hmem
  rw [h.processes, h.removed]
  refine ⟨hid, ⟨j, hj.grows h.grows⟩, ?_⟩
  rintro (rfl | hremoved)
  · -- the process that is removed is recorded once
    obtain ⟨hid', ⟨j', hj'⟩, -⟩ := hw.recorded m id q hfound
    obtain rfl := hw.maker _ _ _ _ _ hj hj'
    exact hother ⟨(hj.eq hj').1, hid.symm.trans hid'⟩
  · exact hkept hremoved

theorem made_named (h : w.Forgetting m id p w') (hw : w.Kept)
    (hfound : (id, p) ∈ (w.managers.get m).recorded) (hmade : w'.Made j m' q) :
    q < w'.processes.count ∧ w'.Named j (w'.processes.get q).id ∧
      (((w'.processes.get q).id, q) ∈ (w'.managers.get m').recorded ∨ w'.Removed q) := by
  obtain ⟨hlt, hnamed, hor⟩ := hw.made j m' q ((h.made j m' q).mp hmade)
  rw [h.processes, h.removed, h.mem_recorded]
  refine ⟨hlt, hnamed.grows h.grows, ?_⟩
  rcases hor with hmem | hremoved
  · by_cases hthis : m' = m ∧ (w.processes.get q).id = id
    · obtain ⟨rfl, rfl⟩ := hthis
      have hlookup := (Table.get?_eq_some_iff (hw.ids m')).mpr hmem
      rw [(Table.get?_eq_some_iff (hw.ids m')).mpr hfound] at hlookup
      exact .inr (.inl (Option.some.inj hlookup).symm)
    · exact .inl ⟨hmem, hthis⟩
  · exact .inr (.inr hremoved)

theorem exists_made (h : w.Forgetting m id p w') (hw : w.Kept)
    (hfound : (id, p) ∈ (w.managers.get m).recorded) (hgone : w'.Removed q) :
    ∃ i m, w'.Made i m q := by
  rcases (h.removed q).mp hgone with rfl | hgone
  · obtain ⟨-, ⟨j, hj⟩, -⟩ := hw.recorded m id q hfound
    exact ⟨j, m, hj.grows h.grows⟩
  · obtain ⟨j, m', hj⟩ := hw.removed q hgone
    exact ⟨j, m', hj.grows h.grows⟩

end Forgetting

/-- A process that is recorded is removed. -/
theorem Kept.forgetting {h : Host} {id : String} {x : Exchange} (hw : w.Kept)
    (hi : w.request i = some (.remove m id)) (hunfinished : w.finished i = none)
    (hshows : w.Shows h) (hfind : (h.managers.get m).find id = .ok p) :
    (((w.on (h.forgetting m id)).said i x).ended i (.remove m id) (.ok (some p))).Kept := by
  have hless : w.Forgetting m id p _ := forgetting_of_remove hunfinished hshows x
  rw [hshows.1] at hfind
  have hfound := Manager.mem_of_find hfind
  exact
    { known := known_said hw.known hi
      asked := asked_ended hw.asked hi hunfinished
      ids := fun m' ↦ (hw.ids m').sublist ((hless.recorded_sublist m').map _)
      recorded := fun _ _ _ ↦ hless.recorded_made hw hfound
      made := fun _ _ _ ↦ hless.made_named hw hfound
      removed := fun _ ↦ hless.exists_made hw hfound
      numbered := fun q hq ↦ by
        obtain ⟨j, m', hj⟩ := hw.numbered q (hless.processes ▸ hq)
        exact ⟨j, m', hj.grows hless.grows⟩
      maker := fun j j' m' m'' q hj hj' ↦
        hw.maker j j' m' m'' q ((hless.made ..).mp hj) ((hless.made ..).mp hj')
      ordered := fun m' ↦ (hw.ordered m').sublist (hless.recorded_sublist m') }

/-- In the beginning there is nothing to keep. -/
theorem Kept.begun {h : Host} (hunused : h.Unused) : ({ host := h } : Traffic).scene.Kept := by
  have hnothing (m : ManagerRef) :
      (({ host := h } : Traffic).scene.managers.get m).recorded = [] := hunused.no_record m
  have hnobody (i : Nat) : ({ host := h } : Traffic).scene.finished i = none := by
    simp [Traffic.scene, Traffic.finished?]
  refine ⟨by simp [Traffic.scene], ?_, ?_, ?_, ?_, ?_, ?_, ?_, ?_⟩
  all_goals simp [hnothing, hnobody, Made, Removed]
  simp [Traffic.scene, hunused.no_process]

theorem Orderly.kept {w₀ : Scene} (h₀ : w₀.Kept) (hw : Orderly w₀ w) : w.Kept := by
  induction hw with
  | begun => exact h₀
  | joined _ hnew ih => exact ih.joined hnew _
  | said _ hi _ ih => exact ih.said hi _
  | ended _ hi hunfinished ho ih => exact ih.ended hi hunfinished ho
  | locked _ hshows ih => exact ih.on_modify hshows _ fun _ ↦ ⟨_, _, rfl⟩
  | counted _ hshows ih => exact ih.counted hshows _
  | became _ _ _ _ _ hi hshows ih _ =>
    exact (ih.on_modify hshows _ fun _ ↦ ⟨_, _, rfl⟩).said hi _
  | recorded _ hi hunfinished hshows hnamed hfree _ ih =>
    exact ih.recording hi hunfinished hshows ⟨_, hnamed⟩ hfree
  | removed _ hi hunfinished hshows hfind ih => exact ih.forgetting hi hunfinished hshows hfind

end Scene

end ComponentHost
