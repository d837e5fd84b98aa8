import ComponentHost.Proofs.Effects
import ComponentHost.Proofs.Numbering
import ComponentHost.Proofs.Records
import Mathlib.Data.List.Sort

/-!
The list of the processes of a manager.

Processes are recorded one after the other (`Traffic.recordings`), but a manager lists them by the
numbers that their creators have taken before. Where clients take turns this is the same order, as
long as the counter of the manager has not started over, and whatever identifiers the generators
give and whichever calls fail in between: whenever everybody waits, a manager lists just those
processes that a call has created for it and no call has removed, in the order in which they were
recorded, and looks up just these (`Traffic.lists_of_inTurn`).

The records are a table, and in which order a table is gone through makes no difference: the numbers
differ, so that there is one way only to sort the processes (`Host.sorted_of_perm`).
-/

set_option autoImplicit false

namespace ComponentHost

open Scene (Kept)

/-- What is listed keeps its order. -/
theorem sublist_of_subset {l₁ l₂ : List Nat} (h₁ : l₁.Pairwise (· < ·)) (h₂ : l₂.Pairwise (· < ·))
    (hsub : l₁ ⊆ l₂) : l₁.Sublist l₂ :=
  List.sublist_of_subperm_of_pairwise (List.subperm_of_subset h₁.nodup hsub) h₁ h₂

theorem filter_notMem_of_subset {l₁ l₂ : List Nat} (hsub : l₁ ⊆ l₂) :
    l₁.filter (· ∉ l₂) = [] :=
  List.filter_eq_nil_iff.mpr fun p hp ↦ by simpa using hsub hp

/-- If the numbers increase, processes that are gone through in any order are sorted to the one in
which they were recorded. -/
theorem Host.sorted_of_perm {h : Host} {m : ManagerRef} (hseqs : (h.seqs m).Pairwise (· < ·))
    {ps : List ProcessRef} (hps : ps.Perm (h.recorded m)) : h.sorted ps = h.recorded m := by
  have hperm : (h.sorted ps).Perm (h.recorded m) := (h.sorted_perm ps).trans hps
  have hrecorded : (h.recorded m).Pairwise fun p q ↦
      (h.processes.get p).seq < (h.processes.get q).seq := List.pairwise_map.mp hseqs
  have hsame : ∀ p ∈ h.sorted ps, ∀ q ∈ h.recorded m,
      (h.processes.get p).seq = (h.processes.get q).seq → p = q := by
    have hnodup : (h.seqs m).Nodup := hseqs.imp UInt64.ne_of_lt
    intro p hp q hq heq
    exact List.inj_on_of_nodup_map hnodup (hperm.subset hp) hq heq
  refine List.Perm.eq_of_pairwise (fun p q hp hq hpq hqp ↦ ?_) (h.sorted_pairwise ps)
    (hrecorded.imp UInt64.le_of_lt) hperm
  exact hsame p hp q hq (UInt64.le_antisymm hpq hqp)

theorem Host.listed_eq_recorded {h : Host} {m : ManagerRef}
    (hseqs : (h.seqs m).Pairwise (· < ·)) : h.listed m = h.recorded m :=
  sorted_of_perm hseqs (List.Perm.refl _)

namespace Traffic

/-- The processes that a manager comes to record in a run, in the order in which it does. -/
def recordings (m : ManagerRef) : List Move → Traffic → List ProcessRef
  | [], _ => []
  | move :: rest, s =>
    match s.step move with
    | some t => (t.host.recorded m).filter (· ∉ s.host.recorded m) ++ recordings m rest t
    | none => []

/-- A manager lists its processes as it should, having recorded these. -/
structure Lists (m : ManagerRef) (recordings : List ProcessRef) (s : Traffic) : Prop where
  /-- In whichever order the records are gone through, there is one list. -/
  settled : ∀ ps, ps.Perm (s.host.recorded m) → s.host.sorted ps = s.host.listed m
  /-- They are listed in the order in which they were recorded. -/
  order : (s.host.listed m).Sublist recordings
  once : recordings.Nodup
  /-- Just those are listed that a call has created and none has removed. -/
  members : ∀ p, p ∈ s.host.listed m ↔ (∃ i, s.scene.Made i m p) ∧ ¬s.scene.Removed p
  ids : ((s.host.listed m).map fun p ↦ (s.process p).id).Nodup
  found : ∀ id p, (s.host.managers.get m).find id = .ok p ↔
    p ∈ s.host.listed m ∧ (s.process p).id = id
  missing : ∀ id, (s.host.managers.get m).find id = .error (.processNotFound id) ↔
    ∀ p ∈ s.host.listed m, (s.process p).id ≠ id

end Traffic

/-! ### What is recorded in a run -/

/-- At most one process is recorded at once, and it comes last. -/
theorem Deal.recorded_cases {r : Request} {h h' : Host} {b b' : Baggage} (hdeal : Deal r h b h' b')
    (m : ManagerRef) :
    h'.recorded m ⊆ h.recorded m ∨
      (h'.recorded m = h.recorded m ++ [h.processes.count] ∧
        h.processes.count < h'.processes.count) := by
  cases hdeal with
  | nothing | found | dropped => exact .inl (List.Subset.refl _)
  | @counted _ _ m₀ => exact .inl (List.Perm.of_eq (h.recorded_counted m m₀)).subset
  | @removed _ _ m₀ id => exact .inl (h.recorded_forgetting_sublist m m₀ id).subset
  | @recorded _ _ m₀ _ _ P hfree =>
    by_cases hm : m = m₀
    · subst hm
      exact .inr ⟨h.recorded_recording_self m P, Nat.lt_succ_self _⟩
    · exact .inl (List.Perm.of_eq (Host.recorded_recording_ne hm)).subset

theorem Deal.newly_recorded {r : Request} {h h' : Host} {b b' : Baggage} (hdeal : Deal r h b h' b')
    (hnumbered : ∀ p, h.Records p → p < h.processes.count) (m : ManagerRef) :
    (h'.recorded m).filter (· ∉ h.recorded m) = [] ∨
      ((h'.recorded m).filter (· ∉ h.recorded m) = [h.processes.count] ∧
        h.processes.count < h'.processes.count) := by
  rcases hdeal.recorded_cases m with hsub | ⟨hafter, hlt⟩
  · exact .inl (filter_notMem_of_subset hsub)
  · have hnew : h.processes.count ∉ h.recorded m := by
      intro hmem
      obtain ⟨⟨id, p⟩, hrec, rfl⟩ := List.mem_map.mp hmem
      exact Nat.lt_irrefl _ (hnumbered _ ⟨m, id, hrec⟩)
    refine .inr ⟨?_, hlt⟩
    rw [hafter, List.filter_append, filter_notMem_of_subset (List.Subset.refl _)]
    simp [hnew]

namespace Traffic

variable {s t : Traffic} {m : ManagerRef} {ms ns : List Move} {move : Move}
  {A : Traffic → Move → Prop}

theorem Reachable.recorded_step (hs : s.Reachable) (hstep : s.step move = some t)
    (m : ManagerRef) :
    (t.host.recorded m).filter (· ∉ s.host.recorded m) = [] ∨
      ((t.host.recorded m).filter (· ∉ s.host.recorded m) = [s.host.processes.count] ∧
        s.host.processes.count < t.host.processes.count) := by
  obtain ⟨σ, hstaged⟩ := hs.exists_staged
  obtain ⟨τ, hshift, -⟩ := hstaged.exists_shift hstep
  cases hshift with
  | dealt _ _ hdeal => exact hdeal.newly_recorded hstaged.recorded m
  | arrived | changed | told | entered | looked | became | said | left =>
    exact .inl (filter_notMem_of_subset (List.Subset.refl _))

/-- Processes are told apart by their place in the order in which they are recorded. -/
theorem Run.recordings_pairwise (hs : s.Reachable) (hrun : Run A ms s t) (m : ManagerRef) :
    (recordings m ms s).Pairwise (· < ·) ∧
      ∀ p ∈ recordings m ms s, s.host.processes.count ≤ p := by
  induction ms generalizing s with
  | nil => exact ⟨.nil, nofun⟩
  | cons move rest ih =>
    obtain ⟨-, u, hstep, hrest⟩ := hrun
    obtain ⟨hsorted, hnew⟩ := ih (hs.step hstep) hrest
    have hcount := (hs.grows hstep).count
    have hlater : ∀ p ∈ recordings m rest u, s.host.processes.count ≤ p := fun p hp ↦
      Nat.le_trans hcount (hnew p hp)
    simp only [recordings, hstep]
    rcases hs.recorded_step hstep m with hnone | ⟨hone, hlt⟩
    · rw [hnone, List.nil_append]
      exact ⟨hsorted, hlater⟩
    · rw [hone, List.singleton_append]
      refine ⟨List.pairwise_cons.mpr ⟨fun p hp ↦ Nat.lt_of_lt_of_le hlt (hnew p hp), hsorted⟩, ?_⟩
      intro p hp
      rcases List.mem_cons.mp hp with rfl | hp
      · exact Nat.le_refl _
      · exact hlater p hp

/-- What is recorded in the end was recorded before the run, or in it. -/
theorem Run.mem_recordings (hrun : Run A ms s t) {p : ProcessRef} (hp : p ∈ t.host.recorded m) :
    p ∈ s.host.recorded m ∨ p ∈ recordings m ms s := by
  induction ms generalizing s with
  | nil =>
    obtain rfl : s = t := hrun
    exact .inl hp
  | cons move rest ih =>
    obtain ⟨-, u, hstep, hrest⟩ := hrun
    simp only [recordings, hstep, List.mem_append, List.mem_filter, decide_eq_true_eq]
    rcases ih hrest with hu | hrec
    · by_cases hbefore : p ∈ s.host.recorded m
      · exact .inl hbefore
      · exact .inr (.inl ⟨hu, hbefore⟩)
    · exact .inr (.inr hrec)

/-! ### Where the records are kept -/

theorem recorded_pairwise (hkept : s.scene.Kept) (m : ManagerRef) :
    (s.host.recorded m).Pairwise (· < ·) :=
  List.pairwise_map.mpr (hkept.ordered m)

theorem mem_listed (hkept : s.scene.Kept) {p : ProcessRef} :
    p ∈ s.host.listed m ↔ ((s.process p).id, p) ∈ (s.host.managers.get m).recorded := by
  rw [Host.mem_listed]
  constructor
  · rintro ⟨id, hrec⟩
    obtain ⟨hid, -, -⟩ := hkept.recorded m id p hrec
    rwa [← hid] at hrec
  · exact fun hrec ↦ ⟨_, hrec⟩

/-- Just those are listed that a call has created and none has removed. -/
theorem mem_listed_iff (hkept : s.scene.Kept) {p : ProcessRef} :
    p ∈ s.host.listed m ↔ (∃ i, s.scene.Made i m p) ∧ ¬s.scene.Removed p := by
  rw [mem_listed hkept]
  constructor
  · intro h
    obtain ⟨-, hmade, hgone⟩ := hkept.recorded m _ p h
    exact ⟨hmade, hgone⟩
  · rintro ⟨⟨i, hmade⟩, hgone⟩
    obtain ⟨-, -, hrec | hremoved⟩ := hkept.made i m p hmade
    · exact hrec
    · exact absurd hremoved hgone

theorem find_eq_ok_iff (hkept : s.scene.Kept) {id : String} {p : ProcessRef} :
    (s.host.managers.get m).find id = .ok p ↔ p ∈ s.host.listed m ∧ (s.process p).id = id := by
  have hrec : (s.host.managers.get m).find id = .ok p ↔
      (id, p) ∈ (s.host.managers.get m).recorded :=
    ⟨Manager.mem_of_find, fun h ↦
      Manager.find_eq_ok ((Table.get?_eq_some_iff (hkept.ids m)).mpr h)⟩
  rw [hrec, mem_listed hkept]
  constructor
  · intro h
    obtain ⟨hid, -, -⟩ := hkept.recorded m id p h
    have hid : (s.process p).id = id := hid
    exact ⟨by rwa [hid], hid⟩
  · rintro ⟨h, rfl⟩
    exact h

/-- Where the records are kept and the numbers increase, a manager lists its processes as it
should. -/
theorem lists_of_kept {recordings : List ProcessRef} (hkept : s.scene.Kept)
    (hseqs : (s.host.seqs m).Pairwise (· < ·)) (hsorted : recordings.Pairwise (· < ·))
    (hsub : s.host.recorded m ⊆ recordings) : Lists m recordings s where
  settled ps hps := by rw [Host.sorted_of_perm hseqs hps, Host.listed_eq_recorded hseqs]
  order := by
    rw [Host.listed_eq_recorded hseqs]
    exact sublist_of_subset (recorded_pairwise hkept m) hsorted hsub
  once := hsorted.nodup
  members p := mem_listed_iff hkept
  ids := by
    have hids : (s.host.listed m).map (fun p ↦ (s.process p).id) =
        (s.host.managers.get m).recorded.map Prod.fst := by
      rw [Host.listed_eq_recorded hseqs, Host.recorded, List.map_map]
      refine List.map_congr_left fun x hx ↦ ?_
      exact (hkept.recorded m x.1 x.2 hx).1
    rw [hids]
    exact hkept.ids m
  found id p := find_eq_ok_iff hkept
  missing id := by
    cases hfind : (s.host.managers.get m).find id with
    | ok p =>
      obtain ⟨hlisted, hid⟩ := (find_eq_ok_iff hkept).mp hfind
      refine ⟨fun herror ↦ ?_, fun hnone ↦ absurd hid (hnone p hlisted)⟩
      cases herror
    | error e =>
      have he : e = .processNotFound id := by
        unfold Manager.find at hfind
        split at hfind
        · cases hfind
        · exact (Except.error.inj hfind).symm
      refine ⟨fun _ p hp hid ↦ ?_, fun _ ↦ by rw [he]⟩
      cases hfind.symm.trans ((find_eq_ok_iff hkept).mpr ⟨hp, hid⟩)

/-- Where the records are kept and the numbers increase before a run and after it, those that are
listed before and after come first in the end, in the same order, and then others that were recorded
in the run. -/
theorem Run.listed_eq (hs : s.Reachable) (hrun : Run A ms s t) (hkept : s.scene.Kept)
    (hkept' : t.scene.Kept) (hseqs : (s.host.seqs m).Pairwise (· < ·))
    (hseqs' : (t.host.seqs m).Pairwise (· < ·)) :
    ∃ others, t.host.listed m = (s.host.listed m).filter (· ∈ t.host.listed m) ++ others ∧
      others.Sublist (recordings m ms s) := by
  obtain ⟨hsorted, hnew⟩ := hrun.recordings_pairwise hs m
  have hbefore := recorded_pairwise hkept m
  have hafter := recorded_pairwise hkept' m
  rw [Host.listed_eq_recorded hseqs, Host.listed_eq_recorded hseqs']
  let others := (t.host.recorded m).filter (· ∉ s.host.recorded m)
  have hothers : others ⊆ recordings m ms s := by
    intro p hp
    obtain ⟨hp, hnot⟩ := List.mem_filter.mp hp
    exact (hrun.mem_recordings hp).resolve_left (by simpa using hnot)
  refine ⟨others, ?_, sublist_of_subset (hafter.sublist List.filter_sublist) hsorted hothers⟩
  refine hafter.eq_of_mem_iff (List.pairwise_append.mpr
    ⟨hbefore.sublist List.filter_sublist, hafter.sublist List.filter_sublist, ?_⟩) fun p ↦ ?_
  · intro p hp q hq
    obtain ⟨x, hx, rfl⟩ := List.mem_map.mp (List.mem_filter.mp hp).1
    exact Nat.lt_of_lt_of_le (hkept.lt_of_recorded hx) (hnew q (hothers hq))
  · simp only [others, List.mem_append, List.mem_filter, decide_eq_true_eq]
    tauto

/-- Clients take turns on a host on which nothing has been recorded, and there are not so many calls
to create a process that the counter of the manager could have started over. Whenever everybody
waits, the manager lists its processes as it should; and whenever everybody waits later on, it lists
first, in the same order, those of them that have not been removed, and then others that it has
recorded since, in the order in which it did. -/
theorem lists_of_inTurn {h : Host} (hunused : h.Unused) (hrun : Run InTurn ms { host := h } s)
    (hquiet : s.Quiet) (m : ManagerRef)
    (hfew : (h.managers.get m).nextSeq.toNat + s.creations m ≤ 2 ^ 64) :
    Lists m (recordings m ms { host := h }) s ∧
      ∀ ns t, Run InTurn ns s t → t.Quiet →
        (h.managers.get m).nextSeq.toNat + t.creations m ≤ 2 ^ 64 →
        (∀ p ∈ s.host.listed m, p ∈ t.host.listed m ∨ t.scene.Removed p) ∧
        ∃ others, t.host.listed m = (s.host.listed m).filter (· ∈ t.host.listed m) ++ others ∧
          others.Sublist (recordings m ns s) := by
  have hreachable : ({ host := h } : Traffic).Reachable := ⟨h, hunused, .refl⟩
  have hkept : s.scene.Kept := (hrun.orderly hunused hquiet).kept (.begun hunused)
  have hseqs := hrun.seqs_pairwise hunused hfew
  refine ⟨lists_of_kept hkept hseqs (hrun.recordings_pairwise hreachable m).1 fun p hp ↦ ?_,
    fun ns t hrun' hquiet' hfew' ↦ ?_⟩
  · refine (hrun.mem_recordings hp).resolve_left ?_
    simp [Host.recorded, hunused.no_record]
  · have hkept' : t.scene.Kept :=
      ((hrun.append hrun').orderly hunused hquiet').kept (.begun hunused)
    have hseqs' := (hrun.append hrun').seqs_pairwise hunused hfew'
    have hs : s.Reachable := hreachable.later hrun.later
    refine ⟨fun p hp ↦ ?_, hrun'.listed_eq hs hkept hkept' hseqs hseqs'⟩
    obtain ⟨⟨i, hmade⟩, -⟩ := (mem_listed_iff hkept).mp hp
    by_cases hgone : t.scene.Removed p
    · exact .inr hgone
    · have hmade' := hmade.grows (hs.grows_later hrun'.later)
      exact .inl ((mem_listed_iff hkept').mpr ⟨⟨i, hmade'⟩, hgone⟩)

end Traffic

namespace Small

open Traffic

/-- While a component of a process is set up another process is created, and recorded first. -/
def overtaken : List Move :=
  let begins := movesBy answers [.enter (.create 0 0 config), .play 0 8] untouched
  let overtakes := movesBy (naming "q") [.enter (.create 0 0 config), .play 1 100]
    (untouched.after begins)
  let ends := movesBy answers [.play 0 100] (untouched.after (begins ++ overtakes))
  begins ++ overtakes ++ ends

/-- A third process is refused its identifier, and the first that was recorded is removed. -/
def refusedAndRemoved : List Move :=
  movesBy answers [.enter (.create 0 0 config), .play 2 100, .enter (.remove 0 "q"), .play 3 100]
    (untouched.after overtaken)

/-- The theorem on two processes that are not recorded in the order in which they were begun. -/
theorem overtaken_lists : ∃ s t, host.Unused ∧ Run InTurn overtaken { host := host } s ∧ s.Quiet ∧
    (host.managers.get 0).nextSeq.toNat + s.creations 0 ≤ 2 ^ 64 ∧
    Lists 0 (recordings 0 overtaken { host := host }) s ∧
    Run InTurn refusedAndRemoved s t ∧ t.Quiet ∧
    (host.managers.get 0).nextSeq.toNat + t.creations 0 ≤ 2 ^ 64 ∧
    (∀ p ∈ s.host.listed 0, p ∈ t.host.listed 0 ∨ t.scene.Removed p) ∧
    ∃ others, t.host.listed 0 = (s.host.listed 0).filter (· ∈ t.host.listed 0) ++ others ∧
      others.Sublist (recordings 0 refusedAndRemoved s) := by
  have hrun : Run InTurn overtaken { host := host } (untouched.after overtaken) :=
    run_of_follows (by decide +kernel)
  have hquiet : (untouched.after overtaken).Quiet := by decide +kernel
  have hrun' : Run InTurn refusedAndRemoved (untouched.after overtaken)
      ((untouched.after overtaken).after refusedAndRemoved) := run_of_follows (by decide +kernel)
  have hquiet' : ((untouched.after overtaken).after refusedAndRemoved).Quiet := by decide +kernel
  have hfew : (host.managers.get 0).nextSeq.toNat +
      (untouched.after overtaken).creations 0 ≤ 2 ^ 64 := by decide +kernel
  have hfew' : (host.managers.get 0).nextSeq.toNat +
      ((untouched.after overtaken).after refusedAndRemoved).creations 0 ≤ 2 ^ 64 := by
    decide +kernel
  obtain ⟨hlists, hlater⟩ := lists_of_inTurn host_unused hrun hquiet 0 hfew
  exact ⟨_, _, host_unused, hrun, hquiet, hfew, hlists, hrun', hquiet', hfew',
    hlater _ _ hrun' hquiet' hfew'⟩

/-- Both processes were recorded, the second that was begun first. -/
example : recordings 0 overtaken { host := host } = [0, 1] ∧
    ((untouched.after overtaken).host.managers.get 0).recorded = [("q", 0), ("p", 1)] := by
  decide +kernel

end Small

end ComponentHost
