import ComponentHost.Proofs.Turns
import Mathlib.Algebra.Group.Nat.Defs
import Mathlib.Data.List.Perm.Subperm

/-!
The numbers that a manager gives to its processes.

A call that creates a process takes the next number of the manager, once, and gives it to the
process or drops it before it makes another call (`Baggage`). Where clients take turns nobody takes
a number in between, so the processes of a manager are recorded in the order in which their numbers
were taken (`Traffic.Numbered`). The counter of a manager has 64 bits; as long as it has not started
over the numbers increase in this order (`Traffic.Run.seqs_pairwise`), and it has not if there are
not too many calls to create a process (`Traffic.creations`).
-/

set_option autoImplicit false

namespace ComponentHost

open Function (update update_self update_of_ne update_eq_self)

/-- The manager is asked to create a process. -/
def Request.creates (m : ManagerRef) : Request → Bool
  | .create m' _ _ => m' == m
  | _ => false

theorem Request.creates_eq_false {r : Request} {sec : Section} (hsec : sec ∈ r.sections)
    (m : ManagerRef) : r.creates m = false := by
  cases r with
  | create => cases hsec
  | _ => rfl

namespace Host

/-- The processes that a manager has recorded, the earliest first. -/
def recorded (h : Host) (m : ManagerRef) : List ProcessRef :=
  (h.managers.get m).recorded.map Prod.snd

/-- The numbers of the processes that a manager has recorded. -/
def seqs (h : Host) (m : ManagerRef) : List UInt64 :=
  (h.recorded m).map fun p ↦ (h.processes.get p).seq

variable {h h' : Host} {m : ManagerRef}

theorem records_of_mem_recorded {p : ProcessRef} (hp : p ∈ h.recorded m) : h.Records p := by
  obtain ⟨⟨id, q⟩, hmem, rfl⟩ := List.mem_map.mp hp
  exact ⟨m, id, hmem⟩

theorem recorded_counted (h : Host) (m m' : ManagerRef) :
    (h.counted m').recorded m = h.recorded m := by
  by_cases hm : m = m' <;> simp [recorded, counted, hm]

theorem recorded_recording_self (h : Host) (m : ManagerRef) (P : Process) :
    (h.recording m P).recorded m = h.recorded m ++ [h.processes.count] := by
  simp [recorded, recording, Table.bind]

theorem recorded_recording_ne {m' : ManagerRef} {P : Process} (hm : m ≠ m') :
    (h.recording m' P).recorded m = h.recorded m := by
  simp [recorded, recording, hm]

theorem recorded_forgetting_sublist (h : Host) (m m' : ManagerRef) (id : String) :
    ((h.forgetting m' id).recorded m).Sublist (h.recorded m) := by
  refine List.Sublist.map _ ?_
  by_cases hm : m = m'
  · subst hm
    rw [forgetting, Store.get_modify_self]
    exact List.filter_sublist
  · rw [forgetting, Store.get_modify_ne _ _ hm]

theorem seqs_congr (hrecorded : h'.recorded m = h.recorded m)
    (hkept : ∀ p ∈ h.recorded m, (h'.processes.get p).seq = (h.processes.get p).seq) :
    h'.seqs m = h.seqs m := by
  rw [seqs, seqs, hrecorded]
  exact List.map_congr_left hkept

theorem seqs_modify (p : ProcessRef) {f : Process → Process} (hf : ∀ P, (f P).seq = P.seq) :
    ({ h with processes := h.processes.modify p f } : Host).seqs m = h.seqs m := by
  refine seqs_congr rfl fun q _ ↦ ?_
  by_cases hqp : q = p
  · subst hqp
    rw [Store.get_modify_self, hf]
  · rw [Store.get_modify_ne _ _ hqp]

/-- A process that is recorded already keeps its number. -/
theorem seq_recording {m' : ManagerRef} {P : Process} {p : ProcessRef}
    (hrecorded : ∀ p, h.Records p → p < h.processes.count) (hp : p ∈ h.recorded m) :
    ((h.recording m' P).processes.get p).seq = (h.processes.get p).seq := by
  have hlt := hrecorded p (records_of_mem_recorded hp)
  exact congrArg Process.seq (Store.get_add_ne _ _ (Nat.ne_of_lt hlt))

/-- The number of a new process comes last. -/
theorem seqs_recording_self {P : Process} (hrecorded : ∀ p, h.Records p → p < h.processes.count) :
    (h.recording m P).seqs m = h.seqs m ++ [P.seq] := by
  rw [seqs, seqs, recorded_recording_self, List.map_append,
    List.map_congr_left fun p hp ↦ seq_recording hrecorded hp]
  simp [recording]

theorem seqs_recording_ne {m' : ManagerRef} {P : Process} (hm : m ≠ m')
    (hrecorded : ∀ p, h.Records p → p < h.processes.count) :
    (h.recording m' P).seqs m = h.seqs m :=
  seqs_congr (recorded_recording_ne hm) fun _ hp ↦ seq_recording hrecorded hp

theorem seqs_forgetting (h : Host) (m m' : ManagerRef) (id : String) :
    ((h.forgetting m' id).seqs m).Sublist (h.seqs m) :=
  (h.recorded_forgetting_sublist m m' id).map _

end Host

namespace Traffic

/-- How many calls there are of a manager to create a process. -/
def creations (s : Traffic) (m : ManagerRef) : Nat := s.clients.countP fun c ↦ c.request.creates m

/-- Who has taken a number of a manager, and which of these numbers, counted from zero, have been
given to the processes that it has recorded, in their order. -/
structure Numbering where
  takers : List Nat := []
  given : List Nat := []

/-- A number of a counter that began with `first`. -/
def Numbering.seq (first : UInt64) (k : Nat) : UInt64 := first + .ofNat k

theorem Numbering.seq_succ (first : UInt64) (k : Nat) : seq first (k + 1) = seq first k + 1 := by
  rw [seq, seq, UInt64.ofNat_add, ← UInt64.add_assoc]
  rfl

/-- Who goes on at once and has a number still to give has taken the last one. -/
def AboutToGive (m : ManagerRef) (first : UInt64) (s : Traffic) (σ : Nat → Stage)
    (N : Numbering) : Prop :=
  ∀ i c b seq, s.clients[i]? = some c → c.task.waits = false → c.request.creates m = true →
    σ i = .atLarge b → b.seq = some seq →
      ∃ k, N.takers.length = k + 1 ∧ seq = Numbering.seq first k ∧ ∀ j ∈ N.given, j < k

/-- The numbers of a manager whose counter began with `first`. -/
structure Numbered (m : ManagerRef) (first : UInt64) (s : Traffic) (σ : Nat → Stage)
    (N : Numbering) : Prop where
  counter : (s.host.managers.get m).nextSeq = Numbering.seq first N.takers.length
  once : N.takers.Nodup
  creator : ∀ i ∈ N.takers, ∃ c, s.clients[i]? = some c ∧ c.request.creates m = true
  counted : ∀ i ∈ N.takers, ∀ b, σ i = .atLarge b → b.counted = true
  seqs : s.host.seqs m = N.given.map (Numbering.seq first)
  ordered : N.given.Pairwise (· < ·)
  below : ∀ k ∈ N.given, k < N.takers.length
  pending : AboutToGive m first s σ N

variable {s t : Traffic} {σ τ : Nat → Stage} {m : ManagerRef} {first : UInt64} {N : Numbering}
  {move : Move} {i : Nat} {c : Client} {task : Task} {b : Baggage}

theorem exists_creator_set (hi : s.clients[i]? = some c) {j : Nat}
    (hj : ∃ c, s.clients[j]? = some c ∧ c.request.creates m = true) :
    ∃ c', (s.clients.set i ⟨c.request, task⟩)[j]? = some c' ∧ c'.request.creates m = true := by
  obtain ⟨c', hc', hcreates⟩ := hj
  by_cases hji : j = i
  · subst hji
    obtain rfl := Option.some.inj (hc'.symm.trans hi)
    exact ⟨_, getElem?_set_client hi _, hcreates⟩
  · rw [List.getElem?_set_ne (Ne.symm hji)]
    exact ⟨c', hc', hcreates⟩

/-- The client that moves is the only one that does not wait. -/
theorem aboutToGive_of_one {stage : Stage}
    (hclients : t.clients = s.clients.set i ⟨c.request, task⟩)
    (hothers : ∀ j c', j ≠ i → s.clients[j]? = some c' → c'.task.waits = true)
    (hown : ∀ b seq, stage = .atLarge b → b.seq = some seq →
      ∃ k, N.takers.length = k + 1 ∧ seq = Numbering.seq first k ∧ ∀ j ∈ N.given, j < k) :
    AboutToGive m first t (update σ i stage) N := by
  intro j c' b seq hj hwaits _ hb hseq
  by_cases hji : j = i
  · subst hji
    rw [update_self] at hb
    exact hown b seq hb hseq
  · rw [hclients, List.getElem?_set_ne (Ne.symm hji)] at hj
    rw [hothers j c' hji hj] at hwaits
    cases hwaits

/-- Those who have taken a number have done so, whatever one of them does next. -/
theorem counted_update {takers : List Nat} {stage : Stage}
    (hothers : ∀ j ∈ takers, j ≠ i → ∀ b, σ j = .atLarge b → b.counted = true)
    (hown : i ∈ takers → ∀ b, stage = .atLarge b → b.counted = true) :
    ∀ j ∈ takers, ∀ b, update σ i stage j = .atLarge b → b.counted = true := by
  intro j hj b hb
  by_cases hji : j = i
  · subst hji
    rw [update_self] at hb
    exact hown hj b hb
  · rw [update_of_ne hji] at hb
    exact hothers j hj hji b hb

namespace Numbered

/-- A client at large moves that creates a process for the manager, but takes no number and gives
none; if it still has a number then because it goes on at once. -/
structure Carries (c : Client) (stage stage' : Stage) : Prop where
  counted : ∀ b', stage' = .atLarge b' → ∃ b, stage = .atLarge b ∧
    (b.counted = true → b'.counted = true)
  seq : ∀ b' seq, stage' = .atLarge b' → b'.seq = some seq → ∃ b, stage = .atLarge b ∧
    b.seq = some seq ∧ c.task.waits = false

/-- A client moves, and nothing comes of it for the numbers of the manager. -/
theorem moved (hn : Numbered m first s σ N) {stage : Stage} (hi : s.clients[i]? = some c)
    (hclients : t.clients = s.clients.set i ⟨c.request, task⟩)
    (hnext : (t.host.managers.get m).nextSeq = (s.host.managers.get m).nextSeq)
    (hseqs : t.host.seqs m = s.host.seqs m)
    (hstage : c.request.creates m = true → Carries c (σ i) stage) :
    Numbered m first t (update σ i stage) N where
  counter := hnext.trans hn.counter
  once := hn.once
  creator j hj := hclients ▸ exists_creator_set hi (hn.creator j hj)
  counted := by
    refine counted_update (fun j hj _ ↦ hn.counted j hj) fun hmem b hb ↦ ?_
    obtain ⟨c', hc', hcreates⟩ := hn.creator i hmem
    obtain rfl := Option.some.inj (hc'.symm.trans hi)
    obtain ⟨b₀, hb₀, hcounted⟩ := (hstage hcreates).counted b hb
    exact hcounted (hn.counted i hmem b₀ hb₀)
  seqs := hseqs.trans hn.seqs
  ordered := hn.ordered
  below := hn.below
  pending j c' b seq hj hwaits hcreates hb hseq := by
    rw [hclients] at hj
    by_cases hji : j = i
    · subst hji
      rw [update_self] at hb
      obtain rfl := Option.some.inj ((getElem?_set_client hi _).symm.trans hj)
      obtain ⟨b₀, hb₀, hseq₀, hwaits₀⟩ := (hstage hcreates).seq b seq hb hseq
      exact hn.pending j c b₀ seq hi hwaits₀ hcreates hb₀ hseq₀
    · rw [List.getElem?_set_ne (Ne.symm hji)] at hj
      rw [update_of_ne hji] at hb
      exact hn.pending j c' b seq hj hwaits hcreates hb hseq

/-- A client inside a section creates no process. -/
theorem moved_inside (hn : Numbered m first s σ N) {stage : Stage} {sec : Section}
    (hi : s.clients[i]? = some c) (hsec : sec ∈ c.request.sections)
    (hclients : t.clients = s.clients.set i ⟨c.request, task⟩)
    (hnext : (t.host.managers.get m).nextSeq = (s.host.managers.get m).nextSeq)
    (hseqs : t.host.seqs m = s.host.seqs m) : Numbered m first t (update σ i stage) N := by
  refine hn.moved hi hclients hnext hseqs fun hcreates ↦ ?_
  rw [Request.creates_eq_false hsec] at hcreates
  cases hcreates

/-- A client takes a number: nobody else is about to give one. -/
theorem took (hn : Numbered m first s σ N) (hi : s.clients[i]? = some c)
    (hcreates : c.request.creates m = true) (hstage : σ i = .atLarge b)
    (hfirst : b.counted = false)
    (hothers : ∀ j c', j ≠ i → s.clients[j]? = some c' → c'.task.waits = true) :
    Numbered m first
      { s with host := s.host.counted m, clients := s.clients.set i ⟨c.request, task⟩ }
      (update σ i (.atLarge { b with
        counted := true
        seq := some (s.host.managers.get m).nextSeq }))
      { N with takers := N.takers ++ [i] } where
  counter := by
    have hnext : ((s.host.counted m).managers.get m).nextSeq =
        (s.host.managers.get m).nextSeq + 1 := by simp [Host.counted]
    rw [hnext, hn.counter, List.length_append, List.length_singleton, Numbering.seq_succ]
  once := by
    have hnew : i ∉ N.takers := by
      intro hmem
      rw [hn.counted i hmem b hstage] at hfirst
      cases hfirst
    exact List.nodup_append_comm.mp (List.nodup_cons.mpr ⟨hnew, hn.once⟩)
  creator j hj := by
    refine exists_creator_set hi ?_
    rcases List.mem_append.mp hj with hj | hj
    · exact hn.creator j hj
    · obtain rfl := List.mem_singleton.mp hj
      exact ⟨c, hi, hcreates⟩
  counted := by
    refine counted_update (fun j hj hji ↦ hn.counted j ?_) fun _ b' hb' ↦ ?_
    · exact (List.mem_append.mp hj).resolve_right (by simpa using hji)
    · cases hb'
      rfl
  seqs := by
    rw [← hn.seqs]
    exact Host.seqs_congr (s.host.recorded_counted m m) fun _ _ ↦ rfl
  ordered := hn.ordered
  below k hk := by
    rw [List.length_append]
    exact Nat.lt_add_right _ (hn.below k hk)
  pending := by
    refine aboutToGive_of_one rfl hothers fun b' seq hb' hseq ↦ ?_
    cases hb'
    cases hseq
    exact ⟨N.takers.length, by simp, hn.counter, hn.below⟩

/-- A client gives the number it has taken to a process. -/
theorem gave (hn : Numbered m first s σ N) (hs : Staged s σ) (hi : s.clients[i]? = some c)
    (hcreates : c.request.creates m = true) (hwaits : c.task.waits = false)
    (hstage : σ i = .atLarge b) {P : Process} (hseq : b.seq = some P.seq)
    (hothers : ∀ j c', j ≠ i → s.clients[j]? = some c' → c'.task.waits = true) :
    ∃ N', Numbered m first
      { s with host := s.host.recording m P, clients := s.clients.set i ⟨c.request, task⟩ }
      (update σ i (.atLarge { b with own := [], seq := none })) N' := by
  obtain ⟨k, hlast, hP, hbelow⟩ := hn.pending i c b P.seq hi hwaits hcreates hstage hseq
  refine ⟨{ N with given := N.given ++ [k] }, ?_⟩
  exact {
    counter := by
      rw [← hn.counter]
      simp [Host.recording]
    once := hn.once
    creator := fun j hj ↦ exists_creator_set hi (hn.creator j hj)
    counted := by
      refine counted_update (fun j hj _ ↦ hn.counted j hj) fun hmem b' hb' ↦ ?_
      cases hb'
      exact hn.counted i hmem b hstage
    seqs := by
      rw [Host.seqs_recording_self hs.recorded, hn.seqs, hP, List.map_append]
      rfl
    ordered := List.pairwise_append.mpr ⟨hn.ordered, List.pairwise_singleton .., fun j hj k' hk' ↦
      List.mem_singleton.mp hk' ▸ hbelow j hj⟩
    below := fun j hj ↦ by
      rcases List.mem_append.mp hj with hj | hj
      · exact hn.below j hj
      · rw [List.mem_singleton.mp hj, hlast]
        exact Nat.lt_succ_self k
    pending := by
      refine aboutToGive_of_one rfl hothers fun b' seq hb' hseq ↦ ?_
      cases hb'
      cases hseq }

/-- A process is removed, and its number is not used again. -/
theorem forgot (hn : Numbered m first s σ N) (hi : s.clients[i]? = some c)
    (hcreates : c.request.creates m = false) (m' : ManagerRef) (id : String) {stage : Stage} :
    ∃ N', Numbered m first
      { s with host := s.host.forgetting m' id, clients := s.clients.set i ⟨c.request, task⟩ }
      (update σ i stage) N' := by
  have hsub := s.host.seqs_forgetting m m' id
  rw [hn.seqs] at hsub
  obtain ⟨given, hgiven, hseqs⟩ := List.sublist_map_iff.mp hsub
  have hfewer : Numbered m first { s with host := s.host.forgetting m' id } σ
      { N with given } := {
    counter := by
      rw [← hn.counter]
      by_cases hm : m = m' <;> simp [Host.forgetting, hm]
    once := hn.once
    creator := hn.creator
    counted := hn.counted
    seqs := hseqs
    ordered := hn.ordered.sublist hgiven
    below := fun k hk ↦ hn.below k (hgiven.subset hk)
    pending := fun j c' b seq hj hwaits hcreates hb hseq ↦ by
      obtain ⟨k, hlast, hk, hbelow⟩ := hn.pending j c' b seq hj hwaits hcreates hb hseq
      exact ⟨k, hlast, hk, fun j hj ↦ hbelow j (hgiven.subset hj)⟩ }
  refine ⟨_, hfewer.moved hi rfl rfl rfl fun htrue ↦ ?_⟩
  rw [hcreates] at htrue
  cases htrue

/-- A client at large looks, or changes what managers have recorded. -/
theorem dealt (hn : Numbered m first s σ N) (hs : Staged s σ) (hi : s.clients[i]? = some c)
    (hstage : σ i = .atLarge b) {b' : Baggage} {h : Host} (hdeal : Deal c.request s.host b h b')
    (hwaits : c.task.waits = false)
    (hothers : ∀ j c', j ≠ i → s.clients[j]? = some c' → c'.task.waits = true) :
    ∃ N', Numbered m first
      { s with host := h, clients := s.clients.set i ⟨c.request, task⟩ }
      (update σ i (.atLarge b')) N' := by
  -- another manager's counter or records make no difference
  have helse {h : Host} {b' : Baggage}
      (hnext : (h.managers.get m).nextSeq = (s.host.managers.get m).nextSeq)
      (hseqs : h.seqs m = s.host.seqs m) (hcounted : b.counted = true → b'.counted = true)
      (hseq : ∀ seq, c.request.creates m = true → b'.seq = some seq → b.seq = some seq) :
      ∃ N', Numbered m first
        { s with host := h, clients := s.clients.set i ⟨c.request, task⟩ }
        (update σ i (.atLarge b')) N' := by
    refine ⟨N, hn.moved hi rfl hnext hseqs fun hcreates ↦
      ⟨fun b₁ hb₁ ↦ ?_, fun b₁ seq hb₁ hseq₁ ↦ ?_⟩⟩
    · cases hb₁
      exact ⟨b, hstage, hcounted⟩
    · cases hb₁
      exact ⟨b, hstage, hseq seq hcreates hseq₁, hwaits⟩
  generalize hr : c.request = r at hdeal
  cases hdeal with
  | nothing | found => exact hr ▸ helse rfl rfl (fun h ↦ h) fun _ _ h ↦ h
  | dropped => exact hr ▸ helse rfl rfl (fun h ↦ h) fun _ _ h ↦ by cases h
  | removed =>
    rw [← hr]
    exact hn.forgot hi (by rw [hr]; rfl) _ _
  | @counted _ _ m' _ _ hfirst =>
    by_cases hm : m = m'
    · subst hm
      rw [← hr]
      exact ⟨_, hn.took hi (by simp [hr, Request.creates]) hstage hfirst hothers⟩
    · rw [← hr]
      refine helse (by simp [Host.counted, hm]) ?_ (fun _ ↦ rfl) fun _ hcreates ↦ ?_
      · exact Host.seqs_congr (s.host.recorded_counted m m') fun _ _ ↦ rfl
      · simp [hr, Request.creates, Ne.symm hm] at hcreates
  | @recorded _ _ m' _ _ P _ _ hseq =>
    by_cases hm : m = m'
    · subst hm
      rw [← hr]
      exact hn.gave hs hi (by simp [hr, Request.creates]) hwaits hstage hseq hothers
    · rw [← hr]
      refine helse (by simp [Host.recording, hm]) (Host.seqs_recording_ne hm hs.recorded)
        (fun h ↦ h) fun _ _ h ↦ by cases h

/-- A new client has no number. -/
theorem arrived (hn : Numbered m first s σ N) (hs : Staged s σ) (r : Request) :
    Numbered m first { s with clients := s.clients ++ [⟨r, .going r.program⟩] } σ N where
  counter := hn.counter
  once := hn.once
  creator i hi := by
    obtain ⟨c, hc, hcreates⟩ := hn.creator i hi
    exact ⟨c, by rw [List.getElem?_append_left (List.getElem?_eq_some_iff.mp hc).1, hc], hcreates⟩
  counted := hn.counted
  seqs := hn.seqs
  ordered := hn.ordered
  below := hn.below
  pending i c b seq hi hwaits hcreates hb hseq := by
    by_cases hlt : i < s.clients.length
    · rw [List.getElem?_append_left hlt] at hi
      exact hn.pending i c b seq hi hwaits hcreates hb hseq
    · rw [hs.absent i (List.getElem?_eq_none (Nat.le_of_not_lt hlt))] at hb
      cases hb
      cases hseq

/-- Where clients take turns, every move leaves the numbers as they should be. -/
theorem step (hn : Numbered m first s σ N) (hs : Staged s σ) (hturn : s.InTurn move)
    (hshift : Shift s σ move t τ) : ∃ N', Numbered m first t τ N' := by
  cases hshift with
  | arrived => exact ⟨N, hn.arrived hs _⟩
  | changed => exact ⟨N, { hn with }⟩
  | dealt hi hstage hdeal hacts =>
    obtain ⟨f, k, htask⟩ := hacts
    exact hn.dealt hs hi hstage hdeal (by rw [htask]; rfl) fun j c' hji hj ↦
      waits_of_client? hturn rfl hji hj
  | told hm hi hstage hr hx hseq =>
    refine ⟨N, hn.moved hi rfl rfl rfl fun _ ↦ ⟨fun b' hb' ↦ ?_, fun b' seq hb' hseq' ↦ ?_⟩⟩
    · cases hb'
      exact ⟨_, hstage, fun h ↦ h⟩
    · cases hb'
      cases hseq.symm.trans hseq'
  | @looked i c p v rest hi hstage =>
    have hstays : Carries c (σ i) (σ i) :=
      ⟨fun b hb ↦ ⟨b, hb, fun h ↦ h⟩, fun b seq hb ↦ by rw [hstage] at hb; cases hb⟩
    have hsame : Numbered m first _ (update σ i (σ i)) N :=
      hn.moved (t := { s with clients := s.clients.set i ⟨c.request, .going rest⟩ })
        hi rfl rfl rfl fun _ ↦ hstays
    rw [update_eq_self] at hsame
    exact ⟨N, hsame⟩
  | entered hi _ hsec => exact ⟨N, hn.moved_inside hi hsec rfl rfl (Host.seqs_modify _ fun _ ↦ rfl)⟩
  | became hi _ hsec => exact ⟨N, hn.moved_inside hi hsec rfl rfl (Host.seqs_modify _ fun _ ↦ rfl)⟩
  | said _ hi _ hsec => exact ⟨N, hn.moved_inside hi hsec rfl rfl rfl⟩
  | left hi _ hsec => exact ⟨N, hn.moved_inside hi hsec rfl rfl (Host.seqs_modify _ fun _ ↦ rfl)⟩

theorem initial {h : Host} (hunused : h.Unused) (m : ManagerRef) :
    Numbered m (h.managers.get m).nextSeq { host := h } (fun _ ↦ .atLarge {}) {} where
  counter := (UInt64.add_zero _).symm
  once := .nil
  creator := nofun
  counted := nofun
  seqs := by simp [Host.seqs, Host.recorded, hunused.no_record]
  ordered := .nil
  below := nofun
  pending i c b seq hi := by simp at hi

/-- Every number was taken by one of the calls to create a process. -/
theorem length_takers_le (hn : Numbered m first s σ N) : N.takers.length ≤ s.creations m := by
  let creators := s.clients.zipIdx.filter fun x ↦ x.1.request.creates m
  have hsub : N.takers ⊆ creators.map Prod.snd := by
    intro i hi
    obtain ⟨c, hc, hcreates⟩ := hn.creator i hi
    refine List.mem_map.mpr ⟨(c, i), List.mem_filter.mpr ⟨?_, hcreates⟩, rfl⟩
    simpa [List.mem_zipIdx_iff_getElem?] using hc
  have hcount : s.creations m = creators.length := by
    have hclients : s.clients = s.clients.zipIdx.map Prod.fst := by simp
    rw [creations, hclients, List.countP_map, List.countP_eq_length_filter]
    simp [creators, Function.comp_def]
  calc N.takers.length
      ≤ (creators.map Prod.snd).length := (List.subperm_of_subset hn.once hsub).length_le
    _ = s.creations m := by rw [List.length_map, hcount]

/-- As long as the counter has not started over, the numbers are in their order. -/
theorem seqs_pairwise (hn : Numbered m first s σ N)
    (hfew : first.toNat + s.creations m ≤ 2 ^ 64) : (s.host.seqs m).Pairwise (· < ·) := by
  have htoNat : ∀ k ∈ N.given, (Numbering.seq first k).toNat = first.toNat + k := by
    intro k hk
    have hlt : first.toNat + k < 2 ^ 64 :=
      calc first.toNat + k
          < first.toNat + N.takers.length := Nat.add_lt_add_left (hn.below k hk) _
        _ ≤ first.toNat + s.creations m := Nat.add_le_add_left hn.length_takers_le _
        _ ≤ 2 ^ 64 := hfew
    have hk' : k < 2 ^ 64 := Nat.lt_of_le_of_lt (Nat.le_add_left ..) hlt
    rw [Numbering.seq, UInt64.toNat_add, UInt64.toNat_ofNat_of_lt' hk', Nat.mod_eq_of_lt hlt]
  rw [hn.seqs, List.pairwise_map]
  refine hn.ordered.imp_of_mem fun hj hk hjk ↦ ?_
  rw [UInt64.lt_iff_toNat_lt, htoNat _ hj, htoNat _ hk]
  exact Nat.add_lt_add_left hjk _

end Numbered

/-- Where clients take turns, the numbers of a manager are in the order in which it has recorded its
processes, unless there may have been so many that its counter has started over. -/
theorem Run.seqs_pairwise {h : Host} {ms : List Move} (hunused : h.Unused)
    (hrun : Run InTurn ms { host := h } s)
    (hfew : (h.managers.get m).nextSeq.toNat + s.creations m ≤ 2 ^ 64) :
    (s.host.seqs m).Pairwise (· < ·) := by
  suffices hnumbered : ∃ σ N, Staged s σ ∧ Numbered m (h.managers.get m).nextSeq s σ N by
    obtain ⟨σ, N, -, hn⟩ := hnumbered
    exact hn.seqs_pairwise hfew
  have hbegun : ∃ σ N, Staged { host := h } σ ∧
      Numbered m (h.managers.get m).nextSeq { host := h } σ N :=
    ⟨_, _, Staged.initial hunused, .initial hunused m⟩
  refine hrun.keeps (I := fun s ↦ ∃ σ N, Staged s σ ∧ Numbered m (h.managers.get m).nextSeq s σ N)
    ⟨h, hunused, .refl⟩ ?_ hbegun
  rintro s t move - hturn hstep ⟨σ, N, hstaged, hn⟩
  obtain ⟨τ, hshift, hstaged'⟩ := hstaged.exists_shift hstep
  obtain ⟨N', hn'⟩ := hn.step hstaged hturn hshift
  exact ⟨τ, N', hstaged', hn'⟩

end Traffic

end ComponentHost
