import ComponentHost.Json.Fields
import ComponentHost.Proofs.Records
import Mathlib.Data.List.Pairwise

/-!
What the events tell that the clients of a manager publish.

Whoever keeps a table of identifiers and statuses by the events of a manager (`replay`) has,
whenever everybody waits, just the processes that the manager has recorded, in the statuses they are
in (`Traffic.replay_of_inTurn`). Clients have to take turns, and no identifier may be given twice: a
call that is at work on a process when it is removed still publishes what becomes of it, under an
identifier that must not be another's by then.
-/

set_option autoImplicit false

namespace ComponentHost

open Function (update update_self update_of_ne)

/-! ### Tables kept by events -/

/-- Identifiers and the statuses they are in. -/
abbrev StatusTable := String → Option String

/-- The table after an event: a process that is initialized is put into the table, one that is
removed is taken out, and of one that is in the table the status is changed. -/
def replayed (table : StatusTable) (event : String × Json) : StatusTable :=
  match event.2.text? "process_id" with
  | none => table
  | some id =>
    if event.1 = Topic.processInitialized then update table id (event.2.text? "status")
    else if event.1 = Topic.processRemoved then update table id none
    else if event.1 ∈ [Topic.processStarted, Topic.processStopped, Topic.processFailed] then
      if (table id).isSome then update table id (event.2.text? "status") else table
    else table

/-- The table after all events, which was empty before. -/
def replay (events : List (String × Json)) : StatusTable := events.foldl replayed fun _ ↦ none

/-- The statuses that events of these topics tell. -/
def toldStatuses : List (String × String) :=
  [(Topic.processInitialized, "initialized"), (Topic.processStarted, "running"),
    (Topic.processStopped, "stopped"), (Topic.processFailed, "failed")]

/-- What is told of a process. -/
def Process.payload (P : Process) : Json :=
  .ofEntries [("process_id", .str P.id), ("status", .str P.status.text)]

theorem replay_append (events : List (String × Json)) (event : String × Json) :
    replay (events ++ [event]) = replayed (replay events) event := List.foldl_concat ..

theorem news?_announcement (topic : String) (P : Process) :
    (Exchange.asked (announcement topic P)).news? = some (topic, P.payload) := rfl

namespace Process

variable (P : Process) (table : StatusTable)

theorem payload_eq :
    P.payload = .obj [("process_id", .str P.id), ("status", .str P.status.text)] := by
  have hlt : ¬ "status" < "process_id" := by decide
  have hne : "status" ≠ "process_id" := by decide
  simp only [payload, Json.ofEntries, List.foldl, Entries.insert, hlt, hne, if_false]

theorem payload_id : P.payload.text? "process_id" = some P.id := by
  rw [payload_eq]
  rfl

theorem payload_status : P.payload.text? "status" = some P.status.text := by
  rw [payload_eq]
  rfl

theorem replayed_initialized : replayed table (Topic.processInitialized, P.payload) =
    update table P.id (some P.status.text) := by
  simp only [replayed, payload_id, payload_status, if_true]

theorem replayed_removed : replayed table (Topic.processRemoved, P.payload) =
    update table P.id none := by
  have hne : Topic.processRemoved ≠ Topic.processInitialized := by decide
  simp only [replayed, payload_id, hne, if_false, if_true]

theorem replayed_section (sec : Section) (id : String) :
    replayed table (sec.topic, P.payload) id =
      if id = P.id ∧ (table P.id).isSome = true then some P.status.text else table id := by
  have hreplayed : replayed table (sec.topic, P.payload) =
      if (table P.id).isSome then update table P.id (some P.status.text) else table := by
    cases sec <;>
      simp [replayed, payload_id, payload_status, Section.topic, Topic.processInitialized,
        Topic.processRemoved, Topic.processStarted, Topic.processStopped, Topic.processFailed]
  rw [hreplayed]
  by_cases hid : id = P.id
  · subst hid
    by_cases hsome : (table P.id).isSome = true <;> simp [hsome]
  · by_cases hsome : (table P.id).isSome = true <;> simp [hsome, hid]

end Process

/-! ### What a manager's clients publish -/

/-- Of what is kept without repetition each comes from one element. -/
theorem eq_of_nodup_filterMap {α β : Type} {f : α → Option β} {l : List α} {a b : α} {c : β}
    (hnodup : (l.filterMap f).Nodup) (ha : a ∈ l) (hb : b ∈ l) (hfa : f a = some c)
    (hfb : f b = some c) : a = b := by
  have hpairwise := List.pairwise_filterMap.mp hnodup
  by_contra hne
  have hsymm : Std.Symm fun x y ↦ ∀ x' ∈ f x, ∀ y' ∈ f y, x' ≠ y' :=
    ⟨fun x y h y' hy' x' hx' ↦ (h x' hx' y' hy').symm⟩
  exact hpairwise.forall ha hb hne c hfa c hfb rfl

/-- The identifier that a generator gives. -/
def Exchange.given? : Exchange → Option String
  | .answered (.generateId _) (.ok id) => some id
  | _ => none

namespace Scene

/-- What has passed between the clients of a manager and the collaborators, the earliest first. -/
def entriesFor (w : Scene) (m : ManagerRef) : List Entry :=
  w.past.reverse.filter fun e ↦ (w.request e.client).any (·.manager == m)

/-- The events that the clients of a manager have published, the earliest first. -/
def published (w : Scene) (m : ManagerRef) : List (String × Json) :=
  (w.entriesFor m).filterMap (·.exchange.news?)

/-- The identifiers that the clients of a manager were given, the earliest first. -/
def yielded (w : Scene) (m : ManagerRef) : List String :=
  (w.entriesFor m).filterMap (·.exchange.given?)

/-- The processes that a manager has recorded, and the statuses they are in. -/
def statuses (w : Scene) (m : ManagerRef) : StatusTable := fun id ↦
  ((w.managers.get m).recorded.get? id).map fun p ↦ (w.processes.get p).status.text

/-- The events tell what the manager has recorded, if no identifier was given twice, and the payload
of each is as its topic says. -/
structure Faithful (w : Scene) : Prop where
  replay : ∀ m, (w.yielded m).Nodup → replay (w.published m) = w.statuses m
  status : ∀ m, ∀ event ∈ w.published m, ∀ status, (event.1, status) ∈ toldStatuses →
    event.2.text? "status" = some status

variable {w : Scene} {i j : Nat} {r : Request} {x : Exchange} {m : ManagerRef} {p : ProcessRef}
  {id : String}

theorem entriesFor_said (hi : w.request i = some r) (x : Exchange) (m : ManagerRef) :
    (w.said i x).entriesFor m =
      w.entriesFor m ++ if r.manager = m then [⟨i, x⟩] else [] := by
  by_cases hm : r.manager = m <;> simp [entriesFor, said, List.filter_append, hi, hm]

theorem published_said (hi : w.request i = some r) (x : Exchange) (m : ManagerRef) :
    (w.said i x).published m =
      w.published m ++ if r.manager = m then x.news?.toList else [] := by
  rw [published, entriesFor_said hi, List.filterMap_append, ← published]
  by_cases hm : r.manager = m
  · cases hx : x.news? <;> simp [hm, hx]
  · simp [hm]

theorem yielded_said (hi : w.request i = some r) (x : Exchange) (m : ManagerRef) :
    (w.yielded m).Sublist ((w.said i x).yielded m) := by
  rw [yielded, yielded, entriesFor_said hi, List.filterMap_append]
  exact List.sublist_append_left ..

/-- Nothing has been said by who has just come. -/
theorem entriesFor_joined (hw : w.Kept) (hnew : w.request i = none) (r : Request)
    (m : ManagerRef) : (w.joined i r).entriesFor m = w.entriesFor m := by
  refine List.filter_congr fun e he ↦ ?_
  have hknown := hw.known e (List.mem_reverse.mp he)
  have hne : e.client ≠ i := by
    intro heq
    simp [heq, hnew] at hknown
  simp [joined, hne]

/-- An identifier that was given only once was given to one client of the manager. -/
theorem eq_of_named {r' : Request} (hnodup : (w.yielded m).Nodup) (hi : w.request i = some r)
    (hr : r.manager = m) (hnamed : w.Named i id) (hj : w.request j = some r')
    (hr' : r'.manager = m) (hnamed' : w.Named j id) : i = j := by
  obtain ⟨generator, hmem⟩ := hnamed
  obtain ⟨generator', hmem'⟩ := hnamed'
  have hentry : ⟨i, .answered (.generateId generator) (.ok id)⟩ ∈ w.entriesFor m := by
    simp [entriesFor, hmem, hi, hr]
  have hentry' : ⟨j, .answered (.generateId generator') (.ok id)⟩ ∈ w.entriesFor m := by
    simp [entriesFor, hmem', hj, hr']
  exact congrArg Entry.client (eq_of_nodup_filterMap hnodup hentry hentry' rfl rfl)

/-- The client that has made a process is the only one that was given its identifier. -/
theorem Kept.eq_of_recorded (hw : w.Kept) (hnodup : (w.yielded m).Nodup) (hmade : w.Made i m p)
    {q : ProcessRef} (hq : ((w.processes.get p).id, q) ∈ (w.managers.get m).recorded) : q = p := by
  obtain ⟨hid, ⟨j, hmade'⟩, -⟩ := hw.recorded m _ q hq
  obtain ⟨-, hnamed, -⟩ := hw.made i m p hmade
  obtain ⟨-, hnamed', -⟩ := hw.made j m q hmade'
  rw [hid] at hnamed'
  have hi : ∃ ctx config, w.request i = some (.create m ctx config) := by
    obtain ⟨ctx, config, hfinished⟩ := hmade
    exact ⟨ctx, config, hw.asked i _ hfinished⟩
  have hj : ∃ ctx config, w.request j = some (.create m ctx config) := by
    obtain ⟨ctx, config, hfinished⟩ := hmade'
    exact ⟨ctx, config, hw.asked j _ hfinished⟩
  obtain ⟨ctx, config, hi⟩ := hi
  obtain ⟨ctx', config', hj⟩ := hj
  obtain rfl := eq_of_named hnodup hi rfl hnamed hj rfl hnamed'
  exact (hmade'.eq hmade).2

/-- What a client has made for one manager is not recorded by another. -/
theorem Kept.ne_of_recorded (hw : w.Kept) (hmade : w.Made i m p) {m' : ManagerRef}
    (hne : m' ≠ m) {q : ProcessRef} (hq : (id, q) ∈ (w.managers.get m').recorded) : q ≠ p := by
  rintro rfl
  obtain ⟨-, ⟨j, hmade'⟩, -⟩ := hw.recorded m' id q hq
  obtain rfl := hw.maker _ _ _ _ _ hmade hmade'
  exact hne (hmade'.eq hmade).1

/-- What is looked up under an identifier is recorded, and has it. -/
theorem Kept.of_get? (hw : w.Kept) {q : ProcessRef}
    (hget : (w.managers.get m).recorded.get? id = some q) :
    (id, q) ∈ (w.managers.get m).recorded ∧ (w.processes.get q).id = id := by
  have hmem := (Table.get?_eq_some_iff (hw.ids m)).mp hget
  exact ⟨hmem, (hw.recorded m id q hmem).1⟩

/-! ### What becomes of the statuses -/

theorem statuses_withStatus {h : Host} (hshows : w.Shows h) (p : ProcessRef)
    (status : ProcessStatus) (m : ManagerRef) (id : String) :
    (w.on (h.withStatus p status)).statuses m id =
      ((w.managers.get m).recorded.get? id).map fun q ↦
        if q = p then status.text else (w.processes.get q).status.text := by
  show ((h.managers.get m).recorded.get? id).map _ = _
  rw [hshows.1]
  refine congrArg (Option.map · _) (funext fun q ↦ ?_)
  by_cases hq : q = p
  · simp [hq, on]
  · simp [hq, on, hshows.2]

theorem statuses_recording {h : Host} {P : Process} (hkept : w.Kept) (hshows : w.Shows h)
    (hfree : (h.managers.get m).recorded.contains P.id = false) (m' : ManagerRef) (id : String) :
    (w.on ((h.counted m).recording m P)).statuses m' id =
      if m' = m ∧ id = P.id then some P.status.text else w.statuses m' id := by
  have hold (m' : ManagerRef) : ((w.managers.get m').recorded.get? id).map
      (fun q ↦ (((h.counted m).recording m P).processes.get q).status.text) =
        w.statuses m' id := by
    refine Option.map_congr fun q hq ↦ ?_
    have hlt : q < h.processes.count := by
      rw [hshows.2]
      exact hkept.lt_of_recorded (hkept.of_get? hq).1
    rw [h.get_recording _ _ hlt, hshows.2]
  show ((((h.counted m).recording m P).managers.get m').recorded.get? id).map _ = _
  rw [h.recorded_recording]
  by_cases hm : m' = m
  · subst hm
    rw [if_pos rfl, Table.get?_bind hfree, hshows.1]
    by_cases hid : id = P.id
    · rw [if_pos hid, if_pos ⟨rfl, hid⟩, Option.map_some]
      exact congrArg (fun P : Process ↦ some P.status.text) (h.get_recording_self _ P)
    · rw [if_neg hid, if_neg fun h ↦ hid h.2]
      exact hold m'
  · rw [if_neg hm, if_neg fun h ↦ hm h.1, hshows.1]
    exact hold m'

theorem statuses_forgetting {h : Host} (hshows : w.Shows h) (m m' : ManagerRef)
    (id id' : String) : (w.on (h.forgetting m id)).statuses m' id' =
      if m' = m ∧ id' = id then none else w.statuses m' id' := by
  show (((h.forgetting m id).managers.get m').recorded.get? id').map
    (fun q ↦ (h.processes.get q).status.text) = _
  rw [h.recorded_forgetting, hshows.1, hshows.2]
  by_cases hm : m' = m
  · subst hm
    rw [if_pos rfl, Table.get?_erase]
    by_cases hid' : id' = id <;> simp [hid', statuses]
  · simp [hm, statuses]

/-- If no identifier was given twice, the news that a process is in a status tell what becomes of
the statuses, whether it is still recorded or not. -/
theorem Kept.replayed_withStatus {h : Host} (hw : w.Kept) (hshows : w.Shows h)
    (hnodup : (w.yielded m).Nodup) (hmade : w.Made j m p) (sec : Section) :
    replayed (w.statuses m) (sec.topic, { h.processes.get p with status := sec.target }.payload) =
      (w.on (h.withStatus p sec.target)).statuses m := by
  funext id
  rw [Process.replayed_section, hshows.2, statuses_withStatus hshows]
  cases hget : (w.managers.get m).recorded.get? id with
  | none =>
    have hnone : w.statuses m id = none := by rw [statuses, hget, Option.map_none]
    rw [if_neg, hnone, Option.map_none]
    rintro ⟨rfl, hsome⟩
    simp [hnone] at hsome
  | some q =>
    obtain ⟨hmem, hid⟩ := hw.of_get? hget
    have hsome : w.statuses m id = some (w.processes.get q).status.text := by
      rw [statuses, hget, Option.map_some]
    by_cases hqp : q = p
    · subst hqp
      rw [if_pos ⟨hid.symm, by simp [hid, hsome]⟩, Option.map_some, if_pos rfl]
    · have hne : id ≠ (w.processes.get p).id := by
        rintro rfl
        exact hqp (hw.eq_of_recorded hnodup hmade hmem)
      rw [if_neg fun h ↦ hne h.1, hsome, Option.map_some, if_neg hqp]

/-! ### The events are kept faithful -/

namespace Faithful

/-- Nothing is published, and nothing recorded changes. -/
theorem of_same {w' : Scene} (hw : w.Faithful) (hpublished : ∀ m, w'.published m = w.published m)
    (hyielded : ∀ m, (w.yielded m).Sublist (w'.yielded m))
    (hstatuses : ∀ m, w'.statuses m = w.statuses m) : w'.Faithful where
  replay m hnodup := by
    rw [hpublished, hstatuses]
    exact hw.replay m (hnodup.sublist (hyielded m))
  status m := by
    rw [hpublished]
    exact hw.status m

/-- A client publishes something, and the records of its manager change accordingly. -/
theorem publish {w' : Scene} {topic : String} {P : Process} (hw : w.Faithful)
    (hi : w.request i = some r) (hrequest : w'.request = w.request) (hpast : w'.past = w.past)
    (htopic : ∀ status, (topic, status) ∈ toldStatuses → P.status.text = status)
    (hstatuses : (w.yielded r.manager).Nodup →
      w'.statuses r.manager = replayed (w.statuses r.manager) (topic, P.payload))
    (hothers : ∀ m ≠ r.manager, w'.statuses m = w.statuses m) :
    (w'.said i (.asked (announcement topic P))).Faithful := by
  have hi' : w'.request i = some r := hrequest ▸ hi
  have hentries (m : ManagerRef) : w'.entriesFor m = w.entriesFor m := by
    simp only [entriesFor, hrequest, hpast]
  have hpublished (m : ManagerRef) : (w'.said i (.asked (announcement topic P))).published m =
      w.published m ++ if r.manager = m then [(topic, P.payload)] else [] := by
    rw [published_said hi', published, hentries, news?_announcement]
    rfl
  have hyielded (m : ManagerRef) :
      (w.yielded m).Sublist ((w'.said i (.asked (announcement topic P))).yielded m) := by
    rw [yielded, ← hentries]
    exact yielded_said hi' _ m
  constructor
  · intro m hnodup
    have hnodup := hnodup.sublist (hyielded m)
    show ComponentHost.replay _ = w'.statuses m
    by_cases hm : r.manager = m
    · subst hm
      rw [hpublished, if_pos rfl, replay_append, hw.replay _ hnodup, hstatuses hnodup]
    · rw [hpublished, if_neg hm, List.append_nil, hw.replay m hnodup, hothers m (Ne.symm hm)]
  · intro m event hevent status hstatus
    rw [hpublished] at hevent
    rcases List.mem_append.mp hevent with hevent | hevent
    · exact hw.status m event hevent status hstatus
    · by_cases hm : r.manager = m
      · rw [if_pos hm] at hevent
        obtain rfl := List.mem_singleton.mp hevent
        rw [P.payload_status, htopic status hstatus]
      · rw [if_neg hm] at hevent
        cases hevent

/-- A process is put into a status, and this is published. -/
theorem became {h : Host} (hw : w.Faithful) (hkept : w.Kept) (hi : w.request i = some r)
    (hshows : w.Shows h) (hmade : w.Made j r.manager p) (sec : Section) :
    ((w.on (h.withStatus p sec.target)).said i
      (.asked
        (announcement sec.topic { h.processes.get p with status := sec.target }))).Faithful := by
  refine hw.publish hi rfl rfl (fun status hstatus ↦ ?_)
    (fun hnodup ↦ (hkept.replayed_withStatus hshows hnodup hmade sec).symm) fun m hm ↦ ?_
  · cases sec <;> simp_all [toldStatuses, Section.topic, Section.target, ProcessStatus.text,
      Topic.processInitialized, Topic.processStarted, Topic.processStopped, Topic.processFailed]
  · funext id
    rw [statuses_withStatus hshows, statuses]
    refine Option.map_congr fun q hget ↦ ?_
    rw [if_neg (hkept.ne_of_recorded hmade hm (hkept.of_get? hget).1)]

/-- A process is recorded, and this is published. -/
theorem recording {h : Host} {P : Process} (hw : w.Faithful) (hkept : w.Kept)
    (hi : w.request i = some r) (hr : r.manager = m) (hshows : w.Shows h)
    (hfree : (h.managers.get m).recorded.contains P.id = false)
    (hstatus : P.status = .initialized) :
    ((w.on ((h.counted m).recording m P)).said i
      (.asked (announcement Topic.processInitialized P))).Faithful := by
  subst hr
  have hafter := statuses_recording hkept hshows hfree
  refine hw.publish hi rfl rfl (fun status htold ↦ ?_) (fun _ ↦ ?_) fun m hm ↦ ?_
  · rw [hstatus]
    simp_all [toldStatuses, ProcessStatus.text, Topic.processInitialized, Topic.processStarted,
      Topic.processStopped, Topic.processFailed]
  · rw [Process.replayed_initialized]
    funext id
    by_cases hid : id = P.id <;> simp [hafter, hid]
  · funext id
    simp [hafter, hm]

/-- A process is removed, and this is published. -/
theorem forgetting {h : Host} (hw : w.Faithful) (hkept : w.Kept) (hi : w.request i = some r)
    (hr : r.manager = m) (hshows : w.Shows h) (hfind : (h.managers.get m).find id = .ok p) :
    ((w.on (h.forgetting m id)).said i
      (.asked (announcement Topic.processRemoved (h.processes.get p)))).Faithful := by
  subst hr
  have hid : (h.processes.get p).id = id := by
    rw [hshows.1] at hfind
    rw [hshows.2]
    exact (hkept.recorded _ id p (Manager.mem_of_find hfind)).1
  have hafter := statuses_forgetting hshows r.manager
  refine hw.publish hi rfl rfl (fun status htold ↦ ?_) (fun _ ↦ ?_) fun m hm ↦ ?_
  · simp_all [toldStatuses, Topic.processInitialized, Topic.processStarted, Topic.processStopped,
      Topic.processFailed, Topic.processRemoved]
  · rw [Process.replayed_removed, hid]
    funext id'
    by_cases hid' : id' = id <;> simp [hafter, hid']
  · funext id'
    simp [hafter, hm]

/-- In the beginning nothing is published, and nothing recorded. -/
theorem begun {h : Host} (hunused : h.Unused) : ({ host := h } : Traffic).scene.Faithful := by
  have hpublished (m : ManagerRef) : ({ host := h } : Traffic).scene.published m = [] := rfl
  refine ⟨fun m _ ↦ ?_, fun m event hevent ↦ ?_⟩
  · rw [hpublished]
    funext id
    simp [ComponentHost.replay, statuses, Traffic.scene, hunused.no_record, Table.get?]
  · rw [hpublished] at hevent
    cases hevent

end Faithful

theorem Orderly.faithful {w₀ : Scene} (h₀ : w₀.Kept) (h₀' : w₀.Faithful) (hw : Orderly w₀ w) :
    w.Faithful := by
  induction hw with
  | begun => exact h₀'
  | joined hw hnew ih =>
    have hentries := entriesFor_joined (hw.kept h₀) hnew
    refine ih.of_same (fun m ↦ ?_) (fun m ↦ ?_) fun m ↦ rfl
    · rw [published, hentries, published]
    · rw [yielded, yielded, hentries]
  | said _ hi hx ih =>
    refine ih.of_same (fun m ↦ ?_) (fun m ↦ yielded_said hi _ m) fun m ↦ rfl
    rw [published_said hi, hx]
    simp
  | ended _ _ _ _ ih => exact ih.of_same (fun _ ↦ rfl) (fun _ ↦ List.Sublist.refl _) fun _ ↦ rfl
  | @locked w h p locked _ hshows ih =>
    refine ih.of_same (fun _ ↦ rfl) (fun _ ↦ List.Sublist.refl _) fun m ↦ ?_
    rw [← on_eq_self hshows]
    refine funext fun id ↦ congrArg (Option.map · _) (funext fun q ↦ ?_)
    by_cases hq : q = p <;> simp [on, hq]
  | @counted w h m₀ _ hshows ih =>
    refine ih.of_same (fun _ ↦ rfl) (fun _ ↦ List.Sublist.refl _) fun m ↦ ?_
    rw [← on_eq_self hshows]
    funext id
    by_cases hm : m = m₀ <;> simp [statuses, on, Host.counted, hm]
  | became sec hw hv hgrows hfind hi hshows ih _ =>
    obtain ⟨-, ⟨j, hmade⟩, -⟩ := (hv.kept h₀).recorded _ _ _ (Manager.mem_of_find hfind)
    exact ih.became (hw.kept h₀) hi hshows (hmade.grows hgrows) sec
  | recorded hw hi _ hshows _ hfree hstatus ih =>
    exact (ih.recording (hw.kept h₀) hi rfl hshows hfree hstatus).of_same (fun _ ↦ rfl)
      (fun _ ↦ List.Sublist.refl _) fun _ ↦ rfl
  | removed hw hi _ hshows hfind ih =>
    exact (ih.forgetting (hw.kept h₀) hi rfl hshows hfind).of_same (fun _ ↦ rfl)
      (fun _ ↦ List.Sublist.refl _) fun _ ↦ rfl

end Scene

namespace Traffic

/-- Clients take turns on a host on which nothing has been recorded, and the clients of a manager
are given no identifier twice. Whenever everybody waits, the events they have published tell just
what the manager has recorded, and in which statuses; and the payload of each event is as its topic
says. -/
theorem replay_of_inTurn {h : Host} {ms : List Move} {s : Traffic} {m : ManagerRef}
    (hunused : h.Unused) (hrun : Run InTurn ms { host := h } s) (hquiet : s.Quiet)
    (hnodup : (s.scene.yielded m).Nodup) :
    replay (s.scene.published m) = s.scene.statuses m ∧
      ∀ event ∈ s.scene.published m, ∀ status, (event.1, status) ∈ toldStatuses →
        event.2.text? "status" = some status := by
  have hfaithful := (hrun.orderly hunused hquiet).faithful (.begun hunused) (.begun hunused)
  exact ⟨hfaithful.replay m hnodup, hfaithful.status m⟩

end Traffic

namespace Small

open Traffic

/-- While a client starts the process it is removed, and another one is created; the process is
started nevertheless. Then the other one is marked failed. -/
def removedAtWork : List Move :=
  let removes := movesBy answers [.enter (.create 0 0 config), .play 0 100,
    .enter (.start 0 0 "p"), .play 1 6, .enter (.remove 0 "p"), .play 2 100] untouched
  let creates := movesBy (naming "q") [.enter (.create 0 0 config), .play 3 100]
    (untouched.after removes)
  let fails := movesBy answers [.play 1 100, .enter (.markFailed 0 "q" "broken"), .play 4 100]
    (untouched.after (removes ++ creates))
  removes ++ creates ++ fails

/-- The theorem on an event that tells of a process that is not recorded any more. -/
theorem removedAtWork_replay : ∃ s, host.Unused ∧ Run InTurn removedAtWork { host := host } s ∧
    s.Quiet ∧ (s.scene.yielded 0).Nodup ∧ replay (s.scene.published 0) = s.scene.statuses 0 ∧
    ∀ event ∈ s.scene.published 0, ∀ status, (event.1, status) ∈ toldStatuses →
      event.2.text? "status" = some status := by
  have hrun : Run InTurn removedAtWork { host := host } (untouched.after removedAtWork) :=
    run_of_follows (by decide +kernel)
  have hquiet : (untouched.after removedAtWork).Quiet := by decide +kernel
  have hnodup : ((untouched.after removedAtWork).scene.yielded 0).Nodup := by decide +kernel
  exact ⟨_, host_unused, hrun, hquiet, hnodup, replay_of_inTurn host_unused hrun hquiet hnodup⟩

/-- The last but one event is ignored. -/
example : ((untouched.after removedAtWork).scene.published 0).map Prod.fst =
    ["process.initialized", "process.removed", "process.initialized", "process.started",
      "process.failed"] ∧
    ((untouched.after removedAtWork).scene.statuses 0) "q" = some "failed" := by decide +kernel

end Small

end ComponentHost
