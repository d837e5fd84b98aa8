import ComponentHost.Host.Collaborators
import ComponentHost.Proofs.Effects
import ComponentHost.Proofs.InPlace

/-!
Identifiers of processes, from generators that count.

Clients of process managers are side by side on one host, and the host's own generators give them
identifiers; managers may share a generator. What a generator has handed out is told by the acts
after which it is as it is after it was asked (`Crowd.issued`), whether a process was recorded under
the identifier or not.

A client records a process under an identifier that its manager's generator has handed out to it,
and it does so once (`Host.Names`). So what is recorded has been handed out to a client that has
recorded (`Crowd.Later.named`), and a client that finds its identifier taken would have been handed
out somebody else's. A generator that counts hands out nothing twice (`Crowd.Later.counts`) before
its counter starts over: that happens to nobody (`Crowd.namesApart`).
-/

set_option autoImplicit false

namespace ComponentHost

/-- The error says that something is wrong with the host. -/
def Error.IsInternal (e : Error) : Prop := ∃ text, e = .internal text

/-! ### Generators that count -/

namespace IdGenerator

variable {stem : String}

/-- The identifier that a generator hands out after so many others. -/
def numbered (stem : String) (k : Nat) : String := stem ++ toString (UInt64.ofNat k + 1)

theorem numbered_ne_empty (hstem : stem ≠ "") (k : Nat) : numbered stem k ≠ "" := by
  simp [numbered, hstem]

/-- Stems may end in digits: what two identifiers have in common at the beginning is the stem. -/
theorem numbered_inj {i j : Nat} (hi : i < 2 ^ 64) (hj : j < 2 ^ 64)
    (h : numbered stem i = numbered stem j) : i = j := by
  have hdigits : Nat.repr (UInt64.ofNat i + 1).toNat = Nat.repr (UInt64.ofNat j + 1).toNat :=
    (String.append_right_inj stem).mp h
  have hread : (UInt64.ofNat i + 1).toNat = (UInt64.ofNat j + 1).toNat := by
    simpa using congrArg (fun text : String ↦ Nat.ofDigitChars 10 text.toList 0) hdigits
  have hnext : UInt64.ofNat i + 1 = UInt64.ofNat j + 1 := UInt64.toNat_inj.mp hread
  have hcount : UInt64.ofNat i = UInt64.ofNat j := by grind
  have hnat := congrArg UInt64.toNat hcount
  rwa [UInt64.toNat_ofNat_of_lt' hi, UInt64.toNat_ofNat_of_lt' hj] at hnat

theorem next_sequential (hstem : stem ≠ "") (n : UInt64) :
    (sequential stem n).next = (.ok (stem ++ toString (n + 1)), .sequential stem (n + 1)) := by
  simp [next, hstem]

theorem not_isInternal_of_next {generator : IdGenerator} {e : Error}
    (h : generator.next.1 = .error e) : ¬e.IsInternal := by
  rintro ⟨text, rfl⟩
  unfold next at h
  split at h
  · split at h <;> cases h
  · split at h <;> cases h
  · cases h
  · cases h

end IdGenerator

/-! ### What is handed out and recorded -/

/-- The identifier that a generator has handed out: what it answers, if it is as it is after it was
asked. -/
def Feat.drawn? (g : GeneratorRef) : Feat → Option String
  | .acted h h' =>
    if h'.generators.get g = (h.generators.get g).next.2 then (h.generators.get g).next.1.toOption
    else none
  | .said _ => none

/-- What a generator has handed out, the earliest first. -/
def drawnIn (g : GeneratorRef) (log : List Feat) : List String := log.filterMap (Feat.drawn? g)

theorem drawnIn_append (g : GeneratorRef) (xs ys : List Feat) :
    drawnIn g (xs ++ ys) = drawnIn g xs ++ drawnIn g ys := List.filterMap_append

/-- A process has been recorded. -/
def HasRecorded (log : List Feat) : Prop :=
  ∃ x ∈ actsIn log, x.1.processes.count < x.2.processes.count

theorem hasRecorded_append {xs ys : List Feat} :
    HasRecorded (xs ++ ys) ↔ HasRecorded xs ∨ HasRecorded ys := by
  simp [HasRecorded, or_and_right, exists_or]

namespace Host

/-- A generator has been asked. -/
def drawing (h : Host) (g : GeneratorRef) : Host :=
  { h with generators := h.generators.modify g fun _ ↦ (h.generators.get g).next.2 }

/-- How the host's own generators answer. -/
def naming? : (c : Call) → Option (Prog Host c.Reply)
  | .generateId g => some (nextId g)
  | _ => none

/-- The managers use the generators they used before. -/
def KeepsGenerators (h h' : Host) : Prop :=
  ∀ m, (h'.managers.get m).generator = (h.managers.get m).generator

/-- No generator is asked, and nothing is recorded. -/
structure KeepsNames (h h' : Host) : Prop where
  generators : h'.generators = h.generators
  generator : h.KeepsGenerators h'
  recorded : ∀ m, (h'.managers.get m).recorded ⊆ (h.managers.get m).recorded
  count : h'.processes.count = h.processes.count

variable {h h' : Host} {g : GeneratorRef} {m : ManagerRef} {log : List Feat}

theorem KeepsNames.of_same (hgenerators : h'.generators = h.generators)
    (hmanagers : h'.managers = h.managers) (hcount : h'.processes.count = h.processes.count) :
    h.KeepsNames h' where
  generators := hgenerators
  generator m := by rw [hmanagers]
  recorded m := hmanagers ▸ List.Subset.refl _
  count := hcount

theorem KeepsNames.refl (h : Host) : h.KeepsNames h := .of_same rfl rfl rfl

theorem keepsNames_forgetting (h : Host) (m : ManagerRef) (id : String) :
    h.KeepsNames (h.forgetting m id) where
  generators := rfl
  generator m' := by by_cases hm : m' = m <;> simp [forgetting, hm]
  recorded m' := by
    by_cases hm : m' = m
    · subst hm
      simp [forgetting, Table.erase]
    · simp [forgetting, hm]
  count := rfl

theorem keepsNames_counted (h : Host) (m : ManagerRef) : h.KeepsNames (h.counted m) where
  generators := rfl
  generator m' := by by_cases hm : m' = m <;> simp [Host.counted, hm]
  recorded m' := by by_cases hm : m' = m <;> simp [Host.counted, hm]
  count := rfl

/-- What a client may do, after what it has done, as far as identifiers go. -/
inductive Names (log : List Feat) (h : Host) : Host → Prop where
  | kept {h' : Host} (hh : h.KeepsNames h') : Names log h h'
  | drew (g : GeneratorRef) : Names log h (h.drawing g)
  | recorded (m : ManagerRef) {P : Process}
      (hdrawn : P.id ∈ drawnIn (h.managers.get m).generator log) (hfirst : ¬HasRecorded log) :
      Names log h (h.recording m P)

namespace Names

theorem keepsGenerators (hh : Names log h h') : h.KeepsGenerators h' := by
  cases hh with
  | kept hh => exact hh.generator
  | drew g => exact fun _ ↦ rfl
  | @recorded m P =>
    intro m'
    by_cases hm : m' = m <;> simp [recording, hm]

/-- What is recorded was recorded before, or it is recorded now by a client that was given its
identifier. -/
theorem mem_recorded (hh : Names log h h') {id : String} {p : ProcessRef}
    (hmem : (id, p) ∈ (h'.managers.get m).recorded) :
    (id, p) ∈ (h.managers.get m).recorded ∨
      id ∈ drawnIn (h.managers.get m).generator log ∧ HasRecorded (log ++ [.acted h h']) := by
  cases hh with
  | kept hh => exact .inl (hh.recorded m hmem)
  | drew g => exact .inl hmem
  | @recorded m' P hdrawn hfirst =>
    by_cases hm : m = m'
    · subst hm
      have hbind : ((h.recording m P).managers.get m).recorded =
          (h.managers.get m).recorded.bind P.id h.processes.count := by simp [recording]
      rw [hbind] at hmem
      refine (List.mem_append.mp hmem).imp_right fun hnew ↦ ?_
      cases List.mem_singleton.mp hnew
      refine ⟨hdrawn, (h, h.recording m P), by simp, ?_⟩
      exact Nat.lt_succ_self h.processes.count
    · exact .inl (by simpa [recording, hm] using hmem)

/-- A generator that counts is not asked, or it hands out what comes next. -/
theorem counts (hh : Names log h h') {stem : String} {n : UInt64} (hstem : stem ≠ "")
    (hg : h.generators.get g = .sequential stem n) :
    (h'.generators.get g = .sequential stem n ∧ (Feat.acted h h').drawn? g = none) ∨
      h'.generators.get g = .sequential stem (n + 1) ∧
        (Feat.acted h h').drawn? g = some (stem ++ toString (n + 1)) := by
  have hnext : (h.generators.get g).next = _ := hg ▸ IdGenerator.next_sequential hstem n
  have hidle (hsame : h'.generators.get g = .sequential stem n) :
      (Feat.acted h h').drawn? g = none := by
    simp [Feat.drawn?, hsame, hnext]
  cases hh with
  | kept hh => exact .inl ⟨hh.generators ▸ hg, hidle (hh.generators ▸ hg)⟩
  | recorded m hdrawn hfirst => exact .inl ⟨hg, hidle hg⟩
  | drew g' =>
    by_cases hne : g = g'
    · subst hne
      refine .inr ?_
      simp [drawing, Feat.drawn?, hnext, Except.toOption]
    · have hsame : (h.drawing g').generators.get g = .sequential stem n := by
        simpa [drawing, hne] using hg
      exact .inl ⟨hsame, hidle hsame⟩

end Names

end Host

/-! ### What a client does -/

/-- How a client goes about its request: it relies on the managers' generators. -/
def naming : Manner where
  rely := Host.KeepsGenerators
  refl _ _ := rfl
  trans hh hh' m := (hh' m).trans (hh m)
  act := Host.Names
  call _ _ := True

/-- Who has done this has been handed out the identifier by the manager's generator, and has not
recorded anything yet. -/
def Bears (m : ManagerRef) (id : String) (log : List Feat) (h : Host) : Prop :=
  id ∈ drawnIn (h.managers.get m).generator log ∧ ¬HasRecorded log

/-- Who has done this has found taken by then what it was handed out. -/
def Clashed (m : ManagerRef) (log : List Feat) : Prop :=
  ∃ before h id, before ++ [.acted h h] <+: log ∧ Bears m id before h ∧
    (h.managers.get m).recorded.contains id = true

/-- What others do does not put an end to it, nor what one says and does without recording. -/
structure Lasting (P : List Feat → Host → Prop) : Prop where
  rely : ∀ log h h', h.KeepsGenerators h' → P log h → P log h'
  idle : ∀ log more h, (∀ x ∈ actsIn more, x.2.processes.count = x.1.processes.count) →
    P log h → P (log ++ more) h

theorem lasting_true : Lasting fun _ _ ↦ True := ⟨fun _ _ _ _ _ ↦ trivial, fun _ _ _ _ _ ↦ trivial⟩

theorem lasting_not_hasRecorded : Lasting fun log _ ↦ ¬HasRecorded log where
  rely _ _ _ _ hP := hP
  idle log more h hmore hP hrecorded := by
    obtain hold | ⟨x, hx, hlt⟩ := hasRecorded_append.mp hrecorded
    · exact hP hold
    · exact Nat.lt_irrefl _ (hmore x hx ▸ hlt)

theorem lasting_bears (m : ManagerRef) (id : String) : Lasting (Bears m id) where
  rely _ _ _ hh hP := ⟨hh m ▸ hP.1, hP.2⟩
  idle log more h hmore hP :=
    ⟨drawnIn_append .. ▸ List.mem_append_left _ hP.1,
      lasting_not_hasRecorded.idle log more h hmore hP.2⟩

theorem lasting_clashed (m : ManagerRef) : Lasting fun log _ ↦ Clashed m log where
  rely _ _ _ _ hP := hP
  idle log more h _ hP := by
    obtain ⟨before, h, id, hlog, hclash⟩ := hP
    exact ⟨before, h, id, hlog.trans (List.prefix_append _ _), hclash⟩

/-- An act that records nothing does not put an end to it either. -/
theorem Lasting.acted {P : List Feat → Host → Prop} {log : List Feat} {h h' : Host}
    (hP : Lasting P) (hh : h.KeepsGenerators h')
    (hcount : h'.processes.count = h.processes.count) (hnow : P log h) :
    P (log ++ [.acted h h']) h' :=
  hP.idle log _ h' (by simpa using hcount) (hP.rely log h h' hh hnow)

/-- A result that is no internal error. -/
def Frank {α : Type} (res : Except Error α) : Prop := ∀ e, res = .error e → ¬e.IsInternal

theorem frank_ok {α : Type} (a : α) : Frank (.ok a : Except Error α) := nofun

theorem frank_error {α : Type} {e : Error} (he : ¬e.IsInternal) :
    Frank (.error e : Except Error α) := by
  rintro _ ⟨⟩
  exact he

/-- The manner of who looks and talks, and asks no generator. -/
def chatting : Manner := Prog.talking fun c ↦ Host.naming? c = none

/-- The action looks and talks, asks no generator, and fails with no internal error. -/
def Chats {α : Type} (x : Action α) : Prop :=
  ∀ log h, x.run.Abides chatting (fun _ _ ↦ Frank) log h

namespace Chats

variable {α β : Type}

theorem andThen {x : Action α} {f : α → Action β} (hx : Chats x) (hf : ∀ a, Chats (f a)) :
    Chats (x >>= f) := by
  refine fun log h ↦ .andThen ((hx log h).mono fun log h res hres ↦ ?_)
  cases res with
  | ok a => exact hf a log h
  | error e => exact frank_error (hres e rfl)

theorem rescue {x : Action α} {f : Error → Action α} (hx : Chats x)
    (hf : ∀ e, ¬e.IsInternal → Chats (f e)) : Chats (tryCatch x f) := by
  refine fun log h ↦ .rescue ((hx log h).mono fun log h res hres ↦ ?_)
  cases res with
  | ok a => exact hres
  | error e => exact hf e (hres e rfl) log h

/-- Whoever keeps to the manner of a client may chat meanwhile. -/
theorem abides {P : List Feat → Host → Prop} {x : Action α} {log : List Feat} {h : Host}
    (hx : Chats x) (hP : Lasting P) (hnow : P log h) :
    (x.run.inPlace Host.naming?).Abides naming (fun log h res ↦ P log h ∧ Frank res) log h := by
  rw [Prog.inPlace_eq_self (hx log h)]
  refine (hx log h).of_talking hP.rely (fun log h hnow ↦ ⟨.kept (.refl h), ?_⟩)
    (fun log h c _ hnow ↦ ⟨trivial, fun r ↦ ?_⟩) hnow
  · exact hP.idle log _ h (by simp) hnow
  · exact hP.idle log _ h (by simp) hnow

/-- What is done after a chat, unless it fails. -/
theorem andThen_abides {P : List Feat → Host → Prop} {R : List Feat → Host → Except Error β → Prop}
    {x : Action α} {f : α → Action β} {log : List Feat} {h : Host} (hx : Chats x) (hP : Lasting P)
    (hnow : P log h) (hok : ∀ log h a, P log h →
      ((f a).run.inPlace Host.naming?).Abides naming R log h)
    (herror : ∀ log h e, P log h → ¬e.IsInternal → R log h (.error e)) :
    ((x >>= f).run.inPlace Host.naming?).Abides naming R log h := by
  refine .andThen_inPlace ((hx.abides hP hnow).mono ?_)
  rintro log h res ⟨hnow, hres⟩
  cases res with
  | ok a => exact hok log h a hnow
  | error e => exact herror log h e hnow (hres e rfl)

end Chats

namespace Host

variable {α : Type} {log : List Feat} {h : Host} {m : ManagerRef} {ctx : ContextRef} {id : String}

theorem throw_chats {e : Error} (he : ¬e.IsInternal) : Chats (throw e : Action α) :=
  fun _ _ ↦ frank_error he

theorem inspect_chats {f : Host → Except Error α} (hf : ∀ h, Frank (f h)) : Chats (inspect f) :=
  fun _ _ h _ ↦ ⟨rfl, hf h⟩

theorem log_chats (level : LogLevel) (message : String) (entries : Entries) :
    Chats (Host.log level message entries) := fun _ _ ↦ ⟨rfl, fun _ ↦ frank_ok ()⟩

theorem announce_chats (topic : String) (p : ProcessRef) : Chats (announce topic p) :=
  fun _ _ _ _ ↦ ⟨rfl, rfl, fun _ ↦ frank_ok ()⟩

theorem checkContext_chats (ctx : ContextRef) : Chats (checkContext ctx) := by
  refine inspect_chats fun h ↦ ?_
  rintro e he ⟨text, rfl⟩
  unfold Contexts.check at he
  split at he <;> cases he

theorem rollback_chats (cs : List (String × Component)) : Chats (rollback ctx id cs) := by
  induction cs with
  | nil => exact fun _ _ ↦ frank_ok ()
  | cons x rest ih =>
    refine fun log h ↦ .andThen (.rescue ⟨rfl, fun res ↦ ?_⟩)
    cases res with
    | ok _ => exact ih _ _
    | error e => exact ⟨rfl, fun _ ↦ ih _ _⟩

/-- What fails while a component is set up is wrapped. -/
theorem prepare_chats (config : ComponentConfig) : Chats (prepare ctx id config) := by
  have hfactory (h : Host) : Frank (h.registry.factory config.factory) := by
    rintro e he ⟨text, rfl⟩
    unfold Registry.factory at he
    split at he <;> cases he
  have hwrapped (e : Error) : ¬(Error.componentInitFailed id config.name e).IsInternal := by
    rintro ⟨text, htext⟩
    cases htext
  refine .andThen (inspect_chats hfactory) fun f log h ↦ .rescue ⟨rfl, fun res ↦ ?_⟩
  cases res with
  | error e => exact frank_error (hwrapped e)
  | ok c =>
    refine ⟨rfl, fun res ↦ ?_⟩
    cases res with
    | error e => exact frank_error (hwrapped e)
    | ok _ => exact frank_ok c

theorem prepareAll_chats (prepared : List (String × Component)) (configs : List ComponentConfig) :
    Chats (prepareAll ctx id prepared configs) := by
  induction configs generalizing prepared with
  | nil => exact fun _ _ ↦ frank_ok _
  | cons config rest ih =>
    refine .andThen (.rescue (prepare_chats config) fun e he ↦ ?_) fun c ↦ ih _
    exact .andThen (log_chats _ _ _) fun _ ↦ .andThen (rollback_chats prepared) fun _ ↦
      throw_chats he

/-! ### Requests -/

theorem validate_chats (config : ProcessConfig) : Chats (Action.ofExcept config.validate) := by
  have hnames (seen : List String) (cs : List ComponentConfig) :
      Frank (ProcessConfig.checkNames seen cs) := by
    induction cs generalizing seen with
    | nil => exact frank_ok ()
    | cons c rest ih =>
      unfold ProcessConfig.checkNames
      split_ifs
      · exact frank_error (by simp [Error.IsInternal])
      · exact frank_error (by simp [Error.IsInternal])
      · exact ih _
  refine fun log h ↦ (?_ : Frank config.validate)
  unfold ProcessConfig.validate
  split
  · exact frank_error (by simp [Error.IsInternal])
  · exact hnames [] _

theorem generateId_inPlace (g : GeneratorRef) : (generateId g).run.inPlace naming? =
    .act (·.drawing g) fun h ↦ .done (h.generators.get g).next.1 := rfl

theorem drawn?_drawing (h : Host) (g : GeneratorRef) :
    (Feat.acted h (h.drawing g)).drawn? g = (h.generators.get g).next.1.toOption := by
  simp [Feat.drawn?, drawing]

/-- Who is handed out an identifier bears it. -/
theorem generateId_abides (hfresh : ¬HasRecorded log) :
    ((generateId (h.managers.get m).generator).run.inPlace naming?).Abides naming
      (fun log h res ↦ Frank res ∧ ∀ id, res = .ok id → Bears m id log h) log h := by
  rw [generateId_inPlace]
  intro h' hh'
  refine ⟨.drew _, fun e he ↦ IdGenerator.not_isInternal_of_next he, fun id hid ↦ ⟨?_, ?_⟩⟩
  · have hgenerator : ((h'.drawing (h.managers.get m).generator).managers.get m).generator =
        (h.managers.get m).generator := hh' m
    rw [hgenerator, drawnIn_append]
    refine List.mem_append_right _ (List.mem_filterMap.mpr ⟨_, List.mem_singleton_self _, ?_⟩)
    rw [drawn?_drawing, hid, Except.toOption]
  · exact lasting_not_hasRecorded.acted (fun _ ↦ rfl) rfl hfresh

/-- The process is recorded, or its identifier is found taken. -/
theorem recordProcess_abides {P : Process} (hbears : Bears m P.id log h) :
    ((recordProcess m P).run.inPlace naming?).Abides naming
      (fun log _ res ↦ (∃ p, res = .ok (some p)) ∨ res = .ok none ∧ Clashed m log) log h := by
  intro h' hh'
  have hbears' : Bears m P.id log h' := (lasting_bears m P.id).rely log h h' hh' hbears
  cases htaken : (h'.managers.get m).recorded.contains P.id with
  | true =>
    simp only [htaken, if_true]
    refine ⟨.kept (.refl h'), .inr ⟨rfl, log, h', P.id, List.prefix_refl _, hbears', htaken⟩⟩
  | false =>
    simp only [htaken, Bool.false_eq_true, if_false]
    exact ⟨.recorded m hbears'.1 hbears'.2, .inl ⟨_, rfl⟩⟩

/-- What is done once an identifier is there. -/
def createNamed (m : ManagerRef) (ctx : ContextRef) (config : ProcessConfig) (id : String) :
    Action ProcessRef := do
  let prepared ← prepareAll ctx id [] config.components
  let seq ← takeSeq m
  let now ← .of (.gets (·.now))
  let recorded ← recordProcess m { id, config, components := prepared, createdAt := now, seq }
  match recorded with
  | none => do
    rollback ctx id prepared
    throw (.internal ("generated process id " ++ Error.quoted id ++ " is already in use"))
  | some p => do
    Host.log .info "process initialized" (fields [
      ("process_id", .str id), ("components", .strings config.names)])
    announce Topic.processInitialized p
    return p

theorem createProcess_eq (m : ManagerRef) (ctx : ContextRef) (config : ProcessConfig) :
    createProcess m ctx config = Action.ofExcept config.validate >>= fun _ ↦
      checkContext ctx >>= fun _ ↦
        Action.of (.gets fun h ↦ (h.managers.get m).generator) >>= fun generator ↦
          generateId generator >>= createNamed m ctx config := rfl

theorem createNamed_abides (hbears : Bears m id log h) (config : ProcessConfig) :
    ((createNamed m ctx config id).run.inPlace naming?).Abides naming
      (fun log _ res ↦ Frank res ∨ Clashed m log) log h := by
  have hlasting := lasting_bears m id
  refine (prepareAll_chats [] _).andThen_abides hlasting hbears (fun log h prepared hbears ↦ ?_)
    fun _ _ _ _ he ↦ .inl (frank_error he)
  refine .andThen_inPlace fun h₁ hh₁ ↦ ⟨.kept (keepsNames_counted h₁ m), ?_⟩
  have hbears₁ := hlasting.acted (keepsNames_counted h₁ m).generator rfl
    (hlasting.rely log h h₁ hh₁ hbears)
  refine .andThen_inPlace fun h₂ hh₂ ↦ ⟨.kept (.refl h₂), ?_⟩
  have hbears₂ := hlasting.acted (KeepsNames.refl h₂).generator rfl
    (hlasting.rely _ _ h₂ hh₂ hbears₁)
  refine .andThen_inPlace ((recordProcess_abides hbears₂).mono ?_)
  rintro log h res (⟨p, rfl⟩ | ⟨rfl, hclashed⟩)
  · refine (log_chats _ _ _).andThen_abides lasting_true trivial (fun log h _ _ ↦ ?_)
      fun _ _ _ _ he ↦ .inl (frank_error he)
    exact (announce_chats _ _).andThen_abides lasting_true trivial
      (fun _ _ _ _ ↦ .inl (frank_ok p)) fun _ _ _ _ he ↦ .inl (frank_error he)
  · exact (rollback_chats prepared).andThen_abides (lasting_clashed m) hclashed
      (fun _ _ _ hclashed ↦ .inr hclashed) fun _ _ _ hclashed _ ↦ .inr hclashed

/-- A process is created, or there is another reason than that its identifier was found taken. -/
theorem createProcess_abides (m : ManagerRef) (ctx : ContextRef) (config : ProcessConfig)
    (h : Host) : ((createProcess m ctx config).run.inPlace naming?).Abides naming
      (fun log _ res ↦ Frank res ∨ Clashed m log) [] h := by
  have hnothing : ¬HasRecorded [] := by simp [HasRecorded]
  rw [createProcess_eq]
  refine (validate_chats config).andThen_abides lasting_not_hasRecorded hnothing
    (fun log h _ hfresh ↦ ?_) fun _ _ _ _ he ↦ .inl (frank_error he)
  refine (checkContext_chats ctx).andThen_abides lasting_not_hasRecorded hfresh
    (fun log h _ hfresh ↦ ?_) fun _ _ _ _ he ↦ .inl (frank_error he)
  -- the generator is looked up, and then asked
  refine .andThen_inPlace fun h₁ _ ↦ ⟨.kept (.refl h₁), ?_⟩
  have hfresh₁ := lasting_not_hasRecorded.acted (KeepsNames.refl h₁).generator rfl hfresh
  refine .andThen_inPlace ((generateId_abides hfresh₁).mono ?_)
  rintro log h res ⟨hres, hbears⟩
  cases res with
  | error e => exact .inl (frank_error (hres e rfl))
  | ok id => exact createNamed_abides (hbears id rfl) config

end Host

/-- Nobody else has to do with managers and generators, and these answer in place. -/
instance : Errand Request Outcome where
  program r := r.program.inPlace Host.naming?
  spared before after := { after with
    managers := before.managers
    processes := before.processes
    generators := before.generators }

namespace Request

/-- Who creates nothing asks no generator, and records nothing. -/
theorem keepsNames_acts {r : Request} (hr : ∀ m ctx config, r ≠ .create m ctx config) :
    r.program.Acts Host.KeepsNames := by
  refine r.atLarge.acts_of (fun h b h' b' hdeal ↦ ?_) (fun _ _ _ ↦ .of_same rfl rfl rfl)
    fun _ _ _ _ _ _ ↦ .of_same rfl rfl rfl
  cases hdeal with
  | nothing | found => exact .refl h
  | counted | dropped | recorded => exact absurd rfl (hr _ _ _)
  | removed => exact Host.keepsNames_forgetting h _ _

/-- Every request goes about its identifiers so. One that creates a process does not fail for its
identifier, unless it has found it taken. -/
theorem names_abides (r : Request) (h : Host) :
    (Errand.program r).Abides naming (fun log _ o ↦ ∀ m ctx config, r = .create m ctx config →
      Frank o ∨ Clashed m log) [] h := by
  by_cases hr : ∃ m ctx config, r = .create m ctx config
  · obtain ⟨m, ctx, config, rfl⟩ := hr
    refine .andThen_inPlace ((Host.createProcess_abides m ctx config h).mono ?_)
    rintro log h res hres
    cases res with
    | ok p => exact fun _ _ _ _ ↦ .inl (frank_ok _)
    | error e =>
      rintro _ _ _ ⟨⟩
      exact hres.imp_left fun hfrank ↦ frank_error (hfrank e rfl)
  · have hkeeps : r.program.Acts Host.KeepsNames :=
      keepsNames_acts fun m ctx config hcreate ↦ hr ⟨m, ctx, config, hcreate⟩
    have hacts : (Errand.program r).Acts fun h h' ↦ h.KeepsNames h' ∨ ∃ g, h' = h.drawing g := by
      refine (hkeeps.mono fun _ _ ↦ .inl).inPlace fun c y hy ↦ ?_
      cases c with
      | generateId g =>
        cases hy
        exact .act (fun h ↦ .inr ⟨g, rfl⟩) fun _ ↦ .done _
      | _ => cases hy
    refine (hacts.abides (P := fun _ ↦ True) (fun log h h' _ hact ↦ ⟨?_, trivial⟩)
      (fun _ _ ↦ trivial) (fun _ ↦ trivial) (fun _ _ _ _ ↦ trivial) trivial).mono
      fun _ _ _ _ m ctx config hcreate ↦ absurd ⟨m, ctx, config, hcreate⟩ hr
    obtain hkept | ⟨g, rfl⟩ := hact
    · exact .kept hkept
    · exact .drew g

end Request

namespace Crowd

section

variable {ε ρ : Type} {s : Crowd ε ρ} {g : GeneratorRef} {i : Nat} {id : String}

/-- What a generator has handed out, each with the client it was given to, the latest first. -/
def draws (s : Crowd ε ρ) (g : GeneratorRef) : List (Nat × String) :=
  s.past.filterMap fun x ↦ (x.2.drawn? g).map (x.1, ·)

/-- The identifiers that a generator has handed out, the latest first. -/
def issued (s : Crowd ε ρ) (g : GeneratorRef) : List String := (s.draws g).map Prod.snd

theorem mem_draws : (i, id) ∈ s.draws g ↔ id ∈ drawnIn g (s.feats i) := by
  simp only [draws, drawnIn, feats, List.mem_filterMap, List.mem_reverse, List.mem_map,
    List.mem_filter, Option.map_eq_some_iff, Prod.mk.injEq, beq_iff_eq]
  constructor
  · rintro ⟨⟨j, feat⟩, hmem, id', hdrawn, rfl, rfl⟩
    exact ⟨feat, ⟨⟨j, feat⟩, ⟨hmem, rfl⟩, rfl⟩, hdrawn⟩
  · rintro ⟨feat, ⟨⟨j, feat'⟩, ⟨hmem, rfl⟩, rfl⟩, hdrawn⟩
    exact ⟨⟨j, feat'⟩, hmem, id, hdrawn, rfl, rfl⟩

theorem issued_moved (e : ε) (feat : Feat) (h : Host) (task : Task ρ) :
    (s.moved i e feat h task).issued g = (feat.drawn? g).toList ++ s.issued g := by
  cases hdrawn : feat.drawn? g <;> simp [issued, draws, moved, hdrawn]

end

variable {s t : Crowd Request Outcome} {h h' : Host} {g : GeneratorRef} {stem : String} {i : Nat}
  {m : ManagerRef} {r : Request} {A : Crowd Request Outcome → Move Request → Prop}

/-- Every client goes about its request in this manner. -/
theorem Later.stands_naming {c : Client Request Outcome} (hlater : Later A { host := h } s)
    (hi : s.clients[i]? = some c) :
    s.Stands naming (fun log _ o ↦ ∀ m ctx config, c.errand = .create m ctx config →
      Frank o ∨ Clashed m log) i c.task :=
  hlater.stands_all (M := fun _ ↦ naming) Request.names_abides
    (fun _ _ _ _ _ hact ↦ Host.Names.keepsGenerators hact) (fun _ _ _ _ ↦ rfl) hi

theorem Later.names {x rest : Prog Host Outcome} (hlater : Later A { host := h } s)
    (hi : s.clients[i]? = some ⟨r, .going x⟩) (hx : x.next? s.host = some (h', rest)) :
    Host.Names (s.feats i) s.host h' := (hlater.stands_naming hi).act hx

/-- Managers use one generator all the time. -/
theorem Later.keepsGenerators (hlater : Later A { host := h } s) : h.KeepsGenerators s.host := by
  refine hlater.hosts (R := Host.KeepsGenerators) (fun _ _ ↦ rfl)
    (fun hh hh' m ↦ (hh' m).trans (hh m)) fun hu _ hstep ↦ ?_
  cases happens_of_step hstep with
  | arrived | changed | asked | answered => exact fun _ ↦ rfl
  | acted hi hx => exact (hu.names hi hx).keepsGenerators

/-- A generator that counts, and what it has handed out. -/
structure Counts (stem : String) (g : GeneratorRef) (s : Crowd Request Outcome) : Prop where
  generator : s.host.generators.get g = .sequential stem (.ofNat (s.issued g).length)
  issued : s.issued g = ((List.range (s.issued g).length).map (IdGenerator.numbered stem)).reverse

theorem Counts.of_same (hs : s.Counts stem g) (hgenerator : t.host.generators.get g =
    s.host.generators.get g) (hissued : t.issued g = s.issued g) : t.Counts stem g where
  generator := by rw [hgenerator, hissued, hs.generator]
  issued := by
    rw [hissued]
    exact hs.issued

theorem Counts.drawn (hs : s.Counts stem g)
    (hgenerator : t.host.generators.get g = .sequential stem (.ofNat (s.issued g).length + 1))
    (hissued : t.issued g = IdGenerator.numbered stem (s.issued g).length :: s.issued g) :
    t.Counts stem g where
  generator := by
    rw [hgenerator, hissued, List.length_cons, UInt64.ofNat_add]
    rfl
  issued := by
    rw [hissued, List.length_cons, List.range_succ, List.map_append, List.reverse_append,
      ← hs.issued]
    rfl

theorem Later.counts (hstem : stem ≠ "") (hg : h.generators.get g = .sequential stem 0)
    (hlater : Later A { host := h } s) : s.Counts stem g := by
  induction hlater with
  | refl => exact ⟨hg, rfl⟩
  | @tail u v hlater hnext ih =>
    obtain ⟨m, -, hstep⟩ := hnext
    cases happens_of_step hstep with
    | arrived | changed => exact ih.of_same rfl rfl
    | asked | answered => exact ih.of_same rfl (issued_moved ..)
    | acted hi hx =>
      obtain ⟨hsame, hnone⟩ | ⟨hnext, hsome⟩ :=
        (Later.names hlater hi hx).counts hstem ih.generator
      · refine ih.of_same (hsame.trans ih.generator.symm) ?_
        rw [issued_moved, hnone]
        rfl
      · refine ih.drawn hnext ?_
        rw [issued_moved, hsome]
        rfl

theorem Counts.ne_empty (hs : s.Counts stem g) (hstem : stem ≠ "") :
    ∀ id ∈ s.issued g, id ≠ "" := by
  intro id hid
  rw [hs.issued, List.mem_reverse, List.mem_map] at hid
  obtain ⟨k, -, rfl⟩ := hid
  exact IdGenerator.numbered_ne_empty hstem k

theorem Counts.nodup (hs : s.Counts stem g) (hfew : (s.issued g).length < 2 ^ 64) :
    (s.issued g).Nodup := by
  rw [hs.issued, List.nodup_reverse]
  refine List.Nodup.map_on (fun i hi j hj heq ↦ ?_) List.nodup_range
  exact IdGenerator.numbered_inj (Nat.lt_trans (List.mem_range.mp hi) hfew)
    (Nat.lt_trans (List.mem_range.mp hj) hfew) heq

/-- What is recorded was handed out to a client that has recorded. -/
theorem Later.named (hunused : h.Unused) (hlater : Later A { host := h } s) {id : String}
    {p : ProcessRef} (hmem : (id, p) ∈ (s.host.managers.get m).recorded) :
    ∃ i, id ∈ drawnIn (h.managers.get m).generator (s.feats i) ∧ HasRecorded (s.feats i) := by
  induction hlater generalizing m id p with
  | refl => simp [hunused.no_record] at hmem
  | @tail u v hlater hnext ih =>
    obtain ⟨move, -, hstep⟩ := hnext
    have hhappens := happens_of_step hstep
    have hold (hmem : (id, p) ∈ (u.host.managers.get m).recorded) :
        ∃ i, id ∈ drawnIn (h.managers.get m).generator (v.feats i) ∧ HasRecorded (v.feats i) := by
      obtain ⟨i, hdrawn, hrecorded⟩ := ih hmem
      obtain ⟨xs, hxs, -⟩ := hhappens.exists_feats i
      refine ⟨i, ?_, hxs ▸ hasRecorded_append.mpr (.inl hrecorded)⟩
      rw [hxs, drawnIn_append]
      exact List.mem_append_left _ hdrawn
    cases hhappens with
    | arrived | changed | asked | answered => exact hold hmem
    | @acted i _ _ _ _ hi hx =>
      obtain hbefore | ⟨hdrawn, hrecorded⟩ := (Later.names hlater hi hx).mem_recorded hmem
      · exact hold hbefore
      · refine ⟨i, ?_, by rwa [feats_moved_self]⟩
        rw [feats_moved_self, drawnIn_append, ← Later.keepsGenerators hlater m]
        exact List.mem_append_left _ hdrawn

theorem Later.draws_suffix (hlater : Later A s t) : s.draws g <:+ t.draws g := by
  obtain ⟨xs, hxs⟩ := hlater.exists_past
  rw [draws, draws, hxs, List.filterMap_append]
  exact List.suffix_append _ _

/-- Nobody finds its identifier taken: it would have been handed out twice. -/
theorem Later.not_clashed (hunused : h.Unused) (hlater : Later A { host := h } s)
    (hnodup : (s.issued (h.managers.get m).generator).Nodup) : ¬Clashed m (s.feats i) := by
  rintro ⟨before, h', id, hlog, ⟨hdrawn, hfirst⟩, htaken⟩
  obtain ⟨u, v, hu, hA, hstep, hv, rfl, rfl, -⟩ := hlater.exists_act_after rfl hlog
  have hbound : id ∈ (u.host.managers.get m).recorded.map Prod.fst := by
    by_contra hfree
    rw [Table.contains_eq_false_iff.mpr hfree] at htaken
    cases htaken
  obtain ⟨⟨_, p⟩, hmem, rfl⟩ := List.mem_map.mp hbound
  obtain ⟨j, hdrawn', hrecorded⟩ := hu.named hunused hmem
  rw [hu.keepsGenerators m] at hdrawn
  have hus : Later A u s := .head ⟨_, hA, hstep⟩ hv
  have hsuffix := hus.draws_suffix (g := (h.managers.get m).generator)
  have hsame := List.inj_on_of_nodup_map (hnodup.sublist (hsuffix.sublist.map Prod.snd))
    (mem_draws.mpr hdrawn) (mem_draws.mpr hdrawn') rfl
  cases hsame
  exact hfirst hrecorded

/-- What a generator has handed out is not empty and told apart, and so is what its managers have
recorded: nothing fails for an identifier that is taken. -/
structure NamesApart (h : Host) (g : GeneratorRef) (s : Crowd Request Outcome) : Prop where
  issued_ne : ∀ id ∈ s.issued g, id ≠ ""
  issued_nodup : (s.issued g).Nodup
  recorded : ∀ m id p, (h.managers.get m).generator = g →
    (id, p) ∈ (s.host.managers.get m).recorded → id ∈ s.issued g
  created : ∀ i m ctx config text, (h.managers.get m).generator = g →
    s.finished? i ≠ some (.create m ctx config, .error (.internal text))

/-- However clients of managers interleave that share a generator or do not, and whatever was
created, has failed or was removed, as long as the generator's counter does not start over. -/
theorem namesApart (hunused : h.Unused) (hg : h.generators.get g = .sequential stem 0)
    (hstem : stem ≠ "") (hlater : Later Freely { host := h } s)
    (hfew : (s.issued g).length < 2 ^ 64) : s.NamesApart h g := by
  have hcounts := hlater.counts hstem hg
  refine ⟨hcounts.ne_empty hstem, hcounts.nodup hfew, ?_, ?_⟩
  · rintro m id p rfl hmem
    obtain ⟨i, hdrawn, -⟩ := hlater.named hunused hmem
    exact List.mem_map_of_mem (mem_draws.mpr hdrawn)
  · rintro i m ctx config text rfl hi
    obtain ⟨_, -, hends⟩ := (hlater.stands_naming (getElem?_of_finished? hi)).done
    obtain hfrank | hclashed := hends m ctx config rfl
    · exact hfrank _ rfl ⟨text, rfl⟩
    · exact hlater.not_clashed hunused (hcounts.nodup hfew) hclashed

end Crowd

/-! ### Managers that share a generator -/

namespace Small

open Crowd

/-- Two managers share a generator, and a third has one of its own. -/
def sharingHost : Host :=
  let (_, generators) := host.generators.add (.sequential "p1" 0)
  let (_, managers) := host.managers.add { generator := 0 }
  let (_, managers) := managers.add { generator := 1 }
  { host with generators, managers }

theorem sharingHost_unused : sharingHost.Unused := by
  refine ⟨rfl, fun m ↦ ?_⟩
  have hnone := host_unused.no_record m
  simp only [sharingHost, Store.add]
  grind

/-- No component of this name can be built. -/
def answersWithout (name : String) : (call : Call) → call.Reply
  | .create _ config =>
    if config.name = name then .error .cancelled else .ok (component config.name)
  | call => answers call

/-- While a process is created by one manager, the other that shares its generator fails to create
one. Then this manager creates a process, removes it, and creates another, and so does the third. -/
def sharing : Crowd Request Outcome :=
  ({ host := sharingHost } : Crowd Request Outcome).after <| List.flatten [
    .arrive (.create 0 0 config) :: Move.plays 0 answers 5,
    .arrive (.create 1 0 config) :: Move.plays 1 (answersWithout "b") 30,
    Move.plays 0 answers 30,
    .arrive (.create 1 0 config) :: Move.plays 2 answers 30,
    .arrive (.remove 1 "p3") :: Move.plays 3 answers 10,
    .arrive (.create 1 0 config) :: Move.plays 4 answers 30,
    .arrive (.create 2 0 config) :: Move.plays 5 answers 30]

theorem sharing_namesApart :
    sharingHost.Unused ∧ sharingHost.generators.get 0 = .sequential "p" 0 ∧ "p" ≠ "" ∧
      (sharing.issued 0).length < 2 ^ 64 ∧ sharing.NamesApart sharingHost 0 ∧
      sharing.issued 0 = ["p4", "p3", "p2", "p1"] ∧ sharing.issued 1 = ["p11"] ∧
      (List.range 3).map (fun m ↦ (sharing.host.managers.get m).recorded.map Prod.fst) =
        [["p1"], ["p4"], ["p11"]] ∧
      (sharing.finished? 1).map (·.2) =
        some (.error (.componentInitFailed "p2" "b" .cancelled)) := by
  have hissued : sharing.issued 0 = ["p4", "p3", "p2", "p1"] := by decide +kernel
  have hlength : (sharing.issued 0).length = 4 := by rw [hissued]; rfl
  have hfew : (sharing.issued 0).length < 2 ^ 64 := by omega
  exact ⟨sharingHost_unused, rfl, by decide, hfew,
    namesApart sharingHost_unused rfl (by decide) (later_after ..) hfew, hissued,
    by decide +kernel, by decide +kernel, by decide +kernel⟩

end Small

end ComponentHost
