import ComponentHost.Process.Config
import ComponentHost.Proofs.RecordReading

/-!
Which JSON values declare a process, and what they declare.

A process is declared by an object with its components under one key, or by an array of one item,
the components; none have to be given. A component is declared by an object of texts, some of which
go under several spellings or may be missing, or by an array of them in their order. `IsDeclared`
says so for both, key by key and place by place, and reading accepts exactly these values
(`ProcessConfig.reads_just_declarations`). Whatever else stands in an object makes no difference to
the result, be it a declaration or an error.

What is said of records holds for all of them: with their keys apart each field finds its value in
the object by itself (`Fields.reads_iff_finds`), an array is read place by place
(`RecordShape.decode_arr_eq_ok_iff`), and entries under other keys are passed over
(`Fields.ofEntries_under`).
-/

set_option autoImplicit false

namespace ComponentHost

/-! ### Entries under keys -/

namespace Entries

/-- The entries under one of these keys. -/
def under (entries : Entries) (keys : List String) : Entries :=
  entries.filter fun e ↦ decide (e.1 ∈ keys)

/-- Just one entry is under one of these keys, and it holds this value. -/
def Holds (entries : Entries) (keys : List String) (value : Json) : Prop :=
  ∃ key, entries.under keys = [(key, value)]

/-- No entry is under one of these keys. -/
def Lacks (entries : Entries) (keys : List String) : Prop := entries.under keys = []

end Entries

/-! ### Values of one kind -/

namespace Codec

theorem text_eq_ok_iff {v : Json} {s : String} : text.decode v = .ok s ↔ v = .str s := by
  cases v <;> simp [text]

theorem map_eq_ok_iff {v : Json} {entries : Entries} :
    map.decode v = .ok entries ↔ v = .obj entries := by
  cases v <;> simp [map]

variable {α : Type} {c : Codec α}

theorem decodeItems_eq_ok_iff {items : List Json} {as : List α} :
    c.decodeItems items = .ok as ↔ List.Forall₂ (fun v a ↦ c.decode v = .ok a) items as := by
  induction items generalizing as with
  | nil => cases as <;> simp [decodeItems]
  | cons v rest ih =>
    cases hv : c.decode v with
    | error e => cases as <;> simp [decodeItems, hv, bind, Except.bind]
    | ok a =>
      cases hrest : c.decodeItems rest with
      | error e =>
        cases as <;> simp [decodeItems, hv, hrest, bind, Except.bind, ← ih]
      | ok as' =>
        cases as <;> simp [decodeItems, hv, hrest, bind, Except.bind, pure, Except.pure, ← ih]

theorem list_eq_ok_iff {v : Json} {as : List α} : c.list.decode v = .ok as ↔
    ∃ items, v = .arr items ∧ List.Forall₂ (fun v a ↦ c.decode v = .ok a) items as := by
  cases v <;> simp [list, decodeItems_eq_ok_iff]

/-- Values that are read alike are read alike in a list. -/
theorem decodeItems_map {f : Json → Json} (hf : ∀ v, c.decode (f v) = c.decode v)
    (items : List Json) : c.decodeItems (items.map f) = c.decodeItems items := by
  induction items with
  | nil => rfl
  | cons v rest ih => simp only [List.map_cons, decodeItems, hf, ih]

end Codec

/-! ### Records by key -/

namespace Field

variable {α : Type} {f : Field α} {entries : Entries} {a : α}

/-- All spellings of a field. -/
def keys (f : Field α) : List String := f.name :: f.aliases

theorem named_iff_mem_keys {key : String} : f.named key = true ↔ key ∈ f.keys := by
  simp [named, keys]

theorem taken_eq_under (f : Field α) (entries : Entries) :
    f.taken entries = entries.under f.keys :=
  List.filter_congr fun e _ ↦ Bool.eq_iff_iff.mpr (by simp [named_iff_mem_keys])

/-- A field reads the one value under its keys, or what stands for a missing one. -/
theorem reads_iff_holds : f.Reads entries a ↔
    (∃ v, entries.Holds f.keys v ∧ f.codec.decode v = .ok a) ∨
      entries.Lacks f.keys ∧ f.fill = .ok a := by
  unfold Entries.Holds Entries.Lacks
  rw [← f.taken_eq_under entries]
  constructor
  · rintro (⟨hnone, hfill⟩ | ⟨key, value, hone, hdecode⟩)
    · exact .inr ⟨hnone, hfill⟩
    · exact .inl ⟨value, ⟨key, hone⟩, hdecode⟩
  · rintro (⟨value, ⟨key, hone⟩, hdecode⟩ | ⟨hnone, hfill⟩)
    · exact .given key value hone hdecode
    · exact .missing hnone hfill

/-- What another field has taken was not for this one. -/
theorem reads_leftOver_iff {β : Type} {g : Field β} (hapart : ∀ key ∈ f.keys, g.named key = false) :
    f.Reads (g.leftOver entries) a ↔ f.Reads entries a := by
  have htaken : f.taken (g.leftOver entries) = f.taken entries := by
    unfold taken leftOver
    rw [List.filter_filter]
    refine List.filter_congr fun e _ ↦ ?_
    cases hnamed : f.named e.1 with
    | false => rfl
    | true => simp [hapart e.1 (named_iff_mem_keys.mp hnamed)]
  rw [reads_iff, reads_iff, htaken]

end Field

namespace Fields

variable {τ : Type} {fs : Fields τ} {entries : Entries}

/-- All spellings of all fields. -/
def keys : {τ : Type} → Fields τ → List String
  | _, .nil => []
  | _, .cons f tail => f.keys ++ tail.keys

/-- No two fields have a spelling in common. -/
def distinct : {τ : Type} → Fields τ → Bool
  | _, .nil => true
  | _, .cons f tail => tail.keys.all (fun key ↦ !f.named key) && tail.distinct

/-- Each field finds its value in the whole object. -/
def Finds : {τ : Type} → Fields τ → Entries → τ → Prop
  | _, .nil, _, _ => True
  | _, .cons f tail, entries, (a, rest) => f.Reads entries a ∧ tail.Finds entries rest

theorem finds_leftOver_iff {α : Type} {g : Field α} {t : τ}
    (hapart : ∀ key ∈ fs.keys, g.named key = false) :
    fs.Finds (g.leftOver entries) t ↔ fs.Finds entries t := by
  induction fs with
  | nil => exact Iff.rfl
  | cons f tail ih =>
    obtain ⟨hhead, htail⟩ := List.forall_mem_append.mp hapart
    exact and_congr (Field.reads_leftOver_iff hhead) (ih htail)

/-- With their keys apart the fields do not get into each other's way. -/
theorem reads_iff_finds (hdistinct : fs.distinct = true) {t : τ} :
    fs.Reads entries t ↔ fs.Finds entries t := by
  induction fs generalizing entries with
  | nil => exact Iff.rfl
  | cons f tail ih =>
    obtain ⟨hapart, htail⟩ := Bool.and_eq_true_iff.mp hdistinct
    have hapart : ∀ key ∈ tail.keys, f.named key = false := by simpa using hapart
    exact and_congr_right fun _ ↦ (ih htail).trans (finds_leftOver_iff hapart)

/-- A key of no field is passed over. -/
theorem put_of_not_mem {key : String} (hkey : key ∉ fs.keys) (slots : fs.Slots) (value : Json) :
    fs.put slots key value = .ok slots := by
  induction fs with
  | nil => rfl
  | cons f tail ih =>
    obtain ⟨hhead, htail⟩ := not_or.mp (List.mem_append.not.mp hkey)
    have hnamed : f.named key ≠ true := Field.named_iff_mem_keys.not.mpr hhead
    obtain ⟨slot, slots⟩ := slots
    simp [put, hnamed, ih htail, Except.map]

/-- What is read, or why it is not, is settled by the entries under the keys of the fields. -/
theorem ofEntries_under (fs : Fields τ) (entries : Entries) :
    fs.ofEntries (entries.under fs.keys) = fs.ofEntries entries := by
  have hputs (slots : fs.Slots) :
      fs.putAll slots (entries.under fs.keys) = fs.putAll slots entries := by
    induction entries generalizing slots with
    | nil => rfl
    | cons e rest ih =>
      unfold Entries.under at ih ⊢
      by_cases hkey : e.1 ∈ fs.keys
      · simp only [List.filter_cons, hkey, decide_true, if_true, putAll, ih]
      · simp only [List.filter_cons, hkey, decide_false, Bool.false_eq_true, if_false, putAll,
          put_of_not_mem hkey, ih]
  unfold ofEntries
  rw [hputs]

/-- Values that every field takes alike are read alike. -/
theorem ofEntries_map {g : Json → Json}
    (hput : ∀ slots key value, fs.put slots key (g value) = fs.put slots key value) :
    fs.ofEntries (entries.map fun e ↦ (e.1, g e.2)) = fs.ofEntries entries := by
  have hputs (slots : fs.Slots) :
      fs.putAll slots (entries.map fun e ↦ (e.1, g e.2)) = fs.putAll slots entries := by
    induction entries generalizing slots with
    | nil => rfl
    | cons e rest ih => simp only [List.map_cons, putAll, hput, ih]
  unfold ofEntries
  rw [hputs]

/-! ### Records by place -/

/-- Each field finds its value at its place, or may be missing at the end; nothing is left over. -/
def ReadsItems : {τ : Type} → Fields τ → List Json → τ → Prop
  | _, .nil, items, _ => items = []
  | _, .cons f tail, [], (a, rest) => f.trailing? = some a ∧ tail.ReadsItems [] rest
  | _, .cons f tail, v :: items, (a, rest) =>
    f.codec.decode v = .ok a ∧ tail.ReadsItems items rest

section

variable {α : Type} {f : Field α} {tail : Fields τ} {short : Nat → DecodeError} {place : Nat}
  {a : α} {rest : τ}

theorem ofItems_nil_eq_ok_iff : (Fields.cons f tail).ofItems short place [] = .ok (a, rest) ↔
    f.trailing? = some a ∧ tail.ofItems short (place + 1) [] = .ok rest := by
  cases htrailing : f.trailing? with
  | none => simp [ofItems, htrailing]
  | some b =>
    cases hrest : tail.ofItems short (place + 1) [] <;>
      simp [ofItems, htrailing, hrest, Except.map]

theorem ofItems_cons_eq_ok_iff {v : Json} {items : List Json} :
    (Fields.cons f tail).ofItems short place (v :: items) = .ok (a, rest) ↔
      f.codec.decode v = .ok a ∧ tail.ofItems short (place + 1) items = .ok rest := by
  cases hv : f.codec.decode v with
  | error e => simp [ofItems, hv, bind, Except.bind]
  | ok b =>
    cases hrest : tail.ofItems short (place + 1) items <;>
      simp [ofItems, hv, hrest, bind, Except.bind, pure, Except.pure]

end

theorem ofItems_eq_ok_iff {short : Nat → DecodeError} {place : Nat} {items : List Json} {t : τ} :
    fs.ofItems short place items = .ok t ∧ items.length ≤ fs.count ↔ fs.ReadsItems items t := by
  induction fs generalizing place items with
  | nil => simp [ofItems, ReadsItems, count]
  | cons f tail ih =>
    obtain ⟨a, rest⟩ := t
    cases items with
    | nil =>
      rw [ofItems_nil_eq_ok_iff, ReadsItems, ← @ih (place + 1)]
      simp
    | cons v items =>
      rw [ofItems_cons_eq_ok_iff, ReadsItems, ← @ih (place + 1), and_assoc]
      simp [count]

end Fields

namespace RecordShape

variable {ρ : Type} {shape : RecordShape ρ} {entries : Entries} {items : List Json} {r : ρ}

/-- An object is read key by key, if no two fields have a spelling in common. -/
theorem decode_obj_eq_ok_iff (hdistinct : shape.fields.distinct = true)
    (hto : ∀ t, shape.toTuple (shape.ofTuple t) = t)
    (hof : ∀ r, shape.ofTuple (shape.toTuple r) = r) :
    shape.codec.decode (.obj entries) = .ok r ↔
      shape.fields.Finds entries (shape.toTuple r) := by
  have hentries : shape.codec.decode (.obj entries) =
      (shape.fields.ofEntries entries).map shape.ofTuple := rfl
  rw [hentries, ← Fields.reads_iff_finds hdistinct, ← Fields.ofEntries_eq_ok_iff]
  cases hread : shape.fields.ofEntries entries with
  | error e => simp [Except.map]
  | ok t =>
    simp only [Except.map, Except.ok.injEq]
    exact ⟨fun hr ↦ hr ▸ (hto t).symm, fun ht ↦ ht ▸ hof r⟩

/-- An array is read place by place. -/
theorem decode_arr_eq_ok_iff (hto : ∀ t, shape.toTuple (shape.ofTuple t) = t)
    (hof : ∀ r, shape.ofTuple (shape.toTuple r) = r) :
    shape.codec.decode (.arr items) = .ok r ↔
      shape.fields.ReadsItems items (shape.toTuple r) := by
  have hitems : shape.codec.decode (.arr items) = shape.ofItems items := rfl
  have hreads (t : shape.τ) : shape.fields.ofItems shape.tooShort 0 items = .ok t ∧
      items.length ≤ shape.fields.count ↔ shape.fields.ReadsItems items t :=
    Fields.ofItems_eq_ok_iff
  rw [hitems, ← hreads]
  unfold ofItems
  cases hread : shape.fields.ofItems shape.tooShort 0 items with
  | error e => simp [bind, Except.bind]
  | ok t =>
    have htuple : t = shape.toTuple r ↔ shape.ofTuple t = r :=
      ⟨fun ht ↦ ht ▸ hof r, fun hr ↦ hr ▸ (hto t).symm⟩
    by_cases hlong : items.length > shape.fields.count
    · have hnot : ¬items.length ≤ shape.fields.count := Nat.not_le.mpr hlong
      simp [bind, Except.bind, hlong, hnot]
    · have hfits : items.length ≤ shape.fields.count := Nat.not_lt.mp hlong
      simp [bind, Except.bind, hlong, hfits, pure, Except.pure, htuple]

end RecordShape

/-! ### Components -/

namespace ComponentConfig

/-- The value declares this component. -/
inductive IsDeclared : Json → ComponentConfig → Prop where
  | byKey {entries : Entries} {c : ComponentConfig}
      (hid : entries.Holds ["id"] (.str c.id))
      (hname : entries.Holds ["name"] (.str c.name))
      (hdescription : entries.Holds ["description"] (.str c.description) ∨
        entries.Lacks ["description"] ∧ c.description = "")
      (hfactory : entries.Holds ["factoryId", "factoryID", "factory_id"] (.str c.factory))
      (hcustom : entries.Holds ["customConfig", "custom_config"] (.obj c.custom) ∨
        entries.Lacks ["customConfig", "custom_config"] ∧ c.custom = []) :
      IsDeclared (.obj entries) c
  | byPlace (id name description factory : String) :
      IsDeclared (.arr [.str id, .str name, .str description, .str factory])
        ⟨id, name, description, factory, []⟩
  | byPlaceWithCustom (id name description factory : String) (custom : Entries) :
      IsDeclared (.arr [.str id, .str name, .str description, .str factory, .obj custom])
        ⟨id, name, description, factory, custom⟩

theorem finds_iff {entries : Entries} {c : ComponentConfig} :
    shape.fields.Finds entries (shape.toTuple c) ↔
      entries.Holds ["id"] (.str c.id) ∧ entries.Holds ["name"] (.str c.name) ∧
      (entries.Holds ["description"] (.str c.description) ∨
        entries.Lacks ["description"] ∧ c.description = "") ∧
      entries.Holds ["factoryId", "factoryID", "factory_id"] (.str c.factory) ∧
      (entries.Holds ["customConfig", "custom_config"] (.obj c.custom) ∨
        entries.Lacks ["customConfig", "custom_config"] ∧ c.custom = []) := by
  obtain ⟨id, name, description, factory, custom⟩ := c
  simp [shape, Fields.Finds, Field.reads_iff_holds, Field.keys, Field.fill, Codec.text_eq_ok_iff,
    Codec.map_eq_ok_iff]

theorem readsItems_iff {items : List Json} {c : ComponentConfig} :
    shape.fields.ReadsItems items (shape.toTuple c) ↔
      items = [.str c.id, .str c.name, .str c.description, .str c.factory] ∧ c.custom = [] ∨
        items = [.str c.id, .str c.name, .str c.description, .str c.factory, .obj c.custom] := by
  obtain ⟨id, name, description, factory, custom⟩ := c
  rcases items with _ | ⟨v₁, _ | ⟨v₂, _ | ⟨v₃, _ | ⟨v₄, _ | ⟨v₅, _ | ⟨v₆, rest⟩⟩⟩⟩⟩⟩ <;>
    simp [shape, Fields.ReadsItems, Field.trailing?, Codec.text_eq_ok_iff, Codec.map_eq_ok_iff,
      and_assoc]

/-- Components are read from just what declares them. -/
theorem decode_eq_ok_iff {v : Json} {c : ComponentConfig} :
    codec.decode v = .ok c ↔ IsDeclared v c := by
  cases v with
  | obj entries =>
    have hfinds : codec.decode (.obj entries) = .ok c ↔ _ :=
      RecordShape.decode_obj_eq_ok_iff rfl (fun _ ↦ rfl) fun _ ↦ rfl
    rw [hfinds, finds_iff]
    constructor
    · rintro ⟨hid, hname, hdescription, hfactory, hcustom⟩
      exact .byKey hid hname hdescription hfactory hcustom
    · rintro ⟨hid, hname, hdescription, hfactory, hcustom⟩
      exact ⟨hid, hname, hdescription, hfactory, hcustom⟩
  | arr items =>
    have hreads : codec.decode (.arr items) = .ok c ↔ _ :=
      RecordShape.decode_arr_eq_ok_iff (fun _ ↦ rfl) fun _ ↦ rfl
    rw [hreads, readsItems_iff]
    obtain ⟨id, name, description, factory, custom⟩ := c
    constructor
    · rintro (⟨rfl, rfl⟩ | rfl)
      · exact .byPlace id name description factory
      · exact .byPlaceWithCustom id name description factory custom
    · intro h
      cases h with
      | byPlace => exact .inl ⟨rfl, rfl⟩
      | byPlaceWithCustom => exact .inr rfl
  | null | bool b | num n | str s => exact ⟨nofun, nofun⟩

/-- What of a value reading looks at: in an object the entries under the keys of a component. -/
def relevant : Json → Json
  | .obj entries => .obj (Entries.under entries ["id", "name", "description", "factoryId",
      "factoryID", "factory_id", "customConfig", "custom_config"])
  | v => v

theorem decode_relevant (v : Json) : codec.decode (relevant v) = codec.decode v := by
  cases v with
  | obj entries => exact congrArg (Except.map shape.ofTuple) (shape.fields.ofEntries_under entries)
  | null | bool b | num n | str s | arr items => rfl

end ComponentConfig

/-! ### Processes -/

namespace ProcessConfig

/-- The value declares this process. -/
inductive IsDeclared : Json → ProcessConfig → Prop where
  | byKey {entries : Entries} {items : List Json} {components : List ComponentConfig}
      (hholds : entries.Holds ["components"] (.arr items))
      (hitems : List.Forall₂ ComponentConfig.IsDeclared items components) :
      IsDeclared (.obj entries) ⟨components⟩
  | withoutKey {entries : Entries} (hlacks : entries.Lacks ["components"]) :
      IsDeclared (.obj entries) ⟨[]⟩
  | byPlace {items : List Json} {components : List ComponentConfig}
      (hitems : List.Forall₂ ComponentConfig.IsDeclared items components) :
      IsDeclared (.arr [.arr items]) ⟨components⟩
  | nothing : IsDeclared (.arr []) ⟨[]⟩

theorem components_eq_ok_iff {v : Json} {components : List ComponentConfig} :
    ComponentConfig.codec.list.decode v = .ok components ↔
      ∃ items, v = .arr items ∧ List.Forall₂ ComponentConfig.IsDeclared items components := by
  simp only [Codec.list_eq_ok_iff, ComponentConfig.decode_eq_ok_iff]

theorem finds_iff {entries : Entries} {config : ProcessConfig} :
    shape.fields.Finds entries (shape.toTuple config) ↔
      (∃ items, entries.Holds ["components"] (.arr items) ∧
        List.Forall₂ ComponentConfig.IsDeclared items config.components) ∨
      entries.Lacks ["components"] ∧ config.components = [] := by
  obtain ⟨components⟩ := config
  simp [shape, Fields.Finds, Field.reads_iff_holds, Field.keys, Field.fill, components_eq_ok_iff]

theorem readsItems_iff {items : List Json} {config : ProcessConfig} :
    shape.fields.ReadsItems items (shape.toTuple config) ↔
      items = [] ∧ config.components = [] ∨ ∃ components, items = [.arr components] ∧
        List.Forall₂ ComponentConfig.IsDeclared components config.components := by
  obtain ⟨components⟩ := config
  rcases items with _ | ⟨v, _ | ⟨v₂, rest⟩⟩ <;>
    simp [shape, Fields.ReadsItems, Field.trailing?, components_eq_ok_iff]

/-- Processes are read from just what declares them. -/
theorem decode_eq_ok_iff {v : Json} {config : ProcessConfig} :
    codec.decode v = .ok config ↔ IsDeclared v config := by
  cases v with
  | obj entries =>
    have hfinds : codec.decode (.obj entries) = .ok config ↔ _ :=
      RecordShape.decode_obj_eq_ok_iff rfl (fun _ ↦ rfl) fun _ ↦ rfl
    rw [hfinds, finds_iff]
    obtain ⟨components⟩ := config
    constructor
    · rintro (⟨items, hholds, hitems⟩ | ⟨hlacks, rfl⟩)
      · exact .byKey hholds hitems
      · exact .withoutKey hlacks
    · intro h
      cases h with
      | byKey hholds hitems => exact .inl ⟨_, hholds, hitems⟩
      | withoutKey hlacks => exact .inr ⟨hlacks, rfl⟩
  | arr items =>
    have hreads : codec.decode (.arr items) = .ok config ↔ _ :=
      RecordShape.decode_arr_eq_ok_iff (fun _ ↦ rfl) fun _ ↦ rfl
    rw [hreads, readsItems_iff]
    obtain ⟨components⟩ := config
    constructor
    · rintro (⟨rfl, rfl⟩ | ⟨items, rfl, hitems⟩)
      · exact .nothing
      · exact .byPlace hitems
    · intro h
      cases h with
      | nothing => exact .inl ⟨rfl, rfl⟩
      | byPlace hitems => exact .inr ⟨_, rfl, hitems⟩
  | null | bool b | num n | str s => exact ⟨nofun, nofun⟩

/-- What of the components reading looks at. -/
def relevantItems : Json → Json
  | .arr items => .arr (items.map ComponentConfig.relevant)
  | v => v

/-- What of a value reading looks at: the components, and of each what is relevant to it. -/
def relevant : Json → Json
  | .obj entries =>
    .obj ((Entries.under entries ["components"]).map fun e ↦ (e.1, relevantItems e.2))
  | .arr [v] => .arr [relevantItems v]
  | v => v

theorem decode_relevantItems (v : Json) :
    ComponentConfig.codec.list.decode (relevantItems v) = ComponentConfig.codec.list.decode v := by
  cases v with
  | arr items => exact Codec.decodeItems_map ComponentConfig.decode_relevant items
  | null | bool b | num n | str s | obj entries => rfl

theorem put_relevantItems (slots : shape.fields.Slots) (key : String) (v : Json) :
    shape.fields.put slots key (relevantItems v) = shape.fields.put slots key v := by
  unfold shape
  simp only [Fields.put, decode_relevantItems]

theorem decode_relevant (v : Json) : codec.decode (relevant v) = codec.decode v := by
  cases v with
  | obj entries =>
    have hentries : shape.fields.ofEntries ((Entries.under entries ["components"]).map fun e ↦
        (e.1, relevantItems e.2)) = shape.fields.ofEntries entries :=
      (Fields.ofEntries_map put_relevantItems).trans (shape.fields.ofEntries_under entries)
    exact congrArg (Except.map shape.ofTuple) hentries
  | arr items =>
    rcases items with _ | ⟨v, _ | ⟨v₂, rest⟩⟩
    · rfl
    · have hitem : shape.fields.ofItems shape.tooShort 0 [relevantItems v] =
          shape.fields.ofItems shape.tooShort 0 [v] := by
        unfold shape
        simp only [Fields.ofItems, decode_relevantItems]
      exact congrArg (fun read ↦ read.map shape.ofTuple) hitem
    · rfl
  | null | bool b | num n | str s => rfl

/-- Processes are read from just what declares them, any other value is malformed, and nothing
but the relevant part of a value makes a difference. -/
theorem reads_just_declarations (v : Json) :
    (∀ config, codec.read v = .ok config ↔ IsDeclared v config) ∧
    (∀ e, codec.read v = .error e → ∃ text, e = .malformed text) ∧
    ∀ v', relevant v' = relevant v → codec.read v' = codec.read v := by
  have hread (v' : Json) : codec.read v' = (codec.decode v').mapError Error.ofDecode := rfl
  refine ⟨fun config ↦ ?_, fun e he ↦ ?_, fun v' hrelevant ↦ ?_⟩
  · rw [← decode_eq_ok_iff, hread]
    cases codec.decode v <;> simp [Except.mapError]
  · rw [hread] at he
    cases hdecode : codec.decode v with
    | ok config => simp [hdecode, Except.mapError] at he
    | error cause =>
      rw [hdecode] at he
      exact ⟨_, (Except.error.inj he).symm⟩
  · rw [hread, hread, ← decode_relevant v', hrelevant, decode_relevant]

end ProcessConfig

end ComponentHost
