import ComponentHost.Wire.Variant
import Mathlib.Data.List.Nodup

/-!
What reading a record takes out of an object, and that a record is read back from what it was
written as.

A field takes every entry that it is named by, so an object is read exactly when each field finds
at most one entry among those that the fields before it leave over (`Fields.ofEntries_eq_ok_iff`).
The order of the entries does not matter then (`Fields.Reads.perm`), and with names apart each field
finds what was written for it (`RecordShape.decode_encode`). A value need not come back as itself:
`Field.Returns` says what comes back for it.
-/

set_option autoImplicit false

namespace ComponentHost

/-! ### Plain values -/

namespace Codec

/-- What is read back is told apart by its written form. -/
theorem Lawful.injective {α : Type} {c : Codec α} (hlawful : c.Lawful) :
    Function.Injective c.encode := fun a b heq ↦ by
  have ha := hlawful a
  rw [heq, hlawful b] at ha
  exact (Except.ok.inj ha).symm

theorem json_lawful : json.Lawful := fun _ ↦ rfl

theorem text_lawful : text.Lawful := fun _ ↦ rfl

theorem bool_lawful : bool.Lawful := fun _ ↦ rfl

theorem map_lawful : map.Lawful := fun _ ↦ rfl

theorem list_lawful {α : Type} {c : Codec α} (hlawful : c.Lawful) : c.list.Lawful := by
  intro as
  unfold list
  simp only
  induction as with
  | nil => rfl
  | cons a rest ih => simp [decodeItems, hlawful a, ih, bind, Except.bind, pure, Except.pure]

/-- A value is there as long as it is not written as `null`. -/
theorem option_decode_encode {α : Type} {c : Codec α} {a : α}
    (hdecode : c.decode (c.encode a) = .ok a) (hnull : c.encode a ≠ .null) :
    c.option.decode (c.option.encode (some a)) = .ok (some a) := by
  have hsome : c.option.decode (c.encode a) = (c.decode (c.encode a)).map some := by
    simp only [option]
  rw [hdecode, Except.map] at hsome
  exact hsome

theorem option_lawful {α : Type} {c : Codec α} (hlawful : c.Lawful)
    (hnull : ∀ a, c.encode a ≠ .null) : c.option.Lawful
  | none => rfl
  | some a => option_decode_encode (hlawful a) (hnull a)

end Codec

/-! ### Objects -/

namespace Entries

/-- Under a new key nothing is replaced. -/
theorem insert_perm {key : String} {entries : Entries} (hnew : key ∉ entries.map Prod.fst)
    (value : Json) : (insert key value entries).Perm ((key, value) :: entries) := by
  induction entries with
  | nil => exact .refl _
  | cons e rest ih =>
    obtain ⟨k, v⟩ := e
    obtain ⟨hne, hrest⟩ : key ≠ k ∧ key ∉ rest.map Prod.fst := by simpa using hnew
    unfold insert
    rw [if_neg hne]
    split
    · exact .refl _
    · exact ((ih hrest).cons (k, v)).trans (.swap _ _ _)

theorem foldl_insert_perm {entries acc : Entries}
    (hnodup : ((acc ++ entries).map Prod.fst).Nodup) :
    (entries.foldl (fun acc e ↦ insert e.1 e.2 acc) acc).Perm (acc ++ entries) := by
  induction entries generalizing acc with
  | nil => simp
  | cons e rest ih =>
    have hmiddle : (acc ++ e :: rest).Perm (e :: acc ++ rest) := List.perm_middle
    have hfront : ((e :: acc ++ rest).map Prod.fst).Nodup := (hmiddle.map _).nodup_iff.mp hnodup
    have hnew : e.1 ∉ acc.map Prod.fst := by
      simp only [List.cons_append, List.map_cons, List.map_append, List.nodup_cons] at hfront
      exact fun hmem ↦ hfront.1 (List.mem_append_left _ hmem)
    have hput : (insert e.1 e.2 acc ++ rest).Perm (e :: acc ++ rest) :=
      (insert_perm hnew e.2).append_right rest
    rw [List.foldl_cons]
    exact (ih ((hput.map _).nodup_iff.mpr hfront)).trans (hput.trans hmiddle.symm)

end Entries

/-- Entries with distinct keys are all kept. -/
theorem Json.exists_perm_of_ofEntries {entries : Entries}
    (hnodup : (entries.map Prod.fst).Nodup) :
    ∃ sorted : Entries, Json.ofEntries entries = .obj sorted ∧ sorted.Perm entries :=
  ⟨_, rfl, Entries.foldl_insert_perm (by simpa using hnodup)⟩

/-! ### What a field takes -/

namespace Field

variable {α : Type}

/-- The entries that a field is named by. -/
def taken (f : Field α) (entries : Entries) : Entries := entries.filter fun e ↦ f.named e.1

/-- The entries that are left to the fields behind it. -/
def leftOver (f : Field α) (entries : Entries) : Entries := entries.filter fun e ↦ !f.named e.1

/-- What the place of a field holds once the entries that name it are in. -/
inductive Fills (f : Field α) : Option α → Entries → Option α → Prop where
  | untouched {slot : Option α} : Fills f slot [] slot
  | once {key : String} {value : Json} {a : α} (hdecode : f.codec.decode value = .ok a) :
    Fills f none [(key, value)] (some a)

/-- A field finds its value in an object: in the one entry that names it, or, where there is none,
by the rule for what is missing. -/
inductive Reads (f : Field α) (entries : Entries) (a : α) : Prop where
  | missing (hnone : f.taken entries = []) (hfill : f.fill = .ok a)
  | given (key : String) (value : Json) (hone : f.taken entries = [(key, value)])
    (hdecode : f.codec.decode value = .ok a)

/-- What is read for a field that was written with the value `a`. -/
def Returns (f : Field α) (a a' : α) : Prop :=
  if f.hidden a then f.fill = .ok a' else f.codec.decode (f.codec.encode a) = .ok a'

/-- A field that reads back what it was written with. -/
def Lawful (f : Field α) : Prop := ∀ a, f.Returns a a

theorem Lawful.of_codec {f : Field α} (hcodec : f.codec.Lawful)
    (hshown : f.hidden = fun _ ↦ false) : f.Lawful := fun a ↦ by
  simp [Returns, hshown, hcodec a]

theorem named_name (f : Field α) : f.named f.name = true := by simp [named]

theorem fills_cons_iff {f : Field α} {key : String} {value : Json} {rest : Entries}
    {slot slot' : Option α} :
    f.Fills slot ((key, value) :: rest) slot' ↔
      slot = none ∧ ∃ a, f.codec.decode value = .ok a ∧ f.Fills (some a) rest slot' := by
  constructor
  · rintro ⟨⟩
    rename_i a hdecode
    exact ⟨rfl, a, hdecode, .untouched⟩
  · rintro ⟨rfl, a, hdecode, ⟨⟩⟩
    exact .once hdecode

theorem reads_iff {f : Field α} {entries : Entries} {a : α} :
    f.Reads entries a ↔ ∃ slot, f.Fills none (f.taken entries) slot ∧
      (slot = some a ∨ slot = none ∧ f.fill = .ok a) := by
  constructor
  · rintro (⟨hnone, hfill⟩ | ⟨key, value, hone, hdecode⟩)
    · exact ⟨none, hnone ▸ .untouched, .inr ⟨rfl, hfill⟩⟩
    · exact ⟨some a, hone ▸ .once hdecode, .inl rfl⟩
  · rintro ⟨slot, hfills, hslot⟩
    generalize htaken : f.taken entries = given at hfills
    cases hfills with
    | untouched => exact .missing htaken (by simpa using hslot)
    | once hdecode =>
      obtain rfl := by simpa using hslot
      exact .given _ _ htaken hdecode

end Field

/-! ### Reading an object -/

namespace Fields

/-- Every field finds its value, the first ones first. -/
def Reads : {τ : Type} → Fields τ → Entries → τ → Prop
  | _, .nil, _, _ => True
  | _, .cons f tail, entries, (a, rest) => f.Reads entries a ∧ tail.Reads (f.leftOver entries) rest

variable {τ α : Type}

/-- Each entry goes to the first field that it names, and to no other. -/
theorem putAll_cons_iff {f : Field α} {tail : Fields τ} {entries : Entries}
    {slot slot' : Option α} {slots slots' : tail.Slots} :
    (Fields.cons f tail).putAll (slot, slots) entries = .ok (slot', slots') ↔
      f.Fills slot (f.taken entries) slot' ∧
        tail.putAll slots (f.leftOver entries) = .ok slots' := by
  induction entries generalizing slot slots with
  | nil =>
    constructor
    · intro h
      obtain ⟨rfl, rfl⟩ := Prod.mk.inj (Except.ok.inj h)
      exact ⟨.untouched, rfl⟩
    · rintro ⟨⟨⟩, hrest⟩
      obtain rfl : slots = slots' := by simpa [putAll, Field.leftOver] using hrest
      rfl
  | cons e rest ih =>
    obtain ⟨key, value⟩ := e
    cases hnamed : f.named key with
    | true =>
      have htaken : f.taken ((key, value) :: rest) = (key, value) :: f.taken rest := by
        simp [Field.taken, hnamed]
      have hleft : f.leftOver ((key, value) :: rest) = f.leftOver rest := by
        simp [Field.leftOver, hnamed]
      rw [htaken, hleft, Field.fills_cons_iff]
      cases slot with
      | some a => simp [putAll, put, hnamed]
      | none =>
        cases hdecode : f.codec.decode value with
        | error e => simp [putAll, put, hnamed, hdecode, Except.map]
        | ok a => simpa [putAll, put, hnamed, hdecode, Except.map] using ih
    | false =>
      have htaken : f.taken ((key, value) :: rest) = f.taken rest := by
        simp [Field.taken, hnamed]
      have hleft : f.leftOver ((key, value) :: rest) = (key, value) :: f.leftOver rest := by
        simp [Field.leftOver, hnamed]
      rw [htaken, hleft]
      cases hput : tail.put slots key value with
      | error e => simp [putAll, put, hnamed, hput, Except.map]
      | ok slots => simpa [putAll, put, hnamed, hput, Except.map] using ih

theorem finish_cons_iff {f : Field α} {tail : Fields τ} {slot : Option α} {slots : tail.Slots}
    {a : α} {rest : τ} :
    (Fields.cons f tail).finish (slot, slots) = .ok (a, rest) ↔
      (slot = some a ∨ slot = none ∧ f.fill = .ok a) ∧ tail.finish slots = .ok rest := by
  cases slot with
  | some b =>
    cases htail : tail.finish slots <;> simp [finish, htail, bind, Except.bind, pure, Except.pure]
  | none =>
    cases hfill : f.fill <;> cases htail : tail.finish slots <;>
      simp [finish, hfill, htail, bind, Except.bind, pure, Except.pure]

/-- An object is read exactly when each field finds its value in it. -/
theorem ofEntries_eq_ok_iff {fs : Fields τ} {entries : Entries} {t : τ} :
    fs.ofEntries entries = .ok t ↔ fs.Reads entries t := by
  have hstages : fs.ofEntries entries = .ok t ↔
      ∃ slots, fs.putAll fs.vacant entries = .ok slots ∧ fs.finish slots = .ok t := by
    unfold ofEntries
    split <;> simp_all
  rw [hstages]
  clear hstages
  induction fs generalizing entries with
  | nil =>
    have hkept (slots : Unit) : Fields.nil.putAll slots entries = .ok slots := by
      induction entries with
      | nil => rfl
      | cons e rest ih => simpa [putAll, put] using ih
    exact ⟨fun _ ↦ trivial, fun _ ↦ ⟨(), hkept (), rfl⟩⟩
  | cons f tail ih =>
    obtain ⟨a, rest⟩ := t
    constructor
    · rintro ⟨⟨slot, slots⟩, hput, hfinish⟩
      obtain ⟨hfills, hputs⟩ := putAll_cons_iff.mp hput
      obtain ⟨hslot, hslots⟩ := finish_cons_iff.mp hfinish
      exact ⟨Field.reads_iff.mpr ⟨slot, hfills, hslot⟩, ih.mp ⟨slots, hputs, hslots⟩⟩
    · rintro ⟨hhead, htail⟩
      obtain ⟨slot, hfills, hslot⟩ := Field.reads_iff.mp hhead
      obtain ⟨slots, hputs, hslots⟩ := ih.mpr htail
      exact ⟨(slot, slots), putAll_cons_iff.mpr ⟨hfills, hputs⟩,
        finish_cons_iff.mpr ⟨hslot, hslots⟩⟩

end Fields

/-! ### Reading what was written -/

namespace Field

variable {α : Type} {f : Field α}

theorem Reads.perm {entries entries' : Entries} {a : α} (hperm : entries.Perm entries')
    (h : f.Reads entries a) : f.Reads entries' a := by
  have htaken : (f.taken entries).Perm (f.taken entries') := hperm.filter _
  cases h with
  | missing hnone hfill => exact .missing (hnone ▸ htaken).symm.eq_nil hfill
  | given key value hone hdecode => exact .given key value (hone ▸ htaken).symm.eq_singleton hdecode

end Field

namespace Fields

variable {τ α : Type}

/-- The order of the entries does not matter. -/
theorem Reads.perm {fs : Fields τ} {entries entries' : Entries} {t : τ}
    (hperm : entries.Perm entries') (h : fs.Reads entries t) : fs.Reads entries' t := by
  induction fs generalizing entries entries' with
  | nil => trivial
  | cons f tail ih => exact ⟨h.1.perm hperm, ih (hperm.filter _) h.2⟩

/-- The names that the fields are written with. -/
def names : {τ : Type} → Fields τ → List String
  | _, .nil => []
  | _, .cons f tail => f.name :: tail.names

/-- No field is named by the name of a later one. -/
def apart : {τ : Type} → Fields τ → Bool
  | _, .nil => true
  | _, .cons f tail => tail.names.all (fun name ↦ !f.named name) && tail.apart

/-- What is read for the fields that were written with the values `t`. -/
def Returns : {τ : Type} → Fields τ → τ → τ → Prop
  | _, .nil, _, _ => True
  | _, .cons f tail, (a, t), (a', t') => f.Returns a a' ∧ tail.Returns t t'

/-- Every field reads back what it was written with. -/
def Lawful : {τ : Type} → Fields τ → Prop
  | _, .nil => True
  | _, .cons f tail => f.Lawful ∧ tail.Lawful

theorem Lawful.returns {fs : Fields τ} (hlawful : fs.Lawful) (t : τ) : fs.Returns t t := by
  induction fs with
  | nil => trivial
  | cons f tail ih => exact ⟨hlawful.1 t.1, ih hlawful.2 t.2⟩

theorem toEntries_map_fst_sublist (fs : Fields τ) (t : τ) :
    ((fs.toEntries t).map Prod.fst).Sublist fs.names := by
  induction fs with
  | nil => exact .slnil
  | cons f tail ih =>
    unfold toEntries names
    split
    · exact (ih _).cons _
    · exact (ih _).cons_cons _

theorem apart_cons_iff {f : Field α} {tail : Fields τ} :
    (Fields.cons f tail).apart = true ↔
      (∀ name ∈ tail.names, f.named name = false) ∧ tail.apart = true := by
  simp [apart]

theorem names_nodup {fs : Fields τ} (hapart : fs.apart = true) : fs.names.Nodup := by
  induction fs with
  | nil => exact .nil
  | cons f tail ih =>
    obtain ⟨hnames, htail⟩ := apart_cons_iff.mp hapart
    have hnew : f.name ∉ tail.names := fun hmem ↦ by
      simpa [f.named_name] using hnames f.name hmem
    exact List.nodup_cons.mpr ⟨hnew, ih htail⟩

/-- With names apart each field finds what was written for it. -/
theorem reads_toEntries {fs : Fields τ} (hapart : fs.apart = true) {t t' : τ}
    (hreturns : fs.Returns t t') : fs.Reads (fs.toEntries t) t' := by
  induction fs with
  | nil => trivial
  | cons f tail ih =>
    obtain ⟨a, t⟩ := t
    obtain ⟨a', t'⟩ := t'
    obtain ⟨hnames, htail⟩ := apart_cons_iff.mp hapart
    obtain ⟨hhead, hrest⟩ := hreturns
    have hfree : ∀ e ∈ tail.toEntries t, f.named e.1 = false := fun e hmem ↦
      hnames _ ((tail.toEntries_map_fst_sublist t).subset (List.mem_map_of_mem hmem))
    have htaken : f.taken (tail.toEntries t) = [] := by
      simpa [Field.taken] using hfree
    have hleft : f.leftOver (tail.toEntries t) = tail.toEntries t := by
      simpa [Field.leftOver] using hfree
    unfold Reads toEntries
    unfold Field.Returns at hhead
    split at hhead
    · rw [if_pos ‹_›, hleft]
      exact ⟨.missing htaken hhead, ih htail hrest⟩
    · rw [if_neg ‹_›]
      have hone : f.taken ((f.name, f.codec.encode a) :: tail.toEntries t) =
          [(f.name, f.codec.encode a)] := by
        simpa [Field.taken, f.named_name] using hfree
      have hothers : f.leftOver ((f.name, f.codec.encode a) :: tail.toEntries t) =
          tail.toEntries t := by
        simpa [Field.leftOver, f.named_name] using hfree
      refine ⟨.given _ _ hone hhead, ?_⟩
      rw [hothers]
      exact ih htail hrest

/-- Fields with their names apart are read back from the object they were written as. -/
theorem ofEntries_toEntries {fs : Fields τ} (hapart : fs.apart = true) {t t' : τ}
    (hreturns : fs.Returns t t') : ∃ entries, Json.ofEntries (fs.toEntries t) = .obj entries ∧
      fs.ofEntries entries = .ok t' := by
  have hnodup : ((fs.toEntries t).map Prod.fst).Nodup :=
    (names_nodup hapart).sublist (toEntries_map_fst_sublist fs t)
  obtain ⟨entries, hobj, hperm⟩ := Json.exists_perm_of_ofEntries hnodup
  have hreads : fs.Reads entries t' := (reads_toEntries hapart hreturns).perm hperm.symm
  exact ⟨entries, hobj, ofEntries_eq_ok_iff.mpr hreads⟩

end Fields

namespace RecordShape

variable {ρ : Type} {shape : RecordShape ρ}

theorem decode_encode (shape : RecordShape ρ) (hapart : shape.fields.apart = true) (r : ρ)
    {t : shape.τ} (hreturns : shape.fields.Returns (shape.toTuple r) t) :
    shape.codec.decode (shape.codec.encode r) = .ok (shape.ofTuple t) := by
  obtain ⟨entries, hobj, hread⟩ := Fields.ofEntries_toEntries hapart hreturns
  unfold codec
  simp only [hobj, ofEntries, hread, Except.map]

/-- A record is read back when each of its fields is. -/
theorem codec_lawful (hapart : shape.fields.apart = true) (hlawful : shape.fields.Lawful)
    (hinverse : ∀ r, shape.ofTuple (shape.toTuple r) = r) : shape.codec.Lawful := fun r ↦ by
  rw [decode_encode shape hapart r (hlawful.returns (shape.toTuple r)), hinverse]

end RecordShape

/-! ### Alternatives -/

/-- A record behind a tag is read back like a record alone. -/
theorem Content.ofJson_record {τ α : Type} (fs : Fields τ) (hapart : fs.apart = true) (t t' : τ)
    (hreturns : fs.Returns t t') (mk : τ → α) :
    (Content.record fun entries ↦ (fs.ofEntries entries).map mk).ofJson
      (.ofEntries (fs.toEntries t)) = .ok (mk t') := by
  obtain ⟨entries, hobj, hread⟩ := Fields.ofEntries_toEntries hapart hreturns
  simp only [hobj, ofJson, hread, Except.map]

namespace Variant

variable {α : Type} {variants : List (Variant α)} {tag : String} {content : Content α}

theorem decode_bare {a : α} (hselect : select variants tag = .ok (.nothing a)) :
    decode variants (.str tag) = .ok a := by
  simp [decode, hselect, Content.ofBare, bind, Except.bind]

theorem decode_tagged (hselect : select variants tag = .ok content) (v : Json) :
    decode variants (.tagged tag v) = content.ofJson v := by
  simp [decode, Json.tagged, hselect, bind, Except.bind]

end Variant

end ComponentHost
