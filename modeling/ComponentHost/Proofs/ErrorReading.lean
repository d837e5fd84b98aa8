import ComponentHost.Error.Codec
import ComponentHost.Proofs.RecordReading

/-!
An error is read back from its JSON, whatever it wraps.

The content of an error has one of five forms; one lemma for each says that it is read back. The
wrapped error is read by the same reader with less fuel, so the proof is by induction on the error,
with the number of its wrappings as the fuel it needs. The nesting of the written value is more than
that (`Error.depth_lt_depth_encode`).
-/

set_option autoImplicit false

namespace ComponentHost

namespace Error

/-! ### The forms of content -/

section Content

variable {first second name : String} {a b : String} {e : Error} {decode : Json → Decoded Error}

theorem textField_lawful (name : String) : (textField name).Lawful :=
  .of_codec Codec.text_lawful rfl

theorem sourceField_returns (hsource : decode e.encode = .ok e) :
    (sourceField decode).Returns e e := by
  simpa [Field.Returns, sourceField] using hsource

theorem ofJson_oneText (name a : String) (mk : String → Error) :
    (oneText name mk).ofJson (texts [(name, a)]) = .ok (mk a) :=
  Content.ofJson_record (.cons (textField name) .nil) rfl (a, ()) (a, ())
    ⟨textField_lawful name a, trivial⟩ fun t ↦ mk t.1

theorem ofJson_twoTexts (hne : second ≠ first) (mk : String → String → Error) :
    (twoTexts first second mk).ofJson (texts [(first, a), (second, b)]) = .ok (mk a b) :=
  have hapart : (Fields.cons (textField first) (.cons (textField second) .nil)).apart = true := by
    simpa [Fields.apart, Fields.names, Field.named, textField] using hne
  Content.ofJson_record _ hapart (a, b, ()) (a, b, ())
    ⟨textField_lawful first a, textField_lawful second b, trivial⟩ fun t ↦ mk t.1 t.2.1

theorem ofJson_wrapping (hname : name ≠ "source") (hsource : decode e.encode = .ok e)
    (mk : String → Error → Error) :
    (wrapping name decode mk).ofJson (.ofEntries [(name, .str a), ("source", e.encode)]) =
      .ok (mk a e) :=
  have hapart : (Fields.cons (textField name) (.cons (sourceField decode) .nil)).apart = true := by
    simpa [Fields.apart, Fields.names, Field.named, textField, sourceField] using hname.symm
  Content.ofJson_record _ hapart (a, e, ()) (a, e, ())
    ⟨textField_lawful name a, sourceField_returns hsource, trivial⟩ fun t ↦ mk t.1 t.2.1

theorem ofJson_wrapping₂ (hne : second ≠ first) (hfirst : first ≠ "source")
    (hsecond : second ≠ "source") (hsource : decode e.encode = .ok e)
    (mk : String → String → Error → Error) :
    (wrapping₂ first second decode mk).ofJson
        (.ofEntries [(first, .str a), (second, .str b), ("source", e.encode)]) =
      .ok (mk a b e) :=
  have hapart : (Fields.cons (textField first) (.cons (textField second)
      (.cons (sourceField decode) .nil))).apart = true := by
    simp [Fields.apart, Fields.names, Field.named, textField, sourceField, hne, hfirst.symm,
      hsecond.symm]
  Content.ofJson_record _ hapart (a, b, e, ()) (a, b, e, ())
    ⟨textField_lawful first a, textField_lawful second b, sourceField_returns hsource, trivial⟩
    fun t ↦ mk t.1 t.2.1 t.2.2.1

theorem ofJson_plainText (a : String) (mk : String → Error) :
    (plainText mk).ofJson (.str a) = .ok (mk a) := rfl

end Content

/-! ### Reading one level -/

/-- An error is read back once the error that it wraps is. -/
theorem decodeWithin_succ_encode {e : Error} {n : Nat}
    (hsource : ∀ s, e.source? = some s → decodeWithin n s.encode = .ok s) :
    decodeWithin (n + 1) e.encode = .ok e := by
  cases e with
  | factoryAlreadyRegistered id =>
    exact (Variant.decode_tagged rfl _).trans (ofJson_oneText _ id .factoryAlreadyRegistered)
  | factoryNotFound id =>
    exact (Variant.decode_tagged rfl _).trans (ofJson_oneText _ id .factoryNotFound)
  | componentAlreadyExists id =>
    exact (Variant.decode_tagged rfl _).trans (ofJson_oneText _ id .componentAlreadyExists)
  | componentNotFound id =>
    exact (Variant.decode_tagged rfl _).trans (ofJson_oneText _ id .componentNotFound)
  | operationNotFound id =>
    exact (Variant.decode_tagged rfl _).trans (ofJson_oneText _ id .operationNotFound)
  | notAnOperation id =>
    exact (Variant.decode_tagged rfl _).trans (ofJson_oneText _ id .notAnOperation)
  | notAService id =>
    exact (Variant.decode_tagged rfl _).trans (ofJson_oneText _ id .notAService)
  | operationFailed id e =>
    exact (Variant.decode_tagged rfl _).trans
      (ofJson_wrapping (by decide) (hsource e rfl) .operationFailed)
  | emptyProcessConfig => exact Variant.decode_bare rfl
  | processNotFound id =>
    exact (Variant.decode_tagged rfl _).trans (ofJson_oneText _ id .processNotFound)
  | componentInitFailed p c e =>
    exact (Variant.decode_tagged rfl _).trans
      (ofJson_wrapping₂ (by decide) (by decide) (by decide) (hsource e rfl) .componentInitFailed)
  | componentStartFailed p c e =>
    exact (Variant.decode_tagged rfl _).trans
      (ofJson_wrapping₂ (by decide) (by decide) (by decide) (hsource e rfl) .componentStartFailed)
  | componentStopFailed p c e =>
    exact (Variant.decode_tagged rfl _).trans
      (ofJson_wrapping₂ (by decide) (by decide) (by decide) (hsource e rfl) .componentStopFailed)
  | plugin p phase e =>
    exact (Variant.decode_tagged rfl _).trans
      (ofJson_wrapping₂ (by decide) (by decide) (by decide) (hsource e rfl) .plugin)
  | component c text =>
    exact (Variant.decode_tagged rfl _).trans (ofJson_twoTexts (by decide) .component)
  | idGeneration text =>
    exact (Variant.decode_tagged rfl _).trans (ofJson_oneText _ text .idGeneration)
  | cancelled => exact Variant.decode_bare rfl
  | validation text =>
    exact (Variant.decode_tagged rfl _).trans (ofJson_oneText _ text .validation)
  | malformed text => exact (Variant.decode_tagged rfl _).trans (ofJson_plainText text .malformed)
  | internal text => exact (Variant.decode_tagged rfl _).trans (ofJson_plainText text .internal)

/-! ### Nesting -/

theorem depth_of_source? {e s : Error} (hs : e.source? = some s) : e.depth = s.depth + 1 := by
  cases e <;> simp_all [source?, depth]

theorem depth_eq_zero_of_source? {e : Error} (hs : e.source? = none) : e.depth = 0 := by
  cases e <;> simp_all [source?, depth]

end Error

theorem Json.depth_pos (v : Json) : 0 < v.depth := by
  cases v <;> simp [Json.depth]

theorem Json.depth_le_depthEntries {entries : Entries} {key : String} {v : Json}
    (hmem : (key, v) ∈ entries) : v.depth ≤ Json.depthEntries entries := by
  induction entries with
  | nil => simp at hmem
  | cons e rest ih =>
    obtain ⟨k, w⟩ := e
    rw [Json.depthEntries]
    rcases List.mem_cons.mp hmem with heq | hrest
    · obtain ⟨-, rfl⟩ := Prod.mk.inj heq
      exact Nat.le_max_left _ _
    · exact Nat.le_trans (ih hrest) (Nat.le_max_right _ _)

/-- What is under a key is nested less deeply than the tagged object around it. -/
theorem Json.depth_lt_depth_tagged {entries : Entries} {tag : String} {v : Json} (key : String)
    (hnodup : (entries.map Prod.fst).Nodup) (hmem : (key, v) ∈ entries) :
    v.depth < (Json.tagged tag (.ofEntries entries)).depth := by
  obtain ⟨sorted, hobj, hperm⟩ := Json.exists_perm_of_ofEntries hnodup
  have hle : v.depth ≤ Json.depthEntries sorted :=
    Json.depth_le_depthEntries (hperm.mem_iff.mpr hmem)
  simp only [hobj, Json.tagged, Json.depth, Json.depthEntries]
  omega

namespace Error

theorem depth_encode_lt_of_source? {e s : Error} (hs : e.source? = some s) :
    s.encode.depth < e.encode.depth := by
  cases e with
  | operationFailed id e =>
    obtain rfl : e = s := Option.some.inj hs
    exact Json.depth_lt_depth_tagged "source" (by simp) (by simp)
  | componentInitFailed p c e =>
    obtain rfl : e = s := Option.some.inj hs
    exact Json.depth_lt_depth_tagged "source" (by simp) (by simp)
  | componentStartFailed p c e =>
    obtain rfl : e = s := Option.some.inj hs
    exact Json.depth_lt_depth_tagged "source" (by simp) (by simp)
  | componentStopFailed p c e =>
    obtain rfl : e = s := Option.some.inj hs
    exact Json.depth_lt_depth_tagged "source" (by simp) (by simp)
  | plugin p phase e =>
    obtain rfl : e = s := Option.some.inj hs
    exact Json.depth_lt_depth_tagged "source" (by simp) (by simp)
  | _ => simp [source?] at hs

/-! ### Whole errors -/

/-- One more level of fuel than there are wrappings is enough. -/
theorem decodeWithin_encode {e : Error} {n : Nat} (hfuel : e.depth < n) :
    decodeWithin n e.encode = .ok e := by
  induction n generalizing e with
  | zero => exact absurd hfuel (Nat.not_lt_zero _)
  | succ n ih =>
    refine decodeWithin_succ_encode fun s hs ↦ ih ?_
    have hdepth := depth_of_source? hs
    omega

/-- The written value is nested more deeply than the error. -/
theorem depth_lt_depth_encode (e : Error) : e.depth < e.encode.depth := by
  induction hd : e.depth generalizing e with
  | zero => exact Json.depth_pos _
  | succ d ih =>
    cases hs : e.source? with
    | none => simp [depth_eq_zero_of_source? hs] at hd
    | some s =>
      have hdepth := depth_of_source? hs
      have hencode := depth_encode_lt_of_source? hs
      have hs' := ih s (by omega)
      omega

theorem codec_lawful : codec.Lawful := fun e ↦ decodeWithin_encode (depth_lt_depth_encode e)

theorem encode_injective : Function.Injective encode := codec_lawful.injective

/-- Every error comes back from its JSON, however deeply it wraps others and whichever kinds of
wrapping it mixes: it reads the same, has the same cause at its root and at the same depth. And no
two errors are written alike. -/
theorem encoding_keeps_errors :
    (∀ e : Error, ∃ e', decode e.encode = .ok e' ∧ e' = e ∧ e'.message = e.message ∧
      e'.source? = e.source? ∧ e'.rootCause = e.rootCause ∧ e'.depth = e.depth) ∧
    ∀ e₁ e₂ : Error, e₁ ≠ e₂ → e₁.encode ≠ e₂.encode :=
  ⟨fun e ↦ ⟨e, codec_lawful e, rfl, rfl, rfl, rfl, rfl⟩,
    fun _ _ hne heq ↦ hne (encode_injective heq)⟩

end Error

end ComponentHost
