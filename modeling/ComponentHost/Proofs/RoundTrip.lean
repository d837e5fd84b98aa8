import ComponentHost.Component.Metadata
import ComponentHost.Configuration
import ComponentHost.Event.Basic
import ComponentHost.Log.Config
import ComponentHost.Plugin.State
import ComponentHost.Process.Config
import ComponentHost.Process.Status
import ComponentHost.Proofs.RecordReading
import ComponentHost.Proofs.TimestampText

/-!
Everything that the host writes as JSON is read back as it was.

A draft is the exception: an open part and one that is given as `null` are written alike
(`ConfigurationDraft.encode_null_eq_encode_none`). What is built from the draft is the same for
both, so nothing that counts is lost. A configuration is written like the draft that gives all of
its parts, which makes the readers of drafts read configurations back as well.
-/

set_option autoImplicit false

namespace ComponentHost

open Codec ComponentHost.Field

/-! ### Records and alternatives -/

theorem Configuration.codec_lawful : Configuration.codec.Lawful :=
  RecordShape.codec_lawful rfl
    ⟨.of_codec bool_lawful rfl, .of_codec bool_lawful rfl,
      .of_codec json_lawful rfl, trivial⟩
    fun _ ↦ rfl

theorem ComponentConfig.codec_lawful : ComponentConfig.codec.Lawful :=
  RecordShape.codec_lawful rfl
    ⟨.of_codec text_lawful rfl, .of_codec text_lawful rfl,
      .of_codec text_lawful rfl, .of_codec text_lawful rfl, .of_codec map_lawful rfl,
      trivial⟩
    fun _ ↦ rfl

theorem ProcessConfig.codec_lawful : ProcessConfig.codec.Lawful :=
  RecordShape.codec_lawful rfl
    ⟨.of_codec (list_lawful ComponentConfig.codec_lawful) rfl, trivial⟩ fun _ ↦ rfl

theorem Metadata.codec_lawful : Metadata.codec.Lawful :=
  RecordShape.codec_lawful rfl
    ⟨.of_codec text_lawful rfl, .of_codec text_lawful rfl,
      .of_codec text_lawful rfl, trivial⟩
    fun _ ↦ rfl

theorem OperationInput.codec_lawful : OperationInput.codec.Lawful :=
  RecordShape.codec_lawful rfl ⟨.of_codec json_lawful rfl, trivial⟩ fun _ ↦ rfl

theorem OperationOutput.codec_lawful : OperationOutput.codec.Lawful :=
  RecordShape.codec_lawful rfl ⟨.of_codec json_lawful rfl, trivial⟩ fun _ ↦ rfl

theorem Event.codec_lawful : Event.codec.Lawful :=
  RecordShape.codec_lawful rfl
    ⟨.of_codec text_lawful rfl, .of_codec json_lawful rfl,
      .of_codec Timestamp.codec_lawful rfl, trivial⟩
    fun _ ↦ rfl

theorem PluginState.codec_lawful : PluginState.codec.Lawful
  | .added => Variant.decode_bare rfl
  | .initialized => Variant.decode_bare rfl
  | .resourcesRegistered => Variant.decode_bare rfl
  | .started => Variant.decode_bare rfl
  | .stopped => Variant.decode_bare rfl
  | .stopFailed message => (Variant.decode_tagged rfl (.str message)).trans rfl

theorem PluginInfo.codec_lawful : PluginInfo.codec.Lawful :=
  RecordShape.codec_lawful rfl
    ⟨.of_codec text_lawful rfl, .of_codec PluginState.codec_lawful rfl,
      .of_codec Timestamp.codec_lawful rfl, trivial⟩
    fun _ ↦ rfl

theorem ProcessStatus.codec_lawful : ProcessStatus.codec.Lawful
  | .uninitialized => Variant.decode_bare rfl
  | .initialized => Variant.decode_bare rfl
  | .running => Variant.decode_bare rfl
  | .stopped => Variant.decode_bare rfl
  | .failed reason => (Variant.decode_tagged rfl (.str reason)).trans rfl

theorem option_text_lawful : text.option.Lawful := option_lawful text_lawful nofun

theorem option_bool_lawful : bool.option.Lawful := option_lawful bool_lawful nofun

/-- A process that did not fail is written without a failure, which reading fills in. -/
theorem ProcessSnapshot.codec_lawful : ProcessSnapshot.codec.Lawful := by
  refine RecordShape.codec_lawful rfl ⟨.of_codec text_lawful rfl, .of_codec text_lawful rfl, ?_,
    .of_codec (list_lawful text_lawful) rfl, .of_codec Timestamp.codec_lawful rfl, trivial⟩
    fun _ ↦ rfl
  intro failure
  cases failure with
  | none => exact (if_pos rfl).mpr rfl
  | some reason => exact (if_neg Bool.false_ne_true).mpr (option_text_lawful (some reason))

theorem LogConfig.codec_lawful : LogConfig.codec.Lawful :=
  RecordShape.codec_lawful rfl
    ⟨.of_codec text_lawful rfl, .of_codec bool_lawful rfl,
      .of_codec text_lawful rfl, trivial⟩
    fun _ ↦ rfl

/-! ### Drafts -/

namespace ConfigurationDraft

/-- A custom part that is `null` is written like one that is left open. -/
theorem encode_null_eq_encode_none (d : ConfigurationDraft) :
    codec.encode { d with custom := some .null } = codec.encode { d with custom := none } := rfl

/-- What is read is the draft itself, but for a custom part that was given as `null`. -/
theorem decode_encode (d : ConfigurationDraft) :
    codec.decode (codec.encode d) = .ok d ∨
      d.custom = some .null ∧ codec.decode (codec.encode d) = .ok { d with custom := none } := by
  obtain ⟨debug, verbose, custom⟩ := d
  have hread {custom' : Option Json}
      (hcustom : json.option.decode (json.option.encode custom) = .ok custom') :
      codec.decode (codec.encode ⟨debug, verbose, custom⟩) = .ok ⟨debug, verbose, custom'⟩ := by
    have hreturns : shape.fields.Returns (debug, verbose, custom, ())
        (debug, verbose, custom', ()) :=
      ⟨Lawful.of_codec option_bool_lawful rfl debug, Lawful.of_codec option_bool_lawful rfl verbose,
        (if_neg Bool.false_ne_true).mpr hcustom, trivial⟩
    exact RecordShape.decode_encode shape rfl ⟨debug, verbose, custom⟩ hreturns
  cases custom with
  | none => exact .inl (hread rfl)
  | some v =>
    by_cases hnull : v = .null
    · subst hnull
      exact .inr ⟨rfl, hread rfl⟩
    · exact .inl (hread (option_decode_encode rfl hnull))

theorem build_of_decode_encode (d : ConfigurationDraft) :
    ∃ d', codec.decode (codec.encode d) = .ok d' ∧ d'.build = d.build := by
  rcases decode_encode d with hsame | ⟨hnull, hopen⟩
  · exact ⟨d, hsame, rfl⟩
  · refine ⟨_, hopen, ?_⟩
    simp [build, hnull, Configuration.default]

end ConfigurationDraft

/-- A configuration is written like the draft that gives all of its parts. -/
theorem Configuration.encode_eq (c : Configuration) :
    Configuration.codec.encode c =
      ConfigurationDraft.codec.encode ⟨some c.debug, some c.verbose, some c.custom⟩ := rfl

theorem Configuration.ofJson_encode (c : Configuration) :
    Configuration.ofJson (Configuration.codec.encode c) = .ok c := by
  obtain ⟨d, hdecode, hbuild⟩ :=
    ConfigurationDraft.build_of_decode_encode ⟨some c.debug, some c.verbose, some c.custom⟩
  rw [encode_eq, ofJson, Codec.read, hdecode]
  exact congrArg Except.ok hbuild

theorem LogConfigDraft.codec_lawful : LogConfigDraft.codec.Lawful :=
  RecordShape.codec_lawful rfl
    ⟨.of_codec option_text_lawful rfl,
      .of_codec option_bool_lawful rfl, .of_codec option_text_lawful rfl,
      trivial⟩
    fun _ ↦ rfl

theorem LogConfig.encode_eq (c : LogConfig) :
    LogConfig.codec.encode c =
      LogConfigDraft.codec.encode ⟨some c.defaultLevel, some c.jsonFormat, some c.target⟩ := rfl

theorem LogConfig.ofJson_encode (c : LogConfig) :
    LogConfig.ofJson (LogConfig.codec.encode c) = c := by
  rw [encode_eq, ofJson, LogConfigDraft.codec_lawful]
  rfl

/-! ### All shapes -/

/-- Reading undoes writing for every shape that goes over the wire. The readers of configurations of
which parts may be missing undo it as well; and a draft of a configuration builds the same after it
was written and read, although it may have lost a custom part that was given as `null`. -/
theorem shapes_survive_writing :
    (Configuration.codec.Lawful ∧ ComponentConfig.codec.Lawful ∧ ProcessConfig.codec.Lawful ∧
      Metadata.codec.Lawful ∧ OperationInput.codec.Lawful ∧ OperationOutput.codec.Lawful ∧
      Event.codec.Lawful ∧ PluginState.codec.Lawful ∧ PluginInfo.codec.Lawful ∧
      ProcessStatus.codec.Lawful ∧ ProcessSnapshot.codec.Lawful ∧ LogConfig.codec.Lawful) ∧
    (∀ c : Configuration, Configuration.ofJson (Configuration.codec.encode c) = .ok c) ∧
    (∀ c : LogConfig, LogConfig.ofJson (LogConfig.codec.encode c) = c) ∧
    ∀ d : ConfigurationDraft,
      (∃ d', ConfigurationDraft.codec.decode (ConfigurationDraft.codec.encode d) = .ok d' ∧
        d'.build = d.build) ∧
      ConfigurationDraft.codec.encode { d with custom := some .null } =
        ConfigurationDraft.codec.encode { d with custom := none } :=
  ⟨⟨Configuration.codec_lawful, ComponentConfig.codec_lawful, ProcessConfig.codec_lawful,
      Metadata.codec_lawful, OperationInput.codec_lawful, OperationOutput.codec_lawful,
      Event.codec_lawful, PluginState.codec_lawful, PluginInfo.codec_lawful,
      ProcessStatus.codec_lawful, ProcessSnapshot.codec_lawful, LogConfig.codec_lawful⟩,
    Configuration.ofJson_encode, LogConfig.ofJson_encode,
    fun d ↦ ⟨d.build_of_decode_encode, d.encode_null_eq_encode_none⟩⟩

end ComponentHost
