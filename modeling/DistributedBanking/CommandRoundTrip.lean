import DistributedBanking.ClientGrammar

/-!
# Commands that the client encodes and decodes

The encoder writes each field that is set once, so the last value of its tag is
the one the command holds. The decoder has a limit on texts that the encoder
does not have: a command comes back unchanged exactly when its texts keep it.
-/

namespace DistributedBanking.ClientProtocol
open ByteOrder Marshalling

def Command.texts (cmd : Command) : List Bytes :=
  cmd.accountOwnerName.toList ++ cmd.accountPassword.toList ++ cmd.txAccountOwnerName.toList ++
    cmd.monitorUpdates.toList

theorem texts_onHost (e : Endian) (cmd : Command) : (onHost e cmd).texts = cmd.texts := by
  cases e <;> rfl

section Fields
variable {cmd : Command} {id : FieldID} {f : TLVField}

theorem mem_fieldOf_cases (h : f ∈ fieldOf cmd id) :
    (f.id ∈ stringTags ∧ f.value ∈ cmd.texts) ∨ (f.id ∉ stringTags ∧ f.WellFormed) := by
  cases id <;> simp only [fieldOf, Option.mem_toList, Option.map_eq_some_iff] at h <;>
    obtain ⟨v, hv, rfl⟩ := h
  case accountOwnerName =>
    exact .inl ⟨show fieldAccountOwnerName ∈ stringTags by decide,
      by simp [Command.texts, tlvString, hv]⟩
  case accountPassword =>
    exact .inl ⟨show fieldAccountPassword ∈ stringTags by decide,
      by simp [Command.texts, tlvString, hv]⟩
  case txAccountOwnerName =>
    exact .inl ⟨show fieldTxAccountOwnerName ∈ stringTags by decide,
      by simp [Command.texts, tlvString, hv]⟩
  case monitorUpdates =>
    exact .inl ⟨show fieldMonitorUpdates ∈ stringTags by decide,
      by simp [Command.texts, tlvString, hv]⟩
  case service =>
    exact .inr ⟨show fieldService ∉ stringTags by decide,
      wellFormed_fixed (by decide) rfl rfl (by decide)⟩
  case currency =>
    exact .inr ⟨show fieldCurrency ∉ stringTags by decide,
      wellFormed_fixed (by decide) rfl rfl (by decide)⟩
  case accountNumber =>
    exact .inr ⟨show fieldAccountNumber ∉ stringTags by decide,
      wellFormed_fixed (by decide) rfl (by simp) (by decide)⟩
  case txAccountNumber =>
    exact .inr ⟨show fieldTxAccountNumber ∉ stringTags by decide,
      wellFormed_fixed (by decide) rfl (by simp) (by decide)⟩
  case monitorTimeoutSeconds =>
    exact .inr ⟨show fieldMonitorTimeoutSeconds ∉ stringTags by decide,
      wellFormed_fixed (by decide) rfl (by simp) (by decide)⟩
  case monetaryValue =>
    exact .inr ⟨show fieldMonetaryValue ∉ stringTags by decide,
      wellFormed_fixed (by decide) rfl (by simp) (by decide)⟩

theorem exists_text_field {t : Bytes} (h : t ∈ cmd.texts) :
    ∃ f ∈ fieldsOf cmd, f.id ∈ stringTags ∧ f.value = t := by
  have hfield : ∀ id f, f ∈ fieldOf cmd id → f ∈ fieldsOf cmd := by
    intro id f hf
    exact List.mem_flatMap.mpr ⟨id, by cases id <;> decide, hf⟩
  simp only [Command.texts, List.mem_append, Option.mem_toList] at h
  rcases h with ((h | h) | h) | h
  · exact ⟨tlvString fieldAccountOwnerName t, hfield .accountOwnerName _ (by simp [fieldOf, h]),
      show fieldAccountOwnerName ∈ stringTags by decide, rfl⟩
  · exact ⟨tlvString fieldAccountPassword t, hfield .accountPassword _ (by simp [fieldOf, h]),
      show fieldAccountPassword ∈ stringTags by decide, rfl⟩
  · exact ⟨tlvString fieldTxAccountOwnerName t,
      hfield .txAccountOwnerName _ (by simp [fieldOf, h]),
      show fieldTxAccountOwnerName ∈ stringTags by decide, rfl⟩
  · exact ⟨tlvString fieldMonitorUpdates t, hfield .monitorUpdates _ (by simp [fieldOf, h]),
      show fieldMonitorUpdates ∈ stringTags by decide, rfl⟩

theorem wellFormed_of_mem_fieldsOf (htexts : ∀ t ∈ cmd.texts, t.length < 2 ^ 32)
    (hf : f ∈ fieldsOf cmd) : f.WellFormed := by
  obtain ⟨id, -, hf⟩ := List.mem_flatMap.mp hf
  rcases mem_fieldOf_cases hf with ⟨htag, hvalue⟩ | ⟨-, hwf⟩
  · obtain ⟨tag, value⟩ := f
    simp only [stringTags, List.mem_cons, List.not_mem_nil, or_false] at htag
    obtain rfl | rfl | rfl | rfl := htag
    all_goals exact wellFormed_text (by decide) rfl (htexts _ hvalue)
  · exact hwf

theorem withinLimit_fieldsOf :
    (∀ f ∈ fieldsOf cmd, WithinLimit f) ↔ ∀ t ∈ cmd.texts, t.length ≤ 1024 := by
  constructor
  · intro h t ht
    obtain ⟨f, hf, htag, rfl⟩ := exists_text_field ht
    exact h f hf htag
  · intro h f hf htag
    obtain ⟨id, -, hf⟩ := List.mem_flatMap.mp hf
    rcases mem_fieldOf_cases hf with ⟨-, hvalue⟩ | ⟨hother, -⟩
    · exact h _ hvalue
    · exact absurd htag hother

theorem length_fieldsOf_le (cmd : Command) : (fieldsOf cmd).length ≤ 10 := by
  have hone : ∀ id, (fieldOf cmd id).length ≤ 1 := by
    intro id
    cases id <;> simp only [fieldOf, Option.length_toList] <;> split <;> simp
  have hsum : ∀ ids : List FieldID, (ids.flatMap (fieldOf cmd)).length ≤ ids.length := by
    intro ids
    induction ids with
    | nil => simp
    | cons id ids ih =>
      have hid := hone id
      rw [List.flatMap_cons, List.length_append, List.length_cons]
      omega
  exact hsum fieldOrder

theorem length_flatMap_fieldBytes_le {fs : List TLVField} {n : ℕ}
    (h : ∀ f ∈ fs, f.value.length ≤ n) : (fs.flatMap fieldBytes).length ≤ fs.length * (5 + n) := by
  induction fs with
  | nil => simp
  | cons f fs ih =>
    have hf := h f List.mem_cons_self
    have hrest := ih fun g hg => h g (List.mem_cons_of_mem f hg)
    rw [List.flatMap_cons, List.length_append, length_fieldBytes, List.length_cons, Nat.succ_mul]
    omega

end Fields

section LastValues
variable (cmd : Command)

theorem lastValue_option {α : Type} (o : Option α) {mk : α → TLVField} {tag : UInt8}
    (hmk : ∀ v, (mk v).id = tag) :
    lastValue (o.map mk).toList tag = o.map fun v => (mk v).value := by
  rcases o with _ | v
  · rfl
  · simp [lastValue_singleton, hmk]

theorem lastValue_flatMap_fieldOf (ids : List FieldID) (id : FieldID) :
    lastValue (ids.flatMap (fieldOf cmd)) id.toUint8 =
      if id ∈ ids then lastValue (fieldOf cmd id) id.toUint8 else none := by
  induction ids with
  | nil => rfl
  | cons other ids ih =>
    rw [List.flatMap_cons, lastValue_append, ih]
    by_cases hsame : id = other
    · subst hsame
      by_cases hmem : id ∈ ids <;> simp [hmem]
    · have hother : lastValue (fieldOf cmd other) id.toUint8 = none := by
        refine lastValue_eq_none.mpr fun f hf htag => hsame ?_
        rw [id_of_mem_fieldOf hf] at htag
        exact (toUint8_injective htag).symm
      rw [hother, Option.or_none]
      simp [hsame]

theorem lastValue_fieldsOf (id : FieldID) :
    lastValue (fieldsOf cmd) id.toUint8 = lastValue (fieldOf cmd id) id.toUint8 := by
  rw [fieldsOf, lastValue_flatMap_fieldOf, if_pos (by cases id <;> decide)]

theorem map_byteOf (o : Option UInt8) (id : UInt8) :
    (o.map fun v => (tlvUint8 id v).value).map byteOf = o := by
  cases o <;> rfl

theorem map_wordOf (o : Option UInt32) (id : UInt8) :
    (o.map fun v => (tlvUint32 id v).value).map wordOf = o := by
  rcases o with _ | v
  · rfl
  · exact congrArg some (uint32_ofBE_put v)

theorem map_textOf (o : Option Bytes) (id : UInt8) :
    (o.map fun v => (tlvString id v).value) = o := by
  cases o <;> rfl

theorem map_doubleOf (e : Endian) :
    ((onHost e cmd).monetaryValue.map fun v => (tlvFloat64 fieldMonetaryValue v).value).map
      (doubleOf e) = cmd.monetaryValue := by
  rcases hv : cmd.monetaryValue with _ | v
  · cases e <;> simp [onHost, hv]
  · cases e with
    | little =>
      simp only [onHost, hv, Option.map_some]
      exact congrArg some (swapUint64_objectValue v)
    | big =>
      have hback : doubleOf .big (bigEndianPutUint64 (swapUint64 v)) = v := by
        rw [doubleOf, objectValue, uint64_ofBE_put, swapUint64_swapUint64]
      simp only [onHost, hv, Option.map_some]
      exact congrArg some hback

theorem commandOf_fieldsOf (e : Endian) :
    commandOf e (lastValue (fieldsOf (onHost e cmd))) = cmd := by
  have hlast := lastValue_fieldsOf (onHost e cmd)
  have hservice : lastValue (fieldsOf (onHost e cmd)) fieldService = _ :=
    (hlast .service).trans (lastValue_option _ fun _ => rfl)
  have hnumber : lastValue (fieldsOf (onHost e cmd)) fieldAccountNumber = _ :=
    (hlast .accountNumber).trans (lastValue_option _ fun _ => rfl)
  have hname : lastValue (fieldsOf (onHost e cmd)) fieldAccountOwnerName = _ :=
    (hlast .accountOwnerName).trans (lastValue_option _ fun _ => rfl)
  have hpw : lastValue (fieldsOf (onHost e cmd)) fieldAccountPassword = _ :=
    (hlast .accountPassword).trans (lastValue_option _ fun _ => rfl)
  have htxNumber : lastValue (fieldsOf (onHost e cmd)) fieldTxAccountNumber = _ :=
    (hlast .txAccountNumber).trans (lastValue_option _ fun _ => rfl)
  have htxName : lastValue (fieldsOf (onHost e cmd)) fieldTxAccountOwnerName = _ :=
    (hlast .txAccountOwnerName).trans (lastValue_option _ fun _ => rfl)
  have hvalue : lastValue (fieldsOf (onHost e cmd)) fieldMonetaryValue = _ :=
    (hlast .monetaryValue).trans (lastValue_option _ fun _ => rfl)
  have hcurrency : lastValue (fieldsOf (onHost e cmd)) fieldCurrency = _ :=
    (hlast .currency).trans (lastValue_option _ fun _ => rfl)
  have hupdates : lastValue (fieldsOf (onHost e cmd)) fieldMonitorUpdates = _ :=
    (hlast .monitorUpdates).trans (lastValue_option _ fun _ => rfl)
  have htimeout : lastValue (fieldsOf (onHost e cmd)) fieldMonitorTimeoutSeconds = _ :=
    (hlast .monitorTimeoutSeconds).trans (lastValue_option _ fun _ => rfl)
  simp only [commandOf, hservice, hnumber, hname, hpw, htxNumber, htxName, hvalue, hcurrency,
    hupdates, htimeout, map_byteOf, map_wordOf, map_textOf, map_doubleOf]
  cases e <;> rfl

end LastValues

section RoundTrip
variable {e : Endian} {bits : ℕ} {cmd : Command}

theorem fieldsOf_onHost_ne_nil (e : Endian) (h : cmd ≠ {}) : fieldsOf (onHost e cmd) ≠ [] := by
  intro hnil
  have hempty := eq_empty_of_fieldsOf _ hnil
  have hback := commandOf_fieldsOf cmd e
  rw [hnil] at hback
  exact h hback.symm

theorem length_content_lt (htexts : ∀ t ∈ cmd.texts, t.length < 2 ^ 32) :
    ((fieldsOf cmd).flatMap fieldBytes).length + 5 < 2 ^ 36 := by
  have hvalues : ∀ f ∈ fieldsOf cmd, f.value.length ≤ 2 ^ 32 := fun f hf =>
    (wellFormed_of_mem_fieldsOf htexts hf).sized.le
  have hcount := length_fieldsOf_le cmd
  have hbytes := length_flatMap_fieldBytes_le hvalues
  have hmul := Nat.mul_le_mul_right (5 + 2 ^ 32) hcount
  omega

theorem parses_content (htexts : ∀ t ∈ cmd.texts, t.length < 2 ^ 32) :
    Parses (encodeTLVFields (fieldsOf cmd)) (fieldsOf cmd) [] where
  bytes := by rw [encodeTLVFields_eq, List.append_nil]
  wellFormed _ hf := wellFormed_of_mem_fieldsOf htexts hf
  short := by simp

theorem decodeMessage_within (hbits : 36 ≤ bits) (hset : cmd ≠ {})
    (htexts : ∀ t ∈ cmd.texts, t.length ≤ 1024) :
    decodeMessage e bits (encodeTLVFields (fieldsOf (onHost e cmd))) = .ok (.ok cmd) := by
  have hpow : 2 ^ 36 ≤ 2 ^ bits := Nat.pow_le_pow_right (by omega) hbits
  have hlimit : ∀ t ∈ (onHost e cmd).texts, t.length ≤ 1024 := by
    rw [texts_onHost]
    exact htexts
  have hsized : ∀ t ∈ (onHost e cmd).texts, t.length < 2 ^ 32 := fun t ht =>
    (hlimit t ht).trans_lt (by decide)
  have hlen := length_content_lt hsized
  rw [← encodeTLVFields_eq] at hlen
  have hne : encodeTLVFields (fieldsOf (onHost e cmd)) ≠ [] := by
    obtain ⟨f, fs, hfs⟩ := List.exists_cons_of_ne_nil (fieldsOf_onHost_ne_nil e hset)
    rw [hfs, encodeTLVFields_eq]
    simp [fieldBytes]
  rw [decodeMessage_taken (by omega) (by omega) hne (parses_content hsized) fun f hf =>
    ⟨wellFormed_of_mem_fieldsOf hsized hf, withinLimit_fieldsOf.mpr hlimit f hf⟩,
    commandOf_fieldsOf]

theorem decodeMessage_beyond (hbits : 36 ≤ bits) (htexts : ∀ t ∈ cmd.texts, t.length < 2 ^ 32)
    (hlong : ¬ ∀ t ∈ cmd.texts, t.length ≤ 1024) :
    decodeMessage e bits (encodeTLVFields (fieldsOf (onHost e cmd))) =
      .ok (.error .decodeStringTooLong) := by
  have hpow : 2 ^ 36 ≤ 2 ^ bits := Nat.pow_le_pow_right (by omega) hbits
  rw [← texts_onHost e] at htexts hlong
  have hlen := length_content_lt htexts
  have hwf : ∀ f ∈ fieldsOf (onHost e cmd), f.WellFormed := fun f hf =>
    wellFormed_of_mem_fieldsOf htexts hf
  have hnot : ¬ ∀ f ∈ fieldsOf (onHost e cmd), Taken f := fun h =>
    hlong (withinLimit_fieldsOf.mp fun f hf => (h f hf).2)
  obtain ⟨err, herr, htooLong⟩ := decodeMessage_refused (e := e) (by omega)
    (show ((fieldsOf (onHost e cmd)).flatMap fieldBytes ++ []).length < 2 ^ bits by
      rw [List.append_nil]
      omega) (fun f hf => (hwf f hf).sized) hnot
  rw [List.append_nil, ← encodeTLVFields_eq, htooLong hwf] at herr
  exact herr

/-- A command with a field set comes back from its own bytes as it was, unless one of its texts is
longer than the decoder allows. -/
theorem command_roundtrip (hbits : 36 ≤ bits) (hset : cmd ≠ {})
    (htexts : ∀ t ∈ cmd.texts, t.length < 2 ^ 32) :
    ∃ content, encodeMessage e cmd = .ok (.ok content) ∧
      ((∀ t ∈ cmd.texts, t.length ≤ 1024) → decodeMessage e bits content = .ok (.ok cmd)) ∧
      (¬ (∀ t ∈ cmd.texts, t.length ≤ 1024) →
        decodeMessage e bits content = .ok (.error .decodeStringTooLong)) :=
  ⟨_, encodeMessage_onHost e cmd (fieldsOf_onHost_ne_nil e hset), decodeMessage_within hbits hset,
    decodeMessage_beyond hbits htexts⟩

def closeCommand : Command :=
  { service := some 2, accountNumber := some 10000, accountOwnerName := some [65, 108],
    accountPassword := some [112, 119] }

theorem closeCommand_roundtrip :
    ∃ content, encodeMessage .big closeCommand = .ok (.ok content) ∧
      ((∀ t ∈ closeCommand.texts, t.length ≤ 1024) →
        decodeMessage .big 64 content = .ok (.ok closeCommand)) ∧
      (¬ (∀ t ∈ closeCommand.texts, t.length ≤ 1024) →
        decodeMessage .big 64 content = .ok (.error .decodeStringTooLong)) :=
  command_roundtrip (by decide) (by decide) (by decide)

def longName : Command := { accountOwnerName := some (List.replicate 1025 65) }

/-- A name of 1025 letters is encoded, and its own encoding is refused. -/
theorem longName_not_decoded :
    longName ≠ {} ∧ (∀ t ∈ longName.texts, t.length < 2 ^ 32) ∧
      ∃ content, encodeMessage .little longName = .ok (.ok content) ∧
        decodeMessage .little 64 content = .ok (.error .decodeStringTooLong) := by
  have hset : longName ≠ {} := by
    intro h
    cases congrArg Command.accountOwnerName h
  have htexts : longName.texts = [List.replicate 1025 65] := rfl
  have hsized : ∀ t ∈ longName.texts, t.length < 2 ^ 32 := by
    intro t ht
    rw [htexts, List.mem_singleton] at ht
    rw [ht, List.length_replicate]
    decide
  refine ⟨hset, hsized, _, encodeMessage_onHost .little _ (fieldsOf_onHost_ne_nil .little hset),
    decodeMessage_beyond (by decide) hsized ?_⟩
  intro h
  have hlimit := h _ (by rw [htexts]; exact List.mem_singleton_self _)
  rw [List.length_replicate] at hlimit
  exact absurd hlimit (by decide)

end RoundTrip
end DistributedBanking.ClientProtocol
