import DistributedBanking.CommandDecoding
import DistributedBanking.TLVGrammar

/-!
# The grammar that the client's decoder accepts

The client reads the payloads of the server's grammar whose texts are not too
long, on every host and with the same last values. A round of its loop at a
field is one lemma for each outcome; the two loops then agree because they meet
the same fields.
-/

namespace DistributedBanking.ClientProtocol
open ByteOrder Marshalling

def stringTags : List UInt8 :=
  [fieldAccountOwnerName, fieldAccountPassword, fieldTxAccountOwnerName, fieldMonitorUpdates]

def WithinLimit (f : TLVField) : Prop := f.id ∈ stringTags → f.value.length ≤ maxStringLength

instance (f : TLVField) : Decidable (WithinLimit f) :=
  inferInstanceAs (Decidable (_ → _))

/-- A double as the host holds it once the manual swap has been applied. -/
def doubleOf (e : Endian) (v : Bytes) : UInt64 := swapUint64 (UInt64.ofNat (objectValue e v))

def commandOf (e : Endian) (values : UInt8 → Option Bytes) : Command where
  service := (values fieldService).map byteOf
  accountNumber := (values fieldAccountNumber).map wordOf
  accountOwnerName := values fieldAccountOwnerName
  accountPassword := values fieldAccountPassword
  txAccountNumber := (values fieldTxAccountNumber).map wordOf
  txAccountOwnerName := values fieldTxAccountOwnerName
  monetaryValue := (values fieldMonetaryValue).map (doubleOf e)
  currency := (values fieldCurrency).map byteOf
  monitorUpdates := values fieldMonitorUpdates
  monitorTimeoutSeconds := (values fieldMonitorTimeoutSeconds).map wordOf

def decoderOf (e : Endian) (id : UInt8) : Option DecoderFunc :=
  (toFieldId id).bind fun field => (decodeFuncMap e).lookup field

section Functions
variable (e : Endian) (cmd : Command) {offset : ℕ} {data value : Bytes}

theorem decodeByte_ok (put : Command → UInt8 → Command) (hvalue : value.length = 1)
    (hin : offset + value.length ≤ data.length)
    (hread : (data.drop offset).take value.length = value) :
    decodeByte put cmd offset (UInt32.ofNat value.length) data =
      .ok (.ok (put cmd (byteOf value))) := by
  rw [hvalue] at hin hread
  have hcons := List.drop_eq_getElem_cons (show offset < data.length by omega)
  rw [hcons, List.take_succ_cons, List.take_zero] at hread
  rw [decodeByte, if_neg (by simp [hvalue]), loadUint8_of_drop hcons, ok_bind, ← hread]
  rfl

theorem decodeWord_ok (put : Command → UInt32 → Command) (hvalue : value.length = 4)
    (hin : offset + value.length ≤ data.length)
    (hread : (data.drop offset).take value.length = value) :
    decodeWord put e cmd offset (UInt32.ofNat value.length) data =
      .ok (.ok (put cmd (wordOf value))) := by
  rw [hvalue] at hin hread
  obtain ⟨w, hw, hv⟩ := loadUint32_ok e hin
  rw [hread] at hv
  rw [decodeWord, if_neg (by simp [hvalue]), hw, ok_bind, hv]
  rfl

theorem decodeText_ok (put : Command → Bytes → Command) (hsized : value.length < 2 ^ 32)
    (hlimit : value.length ≤ maxStringLength) (hin : offset + value.length ≤ data.length)
    (hread : (data.drop offset).take value.length = value) :
    decodeText put cmd offset (UInt32.ofNat value.length) data = .ok (.ok (put cmd value)) := by
  rw [decodeText, UInt32.toNat_ofNat_of_lt' hsized, if_neg (not_lt.mpr hlimit), memcpy_ok hin,
    ok_bind, hread]
  rfl

theorem decodeMonetaryValue_ok (hvalue : value.length = 8)
    (hin : offset + value.length ≤ data.length)
    (hread : (data.drop offset).take value.length = value) :
    decodeMonetaryValue e cmd offset (UInt32.ofNat value.length) data =
      .ok (.ok { cmd with monetaryValue := some (doubleOf e value) }) := by
  rw [hvalue] at hin hread
  rw [decodeMonetaryValue, if_neg (by simp [hvalue]), loadUint64, memcpy_ok hin, hread]
  rfl

theorem decoderOf_accepted {f : TLVField} (h : f.WellFormed) (hlimit : WithinLimit f)
    (values : UInt8 → Option Bytes) (hin : offset + f.value.length ≤ data.length)
    (hread : (data.drop offset).take f.value.length = f.value) :
    ∃ decode, decoderOf e f.id = some decode ∧
      decode (commandOf e values) offset (UInt32.ofNat f.value.length) data =
        .ok (.ok (commandOf e (overwrite values f))) := by
  obtain ⟨id, value⟩ := f
  obtain ⟨htag, hwidth, hsized⟩ := h
  revert hwidth htag hlimit
  induction id using tag_cases with
  | service =>
    intro _ _ hwidth
    exact ⟨_, rfl, decodeByte_ok _ _ (hwidth 1 rfl) hin hread⟩
  | accountNumber =>
    intro _ _ hwidth
    exact ⟨_, rfl, decodeWord_ok e _ _ (hwidth 4 rfl) hin hread⟩
  | accountOwnerName =>
    intro hlimit _ _
    exact ⟨_, rfl, decodeText_ok _ _ hsized (hlimit (by simp [stringTags])) hin hread⟩
  | accountPassword =>
    intro hlimit _ _
    exact ⟨_, rfl, decodeText_ok _ _ hsized (hlimit (by simp [stringTags])) hin hread⟩
  | txAccountNumber =>
    intro _ _ hwidth
    exact ⟨_, rfl, decodeWord_ok e _ _ (hwidth 4 rfl) hin hread⟩
  | txAccountOwnerName =>
    intro hlimit _ _
    exact ⟨_, rfl, decodeText_ok _ _ hsized (hlimit (by simp [stringTags])) hin hread⟩
  | monetaryValue =>
    intro _ _ hwidth
    exact ⟨_, rfl, decodeMonetaryValue_ok e _ (hwidth 8 rfl) hin hread⟩
  | currency =>
    intro _ _ hwidth
    exact ⟨_, rfl, decodeByte_ok _ _ (hwidth 1 rfl) hin hread⟩
  | monitorUpdates =>
    intro hlimit _ _
    exact ⟨_, rfl, decodeText_ok _ _ hsized (hlimit (by simp [stringTags])) hin hread⟩
  | monitorTimeoutSeconds =>
    intro _ _ hwidth
    exact ⟨_, rfl, decodeWord_ok e _ _ (hwidth 4 rfl) hin hread⟩
  | unknown id hid =>
    intro _ htag _
    exact absurd htag hid

theorem decodeText_tooLong (put : Command → Bytes → Command) (hsized : value.length < 2 ^ 32)
    (hlimit : ¬ value.length ≤ maxStringLength) :
    decodeText put cmd offset (UInt32.ofNat value.length) data =
      .ok (.error .decodeStringTooLong) := by
  rw [decodeText, UInt32.toNat_ofNat_of_lt' hsized, if_pos (not_le.mp hlimit)]

theorem decoderOf_tooLong {f : TLVField} (hsized : f.value.length < 2 ^ 32)
    (hlimit : ¬ WithinLimit f) (offset : ℕ) (data : Bytes) :
    ∃ decode, decoderOf e f.id = some decode ∧
      decode cmd offset (UInt32.ofNat f.value.length) data = .ok (.error .decodeStringTooLong) := by
  obtain ⟨id, value⟩ := f
  simp only [WithinLimit, Classical.not_imp, stringTags, List.mem_cons, List.not_mem_nil,
    or_false] at hlimit
  obtain ⟨rfl | rfl | rfl | rfl, hlong⟩ := hlimit
  · exact ⟨_, rfl, decodeText_tooLong cmd _ hsized hlong⟩
  · exact ⟨_, rfl, decodeText_tooLong cmd _ hsized hlong⟩
  · exact ⟨_, rfl, decodeText_tooLong cmd _ hsized hlong⟩
  · exact ⟨_, rfl, decodeText_tooLong cmd _ hsized hlong⟩

theorem toFieldId_unknown {id : UInt8}
    (h : ¬ (fieldService ≤ id ∧ id ≤ fieldMonitorTimeoutSeconds)) : toFieldId id = none := by
  have hne : ∀ known : FieldID, id ≠ known.toUint8 := by
    intro known heq
    apply h
    rw [heq]
    cases known <;> decide
  simp only [toFieldId, hne, if_false]

theorem decoderOf_malformed {f : TLVField} (hsized : f.value.length < 2 ^ 32)
    (h : ¬ f.WellFormed) (hknown : toFieldId f.id ≠ none) (offset : ℕ) (data : Bytes) :
    ∃ decode, decoderOf e f.id = some decode ∧
      decode cmd offset (UInt32.ofNat f.value.length) data = .ok (.error .decodeFieldOverflow) := by
  obtain ⟨id, value⟩ := f
  revert h hknown
  induction id using tag_cases with
  | service =>
    intro h _
    exact ⟨_, rfl, if_pos (ofNat_length_ne hsized h (by decide) rfl (by decide))⟩
  | accountNumber =>
    intro h _
    exact ⟨_, rfl, if_pos (ofNat_length_ne hsized h (by decide) rfl (by decide))⟩
  | accountOwnerName =>
    intro h _
    exact absurd (wellFormed_text (by decide) rfl hsized) h
  | accountPassword =>
    intro h _
    exact absurd (wellFormed_text (by decide) rfl hsized) h
  | txAccountNumber =>
    intro h _
    exact ⟨_, rfl, if_pos (ofNat_length_ne hsized h (by decide) rfl (by decide))⟩
  | txAccountOwnerName =>
    intro h _
    exact absurd (wellFormed_text (by decide) rfl hsized) h
  | monetaryValue =>
    intro h _
    exact ⟨_, rfl, if_pos (ofNat_length_ne hsized h (by decide) rfl (by decide))⟩
  | currency =>
    intro h _
    exact ⟨_, rfl, if_pos (ofNat_length_ne hsized h (by decide) rfl (by decide))⟩
  | monitorUpdates =>
    intro h _
    exact absurd (wellFormed_text (by decide) rfl hsized) h
  | monitorTimeoutSeconds =>
    intro h _
    exact ⟨_, rfl, if_pos (ofNat_length_ne hsized h (by decide) rfl (by decide))⟩
  | unknown id hid =>
    intro _ hknown
    exact absurd (toFieldId_unknown hid) hknown

end Functions

/-- The client takes the field: it is well formed, and a text is not too long. -/
def Taken (f : TLVField) : Prop := f.WellFormed ∧ WithinLimit f

section Loop
variable {e : Endian} {bits : ℕ}

theorem fieldBytes_append (f : TLVField) (more : Bytes) :
    fieldBytes f ++ more =
      f.id :: (bigEndianPutUint32 (UInt32.ofNat f.value.length) ++ (f.value ++ more)) := by
  rw [fieldBytes, List.cons_append, List.append_assoc]

theorem decodeFields_field (hbits : 32 ≤ bits) (pre : Bytes) {f : TLVField} {more : Bytes}
    (hdata : (pre ++ (fieldBytes f ++ more)).length < 2 ^ bits) (hsized : f.value.length < 2 ^ 32)
    (fuel : ℕ) (cmd : Command) :
    decodeFields e bits (pre ++ (fieldBytes f ++ more)) (fuel + 1) pre.length cmd =
      (match decoderOf e f.id with
      | none => .ok (.error .decodeUnknownField)
      | some decode => do
        match ← decode cmd (pre.length + 5) (UInt32.ofNat f.value.length)
            (pre ++ (fieldBytes f ++ more)) with
        | .error err => return .error err
        | .ok cmd =>
          decodeFields e bits (pre ++ (fieldBytes f ++ more)) fuel
            (pre.length + 5 + f.value.length) cmd) := by
  have hlen : (UInt32.ofNat f.value.length).toNat = f.value.length :=
    UInt32.toNat_ofNat_of_lt' hsized
  have hcount := length_header pre f.id (UInt32.ofNat f.value.length) (f.value ++ more)
  have hentry := entryLength_header pre f.id (UInt32.ofNat f.value.length) (f.value ++ more)
  rw [← fieldBytes_append] at hcount hentry
  rw [hlen] at hentry
  have htag : (pre ++ (fieldBytes f ++ more)).getD pre.length 0 = f.id := by
    rw [fieldBytes_append]
    simp
  have hrest : (f.value ++ more).length = f.value.length + more.length := List.length_append
  rw [decodeFields_round hbits hdata (by omega), htag, hentry, decoderOf]
  rcases toFieldId f.id with _ | field
  · rfl
  simp only [Option.bind_some]
  refine (if_neg (by omega)).trans ?_
  rcases (decodeFuncMap e).lookup field with _ | decode <;> rfl

theorem decodeFields_taken (hbits : 32 ≤ bits) (pre : Bytes) {f : TLVField} {more : Bytes}
    (hdata : (pre ++ (fieldBytes f ++ more)).length < 2 ^ bits) (h : Taken f) (fuel : ℕ)
    (values : UInt8 → Option Bytes) :
    decodeFields e bits (pre ++ (fieldBytes f ++ more)) (fuel + 1) pre.length
        (commandOf e values) =
      decodeFields e bits (pre ++ (fieldBytes f ++ more)) fuel (pre.length + 5 + f.value.length)
        (commandOf e (overwrite values f)) := by
  have hcount := length_header pre f.id (UInt32.ofNat f.value.length) (f.value ++ more)
  have hdrop := drop_header pre f.id (UInt32.ofNat f.value.length) (f.value ++ more)
  rw [← fieldBytes_append] at hcount hdrop
  obtain ⟨decode, hdecoder, hdecode⟩ := decoderOf_accepted e h.1 h.2 values
    (show pre.length + 5 + f.value.length ≤ (pre ++ (fieldBytes f ++ more)).length by
      rw [hcount, List.length_append]
      omega)
    (by rw [hdrop, List.take_left])
  rw [decodeFields_field hbits pre hdata h.1.sized, hdecoder]
  simp only [hdecode, ok_bind]

theorem decodeFields_notTaken (hbits : 32 ≤ bits) (pre : Bytes) {f : TLVField} {more : Bytes}
    (hdata : (pre ++ (fieldBytes f ++ more)).length < 2 ^ bits) (hsized : f.value.length < 2 ^ 32)
    (h : ¬ Taken f) (fuel : ℕ) (cmd : Command) :
    ∃ err, decodeFields e bits (pre ++ (fieldBytes f ++ more)) (fuel + 1) pre.length cmd =
      .ok (.error err) ∧ (f.WellFormed → err = .decodeStringTooLong) := by
  rw [decodeFields_field hbits pre hdata hsized]
  by_cases hwf : f.WellFormed
  · obtain ⟨decode, hdecoder, hdecode⟩ := decoderOf_tooLong e cmd hsized
      (fun hlimit => h ⟨hwf, hlimit⟩) (pre.length + 5) (pre ++ (fieldBytes f ++ more))
    refine ⟨.decodeStringTooLong, ?_, fun _ => rfl⟩
    rw [hdecoder]
    simp only [hdecode, ok_bind]
    rfl
  · by_cases hknown : toFieldId f.id = none
    · refine ⟨.decodeUnknownField, ?_, fun h => absurd h hwf⟩
      rw [decoderOf, hknown]
      rfl
    · obtain ⟨decode, hdecoder, hdecode⟩ := decoderOf_malformed e cmd hsized hwf hknown
        (pre.length + 5) (pre ++ (fieldBytes f ++ more))
      refine ⟨.decodeFieldOverflow, ?_, fun h => absurd h hwf⟩
      rw [hdecoder]
      simp only [hdecode, ok_bind]
      rfl

theorem decodeFields_append (hbits : 32 ≤ bits) {fs : List TLVField} (h : ∀ f ∈ fs, Taken f)
    (pre tail : Bytes) (hdata : (pre ++ (fs.flatMap fieldBytes ++ tail)).length < 2 ^ bits)
    (fuel : ℕ) (values : UInt8 → Option Bytes) :
    decodeFields e bits (pre ++ (fs.flatMap fieldBytes ++ tail)) (fuel + fs.length) pre.length
        (commandOf e values) =
      decodeFields e bits (pre ++ (fs.flatMap fieldBytes ++ tail)) fuel
        (pre.length + (fs.flatMap fieldBytes).length)
        (commandOf e (fs.foldl overwrite values)) := by
  induction fs generalizing pre values with
  | nil => rfl
  | cons f fs ih =>
    have hfront : pre ++ ((f :: fs).flatMap fieldBytes ++ tail) =
        pre ++ (fieldBytes f ++ (fs.flatMap fieldBytes ++ tail)) := by simp
    have hnext : pre ++ (fieldBytes f ++ (fs.flatMap fieldBytes ++ tail)) =
        (pre ++ fieldBytes f) ++ (fs.flatMap fieldBytes ++ tail) := by simp
    have hpos : (pre ++ fieldBytes f).length = pre.length + 5 + f.value.length := by
      rw [List.length_append, length_fieldBytes]
      omega
    have hend : pre.length + ((f :: fs).flatMap fieldBytes).length =
        (pre ++ fieldBytes f).length + (fs.flatMap fieldBytes).length := by
      rw [List.flatMap_cons, List.length_append, List.length_append]
      omega
    rw [hfront] at hdata ⊢
    rw [List.length_cons, ← Nat.add_assoc,
      decodeFields_taken hbits pre hdata (h f List.mem_cons_self), hend, ← hpos]
    rw [hnext] at hdata ⊢
    exact ih (fun g hg => h g (List.mem_cons_of_mem f hg)) _ hdata _

theorem decodeFields_refused (hbits : 32 ≤ bits) {fs : List TLVField}
    (hsized : ∀ f ∈ fs, f.value.length < 2 ^ 32) (h : ¬ ∀ f ∈ fs, Taken f) (pre tail : Bytes)
    (hdata : (pre ++ (fs.flatMap fieldBytes ++ tail)).length < 2 ^ bits) (fuel : ℕ)
    (values : UInt8 → Option Bytes) :
    ∃ err, decodeFields e bits (pre ++ (fs.flatMap fieldBytes ++ tail)) (fuel + fs.length)
        pre.length (commandOf e values) = .ok (.error err) ∧
      ((∀ f ∈ fs, f.WellFormed) → err = .decodeStringTooLong) := by
  induction fs generalizing pre values with
  | nil => exact absurd (by simp) h
  | cons f fs ih =>
    have hfront : pre ++ ((f :: fs).flatMap fieldBytes ++ tail) =
        pre ++ (fieldBytes f ++ (fs.flatMap fieldBytes ++ tail)) := by simp
    have hnext : pre ++ (fieldBytes f ++ (fs.flatMap fieldBytes ++ tail)) =
        (pre ++ fieldBytes f) ++ (fs.flatMap fieldBytes ++ tail) := by simp
    have hpos : (pre ++ fieldBytes f).length = pre.length + 5 + f.value.length := by
      rw [List.length_append, length_fieldBytes]
      omega
    rw [hfront] at hdata ⊢
    rw [List.length_cons, ← Nat.add_assoc]
    by_cases hf : Taken f
    · have hrest : ¬ ∀ g ∈ fs, Taken g := by
        intro hall
        apply h
        intro g hg
        rcases List.mem_cons.mp hg with rfl | hg
        · exact hf
        · exact hall g hg
      rw [decodeFields_taken hbits pre hdata hf, ← hpos]
      rw [hnext] at hdata ⊢
      obtain ⟨err, herr, hlong⟩ := ih (fun g hg => hsized g (List.mem_cons_of_mem f hg)) hrest _
        hdata (overwrite values f)
      exact ⟨err, herr, fun hwf => hlong fun g hg => hwf g (List.mem_cons_of_mem f hg)⟩
    · obtain ⟨err, herr, hlong⟩ := decodeFields_notTaken (e := e) hbits pre hdata
        (hsized f List.mem_cons_self) hf (fuel + fs.length) (commandOf e values)
      exact ⟨err, herr, fun hwf => hlong (hwf f List.mem_cons_self)⟩

theorem decodeFields_overflow (hbits : 32 ≤ bits) (pre : Bytes) {id : UInt8} {v : UInt32}
    {more : Bytes} (hdata : (pre ++ id :: (bigEndianPutUint32 v ++ more)).length < 2 ^ bits)
    (hshort : more.length < v.toNat) (fuel : ℕ) (cmd : Command) :
    ∃ err, decodeFields e bits (pre ++ id :: (bigEndianPutUint32 v ++ more)) (fuel + 1) pre.length
      cmd = .ok (.error err) := by
  have hcount := length_header pre id v more
  have htag : (pre ++ id :: (bigEndianPutUint32 v ++ more)).getD pre.length 0 = id := by simp
  rw [decodeFields_round hbits hdata (by omega), htag, entryLength_header]
  rcases toFieldId id with _ | field
  · exact ⟨_, rfl⟩
  · simp only
    rw [if_pos (by omega)]
    exact ⟨_, rfl⟩

end Loop

section Message
variable {e : Endian} {bits : ℕ} {data : Bytes} {fs : List TLVField} {rest : Bytes}

theorem decodeMessage_eq (hne : data ≠ []) :
    decodeMessage e bits data = decodeFields e bits data (data.length + 1) 0 {} :=
  if_neg (by simpa using hne)

theorem fuel_eq (fs : List TLVField) (rest : Bytes) :
    (fs.flatMap fieldBytes ++ rest).length + 1 =
      (fs.flatMap fieldBytes ++ rest).length - fs.length + 1 + fs.length := by
  have hcount := length_le_flatMap_fieldBytes fs
  rw [List.length_append]
  omega

theorem decodeMessage_taken (hbits : 32 ≤ bits) (hdata : data.length + 5 < 2 ^ bits)
    (hne : data ≠ []) (h : Parses data fs rest) (htaken : ∀ f ∈ fs, Taken f) :
    decodeMessage e bits data = .ok (.ok (commandOf e (lastValue fs))) := by
  obtain ⟨rfl, -, hshort⟩ := h
  have hfold : fs.foldl overwrite (fun _ => none) = lastValue fs := by
    rw [foldl_overwrite]
    funext id
    exact Option.or_none
  have hfields := decodeFields_append (e := e) hbits htaken [] rest
    (show ([] ++ (fs.flatMap fieldBytes ++ rest)).length < 2 ^ bits by
      rw [List.nil_append]
      omega)
    ((fs.flatMap fieldBytes ++ rest).length - fs.length + 1) fun _ => none
  simp only [List.nil_append, List.length_nil, Nat.zero_add, hfold] at hfields
  rw [decodeMessage_eq hne, fuel_eq]
  refine hfields.trans (decodeFields_end ?_ ?_ _ _)
  · rw [List.length_append]
    omega
  · rw [List.length_append] at hdata
    omega

theorem decodeMessage_refused (hbits : 32 ≤ bits)
    (hdata : (fs.flatMap fieldBytes ++ rest).length < 2 ^ bits)
    (hsized : ∀ f ∈ fs, f.value.length < 2 ^ 32) (h : ¬ ∀ f ∈ fs, Taken f) :
    ∃ err, decodeMessage e bits (fs.flatMap fieldBytes ++ rest) = .ok (.error err) ∧
      ((∀ f ∈ fs, f.WellFormed) → err = .decodeStringTooLong) := by
  have hne : fs.flatMap fieldBytes ++ rest ≠ [] := by
    intro hnil
    obtain ⟨hnil, -⟩ := List.append_eq_nil_iff.mp hnil
    have hcount := length_le_flatMap_fieldBytes fs
    rw [hnil, List.length_nil] at hcount
    rw [List.length_eq_zero_iff.mp (Nat.le_zero.mp hcount)] at h
    exact h (by simp)
  rw [decodeMessage_eq hne, fuel_eq]
  exact decodeFields_refused hbits hsized h [] rest hdata _ fun _ => none

theorem decodeMessage_overflow (hbits : 32 ≤ bits) {id : UInt8} {v : UInt32} {more : Bytes}
    (hdata : (fs.flatMap fieldBytes ++ id :: (bigEndianPutUint32 v ++ more)).length < 2 ^ bits)
    (htaken : ∀ f ∈ fs, Taken f) (hshort : more.length < v.toNat) :
    ∃ err, decodeMessage e bits (fs.flatMap fieldBytes ++ id :: (bigEndianPutUint32 v ++ more)) =
      .ok (.error err) := by
  have hfields := decodeFields_append (e := e) hbits htaken []
    (id :: (bigEndianPutUint32 v ++ more)) hdata
    ((fs.flatMap fieldBytes ++ id :: (bigEndianPutUint32 v ++ more)).length - fs.length + 1)
    fun _ => none
  simp only [List.nil_append, List.length_nil, Nat.zero_add] at hfields
  rw [decodeMessage_eq (by simp), fuel_eq, show ({} : Command) = commandOf e fun _ => none from rfl,
    hfields]
  exact decodeFields_overflow hbits _ hdata hshort _ _

/-- The client accepts exactly the payloads of the grammar whose fields it takes. -/
theorem parses_of_decodeMessage (hbits : 32 ≤ bits) (hdata : data.length < 2 ^ bits)
    {cmd : Command} (h : decodeMessage e bits data = .ok (.ok cmd)) :
    ∃ fs rest, Parses data fs rest ∧ ∀ f ∈ fs, Taken f := by
  obtain ⟨fs, rest, rfl, hsized, hrest⟩ := exists_fields data
  by_cases htaken : ∀ f ∈ fs, Taken f
  swap
  · obtain ⟨err, herr, -⟩ := decodeMessage_refused (e := e) hbits hdata hsized htaken
    rw [herr] at h
    cases h
  rcases hrest with hshort | ⟨id, v, more, rfl, hover⟩
  · exact ⟨fs, rest, ⟨rfl, fun f hf => (htaken f hf).1, hshort⟩, htaken⟩
  · obtain ⟨err, herr⟩ := decodeMessage_overflow (e := e) hbits hdata htaken hover
    rw [herr] at h
    cases h

end Message

section Agreement
variable {M : Type} [Float64 M] {bits : ℕ} {data : Bytes}

theorem doubleOf_little {v : Bytes} (h : v.length = 8) : doubleOf .little v = patternOf v := by
  have hlt := ofBE_lt v
  have hback := toBE_ofBE v
  rw [h] at hlt hback
  have hput : bigEndianPutUint64 (patternOf v) = v := by
    rw [bigEndianPutUint64, patternOf, UInt64.toNat_ofNat_of_lt' hlt, hback]
  rw [doubleOf, ← hput, swapUint64_objectValue, hput]

theorem parsed_commandOf {fs : List TLVField} (h : ∀ f ∈ fs, f.WellFormed) :
    ParsedCommand.ofValues (M := M) (lastValue fs) = parsed (commandOf .little (lastValue fs)) := by
  have hdouble : (lastValue fs fieldMonetaryValue).map patternOf =
      (lastValue fs fieldMonetaryValue).map (doubleOf .little) := by
    rcases hlast : lastValue fs fieldMonetaryValue with _ | v
    · rfl
    · obtain ⟨fs₁, fs₂, rfl, -⟩ := lastValue_eq_some.mp hlast
      have hfield : TLVField.WellFormed ⟨fieldMonetaryValue, v⟩ := h _ (by simp)
      rw [Option.map_some, Option.map_some, doubleOf_little (hfield.width 8 rfl)]
  simp only [ParsedCommand.ofValues, parsed, commandOf, ← hdouble, Option.map_map]
  rfl

/-- The client accepts what the server accepts, as long as there is something and no text is too
long, and then both read the same. -/
theorem decoders_agree (hbits : 32 ≤ bits) (hdata : data.length + 5 < 2 ^ bits)
    (hlen : data.length < 2 ^ 62) :
    ((∃ cmd, decodeMessage .little bits data = .ok (.ok cmd)) ↔
      data ≠ [] ∧ (∃ pc : ParsedCommand M, decodeTLV 64 data = .ok (.ok pc)) ∧
        ∀ fs rest, Parses data fs rest →
          ∀ f ∈ fs, f.id ∈ stringTags → f.value.length ≤ 1024) ∧
      ∀ cmd (pc : ParsedCommand M), decodeMessage .little bits data = .ok (.ok cmd) →
        decodeTLV 64 data = .ok (.ok pc) → pc = parsed cmd := by
  have haddr := addressable_64 hlen
  have hnonempty : ∀ cmd, decodeMessage .little bits data = .ok (.ok cmd) → data ≠ [] := by
    intro cmd hcmd hnil
    rw [hnil] at hcmd
    cases hcmd
  refine ⟨⟨fun h => ?_, fun h => ?_⟩, ?_⟩
  · obtain ⟨cmd, hcmd⟩ := h
    obtain ⟨fs, rest, hparses, htaken⟩ := parses_of_decodeMessage hbits (by omega) hcmd
    refine ⟨hnonempty cmd hcmd, ⟨_, decodeTLV_parses hparses haddr⟩, ?_⟩
    intro fs' rest' hparses' f hf
    obtain ⟨rfl, rfl⟩ := hparses.unique hparses'
    exact (htaken f hf).2
  · obtain ⟨hne, ⟨pc, hpc⟩, hlimit⟩ := h
    obtain ⟨fs, rest, hparses⟩ := parses_of_decodeTLV hlen hpc
    exact ⟨_, decodeMessage_taken hbits hdata hne hparses fun f hf =>
      ⟨hparses.wellFormed f hf, hlimit fs rest hparses f hf⟩⟩
  · intro cmd pc hcmd hpc
    obtain ⟨fs, rest, hparses, htaken⟩ := parses_of_decodeMessage hbits (by omega) hcmd
    rw [decodeMessage_taken hbits hdata (hnonempty cmd hcmd) hparses htaken] at hcmd
    rw [decodeTLV_parses hparses haddr] at hpc
    cases hcmd
    cases hpc
    exact parsed_commandOf hparses.wellFormed

theorem decoders_agree_currency :
    ((∃ cmd, decodeMessage .little 64 [8, 0, 0, 0, 1, 2, 9] = .ok (.ok cmd)) ↔
      ([8, 0, 0, 0, 1, 2, 9] : Bytes) ≠ [] ∧
        (∃ pc : ParsedCommand UInt64, decodeTLV 64 [8, 0, 0, 0, 1, 2, 9] = .ok (.ok pc)) ∧
        ∀ fs rest, Parses [8, 0, 0, 0, 1, 2, 9] fs rest →
          ∀ f ∈ fs, f.id ∈ stringTags → f.value.length ≤ 1024) ∧
      ∀ cmd (pc : ParsedCommand UInt64),
        decodeMessage .little 64 [8, 0, 0, 0, 1, 2, 9] = .ok (.ok cmd) →
        decodeTLV 64 [8, 0, 0, 0, 1, 2, 9] = .ok (.ok pc) → pc = parsed cmd :=
  decoders_agree (by decide) (by decide) (by decide)

end Agreement
end DistributedBanking.ClientProtocol
