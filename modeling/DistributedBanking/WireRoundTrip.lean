import DistributedBanking.ClientProtocol
import DistributedBanking.HandlerSpec

/-!
# The client's requests as the server reads them

The client's encoder and the server's encoder produce the same bytes for the
same fields, so the decoder's law for its own encoder applies: the decoder sets
one field after the other, in the client's order. On a little-endian host the
manual byte swap of doubles gives network order.
-/

namespace DistributedBanking.ClientProtocol
open ByteOrder Marshalling Semantics

section Swap

theorem and_byte (v k : ℕ) : v &&& (0xFF * 2 ^ k) = v / 2 ^ k % 2 ^ 8 * 2 ^ k := by
  apply Nat.eq_of_testBit_eq
  intro i
  rw [Nat.testBit_and, Nat.testBit_mul_two_pow, Nat.testBit_mul_two_pow, Nat.testBit_mod_two_pow,
    Nat.testBit_div_two_pow, show (0xFF : ℕ) = 2 ^ 8 - 1 from rfl, Nat.testBit_two_pow_sub_one]
  by_cases hi : k ≤ i
  · simp [hi, Bool.and_comm]
  · simp [hi]

theorem byte_shiftRight (v : ℕ) {k s : ℕ} (h : s ≤ k) :
    (v &&& (0xFF * 2 ^ k)) >>> s = v / 2 ^ k % 2 ^ 8 * 2 ^ (k - s) := by
  obtain ⟨r, rfl⟩ : ∃ r, k = r + s := ⟨k - s, by omega⟩
  rw [and_byte, Nat.shiftRight_eq_div_pow, Nat.add_sub_cancel, pow_add _ r s, ← mul_assoc,
    Nat.mul_div_cancel _ (by positivity)]

theorem byte_shiftLeft (v : ℕ) {k s : ℕ} (h : k + s + 8 ≤ 64) :
    ((v &&& (0xFF * 2 ^ k)) <<< s) % 2 ^ 64 = v / 2 ^ k % 2 ^ 8 * 2 ^ (k + s) := by
  have hbyte : v / 2 ^ k % 2 ^ 8 < 2 ^ 8 := Nat.mod_lt _ (by omega)
  have hlt : v / 2 ^ k % 2 ^ 8 * 2 ^ (k + s) < 2 ^ 64 := by
    calc v / 2 ^ k % 2 ^ 8 * 2 ^ (k + s) < 2 ^ 8 * 2 ^ (k + s) :=
          Nat.mul_lt_mul_of_pos_right hbyte (by positivity)
      _ = 2 ^ (k + s + 8) := by rw [← pow_add]; congr 1; omega
      _ ≤ 2 ^ 64 := Nat.pow_le_pow_right (by omega) h
  rw [and_byte, Nat.shiftLeft_eq, mul_assoc, ← pow_add, Nat.mod_eq_of_lt hlt]

theorem or_shifted {x i : ℕ} (h : x < 2 ^ i) (a : ℕ) : x ||| a * 2 ^ i = x + a * 2 ^ i := by
  rw [Nat.or_comm, mul_comm, ← Nat.two_pow_add_eq_or_of_lt h, add_comm]

def ofBytes8 (b0 b1 b2 b3 b4 b5 b6 b7 : ℕ) : ℕ :=
  b0 + b1 * 2 ^ 8 + b2 * 2 ^ 16 + b3 * 2 ^ 24 + b4 * 2 ^ 32 + b5 * 2 ^ 40 + b6 * 2 ^ 48 +
    b7 * 2 ^ 56

theorem or_bytes8 {b0 b1 b2 b3 b4 b5 b6 b7 : ℕ} (h0 : b0 < 2 ^ 8) (h1 : b1 < 2 ^ 8)
    (h2 : b2 < 2 ^ 8) (h3 : b3 < 2 ^ 8) (h4 : b4 < 2 ^ 8) (h5 : b5 < 2 ^ 8) (h6 : b6 < 2 ^ 8) :
    b0 ||| b1 * 2 ^ 8 ||| b2 * 2 ^ 16 ||| b3 * 2 ^ 24 ||| b4 * 2 ^ 32 ||| b5 * 2 ^ 40 |||
      b6 * 2 ^ 48 ||| b7 * 2 ^ 56 = ofBytes8 b0 b1 b2 b3 b4 b5 b6 b7 := by
  have e1 := or_shifted h0 b1
  have e2 := or_shifted (show b0 + b1 * 2 ^ 8 < 2 ^ 16 by omega) b2
  have e3 := or_shifted (show b0 + b1 * 2 ^ 8 + b2 * 2 ^ 16 < 2 ^ 24 by omega) b3
  have e4 := or_shifted
    (show b0 + b1 * 2 ^ 8 + b2 * 2 ^ 16 + b3 * 2 ^ 24 < 2 ^ 32 by omega) b4
  have e5 := or_shifted
    (show b0 + b1 * 2 ^ 8 + b2 * 2 ^ 16 + b3 * 2 ^ 24 + b4 * 2 ^ 32 < 2 ^ 40 by omega) b5
  have e6 := or_shifted
    (show b0 + b1 * 2 ^ 8 + b2 * 2 ^ 16 + b3 * 2 ^ 24 + b4 * 2 ^ 32 + b5 * 2 ^ 40 < 2 ^ 48
      by omega) b6
  have e7 := or_shifted
    (show b0 + b1 * 2 ^ 8 + b2 * 2 ^ 16 + b3 * 2 ^ 24 + b4 * 2 ^ 32 + b5 * 2 ^ 40 +
      b6 * 2 ^ 48 < 2 ^ 56 by omega) b7
  rw [e1, e2, e3, e4, e5, e6, e7, ofBytes8]

theorem toLE_ofBytes8 {b0 b1 b2 b3 b4 b5 b6 b7 : ℕ} (h0 : b0 < 2 ^ 8) (h1 : b1 < 2 ^ 8)
    (h2 : b2 < 2 ^ 8) (h3 : b3 < 2 ^ 8) (h4 : b4 < 2 ^ 8) (h5 : b5 < 2 ^ 8) (h6 : b6 < 2 ^ 8) :
    toLE 8 (ofBytes8 b0 b1 b2 b3 b4 b5 b6 b7) =
      [b0, b1, b2, b3, b4, b5, b6, b7].map UInt8.ofNat := by
  simp only [toLE, toBE, ofBytes8, List.reverse_cons, List.reverse_nil, List.nil_append,
    List.cons_append, List.map_cons, List.map_nil, List.cons.injEq, and_true, ← UInt8.toNat_inj,
    UInt8.toNat_ofNat']
  refine ⟨?_, ?_, ?_, ?_, ?_, ?_, ?_, ?_⟩ <;> omega

def byteAt (v k : ℕ) : ℕ := v / 2 ^ k % 2 ^ 8

theorem swapUint64_toNat (v : UInt64) :
    (swapUint64 v).toNat = ofBytes8 (byteAt v.toNat 56) (byteAt v.toNat 48) (byteAt v.toNat 40)
      (byteAt v.toNat 32) (byteAt v.toNat 24) (byteAt v.toNat 16) (byteAt v.toNat 8)
      (byteAt v.toNat 0) := by
  have hbyte : ∀ k, byteAt v.toNat k < 2 ^ 8 := fun k => Nat.mod_lt _ (by omega)
  rw [← or_bytes8 (hbyte _) (hbyte _) (hbyte _) (hbyte _) (hbyte _) (hbyte _) (hbyte _)]
  simp only [swapUint64, UInt64.toNat_or, UInt64.toNat_and, UInt64.toNat_shiftRight,
    UInt64.toNat_shiftLeft]
  change (v.toNat &&& 0xFF * 2 ^ 56) >>> 56 ||| (v.toNat &&& 0xFF * 2 ^ 48) >>> 40 |||
    (v.toNat &&& 0xFF * 2 ^ 40) >>> 24 ||| (v.toNat &&& 0xFF * 2 ^ 32) >>> 8 |||
    (v.toNat &&& 0xFF * 2 ^ 24) <<< 8 % 2 ^ 64 ||| (v.toNat &&& 0xFF * 2 ^ 16) <<< 24 % 2 ^ 64 |||
    (v.toNat &&& 0xFF * 2 ^ 8) <<< 40 % 2 ^ 64 ||| (v.toNat &&& 0xFF * 2 ^ 0) <<< 56 % 2 ^ 64 = _
  rw [byte_shiftRight _ (by omega), byte_shiftRight _ (by omega), byte_shiftRight _ (by omega),
    byte_shiftRight _ (by omega), byte_shiftLeft _ (by omega), byte_shiftLeft _ (by omega),
    byte_shiftLeft _ (by omega), byte_shiftLeft _ (by omega)]
  simp only [byteAt, Nat.sub_self, pow_zero, mul_one, Nat.reduceSub, Nat.reduceAdd]

theorem toBE_eight (v : ℕ) :
    toBE 8 v = [byteAt v 56, byteAt v 48, byteAt v 40, byteAt v 32, byteAt v 24, byteAt v 16,
      byteAt v 8, byteAt v 0].map UInt8.ofNat := by
  simp only [toBE, byteAt, List.map_cons, List.map_nil, List.cons.injEq, and_true,
    ← UInt8.toNat_inj, UInt8.toNat_ofNat', Nat.mod_mod]
  norm_num

theorem objectBytes_swapUint64 (v : UInt64) :
    objectBytes .little 8 (swapUint64 v).toNat = bigEndianPutUint64 v := by
  have hbyte : ∀ k, byteAt v.toNat k < 2 ^ 8 := fun k => Nat.mod_lt _ (by omega)
  rw [objectBytes, swapUint64_toNat,
    toLE_ofBytes8 (hbyte _) (hbyte _) (hbyte _) (hbyte _) (hbyte _) (hbyte _) (hbyte _),
    bigEndianPutUint64, toBE_eight]

example : objectBytes .little 8 (swapUint64 0x4049000000000000).toNat =
    [0x40, 0x49, 0, 0, 0, 0, 0, 0] := by
  decide +kernel

end Swap

def fieldOf (cmd : Command) : FieldID → List TLVField
  | .service => (cmd.service.map (tlvUint8 fieldService)).toList
  | .accountNumber => (cmd.accountNumber.map (tlvUint32 fieldAccountNumber)).toList
  | .accountOwnerName => (cmd.accountOwnerName.map (tlvString fieldAccountOwnerName)).toList
  | .accountPassword => (cmd.accountPassword.map (tlvString fieldAccountPassword)).toList
  | .txAccountNumber => (cmd.txAccountNumber.map (tlvUint32 fieldTxAccountNumber)).toList
  | .txAccountOwnerName =>
    (cmd.txAccountOwnerName.map (tlvString fieldTxAccountOwnerName)).toList
  | .monetaryValue => (cmd.monetaryValue.map (tlvFloat64 fieldMonetaryValue)).toList
  | .currency => (cmd.currency.map (tlvUint8 fieldCurrency)).toList
  | .monitorUpdates => (cmd.monitorUpdates.map (tlvString fieldMonitorUpdates)).toList
  | .monitorTimeoutSeconds =>
    (cmd.monitorTimeoutSeconds.map (tlvUint32 fieldMonitorTimeoutSeconds)).toList

def fieldOrder : List FieldID :=
  [.service, .accountNumber, .accountOwnerName, .accountPassword, .txAccountNumber,
    .txAccountOwnerName, .monetaryValue, .currency, .monitorUpdates, .monitorTimeoutSeconds]

def fieldsOf (cmd : Command) : List TLVField := fieldOrder.flatMap (fieldOf cmd)

theorem id_of_mem_fieldOf {cmd : Command} {id : FieldID} {f : TLVField} (h : f ∈ fieldOf cmd id) :
    f.id = id.toUint8 := by
  cases id <;>
    simp only [fieldOf, Option.mem_toList, Option.map_eq_some_iff] at h <;>
    obtain ⟨v, -, rfl⟩ := h <;> rfl

theorem toUint8_injective : Function.Injective FieldID.toUint8 := by
  intro a b h
  cases a <;> cases b <;> first | rfl | exact absurd h (by decide)

/-- The command as a little-endian host would have to hold it to put the same bytes on the wire. -/
def onHost (e : Endian) (cmd : Command) : Command :=
  match e with
  | .little => cmd
  | .big => { cmd with monetaryValue := cmd.monetaryValue.map swapUint64 }

theorem objectBytes_onHost (e : Endian) {cmd : Command} {v : UInt64}
    (hv : cmd.monetaryValue = some v) :
    ∃ w, (onHost e cmd).monetaryValue = some w ∧
      objectBytes e 8 (swapUint64 v).toNat = bigEndianPutUint64 w := by
  cases e with
  | little => exact ⟨v, hv, objectBytes_swapUint64 v⟩
  | big => exact ⟨swapUint64 v, congrArg (Option.map swapUint64) hv, rfl⟩

section Encode
variable (e : Endian) (cmd : Command) (buffer : Bytes)

theorem encodeByte_eq (id : FieldID) (field : Command → Option UInt8)
    (h : ((field cmd).map (tlvUint8 id.toUint8)).toList ≠ []) :
    encodeByte id field e buffer cmd =
      .ok (.ok (buffer ++
        ((field cmd).map (tlvUint8 id.toUint8)).toList.flatMap fieldBytes)) := by
  rcases hv : field cmd with _ | v
  · simp [hv] at h
  · simp [encodeByte, hv, value, ok_bind, appendUint8, appendUint32, objectBytes_htonl, fieldBytes,
      tlvUint8, pure, Except.pure]

theorem encodeWord_eq (id : FieldID) (field : Command → Option UInt32)
    (h : ((field cmd).map (tlvUint32 id.toUint8)).toList ≠ []) :
    encodeWord id field e buffer cmd =
      .ok (.ok (buffer ++
        ((field cmd).map (tlvUint32 id.toUint8)).toList.flatMap fieldBytes)) := by
  rcases hv : field cmd with _ | v
  · simp [hv] at h
  · simp [encodeWord, hv, value, ok_bind, appendUint8, appendUint32, objectBytes_htonl, fieldBytes,
      tlvUint32, pure, Except.pure]

theorem encodeText_eq (id : FieldID) (field : Command → Option Bytes)
    (h : ((field cmd).map (tlvString id.toUint8)).toList ≠ []) :
    encodeText id field e buffer cmd =
      .ok (.ok (buffer ++
        ((field cmd).map (tlvString id.toUint8)).toList.flatMap fieldBytes)) := by
  rcases hv : field cmd with _ | v
  · simp [hv] at h
  · simp [encodeText, hv, value, ok_bind, appendUint8, appendUint32, appendString,
      objectBytes_htonl, fieldBytes, tlvString, pure, Except.pure]

theorem encodeMonetaryValue_eq
    (h : ((onHost e cmd).monetaryValue.map (tlvFloat64 fieldMonetaryValue)).toList ≠ []) :
    encodeMonetaryValue e buffer cmd =
      .ok (.ok (buffer ++ ((onHost e cmd).monetaryValue.map
        (tlvFloat64 fieldMonetaryValue)).toList.flatMap fieldBytes)) := by
  rcases hv : cmd.monetaryValue with _ | v
  · cases e <;> simp [onHost, hv] at h
  · obtain ⟨w, hw, hbytes⟩ := objectBytes_onHost e hv
    simp [encodeMonetaryValue, hv, hw, value, ok_bind, appendUint8, appendUint32, appendDouble,
      objectBytes_htonl, hbytes, fieldBytes, tlvFloat64, FieldID.toUint8, fieldMonetaryValue,
      Float64.bits, pure, Except.pure]

theorem encodeField_of_lookup {id : FieldID} {encode : EncoderFunc} {fs : List TLVField}
    (hlookup : (encodeFuncMap e).lookup id = some encode)
    (hencode : fs ≠ [] → encode buffer cmd = .ok (.ok (buffer ++ fs.flatMap fieldBytes))) :
    encodeField e cmd (.ok buffer) (id, !fs.isEmpty) =
      .ok (.ok (buffer ++ fs.flatMap fieldBytes)) := by
  by_cases hfs : fs = []
  · simp [encodeField, hfs]
  · have hne : fs.isEmpty = false := by simpa using hfs
    simp only [encodeField, hne, hlookup, hencode hfs, Bool.not_false, Bool.not_true,
      Bool.false_eq_true, if_false]

theorem fieldOf_onHost {id : FieldID} (h : id ≠ .monetaryValue) :
    fieldOf (onHost e cmd) id = fieldOf cmd id := by
  cases e with
  | little => rfl
  | big => cases id <;> first | rfl | exact absurd rfl h

theorem encodeField_eq (id : FieldID) :
    encodeField e cmd (.ok buffer) (id, !(fieldOf (onHost e cmd) id).isEmpty) =
      .ok (.ok (buffer ++ (fieldOf (onHost e cmd) id).flatMap fieldBytes)) := by
  by_cases hid : id = .monetaryValue
  · subst hid
    exact encodeField_of_lookup e cmd buffer rfl (encodeMonetaryValue_eq e cmd buffer)
  rw [fieldOf_onHost e cmd hid]
  cases id with
  | service =>
    exact encodeField_of_lookup e cmd buffer rfl
      (encodeByte_eq e cmd buffer .service Command.service)
  | accountNumber =>
    exact encodeField_of_lookup e cmd buffer rfl
      (encodeWord_eq e cmd buffer .accountNumber Command.accountNumber)
  | accountOwnerName =>
    exact encodeField_of_lookup e cmd buffer rfl
      (encodeText_eq e cmd buffer .accountOwnerName Command.accountOwnerName)
  | accountPassword =>
    exact encodeField_of_lookup e cmd buffer rfl
      (encodeText_eq e cmd buffer .accountPassword Command.accountPassword)
  | txAccountNumber =>
    exact encodeField_of_lookup e cmd buffer rfl
      (encodeWord_eq e cmd buffer .txAccountNumber Command.txAccountNumber)
  | txAccountOwnerName =>
    exact encodeField_of_lookup e cmd buffer rfl
      (encodeText_eq e cmd buffer .txAccountOwnerName Command.txAccountOwnerName)
  | monetaryValue => exact absurd rfl hid
  | currency =>
    exact encodeField_of_lookup e cmd buffer rfl
      (encodeByte_eq e cmd buffer .currency Command.currency)
  | monitorUpdates =>
    exact encodeField_of_lookup e cmd buffer rfl
      (encodeText_eq e cmd buffer .monitorUpdates Command.monitorUpdates)
  | monitorTimeoutSeconds =>
    exact encodeField_of_lookup e cmd buffer rfl
      (encodeWord_eq e cmd buffer .monitorTimeoutSeconds Command.monitorTimeoutSeconds)

theorem encodeFields_eq (ids : List FieldID) :
    (ids.map fun id => (id, !(fieldOf (onHost e cmd) id).isEmpty)).foldlM (encodeField e cmd)
        (.ok buffer) =
      .ok (.ok (buffer ++ (ids.flatMap (fieldOf (onHost e cmd))).flatMap fieldBytes)) := by
  induction ids generalizing buffer with
  | nil => simp [pure, Except.pure]
  | cons id ids ih =>
    rw [List.map_cons, List.foldlM_cons, encodeField_eq, ok_bind, ih]
    simp

theorem isEmpty_toList_map {α β : Type} (o : Option α) (f : α → β) :
    (!(o.map f).toList.isEmpty) = o.isSome := by
  cases o <;> rfl

theorem allFields_eq :
    cmd.allFields = fieldOrder.map fun id => (id, !(fieldOf (onHost e cmd) id).isEmpty) := by
  cases e <;> simp [Command.allFields, fieldOrder, fieldOf, onHost, isEmpty_toList_map]

theorem encodeMessage_onHost (h : fieldsOf (onHost e cmd) ≠ []) :
    encodeMessage e cmd = .ok (.ok (encodeTLVFields (fieldsOf (onHost e cmd)))) := by
  have hbytes : ((fieldsOf (onHost e cmd)).flatMap fieldBytes).isEmpty = false := by
    obtain ⟨f, fs, hfs⟩ := List.exists_cons_of_ne_nil h
    rw [hfs]
    rfl
  rw [encodeMessage, allFields_eq e, encodeFields_eq, ok_bind, List.nil_append]
  simp only [fieldsOf] at hbytes
  simp only [hbytes, Bool.false_eq_true, if_false, encodeTLVFields_eq, fieldsOf]
  rfl

theorem encodeMessage_eq (h : fieldsOf cmd ≠ []) :
    encodeMessage .little cmd = .ok (.ok (encodeTLVFields (fieldsOf cmd))) :=
  encodeMessage_onHost .little cmd h

theorem eq_empty_of_fieldsOf (h : fieldsOf cmd = []) : cmd = {} := by
  simp only [fieldsOf, List.flatMap_eq_nil_iff, fieldOrder, List.mem_cons, List.not_mem_nil,
    or_false, forall_eq_or_imp, forall_eq, fieldOf, Option.toList_eq_nil_iff,
    Option.map_eq_none_iff] at h
  obtain ⟨h1, h2, h3, h4, h5, h6, h7, h8, h9, h10⟩ := h
  cases cmd
  simp_all

end Encode

section Decode
variable {M : Type} [Float64 M]

def parsed (cmd : Command) : ParsedCommand M where
  service := cmd.service
  accountNumber := cmd.accountNumber
  accountOwnerName := cmd.accountOwnerName
  accountPassword := cmd.accountPassword
  txAccountNumber := cmd.txAccountNumber
  txAccountOwnerName := cmd.txAccountOwnerName
  monetaryValue := cmd.monetaryValue.map Float64.frombits
  currency := cmd.currency
  monitorUpdates := cmd.monitorUpdates
  monitorTimeoutSeconds := cmd.monitorTimeoutSeconds

def Decodes (pc : ParsedCommand M) (fs : List TLVField) (pc' : ParsedCommand M) : Prop :=
  ∀ offset, applyFields offset pc fs = .ok (.ok pc')

theorem Decodes.nil (pc : ParsedCommand M) : Decodes pc [] pc := fun _ => rfl

theorem Decodes.cons {pc pc' r : ParsedCommand M} {f : TLVField} {fs : List TLVField}
    (hf : ∀ offset, decodeField pc f.id offset (UInt32.ofNat f.value.length) f.value =
      .ok (.ok pc')) (hfs : Decodes pc' fs r) : Decodes pc (f :: fs) r := by
  intro offset
  rw [applyFields, hf, ok_bind]
  exact hfs _

theorem Decodes.option {α : Type} {o : Option α} {mk : α → TLVField} {pc pc' r : ParsedCommand M}
    {rest : List TLVField} (hnone : o = none → pc' = pc)
    (hsome : ∀ v, o = some v → ∀ offset, decodeField pc (mk v).id offset
      (UInt32.ofNat (mk v).value.length) (mk v).value = .ok (.ok pc'))
    (hrest : Decodes pc' rest r) : Decodes pc ((o.map mk).toList ++ rest) r := by
  rcases o with _ | v
  · rw [hnone rfl] at hrest
    exact hrest
  · exact Decodes.cons (hsome v rfl) hrest

section FixedWidthFields
variable (pc : ParsedCommand M) (offset : ℤ)

theorem decodeField_service (v : UInt8) :
    decodeField pc fieldService offset 1 [v] = .ok (.ok { pc with service := some v }) := rfl

theorem decodeField_currency (v : UInt8) :
    decodeField pc fieldCurrency offset 1 [v] = .ok (.ok { pc with currency := some v }) := rfl

theorem decodeField_accountNumber (v : UInt32) :
    decodeField pc fieldAccountNumber offset 4 (bigEndianPutUint32 v) =
      .ok (.ok { pc with accountNumber := some v }) := by
  rw [decodeField, if_neg (by decide), if_pos rfl]
  exact fixedWidth_ok rfl (bigEndianUint32_put v) rfl

theorem decodeField_txAccountNumber (v : UInt32) :
    decodeField pc fieldTxAccountNumber offset 4 (bigEndianPutUint32 v) =
      .ok (.ok { pc with txAccountNumber := some v }) := by
  rw [decodeField, if_neg (by decide), if_neg (by decide), if_neg (by decide),
    if_neg (by decide), if_pos rfl]
  exact fixedWidth_ok rfl (bigEndianUint32_put v) rfl

theorem decodeField_monetaryValue (v : UInt64) :
    decodeField pc fieldMonetaryValue offset 8 (bigEndianPutUint64 v) =
      .ok (.ok { pc with monetaryValue := some (Float64.frombits v) }) := by
  rw [decodeField, if_neg (by decide), if_neg (by decide), if_neg (by decide),
    if_neg (by decide), if_neg (by decide), if_neg (by decide), if_pos rfl]
  exact fixedWidth_ok rfl (bigEndianUint64_put v) rfl

theorem decodeField_monitorTimeoutSeconds (v : UInt32) :
    decodeField pc fieldMonitorTimeoutSeconds offset 4 (bigEndianPutUint32 v) =
      .ok (.ok { pc with monitorTimeoutSeconds := some v }) := by
  rw [decodeField, if_neg (by decide), if_neg (by decide), if_neg (by decide),
    if_neg (by decide), if_neg (by decide), if_neg (by decide), if_neg (by decide),
    if_neg (by decide), if_neg (by decide), if_pos rfl]
  exact fixedWidth_ok rfl (bigEndianUint32_put v) rfl

end FixedWidthFields

def setField (cmd : Command) (pc : ParsedCommand M) : FieldID → ParsedCommand M
  | .service => { pc with service := cmd.service.or pc.service }
  | .accountNumber => { pc with accountNumber := cmd.accountNumber.or pc.accountNumber }
  | .accountOwnerName =>
    { pc with accountOwnerName := cmd.accountOwnerName.or pc.accountOwnerName }
  | .accountPassword => { pc with accountPassword := cmd.accountPassword.or pc.accountPassword }
  | .txAccountNumber => { pc with txAccountNumber := cmd.txAccountNumber.or pc.txAccountNumber }
  | .txAccountOwnerName =>
    { pc with txAccountOwnerName := cmd.txAccountOwnerName.or pc.txAccountOwnerName }
  | .monetaryValue =>
    { pc with monetaryValue := (cmd.monetaryValue.map Float64.frombits).or pc.monetaryValue }
  | .currency => { pc with currency := cmd.currency.or pc.currency }
  | .monitorUpdates => { pc with monitorUpdates := cmd.monitorUpdates.or pc.monitorUpdates }
  | .monitorTimeoutSeconds =>
    { pc with monitorTimeoutSeconds := cmd.monitorTimeoutSeconds.or pc.monitorTimeoutSeconds }

theorem Decodes.field (cmd : Command) (id : FieldID) {pc r : ParsedCommand M}
    {rest : List TLVField} (hrest : Decodes (setField cmd pc id) rest r) :
    Decodes pc (fieldOf cmd id ++ rest) r := by
  cases id with
  | service =>
    exact Decodes.option (fun h => by simp [setField, h])
      (fun v h offset => (decodeField_service pc offset v).trans (by simp [setField, h]))
      hrest
  | accountNumber =>
    exact Decodes.option (fun h => by simp [setField, h])
      (fun v h offset => (decodeField_accountNumber pc offset v).trans (by simp [setField, h]))
      hrest
  | accountOwnerName =>
    exact Decodes.option (fun h => by simp [setField, h])
      (fun v h _ => by simp [setField, h]; rfl) hrest
  | accountPassword =>
    exact Decodes.option (fun h => by simp [setField, h])
      (fun v h _ => by simp [setField, h]; rfl) hrest
  | txAccountNumber =>
    exact Decodes.option (fun h => by simp [setField, h])
      (fun v h offset => (decodeField_txAccountNumber pc offset v).trans (by simp [setField, h]))
      hrest
  | txAccountOwnerName =>
    exact Decodes.option (fun h => by simp [setField, h])
      (fun v h _ => by simp [setField, h]; rfl) hrest
  | monetaryValue =>
    exact Decodes.option (fun h => by simp [setField, h])
      (fun v h offset => (decodeField_monetaryValue pc offset v).trans (by simp [setField, h]))
      hrest
  | currency =>
    exact Decodes.option (fun h => by simp [setField, h])
      (fun v h offset => (decodeField_currency pc offset v).trans (by simp [setField, h]))
      hrest
  | monitorUpdates =>
    exact Decodes.option (fun h => by simp [setField, h])
      (fun v h _ => by simp [setField, h]; rfl) hrest
  | monitorTimeoutSeconds =>
    exact Decodes.option (fun h => by simp [setField, h])
      (fun v h offset =>
        (decodeField_monitorTimeoutSeconds pc offset v).trans (by simp [setField, h])) hrest

theorem Decodes.fields (cmd : Command) (ids : List FieldID) (pc : ParsedCommand M) :
    Decodes pc (ids.flatMap (fieldOf cmd)) (ids.foldl (setField cmd) pc) := by
  induction ids generalizing pc with
  | nil => exact Decodes.nil pc
  | cons id ids ih =>
    rw [List.flatMap_cons, List.foldl_cons]
    exact Decodes.field cmd id (ih _)

theorem applyFields_fieldsOf (cmd : Command) :
    applyFields (M := M) 0 {} (fieldsOf cmd) = .ok (.ok (parsed cmd)) := by
  have hdecodes := Decodes.fields (M := M) cmd fieldOrder {} 0
  have hfold : fieldOrder.foldl (setField cmd) ({} : ParsedCommand M) = parsed cmd := by
    simp [fieldOrder, setField, parsed]
  rwa [hfold] at hdecodes

end Decode

theorem serialize_header (e : Endian) (m : Message) :
    serialize e m = headerBytes ⟨m.type, m.flag, m.id.requestId, m.id.ipv4Address, m.id.port,
      m.payload.statusCode, UInt32.ofNat m.payload.content.length⟩ ++ m.payload.content := by
  simp [serialize_eq, headerBytes]

theorem headerOf_serialize (e : Endian) (m : Message) :
    headerOf (serialize e m) = ⟨m.type, m.flag, m.id.requestId, m.id.ipv4Address, m.id.port,
      m.payload.statusCode, UInt32.ofNat m.payload.content.length⟩ := by
  rw [serialize_header, headerOf_headerBytes]

theorem headerSize_le_serialize (e : Endian) (m : Message) :
    headerSize ≤ (serialize e m).length := by
  rw [serialize_header, List.length_append, length_headerBytes]
  omega

theorem length_le_of_mem {fs : List TLVField} {f : TLVField} (h : f ∈ fs) :
    f.value.length ≤ (fs.flatMap fieldBytes).length := by
  obtain ⟨as, bs, rfl⟩ := List.append_of_mem h
  simp only [List.flatMap_append, List.flatMap_cons, List.length_append, length_fieldBytes]
  omega

theorem decodeTLV_serialize {M : Type} [Float64 M] {e : Endian} {cmd : Command}
    {m : Message}
    (hm : m.payload.content = encodeTLVFields (fieldsOf cmd))
    (hsize : (serialize e m).length ≤ 4096) :
    decodeTLV (M := M) 64 ((serialize e m).drop headerSize) = .ok (.ok (parsed cmd)) := by
  have hcontent : (serialize e m).drop headerSize = encodeTLVFields (fieldsOf cmd) := by
    rw [serialize_header, List.drop_left' (length_headerBytes _), hm]
  have hlen : (encodeTLVFields (fieldsOf cmd)).length ≤ 4096 := by
    rw [← hcontent, List.length_drop]
    omega
  have hvalues : ∀ f ∈ fieldsOf cmd, f.value.length < 2 ^ 32 := by
    intro f hf
    have hle := length_le_of_mem hf
    rw [← encodeTLVFields_eq] at hle
    omega
  rw [hcontent, decodeTLV_encodeTLVFields hvalues (by omega), applyFields_fieldsOf]

theorem parseRequest_serialize {M : Type} [Float64 M] {e : Endian} {cmd : Command}
    {m : Message}
    (hm : m.payload.content = encodeTLVFields (fieldsOf cmd))
    (hsize : (serialize e m).length ≤ 4096) :
    Handler.parseRequest (M := M) (serialize e m) = Handler.requestOf (parsed cmd) := by
  rw [Handler.parseRequest, if_neg (not_lt.mpr (headerSize_le_serialize e m)),
    decodeTLV_serialize hm hsize]

/-- What `execute_request_pipeline` puts on the wire for a command. -/
def packetOf (s : Session) (cmd : Command) : Bytes :=
  serialize .little (buildMessage s (encodeTLVFields (fieldsOf cmd))).2

theorem parseRequest_packetOf {M : Type} [Float64 M] {s : Session} {cmd : Command}
    (hsize : (packetOf s cmd).length ≤ 4096) :
    Handler.parseRequest (M := M) (packetOf s cmd) = Handler.requestOf (parsed cmd) :=
  parseRequest_serialize (buildMessage_content s _) hsize

/-- A request that fits the server's buffer arrives with its header and with its fields. -/
theorem request_roundtrip {M : Type} [Float64 M] {cmd : Command} (hset : cmd ≠ {}) :
    ∃ content, encodeMessage .little cmd = .ok (.ok content) ∧
      (∀ s : Session, (buildMessage s content).2.payload.content = content) ∧
      ∀ m : Message, m.payload.content = content → (serialize .little m).length ≤ 4096 →
        ∃ contentLen : UInt32,
          parseHeader (serialize .little m) = .ok (.ok ⟨m.type, m.flag, m.id.requestId,
            m.id.ipv4Address, m.id.port, m.payload.statusCode, contentLen⟩) ∧
          contentLen.toNat = ((serialize .little m).drop headerSize).length ∧
          decodeTLV (M := M) 64 ((serialize .little m).drop headerSize) =
            .ok (.ok (parsed cmd)) := by
  have hfields : fieldsOf cmd ≠ [] := fun h => hset (eq_empty_of_fieldsOf cmd h)
  refine ⟨_, encodeMessage_eq cmd hfields, fun s => buildMessage_content s _, ?_⟩
  intro m hm hsize
  have hlen : m.payload.content.length ≤ 4096 := by
    rw [serialize_header, List.length_append] at hsize
    omega
  refine ⟨UInt32.ofNat m.payload.content.length, ?_, ?_, decodeTLV_serialize hm hsize⟩
  · rw [parseHeader_ok (headerSize_le_serialize .little m), headerOf_serialize]
  · rw [serialize_header, List.drop_left' (length_headerBytes _),
      UInt32.toNat_ofNat_of_lt' (show _ < 2 ^ 32 by omega)]

theorem deposit_request_roundtrip :
    ∃ content, encodeMessage .little ⟨some 3, some 10000, some [65, 108], some [112, 119], none,
        none, some 0x4049000000000000, some 0, none, none⟩ = .ok (.ok content) ∧
      (∀ s : Session, (buildMessage s content).2.payload.content = content) ∧
      ∀ m : Message, m.payload.content = content → (serialize .little m).length ≤ 4096 →
        ∃ contentLen : UInt32,
          parseHeader (serialize .little m) = .ok (.ok ⟨m.type, m.flag, m.id.requestId,
            m.id.ipv4Address, m.id.port, m.payload.statusCode, contentLen⟩) ∧
          contentLen.toNat = ((serialize .little m).drop headerSize).length ∧
          decodeTLV (M := UInt64) 64 ((serialize .little m).drop headerSize) =
            .ok (.ok ⟨some 3, some 10000, some [65, 108], some [112, 119], none, none,
              some 0x4049000000000000, some 0, none, none⟩) :=
  request_roundtrip (by decide)

end DistributedBanking.ClientProtocol
