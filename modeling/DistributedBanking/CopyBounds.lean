import DistributedBanking.ClientDecoding
import DistributedBanking.MessageFraming

/-!
# Where the client's decoders read

The decoders once more, with a log of what they copy out of the data: from
where, how many bytes, and how many the destination has room for. A decoder is
sound for the plain one when it computes the same without a fault and every
copy lies inside the data and fills its destination.
-/

namespace DistributedBanking.ClientProtocol

/-- `std::memcpy` to an object of `size` bytes, or the read of one byte. -/
structure Copy where
  offset : ℕ
  length : ℕ
  size : ℕ
  deriving DecidableEq, Repr

abbrev Logged (α : Type) := StateT (List Copy) (Except Fault) α

def copy (data : Bytes) (offset length size : ℕ) : Logged Bytes := do
  modify fun log => log ++ [⟨offset, length, size⟩]
  memcpy data offset length

namespace Logged

section Source
variable (e : Endian)

def loadUint8 (data : Bytes) (offset : ℕ) : Logged UInt8 := do
  return (← copy data offset 1 1).headD 0

def loadUint16 (data : Bytes) (offset : ℕ) : Logged UInt16 := do
  return UInt16.ofNat (objectValue e (← copy data offset 2 2))

def loadUint32 (data : Bytes) (offset : ℕ) : Logged UInt32 := do
  return UInt32.ofNat (objectValue e (← copy data offset 4 4))

/-- The length to copy is the one declared, and the destination is a `uint8_t`. -/
def decodeByte (put : Command → UInt8 → Command) (data : Command) (offset : ℕ) (length : UInt32)
    (buffer : Bytes) : Logged (Except InternalError Command) :=
  if length ≠ 1 then return .error .decodeFieldOverflow
  else do
    let v := (← copy buffer offset length.toNat 1).headD 0
    return .ok (put data v)

def decodeWord (put : Command → UInt32 → Command) (data : Command) (offset : ℕ) (length : UInt32)
    (buffer : Bytes) : Logged (Except InternalError Command) :=
  if length ≠ 4 then return .error .decodeFieldOverflow
  else do
    let v := ntohl e (UInt32.ofNat (objectValue e (← copy buffer offset length.toNat 4)))
    return .ok (put data v)

/-- The string is resized to the declared length first. -/
def decodeText (put : Command → Bytes → Command) (data : Command) (offset : ℕ) (length : UInt32)
    (buffer : Bytes) : Logged (Except InternalError Command) :=
  if length.toNat > maxStringLength then return .error .decodeStringTooLong
  else do
    let v ← copy buffer offset length.toNat length.toNat
    return .ok (put data v)

def decodeMonetaryValue (data : Command) (offset : ℕ) (length : UInt32) (buffer : Bytes) :
    Logged (Except InternalError Command) :=
  if length ≠ 8 then return .error .decodeFieldOverflow
  else do
    let v := swapUint64 (UInt64.ofNat (objectValue e (← copy buffer offset length.toNat 8)))
    return .ok { data with monetaryValue := some v }

def decodeField : FieldID → Command → ℕ → UInt32 → Bytes → Logged (Except InternalError Command)
  | .service => decodeByte fun data v => { data with service := some v }
  | .accountNumber => decodeWord e fun data v => { data with accountNumber := some v }
  | .accountOwnerName => decodeText fun data v => { data with accountOwnerName := some v }
  | .accountPassword => decodeText fun data v => { data with accountPassword := some v }
  | .txAccountNumber => decodeWord e fun data v => { data with txAccountNumber := some v }
  | .txAccountOwnerName => decodeText fun data v => { data with txAccountOwnerName := some v }
  | .monetaryValue => decodeMonetaryValue e
  | .currency => decodeByte fun data v => { data with currency := some v }
  | .monitorUpdates => decodeText fun data v => { data with monitorUpdates := some v }
  | .monitorTimeoutSeconds =>
    decodeWord e fun data v => { data with monitorTimeoutSeconds := some v }

variable (bits : ℕ) (data : Bytes)

def decodeFields : ℕ → ℕ → Command → Logged (Except InternalError Command)
  | 0, _, _ => throw .nonTermination
  | fuel + 1, offset, cmd =>
    match safeAdd bits offset fieldIdSize with
    | none => return .error .decodeOffsetOverflow
    | some sum1 =>
      match safeAdd bits sum1 fieldLength with
      | none => return .error .decodeOffsetOverflow
      | some sum2 =>
        if sum2 > data.length then return .ok cmd
        else do
          match toFieldId (← loadUint8 data offset) with
          | none => return .error .decodeUnknownField
          | some field =>
            match safeAdd bits offset fieldIdSize with
            | none => return .error .decodeOffsetOverflow
            | some offset =>
              let length := ntohl e (← loadUint32 e data offset)
              match safeAdd bits offset fieldLength with
              | none => return .error .decodeOffsetOverflow
              | some offset =>
                if !isWithinDataSize bits offset length data then
                  return .error .decodeFieldOverflow
                else
                  match ← decodeField e field cmd offset length data with
                  | .error err => return .error err
                  | .ok cmd =>
                    match safeAdd bits offset length.toNat with
                    | none => return .error .decodeOffsetOverflow
                    | some next => decodeFields fuel next cmd

def decodeMessage : Logged (Except InternalError Command) :=
  if data.isEmpty then return .error .decodeEmptyData
  else decodeFields e bits data (data.length + 1) 0 {}

def deserialize : Logged (Except InternalError Message) := do
  if !validateHeader data.length then return .error .deserializeHeaderTooShort
  else
    let type ← loadUint8 data 0
    let flag ← loadUint8 data 1
    let rid := ntohl e (← loadUint32 e data 2)
    let ip := ntohl e (← loadUint32 e data 6)
    let port := ntohs e (← loadUint16 e data 10)
    let sc := ntohs e (← loadUint16 e data 12)
    let contentLen := ntohl e (← loadUint32 e data 14)
    if !validatePayload bits data.length 18 contentLen then
      return .error .deserializePayloadOverflow
    else
      let content ← copy data 18 contentLen.toNat contentLen.toNat
      return .ok ⟨type, flag, ⟨rid, ip, port⟩, ⟨sc, content⟩⟩

end Source
end Logged

def Exact (data : Bytes) (log : List Copy) : Prop :=
  ∀ c ∈ log, c.offset + c.length ≤ data.length ∧ c.length = c.size

def Sound {α : Type} (data : Bytes) (x : Logged α) (y : Cpp α) : Prop :=
  ∀ log, Exact data log → ∃ a log', x.run log = .ok (a, log') ∧ y = .ok a ∧ Exact data log'

section Rules
variable {α β : Type} {data : Bytes} {x : Logged α} {y : Cpp α} {f : α → Logged β} {g : α → Cpp β}

theorem Sound.pure (a : α) : Sound data (pure a) (.ok a) :=
  fun log hlog => ⟨a, log, rfl, rfl, hlog⟩

theorem Sound.bind (hx : Sound data x y) (hf : ∀ a, y = .ok a → Sound data (f a) (g a)) :
    Sound data (x >>= f) (y >>= g) := by
  intro log hlog
  obtain ⟨a, log', hrun, hy, hlog'⟩ := hx log hlog
  obtain ⟨b, log'', hrun', hg, hlog''⟩ := hf a hy log' hlog'
  refine ⟨b, log'', ?_, ?_, hlog''⟩
  · rw [StateT.run_bind, hrun]
    exact hrun'
  · rw [hy, ok_bind, hg]

theorem Sound.copy {offset length size : ℕ} (hin : offset + length ≤ data.length)
    (hsize : length = size) :
    Sound data (copy data offset length size) (memcpy data offset length) := by
  intro log hlog
  rw [memcpy_ok hin]
  refine ⟨_, log ++ [⟨offset, length, size⟩], ?_, rfl, ?_⟩
  · rw [ClientProtocol.copy, memcpy_ok hin]
    rfl
  · intro c hc
    obtain hmem | hmem := List.mem_append.mp hc
    · exact hlog c hmem
    · cases List.mem_singleton.mp hmem
      exact ⟨hin, hsize⟩

end Rules

section Loads
variable (e : Endian) {data : Bytes} {offset : ℕ}

theorem loadUint8_eq (h : offset < data.length) :
    loadUint8 data offset = memcpy data offset 1 >>= fun bs => .ok (bs.headD 0) := by
  rw [loadUint8, List.getElem?_eq_getElem h, memcpy_ok h, ok_bind, List.drop_eq_getElem_cons h]
  rfl

theorem sound_loadUint8 (h : offset < data.length) :
    Sound data (Logged.loadUint8 data offset) (loadUint8 data offset) := by
  rw [loadUint8_eq h]
  exact (Sound.copy h rfl).bind fun _ _ => .pure _

theorem sound_loadUint16 (h : offset + 2 ≤ data.length) :
    Sound data (Logged.loadUint16 e data offset) (loadUint16 e data offset) :=
  (Sound.copy h rfl).bind fun _ _ => .pure _

theorem sound_loadUint32 (h : offset + 4 ≤ data.length) :
    Sound data (Logged.loadUint32 e data offset) (loadUint32 e data offset) :=
  (Sound.copy h rfl).bind fun _ _ => .pure _

end Loads

section Fields
variable (e : Endian) {data : Bytes} {offset : ℕ} {length : UInt32} (cmd : Command)

theorem sound_fixed {α : Type} (width : UInt32) (get : Bytes → α) (put : α → Command)
    {load : Cpp α} (hin : offset + length.toNat ≤ data.length)
    (hload : offset + width.toNat ≤ data.length →
      load = memcpy data offset width.toNat >>= fun bs => .ok (get bs)) :
    Sound data
      (if length ≠ width then pure (.error .decodeFieldOverflow)
      else do
        let bs ← copy data offset length.toNat width.toNat
        return .ok (put (get bs)) : Logged (Except InternalError Command))
      (if length ≠ width then .ok (.error .decodeFieldOverflow)
      else do
        let v ← load
        return .ok (put v)) := by
  by_cases hlength : length = width
  · rw [if_neg (not_not.mpr hlength), if_neg (not_not.mpr hlength), hload (hlength ▸ hin),
      bind_assoc, hlength]
    exact (Sound.copy (hlength ▸ hin) rfl).bind fun _ _ => .pure _
  · rw [if_pos hlength, if_pos hlength]
    exact .pure _

theorem sound_decodeByte (put : Command → UInt8 → Command)
    (hin : offset + length.toNat ≤ data.length) :
    Sound data (Logged.decodeByte put cmd offset length data)
      (decodeByte put cmd offset length data) :=
  sound_fixed 1 (fun bs => bs.headD 0) (put cmd) hin loadUint8_eq

theorem sound_decodeWord (put : Command → UInt32 → Command)
    (hin : offset + length.toNat ≤ data.length) :
    Sound data (Logged.decodeWord e put cmd offset length data)
      (decodeWord put e cmd offset length data) :=
  sound_fixed 4 (fun bs => UInt32.ofNat (objectValue e bs)) (fun v => put cmd (ntohl e v)) hin
    fun _ => rfl

theorem sound_decodeText (put : Command → Bytes → Command)
    (hin : offset + length.toNat ≤ data.length) :
    Sound data (Logged.decodeText put cmd offset length data)
      (decodeText put cmd offset length data) := by
  rw [Logged.decodeText, decodeText]
  by_cases hlength : length.toNat > maxStringLength
  · rw [if_pos hlength, if_pos hlength]
    exact .pure _
  · rw [if_neg hlength, if_neg hlength]
    exact (Sound.copy hin rfl).bind fun _ _ => .pure _

theorem sound_decodeMonetaryValue (hin : offset + length.toNat ≤ data.length) :
    Sound data (Logged.decodeMonetaryValue e cmd offset length data)
      (decodeMonetaryValue e cmd offset length data) :=
  sound_fixed 8 (fun bs => UInt64.ofNat (objectValue e bs))
    (fun v => { cmd with monetaryValue := some (swapUint64 v) }) hin fun _ => rfl

theorem sound_decodeField (field : FieldID) (hin : offset + length.toNat ≤ data.length) :
    ∃ decode, (decodeFuncMap e).lookup field = some decode ∧
      Sound data (Logged.decodeField e field cmd offset length data)
        (decode cmd offset length data) := by
  cases field with
  | service =>
    exact ⟨_, rfl, sound_decodeByte cmd (fun data v => { data with service := some v }) hin⟩
  | accountNumber =>
    exact ⟨_, rfl, sound_decodeWord e cmd (fun data v => { data with accountNumber := some v }) hin⟩
  | accountOwnerName =>
    exact ⟨_, rfl,
      sound_decodeText cmd (fun data v => { data with accountOwnerName := some v }) hin⟩
  | accountPassword =>
    exact ⟨_, rfl, sound_decodeText cmd (fun data v => { data with accountPassword := some v }) hin⟩
  | txAccountNumber =>
    exact ⟨_, rfl,
      sound_decodeWord e cmd (fun data v => { data with txAccountNumber := some v }) hin⟩
  | txAccountOwnerName =>
    exact ⟨_, rfl,
      sound_decodeText cmd (fun data v => { data with txAccountOwnerName := some v }) hin⟩
  | monetaryValue => exact ⟨_, rfl, sound_decodeMonetaryValue e cmd hin⟩
  | currency =>
    exact ⟨_, rfl, sound_decodeByte cmd (fun data v => { data with currency := some v }) hin⟩
  | monitorUpdates =>
    exact ⟨_, rfl, sound_decodeText cmd (fun data v => { data with monitorUpdates := some v }) hin⟩
  | monitorTimeoutSeconds =>
    exact ⟨_, rfl,
      sound_decodeWord e cmd (fun data v => { data with monitorTimeoutSeconds := some v }) hin⟩

end Fields

section Sums
variable {bits offset : ℕ} {length : UInt32} {data : Bytes}

theorem safeAdd_some {a b sum : ℕ} (ha : a < 2 ^ bits) (hb : b < 2 ^ bits)
    (h : safeAdd bits a b = some sum) : sum = a + b ∧ sum < 2 ^ bits := by
  rw [safeAdd_eq ha hb] at h
  split_ifs at h with hsum
  cases h
  exact ⟨rfl, hsum⟩

theorem toNat_lt_pow (hbits : 32 ≤ bits) : length.toNat < 2 ^ bits :=
  length.toNat_lt.trans_le (Nat.pow_le_pow_right (by decide) hbits)

/-- Both checks of a declared length compare a sum that did not wrap. -/
theorem safeAdd_le {total : ℕ} (hbits : 32 ≤ bits) (hoffset : offset < 2 ^ bits)
    (h : ∃ sum, safeAdd bits offset length.toNat = some sum ∧ sum ≤ total) :
    offset + length.toNat ≤ total := by
  obtain ⟨sum, hsum, hle⟩ := h
  obtain ⟨rfl, -⟩ := safeAdd_some hoffset (toNat_lt_pow hbits) hsum
  exact hle

theorem isWithinDataSize_sound (hbits : 32 ≤ bits) (hoffset : offset < 2 ^ bits)
    (h : isWithinDataSize bits offset length data = true) :
    offset + length.toNat ≤ data.length := by
  apply safeAdd_le hbits hoffset
  rw [isWithinDataSize] at h
  split at h
  · cases h
  · exact ⟨_, ‹_›, by simpa using h⟩

theorem validatePayload_sound {totalSize : ℕ} (hbits : 32 ≤ bits) (hoffset : offset < 2 ^ bits)
    (h : validatePayload bits totalSize offset length = true) :
    offset + length.toNat ≤ totalSize := by
  apply safeAdd_le hbits hoffset
  rw [validatePayload] at h
  split at h
  · cases h
  · exact ⟨_, ‹_›, by simpa using h⟩

end Sums

section Decoders
variable (e : Endian) {bits : ℕ} {data : Bytes}

/-- The offset grows with every field and stays in the data, so the loop ends before its bound. -/
theorem sound_decodeFields (hbits : 32 ≤ bits) {fuel offset : ℕ} (cmd : Command)
    (hoffset : offset ≤ data.length) (hwide : offset < 2 ^ bits)
    (hfuel : data.length < offset + fuel) :
    Sound data (Logged.decodeFields e bits data fuel offset cmd)
      (decodeFields e bits data fuel offset cmd) := by
  induction fuel generalizing offset cmd with
  | zero => omega
  | succ fuel ih =>
    have hpow : 2 ^ 32 ≤ 2 ^ bits := Nat.pow_le_pow_right (by decide) hbits
    have hid : fieldIdSize = 1 := rfl
    have hlength : fieldLength = 4 := rfl
    rw [Logged.decodeFields, decodeFields]
    cases h1 : safeAdd bits offset fieldIdSize with
    | none => exact .pure _
    | some sum1 =>
      obtain ⟨rfl, hsum1⟩ := safeAdd_some hwide (by omega) h1
      dsimp only
      cases h5 : safeAdd bits (offset + fieldIdSize) fieldLength with
      | none => exact .pure _
      | some sum2 =>
        obtain ⟨rfl, hsum2⟩ := safeAdd_some hsum1 (by omega) h5
        dsimp only
        by_cases hend : offset + fieldIdSize + fieldLength > data.length
        · rw [if_pos hend, if_pos hend]
          exact .pure _
        · rw [if_neg hend, if_neg hend]
          refine (sound_loadUint8 (by omega)).bind fun id _ => ?_
          cases toFieldId id with
          | none => exact .pure _
          | some field =>
            dsimp only
            refine (sound_loadUint32 e (by omega)).bind fun word _ => ?_
            cases hwithin : isWithinDataSize bits (offset + fieldIdSize + fieldLength)
                (ntohl e word) data with
            | false => exact .pure _
            | true =>
              have hin := isWithinDataSize_sound hbits hsum2 hwithin
              obtain ⟨decode, hlookup, hdecode⟩ := sound_decodeField e cmd field hin
              rw [hlookup]
              refine hdecode.bind fun result _ => ?_
              cases result with
              | error err => exact .pure _
              | ok cmd =>
                dsimp only
                cases hnext : safeAdd bits (offset + fieldIdSize + fieldLength)
                    (ntohl e word).toNat with
                | none => exact .pure _
                | some next =>
                  obtain ⟨rfl, hnextWide⟩ := safeAdd_some hsum2 (toNat_lt_pow hbits) hnext
                  exact ih cmd hin hnextWide (by omega)

theorem sound_decodeMessage (hbits : 32 ≤ bits) :
    Sound data (Logged.decodeMessage e bits data) (decodeMessage e bits data) := by
  rw [Logged.decodeMessage, decodeMessage]
  by_cases hempty : data.isEmpty = true
  · rw [if_pos hempty, if_pos hempty]
    exact .pure _
  · rw [if_neg hempty, if_neg hempty]
    exact sound_decodeFields e hbits {} (Nat.zero_le _) (Nat.two_pow_pos bits) (by omega)

theorem sound_deserialize (hbits : 32 ≤ bits) :
    Sound data (Logged.deserialize e bits data) (deserialize e bits data) := by
  rw [Logged.deserialize, deserialize]
  cases hheader : validateHeader data.length with
  | false => exact .pure _
  | true =>
    have hlen : 18 ≤ data.length := by simpa [validateHeader] using hheader
    have hoffset : 18 < 2 ^ bits :=
      (show 18 < 2 ^ 32 by decide).trans_le (Nat.pow_le_pow_right (by decide) hbits)
    refine (sound_loadUint8 (by omega)).bind fun type _ => ?_
    refine (sound_loadUint8 (by omega)).bind fun flag _ => ?_
    refine (sound_loadUint32 e (by omega)).bind fun rid _ => ?_
    refine (sound_loadUint32 e (by omega)).bind fun ip _ => ?_
    refine (sound_loadUint16 e (by omega)).bind fun port _ => ?_
    refine (sound_loadUint16 e (by omega)).bind fun sc _ => ?_
    refine (sound_loadUint32 e (by omega)).bind fun contentLen _ => ?_
    dsimp only
    cases hpayload : validatePayload bits data.length 18 (ntohl e contentLen) with
    | false => exact .pure _
    | true =>
      exact (Sound.copy (validatePayload_sound hbits hoffset hpayload) rfl).bind fun _ _ => .pure _

end Decoders

/-- Both decoders end without a fault on every byte string, copy only bytes of it and never more or
fewer than the destination holds, and what they accept does not reach past the end. -/
theorem decoders_sound (e : Endian) {bits : ℕ} (hbits : bits = 32 ∨ bits = 64) (data : Bytes) :
    (∃ message log, (Logged.deserialize e bits data).run [] = .ok (message, log) ∧
      deserialize e bits data = .ok message ∧ Exact data log) ∧
    (∃ cmd log, (Logged.decodeMessage e bits data).run [] = .ok (cmd, log) ∧
      decodeMessage e bits data = .ok cmd ∧ Exact data log) ∧
    ∀ offset length, offset < 2 ^ bits →
      (isWithinDataSize bits offset length data = true →
        offset + length.toNat ≤ data.length) ∧
      (validatePayload bits data.length offset length = true →
        offset + length.toNat ≤ data.length) := by
  have hwidth : 32 ≤ bits := by omega
  have hnone : Exact data [] := fun c hc => by cases hc
  refine ⟨sound_deserialize e hwidth [] hnone, sound_decodeMessage e hwidth [] hnone, ?_⟩
  intro offset length hoffset
  exact ⟨isWithinDataSize_sound hwidth hoffset, validatePayload_sound hwidth hoffset⟩

/-- A length that wraps the offset around is not taken on a 32-bit host. -/
theorem decoders_sound_wrapping :
    (∃ message log, (Logged.deserialize .little 32 [1, 255, 255, 255, 255]).run [] =
        .ok (message, log) ∧
      deserialize .little 32 [1, 255, 255, 255, 255] = .ok message ∧
      Exact [1, 255, 255, 255, 255] log) ∧
    (∃ cmd log, (Logged.decodeMessage .little 32 [1, 255, 255, 255, 255]).run [] = .ok (cmd, log) ∧
      decodeMessage .little 32 [1, 255, 255, 255, 255] = .ok cmd ∧
      Exact [1, 255, 255, 255, 255] log) ∧
    ∀ offset length, offset < 2 ^ 32 →
      (isWithinDataSize 32 offset length [1, 255, 255, 255, 255] = true →
        offset + length.toNat ≤ 5) ∧
      (validatePayload 32 5 offset length = true → offset + length.toNat ≤ 5) :=
  decoders_sound .little (.inl rfl) [1, 255, 255, 255, 255]

end DistributedBanking.ClientProtocol
