import DistributedBanking.ClientProtocol

/-!
# The client's decoders

`decode_message` of the command encoder and the flat callback codec. The loop
over the fields adds offsets in a `size_t` of `bits` bits through `safe_add`;
its fuel is the length of the data, since every round moves the offset on. The
callback decoder checks only the least size and then copies at fixed offsets.
-/

namespace DistributedBanking.ClientProtocol

def fieldIdSize : ℕ := 1
def fieldLength : ℕ := 4
def maxStringLength : ℕ := 1024

def toFieldId (v : UInt8) : Option FieldID :=
  if v = FieldID.service.toUint8 then some .service
  else if v = FieldID.accountNumber.toUint8 then some .accountNumber
  else if v = FieldID.accountOwnerName.toUint8 then some .accountOwnerName
  else if v = FieldID.accountPassword.toUint8 then some .accountPassword
  else if v = FieldID.txAccountNumber.toUint8 then some .txAccountNumber
  else if v = FieldID.txAccountOwnerName.toUint8 then some .txAccountOwnerName
  else if v = FieldID.monetaryValue.toUint8 then some .monetaryValue
  else if v = FieldID.currency.toUint8 then some .currency
  else if v = FieldID.monitorUpdates.toUint8 then some .monitorUpdates
  else if v = FieldID.monitorTimeoutSeconds.toUint8 then some .monitorTimeoutSeconds
  else none

def loadUint64 (e : Endian) (data : Bytes) (offset : ℕ) : Cpp UInt64 := do
  return UInt64.ofNat (objectValue e (← memcpy data offset 8))

abbrev DecoderFunc := Command → ℕ → UInt32 → Bytes → Cpp (Except InternalError Command)

def decodeByte (put : Command → UInt8 → Command) : DecoderFunc :=
  fun data offset length buffer =>
    if length ≠ 1 then .ok (.error .decodeFieldOverflow)
    else do
      let v ← loadUint8 buffer offset
      return .ok (put data v)

def decodeWord (put : Command → UInt32 → Command) (e : Endian) : DecoderFunc :=
  fun data offset length buffer =>
    if length ≠ 4 then .ok (.error .decodeFieldOverflow)
    else do
      let v := ntohl e (← loadUint32 e buffer offset)
      return .ok (put data v)

def decodeText (put : Command → Bytes → Command) : DecoderFunc :=
  fun data offset length buffer =>
    if length.toNat > maxStringLength then .ok (.error .decodeStringTooLong)
    else do
      let v ← memcpy buffer offset length.toNat
      return .ok (put data v)

def decodeService := decodeByte fun data v => { data with service := some v }
def decodeAccountNumber := decodeWord fun data v => { data with accountNumber := some v }
def decodeAccountOwnerName := decodeText fun data v => { data with accountOwnerName := some v }
def decodeAccountPassword := decodeText fun data v => { data with accountPassword := some v }
def decodeTxAccountNumber := decodeWord fun data v => { data with txAccountNumber := some v }
def decodeTxAccountOwnerName :=
  decodeText fun data v => { data with txAccountOwnerName := some v }

def decodeMonetaryValue (e : Endian) : DecoderFunc := fun data offset length buffer =>
  if length ≠ 8 then .ok (.error .decodeFieldOverflow)
  else do
    let v := swapUint64 (← loadUint64 e buffer offset)
    return .ok { data with monetaryValue := some v }

def decodeCurrency := decodeByte fun data v => { data with currency := some v }
def decodeMonitorUpdates := decodeText fun data v => { data with monitorUpdates := some v }
def decodeMonitorTimeoutSeconds :=
  decodeWord fun data v => { data with monitorTimeoutSeconds := some v }

def decodeFuncMap (e : Endian) : List (FieldID × DecoderFunc) :=
  [(.service, decodeService), (.accountNumber, decodeAccountNumber e),
    (.accountOwnerName, decodeAccountOwnerName), (.accountPassword, decodeAccountPassword),
    (.txAccountNumber, decodeTxAccountNumber e),
    (.txAccountOwnerName, decodeTxAccountOwnerName),
    (.monetaryValue, decodeMonetaryValue e), (.currency, decodeCurrency),
    (.monitorUpdates, decodeMonitorUpdates),
    (.monitorTimeoutSeconds, decodeMonitorTimeoutSeconds e)]

def isWithinDataSize (bits offset : ℕ) (length : UInt32) (data : Bytes) : Bool :=
  match safeAdd bits offset length.toNat with
  | none => false
  | some s => !(s > data.length)

def decodeFields (e : Endian) (bits : ℕ) (data : Bytes) :
    ℕ → ℕ → Command → Cpp (Except InternalError Command)
  | 0, _, _ => .error .nonTermination
  | fuel + 1, offset, cmd =>
    match safeAdd bits offset fieldIdSize with
    | none => .ok (.error .decodeOffsetOverflow)
    | some sum1 =>
      match safeAdd bits sum1 fieldLength with
      | none => .ok (.error .decodeOffsetOverflow)
      | some sum2 =>
        if sum2 > data.length then .ok (.ok cmd)
        else do
          match toFieldId (← loadUint8 data offset) with
          | none => return .error .decodeUnknownField
          | some field =>
            match safeAdd bits offset fieldIdSize with
            | none => return .error .decodeOffsetOverflow
            | some offset =>
              let length := ntohl e (← loadUint32 e data offset)
              match safeAdd bits offset fieldLength with
              | none => return .error .decodeOffsetOverflow
              | some offset =>
                if !isWithinDataSize bits offset length data then
                  return .error .decodeFieldOverflow
                else
                  match (decodeFuncMap e).lookup field with
                  | none => return .error .decodeUnknownField
                  | some decode =>
                    match ← decode cmd offset length data with
                    | .error err => return .error err
                    | .ok cmd =>
                      match safeAdd bits offset length.toNat with
                      | none => return .error .decodeOffsetOverflow
                      | some next => decodeFields e bits data fuel next cmd

def decodeMessage (e : Endian) (bits : ℕ) (data : Bytes) : Cpp (Except InternalError Command) :=
  if data.isEmpty then .ok (.error .decodeEmptyData)
  else decodeFields e bits data (data.length + 1) 0 {}

structure CallbackMessage where
  type : UInt8
  service : UInt8
  accountNumber : UInt32
  accountOwnerNameLen : UInt32
  accountOwnerName : Bytes
  currency : UInt8
  monetaryValue : UInt64
  deriving DecidableEq, Repr

namespace CallbackEncoder

def minCallbackSize : ℕ := 19

/-- The declared name length is written as it stands in the message. -/
def encodeMessage (e : Endian) (message : CallbackMessage) : Except InternalError Bytes :=
  let data := [message.type]
  let data := data ++ [message.service]
  let data := data ++ objectBytes e 4 (htonl e message.accountNumber).toNat
  let data := data ++ objectBytes e 4 (htonl e message.accountOwnerNameLen).toNat
  let data := data ++ message.accountOwnerName
  let data := data ++ [message.currency]
  .ok (data ++ objectBytes e 8 (swapUint64 message.monetaryValue).toNat)

def validatePayload (totalSize : ℕ) : Bool := !(totalSize < minCallbackSize)

def decodeMessage (e : Endian) (data : Bytes) : Cpp (Except InternalError CallbackMessage) := do
  if !validatePayload data.length then return .error .deserializePayloadOverflow
  else
    let type ← loadUint8 data 0
    let service ← loadUint8 data 1
    let accountNumber := ntohl e (← loadUint32 e data 2)
    let nameLen := ntohl e (← loadUint32 e data 6)
    let name ← memcpy data 10 nameLen.toNat
    -- The copy has succeeded, so this offset lies in the data and does not wrap.
    let offset := 10 + nameLen.toNat
    let currency ← loadUint8 data offset
    let monetaryValue := swapUint64 (← loadUint64 e data (offset + 1))
    return .ok ⟨type, service, accountNumber, nameLen, name, currency, monetaryValue⟩

end CallbackEncoder
end DistributedBanking.ClientProtocol
