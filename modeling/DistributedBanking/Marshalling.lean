import DistributedBanking.Money
import DistributedBanking.UDPAddr

/-!
# Packets on the wire

The encoder, the TLV codec of commands and replies, the fixed reply header and
the callback packet. `decodeTLV` runs the source's loop with its offsets in an
`int` of `bits` bits; the fuel is the payload's length, since every round moves
the offset on.
-/

namespace DistributedBanking.Marshalling

def fieldService : UInt8 := 0x01
def fieldAccountNumber : UInt8 := 0x02
def fieldAccountOwnerName : UInt8 := 0x03
def fieldAccountPassword : UInt8 := 0x04
def fieldTxAccountNumber : UInt8 := 0x05
def fieldTxAccountOwnerName : UInt8 := 0x06
def fieldMonetaryValue : UInt8 := 0x07
def fieldCurrency : UInt8 := 0x08
def fieldMonitorUpdates : UInt8 := 0x09
def fieldMonitorTimeoutSeconds : UInt8 := 0x0A

def tlvHeaderSize : ℤ := 5

structure Encoder where
  buf : Bytes

def newEncoder : Encoder := ⟨[]⟩

namespace Encoder

def putUint8 (e : Encoder) (v : UInt8) : Encoder := ⟨e.buf ++ [v]⟩
def putUint16 (e : Encoder) (v : UInt16) : Encoder := ⟨e.buf ++ bigEndianPutUint16 v⟩
def putUint32 (e : Encoder) (v : UInt32) : Encoder := ⟨e.buf ++ bigEndianPutUint32 v⟩
def putFloat64 {M : Type} [Float64 M] (e : Encoder) (v : M) : Encoder :=
  ⟨e.buf ++ bigEndianPutUint64 (Float64.bits v)⟩
def putString (e : Encoder) (s : Bytes) : Encoder := ⟨e.buf ++ s⟩
def putBytes (e : Encoder) (b : Bytes) : Encoder := ⟨e.buf ++ b⟩
def putLengthPrefixedString (e : Encoder) (s : Bytes) : Encoder :=
  (e.putUint32 (UInt32.ofNat s.length)).putString s
def bytes (e : Encoder) : Bytes := e.buf

end Encoder

structure TLVField where
  id : UInt8
  value : Bytes
  deriving DecidableEq, Repr

def tlvUint8 (fieldID v : UInt8) : TLVField := ⟨fieldID, [v]⟩
def tlvUint32 (fieldID : UInt8) (v : UInt32) : TLVField := ⟨fieldID, bigEndianPutUint32 v⟩
def tlvFloat64 {M : Type} [Float64 M] (fieldID : UInt8) (v : M) : TLVField :=
  ⟨fieldID, bigEndianPutUint64 (Float64.bits v)⟩
def tlvString (fieldID : UInt8) (v : Bytes) : TLVField := ⟨fieldID, v⟩

def putField (enc : Encoder) (f : TLVField) : Encoder :=
  ((enc.putUint8 f.id).putUint32 (UInt32.ofNat f.value.length)).putBytes f.value

def encodeTLVFields (fields : List TLVField) : Bytes := (fields.foldl putField newEncoder).bytes

def fieldBytes (f : TLVField) : Bytes :=
  f.id :: (bigEndianPutUint32 (UInt32.ofNat f.value.length) ++ f.value)

theorem length_fieldBytes (f : TLVField) : (fieldBytes f).length = 5 + f.value.length := by
  simp [fieldBytes]
  omega

theorem foldl_putField (fs : List TLVField) (enc : Encoder) :
    (fs.foldl putField enc).buf = enc.buf ++ fs.flatMap fieldBytes := by
  induction fs generalizing enc with
  | nil => simp
  | cons f fs ih =>
    rw [List.foldl_cons, ih]
    simp [putField, fieldBytes, Encoder.putUint8, Encoder.putUint32, Encoder.putBytes]

theorem encodeTLVFields_eq (fs : List TLVField) : encodeTLVFields fs = fs.flatMap fieldBytes := by
  simp [encodeTLVFields, Encoder.bytes, foldl_putField, newEncoder]

structure ParsedCommand (M : Type) where
  service : Option UInt8 := none
  accountNumber : Option UInt32 := none
  accountOwnerName : Option Bytes := none
  accountPassword : Option Bytes := none
  txAccountNumber : Option UInt32 := none
  txAccountOwnerName : Option Bytes := none
  monetaryValue : Option M := none
  currency : Option UInt8 := none
  monitorUpdates : Option Bytes := none
  monitorTimeoutSeconds : Option UInt32 := none
  deriving DecidableEq

inductive TLVError
  | overflow (fieldID : UInt8) (offset : ℤ) (length : UInt32) (remaining : ℤ)
  | fieldLength (field : String) (expected : String) (got : UInt32)
  | unknownField (fieldID : UInt8) (offset : ℤ)
  deriving DecidableEq, Repr

/-- `0x%02X`. -/
def hexByte (b : UInt8) : String :=
  "0x" ++ String.ofList ((Nat.toDigits 16 (b.toNat / 16) ++ Nat.toDigits 16 (b.toNat % 16)).map
    Char.toUpper)

def TLVError.message : TLVError → String
  | overflow fieldID offset length remaining =>
    "field " ++ hexByte fieldID ++ " at offset " ++ toString offset ++ ": length " ++
      toString length.toNat ++ " overflows packet (remaining: " ++ toString remaining ++ ")"
  | fieldLength field expected got =>
    "field " ++ field ++ ": expected " ++ expected ++ ", got " ++ toString got.toNat
  | unknownField fieldID offset =>
    "unknown field ID " ++ hexByte fieldID ++ " at offset " ++ toString offset

section Decode
variable {M : Type}

def fixedWidth {α : Type} (field expected : String) (width fieldLen : UInt32) (read : Go α)
    (put : α → ParsedCommand M) : Go (Except TLVError (ParsedCommand M)) :=
  if fieldLen ≠ width then .ok (.error (.fieldLength field expected fieldLen))
  else do
    let v ← read
    return .ok (put v)

variable [Float64 M]

/-- The switch over the tag; `offset` is where the field's header began. -/
def decodeField (cmd : ParsedCommand M) (fieldID : UInt8) (offset : ℤ) (fieldLen : UInt32)
    (valueBytes : Bytes) : Go (Except TLVError (ParsedCommand M)) :=
  if fieldID = fieldService then
    fixedWidth "Service" "1 byte" 1 fieldLen (index valueBytes 0)
      fun v => { cmd with service := some v }
  else if fieldID = fieldAccountNumber then
    fixedWidth "AccountNumber" "4 bytes" 4 fieldLen (bigEndianUint32 valueBytes)
      fun v => { cmd with accountNumber := some v }
  else if fieldID = fieldAccountOwnerName then
    .ok (.ok { cmd with accountOwnerName := some valueBytes })
  else if fieldID = fieldAccountPassword then
    .ok (.ok { cmd with accountPassword := some valueBytes })
  else if fieldID = fieldTxAccountNumber then
    fixedWidth "TxAccountNumber" "4 bytes" 4 fieldLen (bigEndianUint32 valueBytes)
      fun v => { cmd with txAccountNumber := some v }
  else if fieldID = fieldTxAccountOwnerName then
    .ok (.ok { cmd with txAccountOwnerName := some valueBytes })
  else if fieldID = fieldMonetaryValue then
    fixedWidth "MonetaryValue" "8 bytes" 8 fieldLen (bigEndianUint64 valueBytes)
      fun v => { cmd with monetaryValue := some (Float64.frombits v) }
  else if fieldID = fieldCurrency then
    fixedWidth "Currency" "1 byte" 1 fieldLen (index valueBytes 0)
      fun v => { cmd with currency := some v }
  else if fieldID = fieldMonitorUpdates then
    .ok (.ok { cmd with monitorUpdates := some valueBytes })
  else if fieldID = fieldMonitorTimeoutSeconds then
    fixedWidth "MonitorTimeoutSeconds" "4 bytes" 4 fieldLen (bigEndianUint32 valueBytes)
      fun v => { cmd with monitorTimeoutSeconds := some v }
  else .ok (.error (.unknownField fieldID offset))

def decodeLoop (bits : ℕ) (payload : Bytes) :
    ℕ → ℤ → ParsedCommand M → Go (Except TLVError (ParsedCommand M))
  | 0, _, _ => .error .nonTermination
  | fuel + 1, offset, cmd =>
    if goInt bits (offset + tlvHeaderSize) > payload.length then .ok (.ok cmd)
    else do
      let fieldID ← index payload offset
      let offset := goInt bits (offset + 1)
      let fieldLen ← bigEndianUint32 (← slice payload offset (goInt bits (offset + 4)))
      let offset := goInt bits (offset + 4)
      let next := goInt bits (offset + goInt bits fieldLen.toNat)
      let start := goInt bits (offset - tlvHeaderSize)
      -- The guard runs on the wrapped sum, as in the source.
      if next > payload.length then
        return .error (.overflow fieldID start fieldLen (goInt bits (payload.length - offset)))
      else
        let valueBytes ← slice payload offset next
        match ← decodeField cmd fieldID start fieldLen valueBytes with
        | .error err => return .error err
        | .ok cmd => decodeLoop bits payload fuel next cmd

def decodeTLV (bits : ℕ) (payload : Bytes) : Go (Except TLVError (ParsedCommand M)) :=
  decodeLoop bits payload (payload.length + 1) 0 {}

end Decode

def msgTypeReply : UInt8 := 0x01
def msgTypeCallback : UInt8 := 0x02

def ipv4ToUint32 (addr : UDPAddr) : UInt32 :=
  UInt32.ofNat (ByteOrder.ofBE addr.ip.toList)

/-- `copy` into eight zero bytes. -/
def passwordStringToFixed (pw : Bytes) : Vector UInt8 8 := Vector.ofFn fun i => pw.getD i 0

/-- A nil content and an empty one give the same packet. -/
def buildReply (requestID : UInt32) (clientAddr : UDPAddr) (statusCode : UInt8)
    (content : Bytes) : Bytes :=
  let enc := newEncoder.putUint8 msgTypeReply
  let enc := enc.putUint8 0
  let enc := enc.putUint32 requestID
  let enc := enc.putUint32 (ipv4ToUint32 clientAddr)
  let enc := enc.putUint16 clientAddr.port
  let enc := enc.putUint16 statusCode.toUInt16
  let enc := enc.putUint32 (UInt32.ofNat content.length)
  let enc := if content.length > 0 then enc.putBytes content else enc
  enc.bytes

def buildErrorReply (requestID : UInt32) (clientAddr : UDPAddr) (statusCode : UInt8) : Bytes :=
  buildReply requestID clientAddr statusCode []

structure AccountUpdate (M : Type) where
  serviceID : UInt8
  accountNumber : UInt32
  holderName : Bytes
  currencyType : UInt8
  newBalance : M

/-- The source's error result is always nil. -/
def marshalCallbackUpdate {M : Type} [Float64 M] (update : AccountUpdate M) : Bytes :=
  let enc := newEncoder.putUint8 msgTypeCallback
  let enc := enc.putUint8 update.serviceID
  let enc := enc.putUint32 update.accountNumber
  let enc := enc.putLengthPrefixedString update.holderName
  let enc := enc.putUint8 update.currencyType
  (enc.putFloat64 update.newBalance).bytes

theorem buildReply_eq (requestID : UInt32) (clientAddr : UDPAddr) (statusCode : UInt8)
    (content : Bytes) :
    buildReply requestID clientAddr statusCode content =
      msgTypeReply :: 0 :: (bigEndianPutUint32 requestID ++
        (bigEndianPutUint32 (ipv4ToUint32 clientAddr) ++ (bigEndianPutUint16 clientAddr.port ++
          (bigEndianPutUint16 statusCode.toUInt16 ++
            (bigEndianPutUint32 (UInt32.ofNat content.length) ++ content))))) := by
  by_cases h : content.length > 0
  · simp [buildReply, newEncoder, Encoder.putUint8, Encoder.putUint16, Encoder.putUint32,
      Encoder.putBytes, Encoder.bytes, h]
  · have hnil : content = [] := by simpa using h
    simp [buildReply, newEncoder, Encoder.putUint8, Encoder.putUint16, Encoder.putUint32,
      Encoder.bytes, hnil]

end DistributedBanking.Marshalling
