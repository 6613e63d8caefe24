import DistributedBanking.GoRuntime

/-!
# The client's codec

Commands and messages as the C++ client encodes them. Integers are copied
between objects and byte buffers in the byte order of the host, so the host is
a parameter and `htonl` and `ntohl` depend on it; a double is its 64-bit
pattern. `Cpp` holds what C++ leaves undefined or throws: a read outside a
buffer and the value of an empty optional. `size_t` has `bits` bits.
-/

namespace DistributedBanking.ClientProtocol
open ByteOrder

inductive Endian
  | little
  | big
  deriving DecidableEq, Repr

inductive Fault
  | outOfBounds
  | badOptionalAccess
  -- Not a fault of C++: a loop that outlives its bound ends here.
  | nonTermination
  deriving DecidableEq, Repr

abbrev Cpp (α : Type) := Except Fault α

def objectBytes (e : Endian) (n v : ℕ) : Bytes :=
  match e with
  | .little => toLE n v
  | .big => toBE n v

def objectValue (e : Endian) (bs : Bytes) : ℕ :=
  match e with
  | .little => ofLE bs
  | .big => ofBE bs

def htonl (e : Endian) (v : UInt32) : UInt32 := UInt32.ofNat (objectValue e (toBE 4 v.toNat))
def htons (e : Endian) (v : UInt16) : UInt16 := UInt16.ofNat (objectValue e (toBE 2 v.toNat))
def ntohl (e : Endian) (v : UInt32) : UInt32 := UInt32.ofNat (ofBE (objectBytes e 4 v.toNat))
def ntohs (e : Endian) (v : UInt16) : UInt16 := UInt16.ofNat (ofBE (objectBytes e 2 v.toNat))

theorem objectBytes_value (e : Endian) (bs : Bytes) :
    objectBytes e bs.length (objectValue e bs) = bs := by
  cases e with
  | little =>
    have hback := toBE_ofBE bs.reverse
    rw [List.length_reverse] at hback
    simp only [objectBytes, objectValue, toLE, ofLE, hback, List.reverse_reverse]
  | big => exact toBE_ofBE bs

theorem objectValue_lt (e : Endian) (bs : Bytes) : objectValue e bs < 256 ^ bs.length := by
  cases e with
  | little => simpa [objectValue, ofLE] using ofBE_lt bs.reverse
  | big => exact ofBE_lt bs

theorem objectBytes_htonl (e : Endian) (v : UInt32) :
    objectBytes e 4 (htonl e v).toNat = bigEndianPutUint32 v := by
  have hlt := objectValue_lt e (toBE 4 v.toNat)
  have hback := objectBytes_value e (toBE 4 v.toNat)
  rw [length_toBE] at hlt hback
  rw [htonl, UInt32.toNat_ofNat_of_lt' hlt, hback, bigEndianPutUint32]

theorem objectBytes_htons (e : Endian) (v : UInt16) :
    objectBytes e 2 (htons e v).toNat = bigEndianPutUint16 v := by
  have hlt := objectValue_lt e (toBE 2 v.toNat)
  have hback := objectBytes_value e (toBE 2 v.toNat)
  rw [length_toBE] at hlt hback
  rw [htons, UInt16.toNat_ofNat_of_lt' hlt, hback, bigEndianPutUint16]

theorem ntohl_objectValue {e : Endian} {bs : Bytes} (h : bs.length = 4) :
    ntohl e (UInt32.ofNat (objectValue e bs)) = UInt32.ofNat (ofBE bs) := by
  have hlt := objectValue_lt e bs
  have hback := objectBytes_value e bs
  rw [h] at hlt hback
  rw [ntohl, UInt32.toNat_ofNat_of_lt' hlt, hback]

theorem ntohs_objectValue {e : Endian} {bs : Bytes} (h : bs.length = 2) :
    ntohs e (UInt16.ofNat (objectValue e bs)) = UInt16.ofNat (ofBE bs) := by
  have hlt := objectValue_lt e bs
  have hback := objectBytes_value e bs
  rw [h] at hlt hback
  rw [ntohs, UInt16.toNat_ofNat_of_lt' hlt, hback]

/-- `Service` and `CurrencyType` hold their numeric value: an enumerator or the cast of a byte. -/
structure Command where
  service : Option UInt8 := none
  accountNumber : Option UInt32 := none
  accountOwnerName : Option Bytes := none
  accountPassword : Option Bytes := none
  txAccountNumber : Option UInt32 := none
  txAccountOwnerName : Option Bytes := none
  monetaryValue : Option UInt64 := none
  currency : Option UInt8 := none
  monitorUpdates : Option Bytes := none
  monitorTimeoutSeconds : Option UInt32 := none
  deriving DecidableEq

inductive FieldID
  | service
  | accountNumber
  | accountOwnerName
  | accountPassword
  | txAccountNumber
  | txAccountOwnerName
  | monetaryValue
  | currency
  | monitorUpdates
  | monitorTimeoutSeconds
  deriving DecidableEq, Repr

def FieldID.toUint8 : FieldID → UInt8
  | service => 1
  | accountNumber => 2
  | accountOwnerName => 3
  | accountPassword => 4
  | txAccountNumber => 5
  | txAccountOwnerName => 6
  | monetaryValue => 7
  | currency => 8
  | monitorUpdates => 9
  | monitorTimeoutSeconds => 10

inductive InternalError
  | userQuit
  | userCanceled
  | badInput
  | invalidService
  | invalidCurrency
  | encodeUnknownField
  | encodeEmptyCommand
  | decodeEmptyData
  | decodeUnknownField
  | decodeFieldOverflow
  | decodeOffsetOverflow
  | decodeStringTooLong
  | deserializeHeaderTooShort
  | deserializePayloadOverflow
  | badStatus
  | sendTimeout
  | sendFailed
  | receiveTimeout
  | receiveFailed
  deriving DecidableEq, Repr

def Command.allFields (cmd : Command) : List (FieldID × Bool) :=
  [(.service, cmd.service.isSome), (.accountNumber, cmd.accountNumber.isSome),
    (.accountOwnerName, cmd.accountOwnerName.isSome),
    (.accountPassword, cmd.accountPassword.isSome),
    (.txAccountNumber, cmd.txAccountNumber.isSome),
    (.txAccountOwnerName, cmd.txAccountOwnerName.isSome),
    (.monetaryValue, cmd.monetaryValue.isSome), (.currency, cmd.currency.isSome),
    (.monitorUpdates, cmd.monitorUpdates.isSome),
    (.monitorTimeoutSeconds, cmd.monitorTimeoutSeconds.isSome)]

def value {α : Type} : Option α → Cpp α
  | some a => .ok a
  | none => .error .badOptionalAccess

def appendUint8 (buffer : Bytes) (v : UInt8) : Bytes := buffer ++ [v]

def appendUint32 (e : Endian) (buffer : Bytes) (v : UInt32) : Bytes :=
  buffer ++ objectBytes e 4 (htonl e v).toNat

/-- The manual `htonll`: it swaps the bytes on every host. -/
def swapUint64 (val : UInt64) : UInt64 :=
  ((val &&& 0xFF00000000000000) >>> 56) |||
    ((val &&& 0x00FF000000000000) >>> 40) |||
    ((val &&& 0x0000FF0000000000) >>> 24) |||
    ((val &&& 0x000000FF00000000) >>> 8) |||
    ((val &&& 0x00000000FF000000) <<< 8) |||
    ((val &&& 0x0000000000FF0000) <<< 24) |||
    ((val &&& 0x000000000000FF00) <<< 40) |||
    ((val &&& 0x00000000000000FF) <<< 56)

def appendDouble (e : Endian) (buffer : Bytes) (v : UInt64) : Bytes :=
  buffer ++ objectBytes e 8 (swapUint64 v).toNat

def appendString (buffer str : Bytes) : Bytes := buffer ++ str

abbrev EncoderFunc := Bytes → Command → Cpp (Except InternalError Bytes)

def encodeByte (id : FieldID) (field : Command → Option UInt8) (e : Endian) : EncoderFunc :=
  fun buffer data => do
    let v ← value (field data)
    let buffer := appendUint8 buffer id.toUint8
    let buffer := appendUint32 e buffer 1
    return .ok (appendUint8 buffer v)

def encodeWord (id : FieldID) (field : Command → Option UInt32) (e : Endian) : EncoderFunc :=
  fun buffer data => do
    let v ← value (field data)
    let buffer := appendUint8 buffer id.toUint8
    let buffer := appendUint32 e buffer 4
    return .ok (appendUint32 e buffer v)

def encodeText (id : FieldID) (field : Command → Option Bytes) (e : Endian) : EncoderFunc :=
  fun buffer data => do
    let v ← value (field data)
    let length := UInt32.ofNat v.length
    let buffer := appendUint8 buffer id.toUint8
    let buffer := appendUint32 e buffer length
    return .ok (appendString buffer v)

def encodeService := encodeByte .service Command.service
def encodeAccountNumber := encodeWord .accountNumber Command.accountNumber
def encodeAccountOwnerName := encodeText .accountOwnerName Command.accountOwnerName
def encodeAccountPassword := encodeText .accountPassword Command.accountPassword
def encodeTxAccountNumber := encodeWord .txAccountNumber Command.txAccountNumber
def encodeTxAccountOwnerName := encodeText .txAccountOwnerName Command.txAccountOwnerName

def encodeMonetaryValue (e : Endian) : EncoderFunc := fun buffer data => do
  let v ← value data.monetaryValue
  let buffer := appendUint8 buffer FieldID.monetaryValue.toUint8
  let buffer := appendUint32 e buffer 8
  return .ok (appendDouble e buffer v)

def encodeCurrency := encodeByte .currency Command.currency
def encodeMonitorUpdates := encodeText .monitorUpdates Command.monitorUpdates
def encodeMonitorTimeoutSeconds := encodeWord .monitorTimeoutSeconds Command.monitorTimeoutSeconds

def encodeFuncMap (e : Endian) : List (FieldID × EncoderFunc) :=
  [(.service, encodeService e), (.accountNumber, encodeAccountNumber e),
    (.accountOwnerName, encodeAccountOwnerName e), (.accountPassword, encodeAccountPassword e),
    (.txAccountNumber, encodeTxAccountNumber e),
    (.txAccountOwnerName, encodeTxAccountOwnerName e),
    (.monetaryValue, encodeMonetaryValue e), (.currency, encodeCurrency e),
    (.monitorUpdates, encodeMonitorUpdates e),
    (.monitorTimeoutSeconds, encodeMonitorTimeoutSeconds e)]

/-- The lambda that `iterate` calls; once an error is set the remaining fields are skipped. -/
def encodeField (e : Endian) (data : Command) (s : Except InternalError Bytes)
    (field : FieldID × Bool) : Cpp (Except InternalError Bytes) :=
  match s with
  | .error err => .ok (.error err)
  | .ok buffer =>
    if !field.2 then .ok (.ok buffer)
    else
      match (encodeFuncMap e).lookup field.1 with
      | none => .ok (.error .encodeUnknownField)
      | some encode => encode buffer data

def encodeMessage (e : Endian) (data : Command) : Cpp (Except InternalError Bytes) := do
  match ← data.allFields.foldlM (encodeField e data) (.ok []) with
  | .error err => return .error err
  | .ok buffer => return if buffer.isEmpty then .error .encodeEmptyCommand else .ok buffer

def messageTypeRequest : UInt8 := 0
def messageTypeReply : UInt8 := 1
def messageTypeCallback : UInt8 := 2

structure MessageId where
  requestId : UInt32
  ipv4Address : UInt32
  port : UInt16
  deriving DecidableEq, Repr

structure Payload where
  statusCode : UInt16
  content : Bytes
  deriving DecidableEq, Repr

structure Message where
  type : UInt8
  flag : UInt8
  id : MessageId
  payload : Payload
  deriving DecidableEq, Repr

def invocationFlagAtMostOnce : UInt8 := 2

structure Session where
  flag : UInt8
  currentRequestId : UInt32
  localIpPort : UInt32 × UInt16
  deriving DecidableEq, Repr

def buildMessage (s : Session) (data : Bytes) : Session × Message :=
  let (s, requestId) :=
    if s.flag = invocationFlagAtMostOnce then
      ({ s with currentRequestId := s.currentRequestId + 1 }, s.currentRequestId + 1)
    else (s, 0)
  let (localIp, localPort) := s.localIpPort
  (s, ⟨messageTypeRequest, s.flag, ⟨requestId, localIp, localPort⟩, ⟨0, data⟩⟩)

theorem buildMessage_content (s : Session) (data : Bytes) :
    (buildMessage s data).2.payload.content = data := rfl

def serialize (e : Endian) (message : Message) : Bytes :=
  let data := [message.type]
  let data := data ++ [message.flag]
  let data := data ++ objectBytes e 4 (htonl e message.id.requestId).toNat
  let data := data ++ objectBytes e 4 (htonl e message.id.ipv4Address).toNat
  let data := data ++ objectBytes e 2 (htons e message.id.port).toNat
  let data := data ++ objectBytes e 2 (htons e message.payload.statusCode).toNat
  let data := data ++
    objectBytes e 4 (htonl e (UInt32.ofNat message.payload.content.length)).toNat
  data ++ message.payload.content

theorem serialize_eq (e : Endian) (m : Message) :
    serialize e m = m.type :: m.flag :: (bigEndianPutUint32 m.id.requestId ++
      (bigEndianPutUint32 m.id.ipv4Address ++ (bigEndianPutUint16 m.id.port ++
        (bigEndianPutUint16 m.payload.statusCode ++
          (bigEndianPutUint32 (UInt32.ofNat m.payload.content.length) ++
            m.payload.content))))) := by
  simp [serialize, objectBytes_htonl, objectBytes_htons]

def memcpy (data : Bytes) (offset n : ℕ) : Cpp Bytes :=
  if offset + n ≤ data.length then .ok ((data.drop offset).take n) else .error .outOfBounds

theorem memcpy_ok {data : Bytes} {offset n : ℕ} (h : offset + n ≤ data.length) :
    memcpy data offset n = .ok ((data.drop offset).take n) := if_pos h

def loadUint32 (e : Endian) (data : Bytes) (offset : ℕ) : Cpp UInt32 := do
  return UInt32.ofNat (objectValue e (← memcpy data offset 4))

def loadUint16 (e : Endian) (data : Bytes) (offset : ℕ) : Cpp UInt16 := do
  return UInt16.ofNat (objectValue e (← memcpy data offset 2))

def loadUint8 (data : Bytes) (offset : ℕ) : Cpp UInt8 :=
  match data[offset]? with
  | some b => .ok b
  | none => .error .outOfBounds

def safeAdd (bits a b : ℕ) : Option ℕ :=
  let result := (a + b) % 2 ^ bits
  if result < a ∨ result < b then none else some result

def validateHeader (totalSize : ℕ) : Bool := !(totalSize < 18)

def validatePayload (bits totalSize offset : ℕ) (contentLen : UInt32) : Bool :=
  match safeAdd bits offset contentLen.toNat with
  | none => false
  | some sum => !(totalSize < sum)

def deserialize (e : Endian) (bits : ℕ) (data : Bytes) : Cpp (Except InternalError Message) := do
  if !validateHeader data.length then return .error .deserializeHeaderTooShort
  else
    let type ← loadUint8 data 0
    let flag ← loadUint8 data 1
    let rid := ntohl e (← loadUint32 e data 2)
    let ip := ntohl e (← loadUint32 e data 6)
    let port := ntohs e (← loadUint16 e data 10)
    let sc := ntohs e (← loadUint16 e data 12)
    let contentLen := ntohl e (← loadUint32 e data 14)
    if !validatePayload bits data.length 18 contentLen then
      return .error .deserializePayloadOverflow
    else
      let content ← memcpy data 18 contentLen.toNat
      return .ok ⟨type, flag, ⟨rid, ip, port⟩, ⟨sc, content⟩⟩

/-- Encoding a command, then `build_message`; an empty command takes no request id. -/
def prepareMessage (e : Endian) (s : Session) (cmd : Command) :
    Cpp (Except InternalError (Session × Message)) := do
  match ← encodeMessage e cmd with
  | .error err => return .error err
  | .ok content => return .ok (buildMessage s content)

def isCallback (raw : Bytes) : Bool := raw.head? = some messageTypeCallback

def statusSuccess : UInt16 := 0

def decodeStatusCode (msg : Message) : Except InternalError Unit :=
  if msg.payload.statusCode ≠ statusSuccess then .error .badStatus else .ok ()

/-- The rest of `execute_request_pipeline` once `send_to_server` has returned. -/
def decodeReply (e : Endian) (bits : ℕ) (raw : Bytes) : Cpp (Except InternalError Message) := do
  match ← deserialize e bits raw with
  | .error err => return .error err
  | .ok msg =>
    match decodeStatusCode msg with
    | .error err => return .error err
    | .ok () => return .ok msg

end DistributedBanking.ClientProtocol
