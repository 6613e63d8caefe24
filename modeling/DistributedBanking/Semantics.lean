import DistributedBanking.FiniteMap
import DistributedBanking.UDPAddr

/-!
# Invocation semantics: header, reply history, dispatcher

The dispatcher is written over any request handler, which is a function on the
state it shares with the rest of the server. The reply history exists only in
at-most-once mode; the field `wf` of a dispatcher says so, as `newDispatcher`
leaves it.
-/

namespace DistributedBanking.Semantics
open ByteOrder

def headerSize : ℕ := 18

inductive HeaderError
  | errPacketTooShort
  deriving DecidableEq, Repr

def HeaderError.message : HeaderError → String
  | errPacketTooShort => "packet too short to contain a valid header"

structure MessageHeader where
  type : UInt8
  flag : UInt8
  requestID : UInt32
  ipv4 : UInt32
  port : UInt16
  statusCode : UInt16
  contentLen : UInt32
  deriving DecidableEq, Repr

def parseHeader (data : Bytes) : Go (Except HeaderError MessageHeader) :=
  if data.length < headerSize then .ok (.error .errPacketTooShort)
  else do
    return .ok {
      type := ← index data 0
      flag := ← index data 1
      requestID := ← bigEndianUint32 (← slice data 2 6)
      ipv4 := ← bigEndianUint32 (← slice data 6 10)
      port := ← bigEndianUint16 (← slice data 10 12)
      statusCode := ← bigEndianUint16 (← slice data 12 14)
      contentLen := ← bigEndianUint32 (← slice data 14 18) }

inductive Mode
  | none
  | atLeastOnce
  | atMostOnce
  deriving DecidableEq, Repr

/-- The numbering by `iota`, which is also the client's flag byte. -/
def Mode.toUint8 : Mode → UInt8
  | none => 0
  | atLeastOnce => 1
  | atMostOnce => 2

structure ReplyHistory where
  entries : FiniteMap Bytes (FiniteMap UInt32 Bytes)
  deriving DecidableEq

namespace ReplyHistory

def newReplyHistory : ReplyHistory := ⟨∅⟩

def lookup (h : ReplyHistory) (clientAddr : Bytes) (requestID : UInt32) : Option Bytes :=
  match h.entries.get clientAddr with
  | none => none
  | some clientEntries => clientEntries.get requestID

def store (h : ReplyHistory) (clientAddr : Bytes) (requestID : UInt32) (reply : Bytes) :
    ReplyHistory :=
  let clientEntries := (h.entries.get clientAddr).getD ∅
  ⟨h.entries.set clientAddr (clientEntries.set requestID reply)⟩

@[simp] theorem lookup_newReplyHistory (c : Bytes) (id : UInt32) :
    newReplyHistory.lookup c id = none := by
  simp [lookup, newReplyHistory]

theorem lookup_store (h : ReplyHistory) (c c' : Bytes) (id id' : UInt32) (reply : Bytes) :
    (h.store c id reply).lookup c' id' =
      if c' = c ∧ id' = id then some reply else h.lookup c' id' := by
  by_cases hc : c' = c
  · subst hc
    by_cases hid : id' = id
    · simp [lookup, store, hid]
    · cases hget : h.entries.get c' with
      | none => simp [lookup, store, hid, hget, FiniteMap.get_set]
      | some m => simp [lookup, store, hid, hget, FiniteMap.get_set]
  · simp [lookup, store, hc, FiniteMap.get_set]

end ReplyHistory

abbrev RequestHandler (σ : Type) := σ → Bytes → UDPAddr → Go (σ × Bytes)

structure Dispatcher where
  mode : Mode
  history : Option ReplyHistory
  wf : mode = .atMostOnce → history.isSome

inductive DispatchError
  | header (err : HeaderError)
  | flagMismatch (flag : UInt8) (mode : Mode)
  deriving DecidableEq, Repr

def DispatchError.message : DispatchError → String
  | header err => "failed to parse request header: " ++ err.message
  | flagMismatch flag mode =>
    "request flag " ++ toString flag.toNat ++ " does not match dispatcher mode " ++
      toString mode.toUint8.toNat

namespace Dispatcher

@[ext] theorem ext {d e : Dispatcher} (hm : d.mode = e.mode) (hh : d.history = e.history) :
    d = e := by
  cases d
  cases e
  simp_all

def newDispatcher (mode : Mode) : Dispatcher :=
  ⟨mode, if mode = .atMostOnce then some ReplyHistory.newReplyHistory else none,
    fun h => by simp [h]⟩

/-- `d.history.Store(..)` on the history that the dispatcher points to. -/
def setHistory (d : Dispatcher) (h : ReplyHistory) : Dispatcher :=
  ⟨d.mode, some h, fun _ => rfl⟩

def dispatch {σ : Type} (handler : RequestHandler σ) (d : Dispatcher) (s : σ) (data : Bytes)
    (addr : UDPAddr) : Go (Dispatcher × σ × Except DispatchError Bytes) := do
  match ← parseHeader data with
  | .error err => return (d, s, .error (.header err))
  | .ok header =>
    if header.flag ≠ d.mode.toUint8 then
      return (d, s, .error (.flagMismatch header.flag d.mode))
    else
      let clientKey := addr.string
      if d.mode = .atLeastOnce then
        let (s, reply) ← handler s data addr
        return (d, s, .ok reply)
      else
        let history ← deref d.history
        match history.lookup clientKey header.requestID with
        | some cachedReply => return (d, s, .ok cachedReply)
        | none =>
          let (s, reply) ← handler s data addr
          return (d.setHistory (history.store clientKey header.requestID reply), s, .ok reply)

end Dispatcher

def headerOf (data : Bytes) : MessageHeader where
  type := data.getD 0 0
  flag := data.getD 1 0
  requestID := UInt32.ofNat (ofBE ((data.drop 2).take 4))
  ipv4 := UInt32.ofNat (ofBE ((data.drop 6).take 4))
  port := UInt16.ofNat (ofBE ((data.drop 10).take 2))
  statusCode := UInt16.ofNat (ofBE ((data.drop 12).take 2))
  contentLen := UInt32.ofNat (ofBE ((data.drop 14).take 4))

theorem slice_width (data : Bytes) (lo hi : ℤ) (a w : ℕ) (hlo : lo = a)
    (hhi : hi = (a + w : ℕ)) (hlen : a + w ≤ data.length) :
    slice data lo hi = .ok ((data.drop a).take w) ∧ ((data.drop a).take w).length = w := by
  subst hlo hhi
  refine ⟨?_, ?_⟩
  · rw [slice_of_le (by omega) hlen, Nat.add_sub_cancel_left]
  · simp only [List.length_take, List.length_drop]
    omega

theorem parseHeader_ok {data : Bytes} (h : headerSize ≤ data.length) :
    parseHeader data = .ok (.ok (headerOf data)) := by
  have hlen : 18 ≤ data.length := h
  have htype : index data 0 = .ok (data.getD 0 0) := index_getD (i := 0) (by omega)
  have hflag : index data 1 = .ok (data.getD 1 0) := index_getD (i := 1) (by omega)
  obtain ⟨hid, lid⟩ := slice_width data 2 6 2 4 rfl rfl (by omega)
  obtain ⟨hip, lip⟩ := slice_width data 6 10 6 4 rfl rfl (by omega)
  obtain ⟨hport, lport⟩ := slice_width data 10 12 10 2 rfl rfl (by omega)
  obtain ⟨hstatus, lstatus⟩ := slice_width data 12 14 12 2 rfl rfl (by omega)
  obtain ⟨hcontent, lcontent⟩ := slice_width data 14 18 14 4 rfl rfl (by omega)
  rw [parseHeader, if_neg (not_lt.mpr h), htype, hflag, hid, hip, hport, hstatus, hcontent]
  simp only [ok_bind, bigEndianUint32_of_length lid, bigEndianUint32_of_length lip,
    bigEndianUint16_of_length lport, bigEndianUint16_of_length lstatus,
    bigEndianUint32_of_length lcontent]
  rfl

def headerBytes (h : MessageHeader) : Bytes :=
  h.type :: h.flag :: (bigEndianPutUint32 h.requestID ++ (bigEndianPutUint32 h.ipv4 ++
    (bigEndianPutUint16 h.port ++ (bigEndianPutUint16 h.statusCode ++
      bigEndianPutUint32 h.contentLen))))

@[simp] theorem length_headerBytes (h : MessageHeader) : (headerBytes h).length = headerSize := by
  simp [headerBytes, headerSize]

theorem take_drop_of_split (data : Bytes) (a w : ℕ) (pre mid : Bytes) {post : Bytes}
    (h : data = pre ++ (mid ++ post)) (ha : pre.length = a) (hw : mid.length = w) :
    (data.drop a).take w = mid := by
  subst h ha hw
  rw [List.drop_left, List.take_left]

theorem headerOf_headerBytes (h : MessageHeader) (content : Bytes) :
    headerOf (headerBytes h ++ content) = h := by
  have hid := take_drop_of_split (headerBytes h ++ content) 2 4
    [h.type, h.flag] (bigEndianPutUint32 h.requestID)
    (by simp [headerBytes]; rfl) rfl (by simp)
  have hip := take_drop_of_split (headerBytes h ++ content) 6 4
    (h.type :: h.flag :: bigEndianPutUint32 h.requestID)
    (bigEndianPutUint32 h.ipv4) (by simp [headerBytes]; rfl) (by simp) (by simp)
  have hport := take_drop_of_split (headerBytes h ++ content) 10 2
    (h.type :: h.flag :: (bigEndianPutUint32 h.requestID ++ bigEndianPutUint32 h.ipv4))
    (bigEndianPutUint16 h.port) (by simp [headerBytes]; rfl) (by simp) (by simp)
  have hstatus := take_drop_of_split (headerBytes h ++ content) 12 2
    (h.type :: h.flag :: (bigEndianPutUint32 h.requestID ++ (bigEndianPutUint32 h.ipv4 ++
      bigEndianPutUint16 h.port)))
    (bigEndianPutUint16 h.statusCode) (by simp [headerBytes]; rfl) (by simp) (by simp)
  have hlen := take_drop_of_split (headerBytes h ++ content) 14 4
    (h.type :: h.flag :: (bigEndianPutUint32 h.requestID ++ (bigEndianPutUint32 h.ipv4 ++
      (bigEndianPutUint16 h.port ++ bigEndianPutUint16 h.statusCode))))
    (bigEndianPutUint32 h.contentLen) (by simp [headerBytes]; rfl) (by simp) (by simp)
  rw [headerOf, hid, hip, hport, hstatus, hlen, uint32_ofBE_put, uint32_ofBE_put, uint32_ofBE_put,
    uint16_ofBE_put, uint16_ofBE_put]
  rfl

theorem parseHeader_short {data : Bytes} (h : data.length < headerSize) :
    parseHeader data = .ok (.error .errPacketTooShort) := by
  simp [parseHeader, h]

end DistributedBanking.Semantics
