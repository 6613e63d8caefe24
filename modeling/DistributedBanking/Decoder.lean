import DistributedBanking.Marshalling

/-!
# The decoder's cursor

The offset is an `int` of 64 bits, and so are the lengths that callers ask for.
Every read adds the two up and compares the sum with the length of the buffer.
The sum may wrap around, and then it is negative and the comparison lets it pass.
-/

namespace DistributedBanking.Marshalling

inductive DecodeError
  -- Wraps `ErrBufferUnderflow`.
  | underflow (call : String) (offset : ℤ)
  | negative (call what : String) (n : ℤ)
  deriving DecidableEq, Repr

def DecodeError.message : DecodeError → String
  | underflow call offset => call ++ " at offset " ++ toString offset ++ ": read past end of buffer"
  | negative call what n => call ++ ": negative " ++ what ++ " " ++ toString n

structure Decoder where
  buf : Bytes
  offset : ℤ
  deriving DecidableEq, Repr

def newDecoder (data : Bytes) : Decoder := ⟨data, 0⟩

namespace Decoder

/-- The reads of all widths: `get` takes the value out of the bytes from the offset on. -/
def read {α : Type} (d : Decoder) (call : String) (size : ℤ) (get : Decoder → ℤ → Go α) :
    Go (Except DecodeError α × Decoder) :=
  let next := goInt 64 (d.offset + size)
  if next > d.buf.length then .ok (.error (.underflow call d.offset), d)
  else do
    let v ← get d next
    return (.ok v, { d with offset := next })

def readCounted {α : Type} (d : Decoder) (name what : String) (n : Int64)
    (get : Decoder → ℤ → Go α) : Go (Except DecodeError α × Decoder) :=
  if n.toInt < 0 then .ok (.error (.negative name what n.toInt), d)
  else read d (name ++ "(" ++ toString n.toInt ++ ")") n.toInt get

def window (d : Decoder) (next : ℤ) : Go Bytes := slice d.buf d.offset next

def readUint8 (d : Decoder) : Go (Except DecodeError UInt8 × Decoder) :=
  d.read "ReadUint8" 1 fun d _ => index d.buf d.offset

def readUint16 (d : Decoder) : Go (Except DecodeError UInt16 × Decoder) :=
  d.read "ReadUint16" 2 fun d next => do bigEndianUint16 (← d.window next)

def readUint32 (d : Decoder) : Go (Except DecodeError UInt32 × Decoder) :=
  d.read "ReadUint32" 4 fun d next => do bigEndianUint32 (← d.window next)

def readFloat64 (d : Decoder) : Go (Except DecodeError UInt64 × Decoder) :=
  d.read "ReadFloat64" 8 fun d next => do bigEndianUint64 (← d.window next)

def readString (d : Decoder) (length : Int64) : Go (Except DecodeError Bytes × Decoder) :=
  d.readCounted "ReadString" "length" length window

/-- A copy of the bytes. Where slicing panics, making the copy has panicked before. -/
def readBytes (d : Decoder) (length : Int64) : Go (Except DecodeError Bytes × Decoder) :=
  d.readCounted "ReadBytes" "length" length window

def skip (d : Decoder) (n : Int64) : Go (Except DecodeError Unit × Decoder) :=
  d.readCounted "Skip" "count" n fun _ _ => .ok ()

def remaining (d : Decoder) : ℤ := goInt 64 (d.buf.length - d.offset)

inductive Call
  | readUint8
  | readUint16
  | readUint32
  | readFloat64
  | readString (length : Int64)
  | readBytes (length : Int64)
  | skip (n : Int64)
  deriving DecidableEq

inductive Value
  | uint8 (v : UInt8)
  | uint16 (v : UInt16)
  | uint32 (v : UInt32)
  | float64 (bits : UInt64)
  | bytes (b : Bytes)
  | nothing
  deriving DecidableEq, Repr

def Call.size : Call → ℤ
  | readUint8 => 1
  | readUint16 => 2
  | readUint32 => 4
  | readFloat64 => 8
  | readString length => length.toInt
  | readBytes length => length.toInt
  | skip n => n.toInt

def returned {α : Type} (wrap : α → Value) (r : Go (Except DecodeError α × Decoder)) :
    Go (Except DecodeError Value × Decoder) := do
  let (result, d) ← r
  return (result.map wrap, d)

def call (d : Decoder) : Call → Go (Except DecodeError Value × Decoder)
  | .readUint8 => returned .uint8 d.readUint8
  | .readUint16 => returned .uint16 d.readUint16
  | .readUint32 => returned .uint32 d.readUint32
  | .readFloat64 => returned .float64 d.readFloat64
  | .readString length => returned .bytes (d.readString length)
  | .readBytes length => returned .bytes (d.readBytes length)
  | .skip n => returned (fun _ => .nothing) (d.skip n)

/-- The cursor stays in the buffer, where it was after an error and behind the bytes consumed
after a success. -/
structure Sound (d : Decoder) (c : Call) (result : Except DecodeError Value) (d' : Decoder) :
    Prop where
  buf : d'.buf = d.buf
  lower : 0 ≤ d'.offset
  upper : d'.offset ≤ d'.buf.length
  failed : ∀ err, result = .error err → d'.offset = d.offset
  succeeded : ∀ v, result = .ok v → d'.offset = d.offset + c.size

def Safe (d : Decoder) : List Call → Prop
  | [] => True
  | c :: calls => ∃ result d', d.call c = .ok (result, d') ∧ Sound d c result d' ∧ Safe d' calls

def advance (len cursor : ℕ) (c : Call) : ℕ :=
  if 0 ≤ c.size ∧ cursor + c.size ≤ len then cursor + c.size.toNat else cursor

def Fits (len cursor : ℕ) : List Call → Prop
  | [] => True
  | c :: calls => cursor + c.size < 2 ^ 63 ∧ Fits len (advance len cursor c) calls

section Reads
variable {data : Bytes} {cursor : ℕ} {α : Type} {name : String} {size : ℤ}
  {get : Decoder → ℤ → Go α}

theorem read_underflow (hlen : (data.length : ℤ) < cursor + size)
    (hfits : cursor + size < 2 ^ 63) :
    read ⟨data, cursor⟩ name size get = .ok (.error (.underflow name cursor), ⟨data, cursor⟩) := by
  have hnext : goInt 64 (cursor + size) = cursor + size :=
    goInt_of_bounds (by omega) hfits (by decide)
  rw [read, hnext]
  exact if_pos hlen

theorem read_ok {v : α} (hsize : 0 ≤ size) (hlen : cursor + size ≤ data.length)
    (hfits : cursor + size < 2 ^ 63) (hget : get ⟨data, cursor⟩ (cursor + size) = .ok v) :
    read ⟨data, cursor⟩ name size get = .ok (.ok v, ⟨data, cursor + size⟩) := by
  have hnext : goInt 64 (cursor + size) = cursor + size :=
    goInt_of_bounds (by omega) hfits (by decide)
  rw [read, hnext]
  refine (if_neg hlen.not_gt).trans ?_
  rw [hget]
  rfl

theorem goInt_wraps {n : ℤ} (hlo : 2 ^ 63 ≤ n) (hhi : n < 2 ^ 64) :
    goInt 64 n = n - 2 ^ 64 := by
  have hshift : (n - 2 ^ 64).bmod (2 ^ 64) = n.bmod (2 ^ 64) := Int.sub_bmod_right n (2 ^ 64)
  rw [goInt, ← hshift]
  apply Int.bmod_eq_of_le <;> omega

/-- The comparison passes, and the offset is negative unless taking the value panics. -/
theorem read_wraps (hlo : 2 ^ 63 ≤ cursor + size) (hhi : cursor + size < 2 ^ 64)
    {result : Except DecodeError α} {d' : Decoder}
    (h : read ⟨data, cursor⟩ name size get = .ok (result, d')) : d'.offset < 0 := by
  have hnext : goInt 64 (cursor + size) = cursor + size - 2 ^ 64 := goInt_wraps hlo hhi
  rw [read, hnext] at h
  dsimp only at h
  rw [if_neg (by omega)] at h
  cases hget : get ⟨data, cursor⟩ (cursor + size - 2 ^ 64) with
  | error panic =>
    rw [hget, error_bind] at h
    cases h
  | ok v =>
    rw [hget, ok_bind] at h
    cases h
    show (cursor : ℤ) + size - 2 ^ 64 < 0
    omega

end Reads

section Calls
variable {data : Bytes} {cursor : ℕ} {c : Call}

section Counted
variable {α : Type} {d : Decoder} {name what : String} {n : Int64} {get : Decoder → ℤ → Go α}

theorem readCounted_negative (h : n.toInt < 0) :
    readCounted d name what n get = .ok (.error (.negative name what n.toInt), d) :=
  if_pos h

theorem readCounted_eq (h : 0 ≤ n.toInt) :
    readCounted d name what n get = read d (name ++ "(" ++ toString n.toInt ++ ")") n.toInt get :=
  if_neg h.not_gt

end Counted

theorem call_negative (d : Decoder) (h : c.size < 0) : ∃ err, d.call c = .ok (.error err, d) := by
  cases c with
  | readUint8 => cases h
  | readUint16 => cases h
  | readUint32 => cases h
  | readFloat64 => cases h
  | readString length => exact ⟨_, congrArg (returned _) (readCounted_negative h)⟩
  | readBytes length => exact ⟨_, congrArg (returned _) (readCounted_negative h)⟩
  | skip n => exact ⟨_, congrArg (returned _) (readCounted_negative h)⟩

theorem window_ok {size : ℕ} (hlen : cursor + size ≤ data.length) :
    window ⟨data, cursor⟩ (cursor + size) = .ok ((data.drop cursor).take size) ∧
      ((data.drop cursor).take size).length = size := by
  constructor
  · have hslice := slice_of_le (Nat.le_add_right cursor size) hlen
    rw [Nat.add_sub_cancel_left, Nat.cast_add] at hslice
    exact hslice
  · rw [List.length_take, List.length_drop]
    omega

def Takes {α : Type} (get : Decoder → ℤ → Go α) (size : ℤ) : Prop :=
  ∀ (data : Bytes) (cursor : ℕ), cursor + size ≤ data.length →
    ∃ v, get ⟨data, cursor⟩ (cursor + size) = .ok v

theorem takes_decode {α : Type} {decode : Bytes → Go α} {size : ℕ}
    (h : ∀ bs : Bytes, bs.length = size → ∃ v, decode bs = .ok v) :
    Takes (fun d next => do decode (← d.window next)) size := by
  intro data cursor hlen
  obtain ⟨hwindow, hlength⟩ := window_ok (show cursor + size ≤ data.length by omega)
  obtain ⟨v, hv⟩ := h _ hlength
  refine ⟨v, ?_⟩
  dsimp only
  rw [hwindow, ok_bind, hv]

theorem takes_window {n : Int64} (h : 0 ≤ n.toInt) : Takes window n.toInt := by
  obtain ⟨size, hsize⟩ := Int.eq_ofNat_of_zero_le h
  intro data cursor hlen
  rw [hsize] at hlen ⊢
  exact ⟨_, (window_ok (by omega)).1⟩

theorem call_eq_read (d : Decoder) (h : 0 ≤ c.size) :
    ∃ (α : Type) (wrap : α → Value) (name : String) (get : Decoder → ℤ → Go α),
      d.call c = returned wrap (d.read name c.size get) ∧ Takes get c.size := by
  cases c with
  | readUint8 =>
    refine ⟨_, _, _, _, rfl, fun data cursor hlen => ?_⟩
    have hlt : (cursor : ℤ) + 1 ≤ data.length := hlen
    exact ⟨_, index_getD (by omega : cursor < data.length)⟩
  | readUint16 =>
    exact ⟨_, _, _, _, rfl, takes_decode fun bs hbs => ⟨_, bigEndianUint16_of_length hbs⟩⟩
  | readUint32 =>
    exact ⟨_, _, _, _, rfl, takes_decode fun bs hbs => ⟨_, bigEndianUint32_of_length hbs⟩⟩
  | readFloat64 =>
    exact ⟨_, _, _, _, rfl, takes_decode fun bs hbs => ⟨_, bigEndianUint64_of_length hbs⟩⟩
  | readString length =>
    exact ⟨_, _, _, _, congrArg (returned _) (readCounted_eq h), takes_window h⟩
  | readBytes length =>
    exact ⟨_, _, _, _, congrArg (returned _) (readCounted_eq h), takes_window h⟩
  | skip n => exact ⟨_, _, _, _, congrArg (returned _) (readCounted_eq h), fun _ _ _ => ⟨(), rfl⟩⟩

theorem Call.size_lt (c : Call) : c.size < 2 ^ 63 := by
  cases c with
  | readUint8 => decide
  | readUint16 => decide
  | readUint32 => decide
  | readFloat64 => decide
  | readString length => exact length.toInt_lt
  | readBytes length => exact length.toInt_lt
  | skip n => exact n.toInt_lt

theorem advance_le (hcursor : cursor ≤ data.length) :
    advance data.length cursor c ≤ data.length := by
  rw [advance]
  split_ifs with h
  · omega
  · exact hcursor

theorem call_fits (hcursor : cursor ≤ data.length) (hfits : cursor + c.size < 2 ^ 63) :
    ∃ result, call ⟨data, cursor⟩ c = .ok (result, ⟨data, advance data.length cursor c⟩) ∧
      Sound ⟨data, cursor⟩ c result ⟨data, advance data.length cursor c⟩ := by
  by_cases hsize : 0 ≤ c.size
  · obtain ⟨α, wrap, name, get, hcall, htakes⟩ := call_eq_read ⟨data, cursor⟩ hsize
    by_cases hlen : cursor + c.size ≤ data.length
    · obtain ⟨v, hv⟩ := htakes data cursor hlen
      have hadvance : (advance data.length cursor c : ℤ) = cursor + c.size := by
        rw [advance, if_pos ⟨hsize, hlen⟩]
        omega
      rw [hadvance, hcall, read_ok hsize hlen hfits hv]
      refine ⟨_, rfl, rfl, by dsimp only; omega, hlen, ?_, fun _ _ => rfl⟩
      intro err herr
      cases herr
    · have hadvance : advance data.length cursor c = cursor := if_neg fun h => hlen h.2
      rw [hadvance, hcall, read_underflow (by omega) hfits]
      refine ⟨_, rfl, rfl, by dsimp only; omega, by dsimp only; omega, fun _ _ => rfl, ?_⟩
      intro v hv
      cases hv
  · obtain ⟨err, hcall⟩ := call_negative ⟨data, cursor⟩ (not_le.mp hsize)
    have hadvance : advance data.length cursor c = cursor := if_neg fun h => hsize h.1
    rw [hadvance]
    refine ⟨_, hcall, rfl, by dsimp only; omega, by dsimp only; omega, fun _ _ => rfl, ?_⟩
    intro v hv
    cases hv

theorem call_wraps (hcursor : (cursor : ℤ) < 2 ^ 63) (hwraps : 2 ^ 63 ≤ cursor + c.size)
    {result : Except DecodeError Value} {d' : Decoder}
    (h : call ⟨data, cursor⟩ c = .ok (result, d')) : d'.offset < 0 := by
  have hlt := c.size_lt
  obtain ⟨α, wrap, name, get, hcall, -⟩ := call_eq_read ⟨data, cursor⟩ (c := c) (by omega)
  rw [hcall] at h
  cases hread : read ⟨data, cursor⟩ name c.size get with
  | error panic =>
    rw [hread] at h
    cases h
  | ok r =>
    rw [hread] at h
    cases h
    exact read_wraps hwraps (by omega) hread

theorem safe_iff_fits {calls : List Call} (hcursor : cursor ≤ data.length)
    (hbound : (cursor : ℤ) < 2 ^ 63) :
    Safe ⟨data, cursor⟩ calls ↔ Fits data.length cursor calls := by
  induction calls generalizing cursor with
  | nil => exact Iff.rfl
  | cons c calls ih =>
    by_cases hfits : cursor + c.size < 2 ^ 63
    · obtain ⟨result, hcall, hsound⟩ := call_fits hcursor hfits
      have hadvance : (advance data.length cursor c : ℤ) < 2 ^ 63 := by
        rw [advance]
        split_ifs <;> omega
      have htail := ih (advance_le hcursor) hadvance
      constructor
      · intro hrun
        obtain ⟨result', d', hcall', -, hsafe⟩ := hrun
        cases hcall.symm.trans hcall'
        exact ⟨hfits, htail.mp hsafe⟩
      · intro hboth
        exact ⟨result, _, hcall, hsound, htail.mpr hboth.2⟩
    · constructor
      · intro hrun
        obtain ⟨result, d', hcall, hsound, -⟩ := hrun
        exact absurd (call_wraps hbound (not_lt.mp hfits) hcall) hsound.lower.not_gt
      · intro hboth
        exact absurd hboth.1 hfits

end Calls

/-- A decoder keeps its cursor in its buffer over a sequence of calls exactly when none of them
asks for so much that the offset behind it is no `int`. -/
theorem newDecoder_safe_iff (data : Bytes) (calls : List Call) :
    Safe (newDecoder data) calls ↔ Fits data.length 0 calls :=
  safe_iff_fits (Nat.zero_le _) (by decide)

/-- Skipping as far as an `int` reaches moves the cursor of a used decoder before its buffer, and
reading a string that long panics. -/
theorem skip_wraps :
    call ⟨[1], 1⟩ (.skip 0x7FFFFFFFFFFFFFFF) = .ok (.ok .nothing, ⟨[1], -2 ^ 63⟩) ∧
      call ⟨[1], 1⟩ (.readString 0x7FFFFFFFFFFFFFFF) = .error .sliceOutOfRange ∧
      ¬ Safe (newDecoder [1]) [.readUint8, .skip 0x7FFFFFFFFFFFFFFF] := by
  have hskip : call ⟨[1], 1⟩ (.skip 0x7FFFFFFFFFFFFFFF) = .ok (.ok .nothing, ⟨[1], -2 ^ 63⟩) := by
    decide
  refine ⟨hskip, by decide, ?_⟩
  intro hsafe
  obtain ⟨result, d', hcall, -, result', d'', hcall', hsound, -⟩ := hsafe
  have hread : call (newDecoder [1]) .readUint8 = .ok (.ok (.uint8 1), ⟨[1], 1⟩) := by decide
  cases hread.symm.trans hcall
  cases hskip.symm.trans hcall'
  exact absurd hsound.lower (by decide)

end Decoder
end DistributedBanking.Marshalling
