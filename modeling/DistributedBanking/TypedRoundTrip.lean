import DistributedBanking.Decoder

/-!
# Typed sequences through the encoder and back

What a put appends, the matching read takes off the front of what is still
unread. A read whose bytes are not all there is an underflow, so a truncated
sequence fails where it was cut.
-/

namespace DistributedBanking.Marshalling

inductive Item
  | uint8 (v : UInt8)
  | uint16 (v : UInt16)
  | uint32 (v : UInt32)
  | float64 (bits : UInt64)
  | string (s : Bytes)
  | prefixedString (s : Bytes)
  deriving DecidableEq, Repr

/-- What a reader has to know of an item. -/
inductive Kind
  | uint8
  | uint16
  | uint32
  | float64
  | string (length : Int64)
  | prefixedString
  deriving DecidableEq

namespace Item

def Fits : Item → Prop
  | prefixedString s => s.length < 2 ^ 32
  | _ => True

def put (enc : Encoder) : Item → Encoder
  | uint8 v => enc.putUint8 v
  | uint16 v => enc.putUint16 v
  | uint32 v => enc.putUint32 v
  | float64 bits => enc.putFloat64 bits
  | string s => enc.putString s
  | prefixedString s => enc.putLengthPrefixedString s

def kind : Item → Kind
  | uint8 _ => .uint8
  | uint16 _ => .uint16
  | uint32 _ => .uint32
  | float64 _ => .float64
  | string s => .string (Int64.ofNat s.length)
  | prefixedString _ => .prefixedString

def bytes : Item → Bytes
  | uint8 v => [v]
  | uint16 v => bigEndianPutUint16 v
  | uint32 v => bigEndianPutUint32 v
  | float64 bits => bigEndianPutUint64 bits
  | string s => s
  | prefixedString s => bigEndianPutUint32 (UInt32.ofNat s.length) ++ s

theorem put_buf (enc : Encoder) (item : Item) : (item.put enc).buf = enc.buf ++ item.bytes := by
  cases item with
  | uint8 v => rfl
  | uint16 v => rfl
  | uint32 v => rfl
  | float64 bits => rfl
  | string s => rfl
  | prefixedString s =>
    simp [put, bytes, Encoder.putLengthPrefixedString, Encoder.putString, Encoder.putUint32]

end Item

def encodeItems (items : List Item) : Bytes := (items.foldl Item.put newEncoder).bytes

theorem foldl_put (items : List Item) (enc : Encoder) :
    (items.foldl Item.put enc).buf = enc.buf ++ items.flatMap Item.bytes := by
  induction items generalizing enc with
  | nil => simp
  | cons item items ih =>
    rw [List.foldl_cons, ih, Item.put_buf, List.flatMap_cons, List.append_assoc]

theorem encodeItems_eq (items : List Item) : encodeItems items = items.flatMap Item.bytes := by
  rw [encodeItems, Encoder.bytes, foldl_put]
  rfl

def Decoder.readItem (d : Decoder) : Kind → Go (Except DecodeError Item × Decoder)
  | .uint8 => do
    let (v, d) ← d.readUint8
    return (v.map .uint8, d)
  | .uint16 => do
    let (v, d) ← d.readUint16
    return (v.map .uint16, d)
  | .uint32 => do
    let (v, d) ← d.readUint32
    return (v.map .uint32, d)
  | .float64 => do
    let (v, d) ← d.readFloat64
    return (v.map .float64, d)
  | .string length => do
    let (s, d) ← d.readString length
    return (s.map .string, d)
  | .prefixedString => do
    let (length, d) ← d.readUint32
    match length with
    | .error err => return (.error err, d)
    | .ok length =>
      let (s, d) ← d.readString (Int64.ofNat length.toNat)
      return (s.map .prefixedString, d)

def Decoder.readItems (d : Decoder) : List Kind → Go (Except DecodeError (List Item) × Decoder)
  | [] => return (.ok [], d)
  | k :: kinds => do
    let (item, d) ← d.readItem k
    match item with
    | .error err => return (.error err, d)
    | .ok item =>
      let (items, d) ← d.readItems kinds
      return (items.map (item :: ·), d)

namespace Decoder

def between (front rest : Bytes) : Decoder := ⟨front ++ rest, front.length⟩

theorem newDecoder_eq (data : Bytes) : newDecoder data = between [] data := rfl

def Underflows {α : Type} (r : Go (Except DecodeError α × Decoder)) : Prop :=
  ∃ call offset d, r = .ok (.error (.underflow call offset), d)

section Reads
variable {α : Type} {name : String} {get : Decoder → ℤ → Go α} {front bs rest : Bytes}

theorem window_between :
    (between front (bs ++ rest)).window (front.length + bs.length) = .ok bs := by
  have hlen : front.length + bs.length ≤ (front ++ (bs ++ rest)).length := by
    rw [List.length_append, List.length_append]
    omega
  have hwindow := (window_ok hlen).1
  rw [List.drop_left, List.take_left] at hwindow
  exact hwindow

theorem read_between (hbound : (front ++ (bs ++ rest)).length < 2 ^ 63) {v : α}
    (hget : get (between front (bs ++ rest)) (front.length + bs.length) = .ok v) :
    (between front (bs ++ rest)).read name bs.length get =
      .ok (.ok v, between (front ++ bs) rest) := by
  have hlen : (front ++ (bs ++ rest)).length = front.length + bs.length + rest.length := by
    rw [List.length_append, List.length_append]
    omega
  refine (read_ok (by omega) (by omega) (by omega) hget).trans ?_
  rw [between, List.append_assoc, List.length_append, Nat.cast_add]

theorem read_decode {decode : Bytes → Go α} {size : ℕ} {v : α} (hsize : bs.length = size)
    (hbound : (front ++ (bs ++ rest)).length < 2 ^ 63) (hdecode : decode bs = .ok v) :
    (between front (bs ++ rest)).read name size (fun d next => do decode (← d.window next)) =
      .ok (.ok v, between (front ++ bs) rest) := by
  rw [← hsize]
  refine read_between hbound ?_
  rw [window_between, ok_bind, hdecode]

theorem read_truncated {size : ℕ} (hshort : rest.length < size)
    (hfits : front.length + size < 2 ^ 63) :
    Underflows ((between front rest).read name size get) := by
  have hlen : (front ++ rest).length = front.length + rest.length := List.length_append
  exact ⟨name, _, _, read_underflow (by omega) (by omega)⟩

end Reads

section Functions
variable {front rest : Bytes}

theorem readUint8_between {v : UInt8} (hbound : (front ++ ([v] ++ rest)).length < 2 ^ 63) :
    (between front ([v] ++ rest)).readUint8 = .ok (.ok v, between (front ++ [v]) rest) := by
  refine read_between hbound ?_
  have hlt : front.length < (front ++ ([v] ++ rest)).length := by simp
  have hindex := index_of_lt hlt
  rw [List.getElem_append_right le_rfl] at hindex
  simpa [between] using hindex

theorem readUint16_between {v : UInt16}
    (hbound : (front ++ (bigEndianPutUint16 v ++ rest)).length < 2 ^ 63) :
    (between front (bigEndianPutUint16 v ++ rest)).readUint16 =
      .ok (.ok v, between (front ++ bigEndianPutUint16 v) rest) := by
  have hlen := length_bigEndianPutUint16 v
  refine read_decode hlen hbound ?_
  rw [bigEndianUint16_of_length hlen, uint16_ofBE_put]

theorem readUint32_between {v : UInt32}
    (hbound : (front ++ (bigEndianPutUint32 v ++ rest)).length < 2 ^ 63) :
    (between front (bigEndianPutUint32 v ++ rest)).readUint32 =
      .ok (.ok v, between (front ++ bigEndianPutUint32 v) rest) := by
  have hlen := length_bigEndianPutUint32 v
  refine read_decode hlen hbound ?_
  rw [bigEndianUint32_of_length hlen, uint32_ofBE_put]

theorem readFloat64_between {v : UInt64}
    (hbound : (front ++ (bigEndianPutUint64 v ++ rest)).length < 2 ^ 63) :
    (between front (bigEndianPutUint64 v ++ rest)).readFloat64 =
      .ok (.ok v, between (front ++ bigEndianPutUint64 v) rest) := by
  have hlen := length_bigEndianPutUint64 v
  refine read_decode hlen hbound ?_
  rw [bigEndianUint64_of_length hlen, uint64_ofBE_put]

theorem toInt_ofNat {n : ℕ} (h : n < 2 ^ 63) : (Int64.ofNat n).toInt = n :=
  Int64.toInt_ofNat_of_lt h

theorem readString_eq {d : Decoder} {n : ℕ} (h : n < 2 ^ 63) :
    ∃ name, d.readString (Int64.ofNat n) = d.read name n window := by
  have hcounted : d.readString (Int64.ofNat n) = d.read _ (Int64.ofNat n).toInt window :=
    readCounted_eq (by rw [toInt_ofNat h]; omega)
  rw [toInt_ofNat h] at hcounted
  exact ⟨_, hcounted⟩

theorem readString_between {s : Bytes} (hbound : (front ++ (s ++ rest)).length < 2 ^ 63) :
    (between front (s ++ rest)).readString (Int64.ofNat s.length) =
      .ok (.ok s, between (front ++ s) rest) := by
  have hlen : s.length < 2 ^ 63 := by
    rw [List.length_append, List.length_append] at hbound
    omega
  obtain ⟨name, hread⟩ := readString_eq hlen
  rw [hread]
  exact read_between hbound window_between

theorem readString_truncated {n : ℕ} (hshort : rest.length < n)
    (hbound : front.length + n < 2 ^ 63) :
    Underflows ((between front rest).readString (Int64.ofNat n)) := by
  obtain ⟨name, hread⟩ : ∃ name, (between front rest).readString (Int64.ofNat n) =
      (between front rest).read name n window := readString_eq (by omega)
  rw [hread]
  exact read_truncated hshort hbound

end Functions

theorem prefix_append_cases {l a b : Bytes} (h : l <+: a ++ b) :
    l.length < a.length ∨ ∃ tail, l = a ++ tail ∧ tail <+: b := by
  obtain hlt | hle := Nat.lt_or_ge l.length a.length
  · exact .inl hlt
  · obtain ⟨tail, rfl⟩ := List.prefix_of_prefix_length_le (List.prefix_append a b) h hle
    exact .inr ⟨tail, rfl, (List.prefix_append_right_inj a).mp h⟩

section Items
variable {front rest : Bytes} {item : Item}

theorem readItem_between (hfits : item.Fits)
    (hbound : (front ++ (item.bytes ++ rest)).length < 2 ^ 63) :
    (between front (item.bytes ++ rest)).readItem item.kind =
      .ok (.ok item, between (front ++ item.bytes) rest) := by
  cases item with
  | uint8 v => rw [Item.kind, readItem, Item.bytes, readUint8_between hbound]; rfl
  | uint16 v => rw [Item.kind, readItem, Item.bytes, readUint16_between hbound]; rfl
  | uint32 v => rw [Item.kind, readItem, Item.bytes, readUint32_between hbound]; rfl
  | float64 bits => rw [Item.kind, readItem, Item.bytes, readFloat64_between hbound]; rfl
  | string s =>
    rw [Item.kind, readItem, Item.bytes]
    rw [Item.bytes] at hbound
    rw [readString_between hbound]
    rfl
  | prefixedString s =>
    have hlength : (UInt32.ofNat s.length).toNat = s.length := UInt32.toNat_ofNat_of_lt' hfits
    rw [Item.bytes, List.append_assoc] at hbound ⊢
    rw [Item.kind, readItem, readUint32_between hbound, ok_bind]
    dsimp only
    rw [hlength, readString_between (by rwa [List.append_assoc]), List.append_assoc]
    rfl

theorem Underflows.bind {α β : Type} {r : Go (Except DecodeError α × Decoder)}
    (h : Underflows r) {f : Except DecodeError α × Decoder → Go (Except DecodeError β × Decoder)}
    (hf : ∀ err d, f (.error err, d) = .ok (.error err, d)) : Underflows (r >>= f) := by
  obtain ⟨call, offset, d, rfl⟩ := h
  exact ⟨call, offset, d, hf _ _⟩

theorem readItem_truncated (hfits : item.Fits) (hstart : rest <+: item.bytes)
    (hshort : rest.length < item.bytes.length)
    (hbound : front.length + item.bytes.length < 2 ^ 63) :
    Underflows ((between front rest).readItem item.kind) := by
  cases item with
  | uint8 v => exact (read_truncated hshort hbound).bind fun _ _ => rfl
  | uint16 v =>
    rw [Item.bytes, length_bigEndianPutUint16] at hshort hbound
    exact (read_truncated hshort hbound).bind fun _ _ => rfl
  | uint32 v =>
    rw [Item.bytes, length_bigEndianPutUint32] at hshort hbound
    exact (read_truncated hshort hbound).bind fun _ _ => rfl
  | float64 bits =>
    rw [Item.bytes, length_bigEndianPutUint64] at hshort hbound
    exact (read_truncated hshort hbound).bind fun _ _ => rfl
  | string s =>
    rw [Item.bytes] at hshort hbound
    exact (readString_truncated hshort hbound).bind fun _ _ => rfl
  | prefixedString s =>
    rw [Item.bytes] at hstart hshort hbound
    rw [List.length_append, length_bigEndianPutUint32] at hshort hbound
    obtain hhead | ⟨tail, rfl, htail⟩ := prefix_append_cases hstart
    · rw [length_bigEndianPutUint32] at hhead
      exact (read_truncated hhead (by omega)).bind fun _ _ => rfl
    · have hlength : (UInt32.ofNat s.length).toNat = s.length := UInt32.toNat_ofNat_of_lt' hfits
      rw [List.length_append, length_bigEndianPutUint32] at hshort
      have hshorter := htail.length_le
      have hword : (front ++ (bigEndianPutUint32 (UInt32.ofNat s.length) ++ tail)).length <
          2 ^ 63 := by
        rw [List.length_append, List.length_append, length_bigEndianPutUint32]
        omega
      rw [Item.kind, readItem, readUint32_between hword, ok_bind]
      dsimp only
      rw [hlength]
      refine (readString_truncated (by omega) ?_).bind fun _ _ => rfl
      rw [List.length_append, length_bigEndianPutUint32]
      omega

theorem readItems_between {items : List Item} (hfits : ∀ item ∈ items, item.Fits)
    (hbound : (front ++ (items.flatMap Item.bytes ++ rest)).length < 2 ^ 63) :
    (between front (items.flatMap Item.bytes ++ rest)).readItems (items.map Item.kind) =
      .ok (.ok items, between (front ++ items.flatMap Item.bytes) rest) := by
  induction items generalizing front with
  | nil =>
    rw [List.flatMap_nil, List.append_nil]
    rfl
  | cons item items ih =>
    rw [List.flatMap_cons, List.append_assoc] at hbound ⊢
    rw [List.map_cons, readItems, readItem_between (hfits item List.mem_cons_self) hbound, ok_bind]
    dsimp only
    rw [ih (fun i hi => hfits i (List.mem_cons_of_mem item hi)) (by rwa [List.append_assoc]),
      List.append_assoc]
    rfl

theorem readItems_truncated {items : List Item} (hfits : ∀ item ∈ items, item.Fits)
    (hstart : rest <+: items.flatMap Item.bytes)
    (hshort : rest.length < (items.flatMap Item.bytes).length)
    (hbound : front.length + (items.flatMap Item.bytes).length < 2 ^ 63) :
    Underflows ((between front rest).readItems (items.map Item.kind)) := by
  induction items generalizing front rest with
  | nil => cases hshort
  | cons item items ih =>
    rw [List.flatMap_cons] at hstart hshort hbound
    rw [List.length_append] at hshort hbound
    rw [List.map_cons, readItems]
    have hitem := hfits item List.mem_cons_self
    obtain hlt | ⟨tail, rfl, htail⟩ := prefix_append_cases hstart
    · have hcut : rest <+: item.bytes :=
        List.prefix_of_prefix_length_le hstart (List.prefix_append _ _) hlt.le
      exact (readItem_truncated hitem hcut hlt (by omega)).bind fun _ _ => rfl
    · rw [List.length_append] at hshort
      have hfront : (front ++ (item.bytes ++ tail)).length < 2 ^ 63 := by
        rw [List.length_append, List.length_append]
        omega
      rw [readItem_between hitem hfront, ok_bind]
      refine (ih (fun i hi => hfits i (List.mem_cons_of_mem item hi)) htail (by omega) ?_).bind
        fun _ _ => rfl
      rw [List.length_append]
      omega

end Items
end Decoder
open Decoder

/-- Encoding and decoding are inverse on typed sequences, and only whole encodings are read. A
buffer's length is an `int`. -/
theorem items_roundTrip {items : List Item} {suffix : Bytes} (hfits : ∀ item ∈ items, item.Fits)
    (hmemory : (encodeItems items ++ suffix).length < 2 ^ 63) :
    (∃ d, (newDecoder (encodeItems items ++ suffix)).readItems (items.map Item.kind) =
        .ok (.ok items, d) ∧
      d.buf.drop d.offset.toNat = suffix ∧ d.remaining = suffix.length) ∧
    ∀ data, data <+: encodeItems items → data ≠ encodeItems items →
      Underflows ((newDecoder data).readItems (items.map Item.kind)) := by
  rw [encodeItems_eq] at hmemory ⊢
  constructor
  · have hwhole : ([] ++ (items.flatMap Item.bytes ++ suffix)).length < 2 ^ 63 := hmemory
    rw [newDecoder_eq]
    refine ⟨_, readItems_between hfits hwhole, List.drop_left, ?_⟩
    rw [remaining, between, List.nil_append, List.length_append, Nat.cast_add, add_sub_cancel_left]
    rw [List.length_append] at hmemory
    exact goInt_of_bounds (by omega) (by omega) (by decide)
  · intro data hstart hne
    have hshort : data.length < (items.flatMap Item.bytes).length :=
      lt_of_le_of_ne hstart.length_le fun heq => hne (hstart.eq_of_length heq)
    rw [List.length_append] at hmemory
    exact readItems_truncated hfits hstart hshort (by rw [List.length_nil]; omega)

theorem items_roundTrip_sample :
    (∃ d, (newDecoder (encodeItems [.uint16 9999, .prefixedString [72, 105], .string []] ++
          [7])).readItems [.uint16, .prefixedString, .string 0] =
        .ok (.ok [.uint16 9999, .prefixedString [72, 105], .string []], d) ∧
      d.buf.drop d.offset.toNat = [7] ∧ d.remaining = ([7] : Bytes).length) ∧
    ∀ data, data <+: encodeItems [.uint16 9999, .prefixedString [72, 105], .string []] →
      data ≠ encodeItems [.uint16 9999, .prefixedString [72, 105], .string []] →
      Underflows ((newDecoder data).readItems [.uint16, .prefixedString, .string 0]) :=
  items_roundTrip (by simp [Item.Fits]) (by decide)

end DistributedBanking.Marshalling
