import DistributedBanking.Marshalling

/-!
# The TLV decoder on a 64-bit `int`

With 64-bit offsets the additions of the loop do not wrap, so the decoder never
panics and its fuel is enough. On the output of the encoder it applies the
fields one after the other.
-/

namespace DistributedBanking.Marshalling
open ByteOrder

variable {M : Type}

theorem fixedWidth_ok {α : Type} {field expected : String} {width fieldLen : UInt32} {read : Go α}
    {put : α → ParsedCommand M} {pc : ParsedCommand M} {v : α} (hw : fieldLen = width)
    (hread : read = .ok v) (hput : put v = pc) :
    fixedWidth field expected width fieldLen read put = .ok (.ok pc) := by
  simp [fixedWidth, hw, hread, hput, ok_bind, pure, Except.pure]

theorem fixedWidth_refused {α : Type} {field expected : String} {width fieldLen : UInt32}
    {read : Go α} {put : α → ParsedCommand M} (hw : fieldLen ≠ width) :
    ∃ err, fixedWidth field expected width fieldLen read put = .ok (.error err) :=
  ⟨_, if_pos hw⟩

theorem fixedWidth_total {α : Type} (field expected : String) {width fieldLen : UInt32}
    {read : Go α} (put : α → ParsedCommand M) (h : fieldLen = width → ∃ v, read = .ok v) :
    ∃ r, fixedWidth field expected width fieldLen read put = .ok r := by
  by_cases hw : fieldLen = width
  · obtain ⟨v, hv⟩ := h hw
    exact ⟨_, fixedWidth_ok hw hv rfl⟩
  · have hrefused : ∃ err, fixedWidth field expected width fieldLen read put = .ok (.error err) :=
      fixedWidth_refused hw
    obtain ⟨err, herr⟩ := hrefused
    exact ⟨_, herr⟩

theorem total_ite {α : Type} {c : Prop} [Decidable c] {a b : Go α} (ha : ∃ r, a = .ok r)
    (hb : ∃ r, b = .ok r) : ∃ r, (if c then a else b) = .ok r := by
  split_ifs
  · exact ha
  · exact hb

variable [Float64 M]

theorem decodeField_total (cmd : ParsedCommand M) (fieldID : UInt8) (offset : ℤ)
    {fieldLen : UInt32} {valueBytes : Bytes} (h : valueBytes.length = fieldLen.toNat) :
    ∃ r, decodeField cmd fieldID offset fieldLen valueBytes = .ok r := by
  have hbyte : fieldLen = 1 → ∃ v, index valueBytes 0 = .ok v := by
    intro hw
    have hpos : 0 < valueBytes.length := by simp [h, hw]
    exact ⟨valueBytes[0], by simpa using index_of_lt hpos⟩
  have hword : fieldLen = 4 → ∃ v, bigEndianUint32 valueBytes = .ok v := by
    intro hw
    exact ⟨_, bigEndianUint32_of_length (by simp [h, hw])⟩
  have hdouble : fieldLen = 8 → ∃ v, bigEndianUint64 valueBytes = .ok v := by
    intro hw
    exact ⟨_, bigEndianUint64_of_length (by simp [h, hw])⟩
  exact total_ite (fixedWidth_total _ _ _ hbyte) <| total_ite (fixedWidth_total _ _ _ hword) <|
    total_ite ⟨_, rfl⟩ <| total_ite ⟨_, rfl⟩ <| total_ite (fixedWidth_total _ _ _ hword) <|
    total_ite ⟨_, rfl⟩ <| total_ite (fixedWidth_total _ _ _ hdouble) <|
    total_ite (fixedWidth_total _ _ _ hbyte) <| total_ite ⟨_, rfl⟩ <|
    total_ite (fixedWidth_total _ _ _ hword) ⟨_, rfl⟩

def entryLength (payload : Bytes) (offset : ℕ) : ℕ := ofBE ((payload.drop (offset + 1)).take 4)

theorem entryLength_lt (payload : Bytes) (offset : ℕ) : entryLength payload offset < 2 ^ 32 := by
  have hlt := ofBE_lt ((payload.drop (offset + 1)).take 4)
  have hle : ((payload.drop (offset + 1)).take 4).length ≤ 4 := List.length_take_le _ _
  have hpow := Nat.pow_le_pow_right (show 0 < 256 by omega) hle
  rw [entryLength]
  omega

theorem goInt_eq_nat {bits : ℕ} {z : ℤ} {n : ℕ} (hz : z = n) (hn : n < 2 ^ (bits - 1))
    (hb : 0 < bits) : goInt bits z = n := by
  have hbound : (n : ℤ) < 2 ^ (bits - 1) := by exact_mod_cast hn
  rw [hz, goInt_of_bounds (by omega) hbound hb]

/-- The offsets of a payload of this length do not wrap, even where its header check looks past
the end. -/
def Addressable (bits n : ℕ) : Prop := n + 5 < 2 ^ (bits - 1)

theorem Addressable.pos {bits n : ℕ} (h : Addressable bits n) : 0 < bits := by
  rcases Nat.eq_zero_or_pos bits with rfl | hpos
  · simp [Addressable] at h
  · exact hpos

theorem addressable_64 {n : ℕ} (h : n < 2 ^ 62) : Addressable 64 n := by
  rw [Addressable]
  omega

section Rounds
variable {bits : ℕ} {payload : Bytes} {offset : ℕ}

theorem decodeLoop_stop (hlen : Addressable bits payload.length) (ho : offset ≤ payload.length)
    (h : payload.length < offset + 5) (fuel : ℕ) (cmd : ParsedCommand M) :
    decodeLoop bits payload (fuel + 1) offset cmd = .ok (.ok cmd) := by
  have hpos := hlen.pos
  rw [Addressable] at hlen
  have hnext : goInt bits ((offset : ℤ) + tlvHeaderSize) = ((offset + 5 : ℕ) : ℤ) :=
    goInt_eq_nat (by simp [tlvHeaderSize]) (by omega) hpos
  have hgt : ((offset + 5 : ℕ) : ℤ) > (payload.length : ℤ) := by omega
  simp only [decodeLoop, hnext, hgt, if_true]

/-- The rest of a round, when the declared length has been read and `next` is where it leads. -/
def decodeEntry (bits : ℕ) (payload : Bytes) (fuel offset : ℕ) (cmd : ParsedCommand M)
    (next : ℤ) : Go (Except TLVError (ParsedCommand M)) :=
  if next > payload.length then
    .ok (.error (.overflow (payload.getD offset 0) offset
      (UInt32.ofNat (entryLength payload offset)) ((payload.length - (offset + 5) : ℕ) : ℤ)))
  else do
    let valueBytes ← slice payload (offset + 5 : ℕ) next
    match ← decodeField cmd (payload.getD offset 0) offset
        (UInt32.ofNat (entryLength payload offset)) valueBytes with
    | .error err => return .error err
    | .ok cmd => decodeLoop bits payload fuel next cmd

theorem decodeLoop_entry (hlen : Addressable bits payload.length)
    (ho : offset + 5 ≤ payload.length) (fuel : ℕ) (cmd : ParsedCommand M) :
    decodeLoop bits payload (fuel + 1) offset cmd =
      decodeEntry bits payload fuel offset cmd
        (goInt bits ((offset + 5 + entryLength payload offset : ℕ) : ℤ)) := by
  have hpos := hlen.pos
  rw [Addressable] at hlen
  have hl := entryLength_lt payload offset
  have hhead : goInt bits ((offset : ℤ) + tlvHeaderSize) = ((offset + 5 : ℕ) : ℤ) :=
    goInt_eq_nat (by simp [tlvHeaderSize]) (by omega) hpos
  have h1 : goInt bits ((offset : ℤ) + 1) = ((offset + 1 : ℕ) : ℤ) :=
    goInt_eq_nat (by simp) (by omega) hpos
  have h5 : goInt bits (((offset + 1 : ℕ) : ℤ) + 4) = ((offset + 5 : ℕ) : ℤ) :=
    goInt_eq_nat (by omega) (by omega) hpos
  have hstart : goInt bits (((offset + 5 : ℕ) : ℤ) - tlvHeaderSize) = (offset : ℤ) :=
    goInt_eq_nat (by simp [tlvHeaderSize]) (by omega) hpos
  have hslice : slice payload ((offset + 1 : ℕ) : ℤ) ((offset + 5 : ℕ) : ℤ) =
      .ok ((payload.drop (offset + 1)).take 4) := by
    rw [slice_of_le (by omega) ho, show offset + 5 - (offset + 1) = 4 by omega]
  have hread : bigEndianUint32 ((payload.drop (offset + 1)).take 4) =
      .ok (UInt32.ofNat (entryLength payload offset)) := by
    rw [bigEndianUint32_of_length (by simp; omega), entryLength]
  have hnat : (UInt32.ofNat (entryLength payload offset)).toNat = entryLength payload offset :=
    UInt32.toNat_ofNat_of_lt' hl
  have hnext : goInt bits (((offset + 5 : ℕ) : ℤ) +
      goInt bits ((entryLength payload offset : ℕ) : ℤ)) =
      goInt bits ((offset + 5 + entryLength payload offset : ℕ) : ℤ) := by
    rw [goInt, goInt, Int.add_bmod_bmod, goInt, Nat.cast_add (offset + 5)]
  have hrest : goInt bits ((payload.length : ℤ) - ((offset + 5 : ℕ) : ℤ)) =
      ((payload.length - (offset + 5) : ℕ) : ℤ) :=
    goInt_eq_nat (by omega) (by omega) hpos
  have hin : ¬ ((offset + 5 : ℕ) : ℤ) > (payload.length : ℤ) := by omega
  have hid : index payload offset = .ok (payload.getD offset 0) := index_getD (by omega)
  rw [decodeLoop, if_neg (by rw [hhead]; exact hin), hid]
  simp only [ok_bind, h1, h5, hslice, hread, hnat, hnext, hstart, hrest, decodeEntry]
  by_cases hover : goInt bits ((offset + 5 + entryLength payload offset : ℕ) : ℤ) >
      payload.length
  · rw [if_pos hover, if_pos hover]
    rfl
  · refine (if_neg hover).trans (Eq.trans ?_ (if_neg hover).symm)
    refine congrArg (_ >>= ·) (funext fun valueBytes => ?_)
    refine congrArg (_ >>= ·) (funext fun r => ?_)
    cases r <;> rfl

theorem decodeLoop_step (hlen : Addressable bits payload.length)
    (ho : offset + 5 ≤ payload.length)
    (hfits : offset + 5 + entryLength payload offset < 2 ^ (bits - 1)) (fuel : ℕ)
    (cmd : ParsedCommand M) :
    decodeLoop bits payload (fuel + 1) offset cmd =
      (if payload.length < offset + 5 + entryLength payload offset then
        .ok (.error (.overflow (payload.getD offset 0) offset
          (UInt32.ofNat (entryLength payload offset)) ((payload.length - (offset + 5) : ℕ) : ℤ)))
      else do
        match ← decodeField cmd (payload.getD offset 0) offset
            (UInt32.ofNat (entryLength payload offset))
            ((payload.drop (offset + 5)).take (entryLength payload offset)) with
        | .error err => return .error err
        | .ok cmd =>
          decodeLoop bits payload fuel (offset + 5 + entryLength payload offset : ℕ) cmd) := by
  rw [decodeLoop_entry hlen ho, goInt_eq_nat rfl hfits hlen.pos, decodeEntry]
  by_cases hover : payload.length < offset + 5 + entryLength payload offset
  · exact (if_pos (Int.ofNat_lt.mpr hover)).trans (if_pos hover).symm
  · have hinside : offset + 5 + entryLength payload offset ≤ payload.length := by omega
    rw [if_neg (fun h => hover (Int.ofNat_lt.mp h)), if_neg hover,
      slice_of_le (by omega) hinside, Nat.add_sub_cancel_left, ok_bind]

end Rounds

theorem decodeLoop_end {payload : Bytes} {offset : ℕ} (hlen : payload.length < 2 ^ 62)
    (ho : offset ≤ payload.length) (h : payload.length < offset + 5) (fuel : ℕ)
    (cmd : ParsedCommand M) : decodeLoop 64 payload (fuel + 1) offset cmd = .ok (.ok cmd) :=
  decodeLoop_stop (addressable_64 hlen) ho h fuel cmd

theorem decodeLoop_round {payload : Bytes} {offset : ℕ} (hlen : payload.length < 2 ^ 62)
    (ho : offset + 5 ≤ payload.length) (fuel : ℕ) (cmd : ParsedCommand M) :
    decodeLoop 64 payload (fuel + 1) offset cmd =
      (if payload.length < offset + 5 + entryLength payload offset then
        .ok (.error (.overflow (payload.getD offset 0) offset
          (UInt32.ofNat (entryLength payload offset)) ((payload.length - (offset + 5) : ℕ) : ℤ)))
      else do
        match ← decodeField cmd (payload.getD offset 0) offset
            (UInt32.ofNat (entryLength payload offset))
            ((payload.drop (offset + 5)).take (entryLength payload offset)) with
        | .error err => return .error err
        | .ok cmd =>
          decodeLoop 64 payload fuel (offset + 5 + entryLength payload offset : ℕ) cmd) := by
  have hl := entryLength_lt payload offset
  have hfits : offset + 5 + entryLength payload offset < 2 ^ (64 - 1) := by omega
  exact decodeLoop_step (addressable_64 hlen) ho hfits fuel cmd

theorem decodeLoop_total {payload : Bytes} (hlen : payload.length < 2 ^ 62) (fuel offset : ℕ)
    (ho : offset ≤ payload.length) (hfuel : payload.length < offset + fuel)
    (cmd : ParsedCommand M) : ∃ r, decodeLoop 64 payload fuel offset cmd = .ok r := by
  induction fuel generalizing offset cmd with
  | zero => omega
  | succ fuel ih =>
    by_cases hend : payload.length < offset + 5
    · exact ⟨_, decodeLoop_end hlen ho hend fuel cmd⟩
    have hround := decodeLoop_round hlen (show offset + 5 ≤ payload.length by omega) fuel cmd
    by_cases hover : payload.length < offset + 5 + entryLength payload offset
    · exact ⟨_, by simpa only [hover, if_true] using hround⟩
    have hvalue : ((payload.drop (offset + 5)).take (entryLength payload offset)).length =
        (UInt32.ofNat (entryLength payload offset)).toNat := by
      rw [UInt32.toNat_ofNat_of_lt' (entryLength_lt payload offset), List.length_take,
        List.length_drop]
      omega
    obtain ⟨r, hr⟩ := decodeField_total cmd (payload.getD offset 0) offset hvalue
    simp only [hover, if_false, hr, ok_bind] at hround
    cases r with
    | error err => exact ⟨_, hround⟩
    | ok cmd' =>
      obtain ⟨r, hr⟩ := ih (offset + 5 + entryLength payload offset) (by omega) (by omega) cmd'
      exact ⟨r, hround.trans hr⟩

theorem decodeTLV_total {payload : Bytes} (hlen : payload.length < 2 ^ 62) :
    ∃ r, decodeTLV (M := M) 64 payload = .ok r :=
  decodeLoop_total hlen (payload.length + 1) 0 (by omega) (by omega) {}

/-- The fields of a packet, applied in order until one is refused. -/
def applyFields : ℕ → ParsedCommand M → List TLVField → Go (Except TLVError (ParsedCommand M))
  | _, cmd, [] => .ok (.ok cmd)
  | offset, cmd, f :: fs => do
    match ← decodeField cmd f.id offset (UInt32.ofNat f.value.length) f.value with
    | .error err => return .error err
    | .ok cmd => applyFields (offset + 5 + f.value.length) cmd fs

section Header
variable (pre : Bytes) (id : UInt8) (v : UInt32) (rest : Bytes)

theorem length_header : (pre ++ id :: (bigEndianPutUint32 v ++ rest)).length =
    pre.length + 5 + rest.length := by
  simp
  omega

theorem drop_header : (pre ++ id :: (bigEndianPutUint32 v ++ rest)).drop (pre.length + 5) =
    rest := by
  have hsplit : pre ++ id :: (bigEndianPutUint32 v ++ rest) =
      (pre ++ id :: bigEndianPutUint32 v) ++ rest := by simp
  rw [hsplit, List.drop_left' (by simp)]

theorem entryLength_header :
    entryLength (pre ++ id :: (bigEndianPutUint32 v ++ rest)) pre.length = v.toNat := by
  have hdrop : (pre ++ id :: (bigEndianPutUint32 v ++ rest)).drop (pre.length + 1) =
      bigEndianPutUint32 v ++ rest := by
    rw [List.drop_append]
    simp
  rw [entryLength, hdrop, List.take_left' (by simp), bigEndianPutUint32,
    ofBE_toBE_of_lt (show v.toNat < 256 ^ 4 from v.toNat_lt)]

theorem decodeLoop_headerOn {bits : ℕ}
    (hlen : Addressable bits (pre ++ id :: (bigEndianPutUint32 v ++ rest)).length)
    (hfits : pre.length + 5 + v.toNat < 2 ^ (bits - 1)) (fuel : ℕ) (cmd : ParsedCommand M) :
    decodeLoop bits (pre ++ id :: (bigEndianPutUint32 v ++ rest)) (fuel + 1) pre.length cmd =
      (if rest.length < v.toNat then
        .ok (.error (.overflow id pre.length v (rest.length : ℕ)))
      else do
        match ← decodeField cmd id pre.length v (rest.take v.toNat) with
        | .error err => return .error err
        | .ok cmd =>
          decodeLoop bits (pre ++ id :: (bigEndianPutUint32 v ++ rest)) fuel
            (pre.length + 5 + v.toNat : ℕ) cmd) := by
  have hcount := length_header pre id v rest
  have hentry := entryLength_header pre id v rest
  have hid : (pre ++ id :: (bigEndianPutUint32 v ++ rest)).getD pre.length 0 = id := by simp
  have hround := decodeLoop_step hlen (show pre.length + 5 ≤ _ by omega)
    (by rw [hentry]; exact hfits) fuel cmd
  rw [hentry, drop_header, hid, UInt32.ofNat_toNat, hcount, Nat.add_sub_cancel_left] at hround
  rw [hround]
  simp only [Nat.add_lt_add_iff_left]

theorem decodeLoop_header (hlen : (pre ++ id :: (bigEndianPutUint32 v ++ rest)).length < 2 ^ 62)
    (fuel : ℕ) (cmd : ParsedCommand M) :
    decodeLoop 64 (pre ++ id :: (bigEndianPutUint32 v ++ rest)) (fuel + 1) pre.length cmd =
      (if rest.length < v.toNat then
        .ok (.error (.overflow id pre.length v (rest.length : ℕ)))
      else do
        match ← decodeField cmd id pre.length v (rest.take v.toNat) with
        | .error err => return .error err
        | .ok cmd =>
          decodeLoop 64 (pre ++ id :: (bigEndianPutUint32 v ++ rest)) fuel
            (pre.length + 5 + v.toNat : ℕ) cmd) := by
  have hcount := length_header pre id v rest
  have hv := v.toNat_lt
  have hfits : pre.length + 5 + v.toNat < 2 ^ (64 - 1) := by omega
  exact decodeLoop_headerOn pre id v rest (addressable_64 hlen) hfits fuel cmd

end Header

theorem decodeLoop_append {bits : ℕ} (fs : List TLVField)
    (hf : ∀ f ∈ fs, f.value.length < 2 ^ 32) (pre tail : Bytes)
    (hlen : Addressable bits (pre ++ (fs.flatMap fieldBytes ++ tail)).length) (fuel : ℕ)
    (cmd : ParsedCommand M) :
    decodeLoop bits (pre ++ (fs.flatMap fieldBytes ++ tail)) (fuel + fs.length) pre.length cmd =
      (do
        match ← applyFields pre.length cmd fs with
        | .error err => return .error err
        | .ok cmd =>
          decodeLoop bits (pre ++ (fs.flatMap fieldBytes ++ tail)) fuel
            (pre.length + (fs.flatMap fieldBytes).length : ℕ) cmd) := by
  induction fs generalizing pre cmd with
  | nil => rfl
  | cons f fs ih =>
    have hpayload : pre ++ ((f :: fs).flatMap fieldBytes ++ tail) =
        pre ++ f.id :: (bigEndianPutUint32 (UInt32.ofNat f.value.length) ++
          (f.value ++ (fs.flatMap fieldBytes ++ tail))) := by
      simp [fieldBytes]
    have hnext : pre ++ ((f :: fs).flatMap fieldBytes ++ tail) =
        (pre ++ fieldBytes f) ++ (fs.flatMap fieldBytes ++ tail) := by simp
    have hv : (UInt32.ofNat f.value.length).toNat = f.value.length :=
      UInt32.toNat_ofNat_of_lt' (hf f List.mem_cons_self)
    have hpos : (pre ++ fieldBytes f).length = pre.length + 5 + f.value.length := by
      rw [List.length_append, length_fieldBytes]
      omega
    have hfits : pre.length + 5 + (UInt32.ofNat f.value.length).toNat < 2 ^ (bits - 1) := by
      rw [Addressable, hnext, List.length_append, hpos] at hlen
      omega
    have hround := decodeLoop_headerOn pre f.id (UInt32.ofNat f.value.length)
      (f.value ++ (fs.flatMap fieldBytes ++ tail)) (by rw [← hpayload]; exact hlen) hfits
      (fuel + fs.length) cmd
    rw [hv, if_neg (by simp), List.take_left, ← hpayload] at hround
    rw [List.length_cons, ← Nat.add_assoc, hround, applyFields]
    rcases decodeField cmd f.id pre.length (UInt32.ofNat f.value.length) f.value with
      fault | (err | cmd')
    · rfl
    · rfl
    have htail := ih (fun g hg => hf g (List.mem_cons_of_mem f hg)) (pre ++ fieldBytes f)
      (by rw [← hnext]; exact hlen) cmd'
    have hend : pre.length + 5 + f.value.length + (fs.flatMap fieldBytes).length =
        pre.length + ((f :: fs).flatMap fieldBytes).length := by
      rw [List.flatMap_cons, List.length_append, length_fieldBytes]
      omega
    rw [← hnext, hpos, hend] at htail
    rw [ok_bind, ok_bind]
    exact htail

theorem length_le_flatMap_fieldBytes (fs : List TLVField) :
    fs.length ≤ (fs.flatMap fieldBytes).length := by
  induction fs with
  | nil => rfl
  | cons f fs ih =>
    rw [List.flatMap_cons, List.length_append, length_fieldBytes, List.length_cons]
    omega

theorem decodeTLV_append {bits : ℕ} {fs : List TLVField}
    (hf : ∀ f ∈ fs, f.value.length < 2 ^ 32) {tail : Bytes}
    (hlen : Addressable bits (fs.flatMap fieldBytes ++ tail).length) :
    ∃ fuel, decodeTLV (M := M) bits (fs.flatMap fieldBytes ++ tail) =
      (do
        match ← applyFields 0 {} fs with
        | .error err => return .error err
        | .ok cmd =>
          decodeLoop bits (fs.flatMap fieldBytes ++ tail) (fuel + 1)
            ((fs.flatMap fieldBytes).length : ℕ) cmd) := by
  have hcount := length_le_flatMap_fieldBytes fs
  refine ⟨(fs.flatMap fieldBytes ++ tail).length - fs.length, ?_⟩
  have hfuel : (fs.flatMap fieldBytes ++ tail).length - fs.length + 1 + fs.length =
      (fs.flatMap fieldBytes ++ tail).length + 1 := by
    rw [List.length_append]
    omega
  have hloop := decodeLoop_append (M := M) fs hf [] tail hlen
    ((fs.flatMap fieldBytes ++ tail).length - fs.length + 1) {}
  simp only [List.nil_append, hfuel, List.length_nil, Nat.zero_add] at hloop
  exact hloop

theorem decodeTLV_encodeTLVFields {fs : List TLVField} (hf : ∀ f ∈ fs, f.value.length < 2 ^ 32)
    (hlen : (encodeTLVFields fs).length < 2 ^ 62) :
    decodeTLV (M := M) 64 (encodeTLVFields fs) = applyFields 0 {} fs := by
  rw [encodeTLVFields_eq] at hlen ⊢
  have haddress : Addressable 64 (fs.flatMap fieldBytes ++ []).length := by
    rw [List.append_nil]
    exact addressable_64 hlen
  obtain ⟨fuel, hfuel⟩ := decodeTLV_append (M := M) hf haddress
  rw [List.append_nil] at hfuel
  rw [hfuel]
  rcases applyFields (M := M) 0 {} fs with fault | (err | cmd)
  · rfl
  · rfl
  · rw [ok_bind]
    exact decodeLoop_end hlen le_rfl (by omega) fuel cmd

end DistributedBanking.Marshalling
