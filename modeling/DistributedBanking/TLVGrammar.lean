import DistributedBanking.PrefixCode
import DistributedBanking.TLVDecoding

/-!
# The grammar of a payload

A payload is a list of fields and a rest too short for a field's header. The
decoder accepts it when every field is well formed, and the command it returns
holds the last value of each tag. On any other payload some field is refused,
or the rest starts with a header that announces more bytes than there are.
-/

namespace DistributedBanking.Marshalling
open ByteOrder PrefixCode

def fixedLength (id : UInt8) : Option ℕ :=
  if id = fieldService ∨ id = fieldCurrency then some 1
  else if id = fieldAccountNumber ∨ id = fieldTxAccountNumber ∨
      id = fieldMonitorTimeoutSeconds then some 4
  else if id = fieldMonetaryValue then some 8
  else none

structure TLVField.WellFormed (f : TLVField) : Prop where
  tag : fieldService ≤ f.id ∧ f.id ≤ fieldMonitorTimeoutSeconds
  width : ∀ n ∈ fixedLength f.id, f.value.length = n
  sized : f.value.length < 2 ^ 32

instance (f : TLVField) : Decidable f.WellFormed :=
  decidable_of_iff ((fieldService ≤ f.id ∧ f.id ≤ fieldMonitorTimeoutSeconds) ∧
    (∀ n ∈ fixedLength f.id, f.value.length = n) ∧ f.value.length < 2 ^ 32)
    ⟨fun h => ⟨h.1, h.2.1, h.2.2⟩, fun h => ⟨h.tag, h.width, h.sized⟩⟩

/-- The payload is these fields, then a rest without room for another header. -/
structure Parses (payload : Bytes) (fs : List TLVField) (rest : Bytes) : Prop where
  bytes : payload = fs.flatMap fieldBytes ++ rest
  wellFormed : ∀ f ∈ fs, f.WellFormed
  short : rest.length ≤ 4

section LastValue

def lastValue (fs : List TLVField) (id : UInt8) : Option Bytes :=
  (fs.reverse.find? fun f => f.id = id).map TLVField.value

theorem lastValue_append (fs gs : List TLVField) (id : UInt8) :
    lastValue (fs ++ gs) id = (lastValue gs id).or (lastValue fs id) := by
  simp only [lastValue, List.reverse_append, List.find?_append]
  cases gs.reverse.find? fun f => f.id = id <;> rfl

theorem lastValue_singleton (f : TLVField) (id : UInt8) :
    lastValue [f] id = if f.id = id then some f.value else none := by
  by_cases h : f.id = id <;> simp [lastValue, h]

theorem lastValue_eq_none {fs : List TLVField} {id : UInt8} :
    lastValue fs id = none ↔ ∀ f ∈ fs, f.id ≠ id := by
  simp [lastValue, List.find?_eq_none]

theorem lastValue_eq_some {fs : List TLVField} {id : UInt8} {v : Bytes} :
    lastValue fs id = some v ↔
      ∃ fs₁ fs₂, fs = fs₁ ++ ⟨id, v⟩ :: fs₂ ∧ ∀ f ∈ fs₂, f.id ≠ id := by
  constructor
  · intro h
    obtain ⟨f, hfind, rfl⟩ := Option.map_eq_some_iff.mp h
    obtain ⟨hid, later, earlier, hsplit, hlater⟩ := List.find?_eq_some_iff_append.mp hfind
    refine ⟨earlier.reverse, later.reverse, ?_, ?_⟩
    · have hrev := congrArg List.reverse hsplit
      simp only [decide_eq_true_eq] at hid
      rw [List.reverse_reverse] at hrev
      rw [hrev, ← hid]
      simp
    · intro g hg
      simpa using hlater g (List.mem_reverse.mp hg)
  · intro h
    obtain ⟨fs₁, fs₂, rfl, hlater⟩ := h
    rw [← List.singleton_append, lastValue_append, lastValue_append, lastValue_singleton,
      lastValue_eq_none.mpr hlater]
    simp

def overwrite (values : UInt8 → Option Bytes) (f : TLVField) : UInt8 → Option Bytes :=
  Function.update values f.id (some f.value)

theorem foldl_overwrite (fs : List TLVField) (values : UInt8 → Option Bytes) :
    fs.foldl overwrite values = fun id => (lastValue fs id).or (values id) := by
  induction fs generalizing values with
  | nil => rfl
  | cons f fs ih =>
    funext id
    rw [List.foldl_cons, ih, ← List.singleton_append, lastValue_append, lastValue_singleton,
      Option.or_assoc]
    by_cases h : f.id = id
    · simp [overwrite, h]
    · simp [overwrite, h, Function.update_of_ne (Ne.symm h)]

end LastValue

section Fields

theorem wellFormed_fixed {id : UInt8} {value : Bytes} {n : ℕ}
    (htag : fieldService ≤ id ∧ id ≤ fieldMonitorTimeoutSeconds) (hn : fixedLength id = some n)
    (hvalue : value.length = n) (hsized : n < 2 ^ 32) : TLVField.WellFormed ⟨id, value⟩ where
  tag := htag
  width m hm := by
    rw [hn, Option.mem_some] at hm
    rw [hvalue, hm]
  sized := by rw [hvalue]; exact hsized

theorem wellFormed_text {id : UInt8} {value : Bytes}
    (htag : fieldService ≤ id ∧ id ≤ fieldMonitorTimeoutSeconds) (hn : fixedLength id = none)
    (hsized : value.length < 2 ^ 32) : TLVField.WellFormed ⟨id, value⟩ where
  tag := htag
  width m hm := by
    rw [hn] at hm
    cases hm
  sized := hsized

theorem ofNat_length_ne {id : UInt8} {value : Bytes} {n : ℕ} (hsized : value.length < 2 ^ 32)
    (h : ¬ TLVField.WellFormed ⟨id, value⟩)
    (htag : fieldService ≤ id ∧ id ≤ fieldMonitorTimeoutSeconds) (hn : fixedLength id = some n)
    (hsmall : n < 2 ^ 32) : UInt32.ofNat value.length ≠ UInt32.ofNat n := by
  intro heq
  have hnat := congrArg UInt32.toNat heq
  rw [UInt32.toNat_ofNat_of_lt' hsized, UInt32.toNat_ofNat_of_lt' hsmall] at hnat
  exact h (wellFormed_fixed htag hn hnat hsmall)

theorem tag_cases {P : UInt8 → Prop} (service : P fieldService)
    (accountNumber : P fieldAccountNumber) (accountOwnerName : P fieldAccountOwnerName)
    (accountPassword : P fieldAccountPassword) (txAccountNumber : P fieldTxAccountNumber)
    (txAccountOwnerName : P fieldTxAccountOwnerName) (monetaryValue : P fieldMonetaryValue)
    (currency : P fieldCurrency) (monitorUpdates : P fieldMonitorUpdates)
    (monitorTimeoutSeconds : P fieldMonitorTimeoutSeconds)
    (unknown : ∀ id, ¬ (fieldService ≤ id ∧ id ≤ fieldMonitorTimeoutSeconds) → P id)
    (id : UInt8) : P id := by
  by_cases h : fieldService ≤ id ∧ id ≤ fieldMonitorTimeoutSeconds
  · have hknown : ∀ n : ℕ, 1 ≤ n → n ≤ 10 → P (UInt8.ofNat n) := by
      intro n hlo hhi
      interval_cases n
      exacts [service, accountNumber, accountOwnerName, accountPassword, txAccountNumber,
        txAccountOwnerName, monetaryValue, currency, monitorUpdates, monitorTimeoutSeconds]
    have hP := hknown id.toNat (UInt8.le_iff_toNat_le.mp h.1) (UInt8.le_iff_toNat_le.mp h.2)
    rwa [UInt8.ofNat_toNat] at hP
  · exact unknown id h

end Fields

section Values
variable {M : Type} [Float64 M]

def byteOf (v : Bytes) : UInt8 := v.headD 0
def wordOf (v : Bytes) : UInt32 := UInt32.ofNat (ofBE v)
def patternOf (v : Bytes) : UInt64 := UInt64.ofNat (ofBE v)

/-- The command that holds these values, each read as its tag's type. -/
def ParsedCommand.ofValues (values : UInt8 → Option Bytes) : ParsedCommand M where
  service := (values fieldService).map byteOf
  accountNumber := (values fieldAccountNumber).map wordOf
  accountOwnerName := values fieldAccountOwnerName
  accountPassword := values fieldAccountPassword
  txAccountNumber := (values fieldTxAccountNumber).map wordOf
  txAccountOwnerName := values fieldTxAccountOwnerName
  monetaryValue := (values fieldMonetaryValue).map fun v => Float64.frombits (patternOf v)
  currency := (values fieldCurrency).map byteOf
  monitorUpdates := values fieldMonitorUpdates
  monitorTimeoutSeconds := (values fieldMonitorTimeoutSeconds).map wordOf

theorem index_byteOf {v : Bytes} (h : v.length = 1) : index v 0 = .ok (byteOf v) := by
  obtain ⟨b, rfl⟩ := List.length_eq_one_iff.mp h
  rfl

variable (values : UInt8 → Option Bytes) (cmd : ParsedCommand M) (offset : ℤ)

theorem decodeField_unknownTag {id : UInt8}
    (h : ¬ (fieldService ≤ id ∧ id ≤ fieldMonitorTimeoutSeconds)) (fieldLen : UInt32)
    (valueBytes : Bytes) :
    decodeField cmd id offset fieldLen valueBytes = .ok (.error (.unknownField id offset)) := by
  have hne : ∀ tag : UInt8, fieldService ≤ tag ∧ tag ≤ fieldMonitorTimeoutSeconds → id ≠ tag := by
    intro tag htag heq
    exact h (heq ▸ htag)
  simp only [decodeField, hne fieldService (by decide), hne fieldAccountNumber (by decide),
    hne fieldAccountOwnerName (by decide), hne fieldAccountPassword (by decide),
    hne fieldTxAccountNumber (by decide), hne fieldTxAccountOwnerName (by decide),
    hne fieldMonetaryValue (by decide), hne fieldCurrency (by decide),
    hne fieldMonitorUpdates (by decide), hne fieldMonitorTimeoutSeconds (by decide), if_false]

theorem decodeField_wellFormed {f : TLVField} (h : f.WellFormed) :
    decodeField (.ofValues values) f.id offset (UInt32.ofNat f.value.length) f.value =
      .ok (.ok (.ofValues (M := M) (overwrite values f))) := by
  obtain ⟨id, value⟩ := f
  have hwidth := h.width
  have htag := h.tag
  clear h
  revert hwidth htag
  induction id using tag_cases with
  | service =>
    intro hwidth _
    have hone : value.length = 1 := hwidth 1 rfl
    exact fixedWidth_ok (by rw [hone]; rfl) (index_byteOf hone) rfl
  | accountNumber =>
    intro hwidth _
    have hfour : value.length = 4 := hwidth 4 rfl
    exact fixedWidth_ok (by rw [hfour]; rfl) (bigEndianUint32_of_length hfour) rfl
  | accountOwnerName => intros; rfl
  | accountPassword => intros; rfl
  | txAccountNumber =>
    intro hwidth _
    have hfour : value.length = 4 := hwidth 4 rfl
    exact fixedWidth_ok (by rw [hfour]; rfl) (bigEndianUint32_of_length hfour) rfl
  | txAccountOwnerName => intros; rfl
  | monetaryValue =>
    intro hwidth _
    have height : value.length = 8 := hwidth 8 rfl
    exact fixedWidth_ok (by rw [height]; rfl) (bigEndianUint64_of_length height) rfl
  | currency =>
    intro hwidth _
    have hone : value.length = 1 := hwidth 1 rfl
    exact fixedWidth_ok (by rw [hone]; rfl) (index_byteOf hone) rfl
  | monitorUpdates => intros; rfl
  | monitorTimeoutSeconds =>
    intro hwidth _
    have hfour : value.length = 4 := hwidth 4 rfl
    exact fixedWidth_ok (by rw [hfour]; rfl) (bigEndianUint32_of_length hfour) rfl
  | unknown id hid =>
    intro _ htag
    exact absurd htag hid

theorem decodeField_refused {f : TLVField} (hsized : f.value.length < 2 ^ 32)
    (h : ¬ f.WellFormed) :
    ∃ err, decodeField cmd f.id offset (UInt32.ofNat f.value.length) f.value =
      .ok (.error err) := by
  obtain ⟨id, value⟩ := f
  revert h
  induction id using tag_cases with
  | service =>
    intro h
    exact fixedWidth_refused (ofNat_length_ne hsized h (by decide) rfl (by decide))
  | accountNumber =>
    intro h
    exact fixedWidth_refused (ofNat_length_ne hsized h (by decide) rfl (by decide))
  | accountOwnerName =>
    intro h
    exact absurd (wellFormed_text (by decide) rfl hsized) h
  | accountPassword =>
    intro h
    exact absurd (wellFormed_text (by decide) rfl hsized) h
  | txAccountNumber =>
    intro h
    exact fixedWidth_refused (ofNat_length_ne hsized h (by decide) rfl (by decide))
  | txAccountOwnerName =>
    intro h
    exact absurd (wellFormed_text (by decide) rfl hsized) h
  | monetaryValue =>
    intro h
    exact fixedWidth_refused (ofNat_length_ne hsized h (by decide) rfl (by decide))
  | currency =>
    intro h
    exact fixedWidth_refused (ofNat_length_ne hsized h (by decide) rfl (by decide))
  | monitorUpdates =>
    intro h
    exact absurd (wellFormed_text (by decide) rfl hsized) h
  | monitorTimeoutSeconds =>
    intro h
    exact fixedWidth_refused (ofNat_length_ne hsized h (by decide) rfl (by decide))
  | unknown id hid =>
    intro _
    exact ⟨_, decodeField_unknownTag cmd offset hid _ value⟩

theorem applyFields_wellFormed {fs : List TLVField} (h : ∀ f ∈ fs, f.WellFormed) (offset : ℕ)
    (values : UInt8 → Option Bytes) :
    applyFields offset (.ofValues values) fs =
      .ok (.ok (.ofValues (M := M) (fs.foldl overwrite values))) := by
  induction fs generalizing offset values with
  | nil => rfl
  | cons f fs ih =>
    rw [applyFields, decodeField_wellFormed values offset (h f List.mem_cons_self), ok_bind]
    exact ih (fun g hg => h g (List.mem_cons_of_mem f hg)) _ _

theorem applyFields_refused {fs : List TLVField} (hsized : ∀ f ∈ fs, f.value.length < 2 ^ 32)
    (h : ¬ ∀ f ∈ fs, f.WellFormed) (offset : ℕ) (values : UInt8 → Option Bytes) :
    ∃ err, applyFields (M := M) offset (.ofValues values) fs = .ok (.error err) := by
  induction fs generalizing offset values with
  | nil => exact absurd (by simp) h
  | cons f fs ih =>
    by_cases hf : f.WellFormed
    · have hrest : ¬ ∀ g ∈ fs, g.WellFormed := by
        intro hall
        apply h
        intro g hg
        rcases List.mem_cons.mp hg with rfl | hg
        · exact hf
        · exact hall g hg
      rw [applyFields, decodeField_wellFormed values offset hf, ok_bind]
      exact ih (fun g hg => hsized g (List.mem_cons_of_mem f hg)) hrest _ _
    · obtain ⟨err, herr⟩ := decodeField_refused (.ofValues (M := M) values) offset
        (hsized f List.mem_cons_self) hf
      exact ⟨err, by rw [applyFields, herr, ok_bind]; rfl⟩

end Values

section Split

theorem fieldBytes_isPrefixCode :
    IsPrefixCode fieldBytes fun f => f.value.length < 2 ^ 32 where
  ne_nil f := by simp [fieldBytes]
  decodable := by
    intro f g x y hf hg heq
    obtain ⟨id, value⟩ := f
    obtain ⟨id', value'⟩ := g
    simp only [fieldBytes, List.cons_append, List.append_assoc, List.cons.injEq] at heq
    obtain ⟨rfl, heq⟩ := heq
    obtain ⟨hword, heq⟩ := List.append_inj heq (by simp)
    have hlen : value.length = value'.length := by
      have hread := congrArg (fun w => (UInt32.ofNat (ofBE w)).toNat) hword
      simpa only [uint32_ofBE_put, UInt32.toNat_ofNat_of_lt' hf,
        UInt32.toNat_ofNat_of_lt' hg] using hread
    obtain ⟨rfl, rfl⟩ := List.append_inj heq hlen
    exact ⟨rfl, rfl⟩

abbrev NoField (rest : Bytes) : Prop :=
  Stuck fieldBytes (fun f => f.value.length < 2 ^ 32) rest

theorem noField_of_short {rest : Bytes} (h : rest.length ≤ 4) : NoField rest :=
  stuck_of_length_lt (n := 5) (fun f => by rw [length_fieldBytes]; omega) (by omega)

theorem exists_header {rest : Bytes} (h : 5 ≤ rest.length) :
    ∃ id v more, rest = id :: (bigEndianPutUint32 v ++ more) := by
  obtain ⟨id, rest, rfl⟩ := List.exists_cons_of_length_pos (show 0 < rest.length by omega)
  rw [List.length_cons] at h
  refine ⟨id, UInt32.ofNat (ofBE (rest.take 4)), rest.drop 4, ?_⟩
  have hfour : (rest.take 4).length = 4 := by
    rw [List.length_take]
    omega
  have hlt := ofBE_lt (rest.take 4)
  have hback := toBE_ofBE (rest.take 4)
  rw [hfour] at hlt hback
  rw [bigEndianPutUint32, UInt32.toNat_ofNat_of_lt' hlt, hback, List.take_append_drop]

theorem noField_header {id : UInt8} {v : UInt32} {more : Bytes} :
    NoField (id :: (bigEndianPutUint32 v ++ more)) ↔ more.length < v.toNat := by
  constructor
  · intro hstuck
    by_contra hwhole
    have hlen : (more.take v.toNat).length = v.toNat := by
      rw [List.length_take]
      omega
    have hsized : (more.take v.toNat).length < 2 ^ 32 := by
      rw [hlen]
      exact v.toNat_lt
    refine hstuck ⟨id, more.take v.toNat⟩ (more.drop v.toNat) hsized ?_
    rw [fieldBytes, hlen, UInt32.ofNat_toNat, List.cons_append, List.append_assoc,
      List.take_append_drop]
  · intro hshort f rest hf heq
    rw [fieldBytes, List.cons_append, List.append_assoc] at heq
    obtain ⟨hword, hmore⟩ := List.append_inj (List.cons.inj heq).2 (by simp)
    have hread := congrArg (fun w => (UInt32.ofNat (ofBE w)).toNat) hword
    simp only [uint32_ofBE_put, UInt32.toNat_ofNat_of_lt' hf] at hread
    rw [hmore, List.length_append, hread] at hshort
    omega

/-- Every payload is a list of fields and a rest: a short one, or the header of a value that is
not whole. -/
theorem exists_fields (payload : Bytes) :
    ∃ (fs : List TLVField) (rest : Bytes), payload = fs.flatMap fieldBytes ++ rest ∧
      (∀ f ∈ fs, f.value.length < 2 ^ 32) ∧
      (rest.length ≤ 4 ∨ ∃ id v more, rest = id :: (bigEndianPutUint32 v ++ more) ∧
        more.length < v.toNat) := by
  obtain ⟨fs, rest, hpayload, hfs, hrest⟩ := fieldBytes_isPrefixCode.exists_split payload
  refine ⟨fs, rest, hpayload, hfs, ?_⟩
  by_cases hshort : rest.length ≤ 4
  · exact .inl hshort
  · obtain ⟨id, v, more, rfl⟩ := exists_header (show 5 ≤ rest.length by omega)
    exact .inr ⟨id, v, more, rfl, noField_header.mp hrest⟩

theorem Parses.unique {payload : Bytes} {fs fs' : List TLVField} {rest rest' : Bytes}
    (h : Parses payload fs rest) (h' : Parses payload fs' rest') : fs = fs' ∧ rest = rest' :=
  fieldBytes_isPrefixCode.split_unique (fun f hf => (h.wellFormed f hf).sized)
    (fun f hf => (h'.wellFormed f hf).sized) (noField_of_short h.short)
    (noField_of_short h'.short) (h.bytes.symm.trans h'.bytes)

end Split

section Decode
variable {M : Type} [Float64 M] {bits : ℕ} {fs : List TLVField} {rest : Bytes}

theorem decodeTLV_rest (h : ∀ f ∈ fs, f.WellFormed)
    (hlen : Addressable bits (fs.flatMap fieldBytes ++ rest).length) :
    ∃ fuel, decodeTLV (M := M) bits (fs.flatMap fieldBytes ++ rest) =
      decodeLoop bits (fs.flatMap fieldBytes ++ rest) (fuel + 1)
        ((fs.flatMap fieldBytes).length : ℕ) (.ofValues (lastValue fs)) := by
  have hfold : fs.foldl overwrite (fun _ => none) = lastValue fs := by
    rw [foldl_overwrite]
    funext id
    exact Option.or_none
  obtain ⟨fuel, hfuel⟩ := decodeTLV_append (M := M) (fun f hf => (h f hf).sized) hlen
  have hfields := applyFields_wellFormed (M := M) h 0 fun _ => none
  rw [hfold] at hfields
  refine ⟨fuel, ?_⟩
  rw [hfuel, show ({} : ParsedCommand M) = .ofValues fun _ => none from rfl, hfields, ok_bind]

theorem decodeTLV_parses {payload : Bytes} (h : Parses payload fs rest)
    (hlen : Addressable bits payload.length) :
    decodeTLV bits payload = .ok (.ok (.ofValues (M := M) (lastValue fs))) := by
  obtain ⟨rfl, hfs, hshort⟩ := h
  obtain ⟨fuel, hfuel⟩ := decodeTLV_rest (M := M) hfs hlen
  rw [hfuel]
  exact decodeLoop_stop hlen (by rw [List.length_append]; omega)
    (by rw [List.length_append]; omega) fuel _

theorem decodeTLV_refused (hsized : ∀ f ∈ fs, f.value.length < 2 ^ 32)
    (h : ¬ ∀ f ∈ fs, f.WellFormed) (rest : Bytes) :
    ∃ err, ∀ bits, Addressable bits (fs.flatMap fieldBytes ++ rest).length →
      decodeTLV (M := M) bits (fs.flatMap fieldBytes ++ rest) = .ok (.error err) := by
  obtain ⟨err, herr⟩ := applyFields_refused (M := M) hsized h 0 fun _ => none
  refine ⟨err, fun bits hlen => ?_⟩
  obtain ⟨fuel, hfuel⟩ := decodeTLV_append (M := M) hsized hlen
  rw [hfuel, show ({} : ParsedCommand M) = .ofValues fun _ => none from rfl, herr, ok_bind]
  rfl

theorem decodeTLV_overflow {v : UInt32} {more : Bytes} (h : ∀ f ∈ fs, f.WellFormed)
    (hshort : more.length < v.toNat) (id : UInt8) :
    ∃ err, ∀ bits,
      Addressable bits (fs.flatMap fieldBytes ++ id :: (bigEndianPutUint32 v ++ more)).length →
      (fs.flatMap fieldBytes).length + 5 + v.toNat < 2 ^ (bits - 1) →
      decodeTLV (M := M) bits (fs.flatMap fieldBytes ++ id :: (bigEndianPutUint32 v ++ more)) =
        .ok (.error err) := by
  refine ⟨.overflow id (fs.flatMap fieldBytes).length v more.length, fun bits hlen hfits => ?_⟩
  obtain ⟨fuel, hfuel⟩ := decodeTLV_rest (M := M) h hlen
  rw [hfuel, decodeLoop_headerOn _ _ _ _ hlen hfits, if_pos hshort]

theorem parses_of_decodeTLV {payload : Bytes} (hlen : payload.length < 2 ^ 62)
    {cmd : ParsedCommand M} (h : decodeTLV 64 payload = .ok (.ok cmd)) :
    ∃ fs rest, Parses payload fs rest := by
  obtain ⟨fs, rest, rfl, hsized, hrest⟩ := exists_fields payload
  have haddr := addressable_64 hlen
  by_cases hfs : ∀ f ∈ fs, f.WellFormed
  swap
  · obtain ⟨err, herr⟩ := decodeTLV_refused (M := M) hsized hfs rest
    rw [herr 64 haddr] at h
    cases h
  rcases hrest with hshort | ⟨id, v, more, rfl, hover⟩
  · exact ⟨fs, rest, rfl, hfs, hshort⟩
  · have hv := v.toNat_lt
    have hfits : (fs.flatMap fieldBytes).length + 5 + v.toNat < 2 ^ (64 - 1) := by
      rw [List.length_append] at hlen
      omega
    obtain ⟨err, herr⟩ := decodeTLV_overflow (M := M) hfs hover id
    rw [herr 64 haddr hfits] at h
    cases h

/-- `DecodeTLV` accepts exactly the payloads of the grammar, whose reading is unique, and returns
the last value of every tag. -/
theorem decodeTLV_grammar {payload : Bytes} (hlen : payload.length < 2 ^ 62) :
    (∀ cmd : ParsedCommand M, decodeTLV 64 payload = .ok (.ok cmd) ↔
      ∃ fs rest, Parses payload fs rest ∧ cmd = .ofValues (lastValue fs)) ∧
    (∀ fs fs' rest rest', Parses payload fs rest → Parses payload fs' rest' →
      fs = fs' ∧ rest = rest') ∧
    ∀ fs, (∀ f ∈ fs, f.WellFormed) → payload = encodeTLVFields fs →
      decodeTLV 64 payload = .ok (.ok (.ofValues (M := M) (lastValue fs))) := by
  have haddr := addressable_64 hlen
  refine ⟨fun cmd => ⟨fun h => ?_, fun h => ?_⟩, fun _ _ _ _ h h' => h.unique h', ?_⟩
  · obtain ⟨fs, rest, hparses⟩ := parses_of_decodeTLV hlen h
    rw [decodeTLV_parses hparses haddr] at h
    exact ⟨fs, rest, hparses, (Except.ok.inj (Except.ok.inj h)).symm⟩
  · obtain ⟨fs, rest, hparses, rfl⟩ := h
    exact decodeTLV_parses hparses haddr
  · intro fs hfs hpayload
    have hparses : Parses payload fs [] :=
      ⟨by rw [hpayload, encodeTLVFields_eq, List.append_nil], hfs, by simp⟩
    exact decodeTLV_parses hparses haddr

theorem decodeTLV_grammar_repeated :
    (∀ cmd : ParsedCommand UInt64,
      decodeTLV 64 [8, 0, 0, 0, 1, 0, 8, 0, 0, 0, 1, 2, 9] = .ok (.ok cmd) ↔
      ∃ fs rest, Parses [8, 0, 0, 0, 1, 0, 8, 0, 0, 0, 1, 2, 9] fs rest ∧
        cmd = .ofValues (lastValue fs)) ∧
    (∀ fs fs' rest rest', Parses [8, 0, 0, 0, 1, 0, 8, 0, 0, 0, 1, 2, 9] fs rest →
      Parses [8, 0, 0, 0, 1, 0, 8, 0, 0, 0, 1, 2, 9] fs' rest' → fs = fs' ∧ rest = rest') ∧
    ∀ fs, (∀ f ∈ fs, f.WellFormed) → [8, 0, 0, 0, 1, 0, 8, 0, 0, 0, 1, 2, 9] = encodeTLVFields fs →
      decodeTLV 64 [8, 0, 0, 0, 1, 0, 8, 0, 0, 0, 1, 2, 9] =
        .ok (.ok (.ofValues (M := UInt64) (lastValue fs))) :=
  decodeTLV_grammar (by decide)

end Decode
end DistributedBanking.Marshalling
