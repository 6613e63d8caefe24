import DistributedBanking.ClientInput
import DistributedBanking.TLVGrammar
import DistributedBanking.WireRoundTrip
import Mathlib.Data.List.TakeWhile

/-!
# Requests cut short

`DecodeTLV` stops without an error where a field's header is incomplete. The
client writes last a field that the service requires, so a request that lost
its end never comes through with all its fields, wherever it was cut. A name of
2^32 bytes or more announces too short a length; the letters that follow it are
no field ids.
-/

namespace DistributedBanking.Marshalling
open ByteOrder

section Decode
variable {M : Type} [Float64 M]

/-- A field that fits its length's 32 bits, or whose bytes are all beyond the field ids. -/
def Sized (f : TLVField) : Prop :=
  f.value.length < 2 ^ 32 ∨ ∀ b ∈ f.value, fieldMonitorTimeoutSeconds < b

def Keeps (P : ParsedCommand M → Prop) (f : TLVField) : Prop :=
  ∀ cmd cmd' offset n, P cmd →
    decodeField cmd f.id offset (UInt32.ofNat n) (f.value.take n) = .ok (.ok cmd') → P cmd'

theorem decodeField_unknown (cmd : ParsedCommand M) {fieldID : UInt8}
    (h : fieldMonitorTimeoutSeconds < fieldID) (offset : ℤ) (fieldLen : UInt32)
    (valueBytes : Bytes) : decodeField cmd fieldID offset fieldLen valueBytes =
      .ok (.error (.unknownField fieldID offset)) :=
  decodeField_unknownTag cmd offset (fun htag => absurd htag.2 (UInt8.not_le.mpr h)) fieldLen
    valueBytes

theorem decodeLoop_stump {payload : Bytes} (hlen : payload.length < 2 ^ 62) {offset : ℕ}
    (ho : offset ≤ payload.length) (hend : payload.length < offset + 5) {fuel : ℕ}
    {cmd cmd' : ParsedCommand M} (h : decodeLoop 64 payload fuel offset cmd = .ok (.ok cmd')) :
    cmd' = cmd := by
  cases fuel with
  | zero => cases h
  | succ fuel =>
    rw [decodeLoop_end hlen ho hend] at h
    exact (Except.ok.inj (Except.ok.inj h)).symm

theorem decodeLoop_beyond {payload : Bytes} (hlen : payload.length < 2 ^ 62) {offset : ℕ}
    (ho : offset ≤ payload.length)
    (hbyte : offset < payload.length → fieldMonitorTimeoutSeconds < payload.getD offset 0)
    {fuel : ℕ} {cmd cmd' : ParsedCommand M}
    (h : decodeLoop 64 payload fuel offset cmd = .ok (.ok cmd')) : cmd' = cmd := by
  by_cases hend : payload.length < offset + 5
  · exact decodeLoop_stump hlen ho hend h
  · cases fuel with
    | zero => cases h
    | succ fuel =>
      rw [decodeLoop_round hlen (not_lt.mp hend), decodeField_unknown _ (hbyte (by omega)),
        ok_bind] at h
      split_ifs at h
      · cases h
      · cases h

theorem take_fieldBytes (f : TLVField) (more : Bytes) (k : ℕ) :
    (fieldBytes f ++ more).take (k + 5) = f.id ::
      (bigEndianPutUint32 (UInt32.ofNat f.value.length) ++ (f.value ++ more).take k) := by
  have hlen : (bigEndianPutUint32 (UInt32.ofNat f.value.length)).length = 4 :=
    length_bigEndianPutUint32 _
  rw [fieldBytes, List.cons_append, List.take_succ_cons, List.append_assoc, List.take_append,
    hlen, List.take_of_length_le (by omega)]
  simp

theorem append_take_fieldBytes (pre more : Bytes) {f : TLVField} {k : ℕ}
    (hk : f.value.length ≤ k) : pre ++ (fieldBytes f ++ more).take (k + 5) =
      (pre ++ fieldBytes f) ++ more.take (k - f.value.length) := by
  rw [take_fieldBytes, List.take_append, List.take_of_length_le hk]
  simp [fieldBytes]

theorem getD_inside_field (pre more : Bytes) {f : TLVField} {k n : ℕ} (hn : n < f.value.length)
    (hk : n < k) :
    (pre ++ (fieldBytes f ++ more).take (k + 5)).getD (pre.length + 5 + n) 0 = f.value[n] := by
  have hsplit : pre ++ (fieldBytes f ++ more).take (k + 5) =
      (pre ++ f.id :: bigEndianPutUint32 (UInt32.ofNat f.value.length)) ++
        (f.value ++ more).take k := by
    rw [take_fieldBytes]
    simp
  have hpre : (pre ++ f.id :: bigEndianPutUint32 (UInt32.ofNat f.value.length)).length =
      pre.length + 5 := by
    simp
  rw [hsplit, List.getD_eq_getElem?_getD, List.getElem?_append_right (by omega), hpre,
    Nat.add_sub_cancel_left, List.getElem?_take_of_lt hk, List.getElem?_append_left hn,
    List.getElem?_eq_getElem hn, Option.getD_some]

theorem decodeLoop_field {pre more : Bytes} {f : TLVField} {k fuel : ℕ} {cmd cmd' : ParsedCommand M}
    (hlen : (pre ++ (fieldBytes f ++ more).take (k + 5)).length < 2 ^ 62)
    (h : decodeLoop 64 (pre ++ (fieldBytes f ++ more).take (k + 5)) fuel pre.length cmd =
      .ok (.ok cmd')) :
    f.value.length % 2 ^ 32 ≤ k ∧ ∃ fuel' cmd₁,
      decodeField cmd f.id pre.length (UInt32.ofNat (f.value.length % 2 ^ 32))
          (f.value.take (f.value.length % 2 ^ 32)) = .ok (.ok cmd₁) ∧
        decodeLoop 64 (pre ++ (fieldBytes f ++ more).take (k + 5)) fuel'
          (pre.length + 5 + f.value.length % 2 ^ 32 : ℕ) cmd₁ = .ok (.ok cmd') := by
  obtain _ | fuel := fuel
  · cases h
  rw [take_fieldBytes] at h hlen ⊢
  rw [decodeLoop_header _ _ _ _ hlen] at h
  have hv : (UInt32.ofNat f.value.length).toNat = f.value.length % 2 ^ 32 := UInt32.toNat_ofNat'
  have hmod : UInt32.ofNat f.value.length = UInt32.ofNat (f.value.length % 2 ^ 32) := by
    rw [← hv, UInt32.ofNat_toNat]
  rw [hv, List.length_take, List.length_append] at h
  split_ifs at h with hover
  · cases h
  have hfits : f.value.length % 2 ^ 32 ≤ k := by omega
  have hle := Nat.mod_le f.value.length (2 ^ 32)
  rw [List.take_take, min_eq_left hfits, List.take_append_of_le_length hle] at h
  rcases hfield : decodeField cmd f.id pre.length (UInt32.ofNat f.value.length)
      (f.value.take (f.value.length % 2 ^ 32)) with fault | (err | cmd₁)
  · rw [hfield, error_bind] at h
    cases h
  · rw [hfield, ok_bind] at h
    cases h
  rw [hfield, ok_bind] at h
  exact ⟨hfits, fuel, cmd₁, by rw [← hmod]; exact hfield, h⟩

/-- A payload that breaks off inside a list of fields decodes to a command with every property that
its fields, but for the last one, keep. -/
theorem decodeLoop_truncated {P : ParsedCommand M → Prop} {fs : List TLVField} {last : TLVField}
    (hkeeps : ∀ f ∈ fs, Keeps P f) (hsized : ∀ f ∈ fs, Sized f)
    (hlast : last.value.length < 2 ^ 32) {pre : Bytes} {k : ℕ}
    (hk : k < ((fs ++ [last]).flatMap fieldBytes).length) (hlen : pre.length + k < 2 ^ 62)
    {fuel : ℕ} {cmd cmd' : ParsedCommand M} (hP : P cmd)
    (h : decodeLoop 64 (pre ++ ((fs ++ [last]).flatMap fieldBytes).take k) fuel pre.length cmd =
      .ok (.ok cmd')) : P cmd' := by
  induction fs generalizing pre k cmd fuel with
  | nil =>
    rw [List.nil_append, List.flatMap_cons, List.flatMap_nil] at hk h
    have hlength : (pre ++ (fieldBytes last ++ []).take k).length = pre.length + k := by
      rw [List.length_append, List.length_take, min_eq_left hk.le]
    by_cases hhead : k < 5
    · rwa [decodeLoop_stump (hlength ▸ hlen) (by simp) (by omega) h]
    obtain ⟨k, rfl⟩ : ∃ k', k = k' + 5 := ⟨k - 5, by omega⟩
    -- The value is not whole, and its length says so.
    obtain ⟨hfits, -⟩ := decodeLoop_field (hlength ▸ hlen) h
    rw [Nat.mod_eq_of_lt hlast] at hfits
    rw [List.append_nil, length_fieldBytes] at hk
    omega
  | cons f fs ih =>
    rw [List.cons_append, List.flatMap_cons] at hk h
    have hlength : (pre ++ (fieldBytes f ++ (fs ++ [last]).flatMap fieldBytes).take k).length =
        pre.length + k := by
      rw [List.length_append, List.length_take, min_eq_left hk.le]
    by_cases hhead : k < 5
    · rwa [decodeLoop_stump (hlength ▸ hlen) (by simp) (by omega) h]
    obtain ⟨k, rfl⟩ : ∃ k', k = k' + 5 := ⟨k - 5, by omega⟩
    obtain ⟨hfits, fuel', cmd₁, hfield, hrest⟩ := decodeLoop_field (hlength ▸ hlen) h
    have hP₁ : P cmd₁ := hkeeps f List.mem_cons_self cmd cmd₁ pre.length _ hP hfield
    by_cases hshort : f.value.length < 2 ^ 32
    · rw [Nat.mod_eq_of_lt hshort] at hfits hrest
      have hpos : pre.length + 5 + f.value.length = (pre ++ fieldBytes f).length := by
        rw [List.length_append, length_fieldBytes]
        omega
      rw [append_take_fieldBytes pre _ hfits, hpos] at hrest
      rw [List.length_append, length_fieldBytes] at hk
      apply ih (fun g hg => hkeeps g (List.mem_cons_of_mem f hg))
        (fun g hg => hsized g (List.mem_cons_of_mem f hg)) _ _ hP₁ hrest
      · omega
      · rw [← hpos]
        omega
    · have hletters := (hsized f List.mem_cons_self).resolve_left hshort
      have hlt : f.value.length % 2 ^ 32 < f.value.length := by omega
      rw [decodeLoop_beyond (hlength ▸ hlen) (by rw [hlength]; omega) _ hrest]
      · exact hP₁
      · -- The next tag, if there is one, is a byte of the value.
        intro hin
        rw [hlength] at hin
        rw [getD_inside_field pre _ hlt (by omega)]
        exact hletters _ (List.getElem_mem hlt)

end Decode
end DistributedBanking.Marshalling

namespace DistributedBanking.Handler
open Store Banking Marshalling Semantics ClientInput
open ClientProtocol (FieldID Command Message Endian fieldOf fieldOrder fieldsOf onHost serialize
  serialize_header encodeMessage encodeMessage_onHost id_of_mem_fieldOf toUint8_injective)

section Lacks
variable {M : Type}

def Lacks (cmd : ParsedCommand M) : FieldID → Prop
  | .service => cmd.service = none
  | .accountNumber => cmd.accountNumber = none
  | .accountOwnerName => cmd.accountOwnerName = none
  | .accountPassword => cmd.accountPassword = none
  | .txAccountNumber => cmd.txAccountNumber = none
  | .txAccountOwnerName => cmd.txAccountOwnerName = none
  | .monetaryValue => cmd.monetaryValue = none
  | .currency => cmd.currency = none
  | .monitorUpdates => cmd.monitorUpdates = none
  | .monitorTimeoutSeconds => cmd.monitorTimeoutSeconds = none

structure CutShort (service : UInt8) (missing : FieldID) (cmd : ParsedCommand M) : Prop where
  service_eq : cmd.service = none ∨ cmd.service = some service
  lacks : Lacks cmd missing

inductive Decoded (cmd : ParsedCommand M) (valueBytes : Bytes) : UInt8 → ParsedCommand M → Prop
  | service {v : UInt8} (h : index valueBytes 0 = .ok v) :
      Decoded cmd valueBytes fieldService { cmd with service := some v }
  | accountNumber (v : UInt32) :
      Decoded cmd valueBytes fieldAccountNumber { cmd with accountNumber := some v }
  | accountOwnerName :
      Decoded cmd valueBytes fieldAccountOwnerName { cmd with accountOwnerName := some valueBytes }
  | accountPassword :
      Decoded cmd valueBytes fieldAccountPassword { cmd with accountPassword := some valueBytes }
  | txAccountNumber (v : UInt32) :
      Decoded cmd valueBytes fieldTxAccountNumber { cmd with txAccountNumber := some v }
  | txAccountOwnerName :
      Decoded cmd valueBytes fieldTxAccountOwnerName
        { cmd with txAccountOwnerName := some valueBytes }
  | monetaryValue (v : M) :
      Decoded cmd valueBytes fieldMonetaryValue { cmd with monetaryValue := some v }
  | currency (v : UInt8) : Decoded cmd valueBytes fieldCurrency { cmd with currency := some v }
  | monitorUpdates :
      Decoded cmd valueBytes fieldMonitorUpdates { cmd with monitorUpdates := some valueBytes }
  | monitorTimeoutSeconds (v : UInt32) :
      Decoded cmd valueBytes fieldMonitorTimeoutSeconds
        { cmd with monitorTimeoutSeconds := some v }

theorem fixedWidth_put {α : Type} {field expected : String} {width fieldLen : UInt32}
    {read : Go α} {put : α → ParsedCommand M} {cmd : ParsedCommand M}
    (h : fixedWidth field expected width fieldLen read put = .ok (.ok cmd)) :
    ∃ v, read = .ok v ∧ cmd = put v := by
  rw [fixedWidth] at h
  split_ifs at h with hwidth
  · cases h
  · rcases read with fault | v
    · cases h
    · cases h
      exact ⟨v, rfl, rfl⟩

variable [Float64 M]

theorem decodeField_decoded {cmd cmd' : ParsedCommand M} {fieldID : UInt8} {offset : ℤ}
    {fieldLen : UInt32} {valueBytes : Bytes}
    (h : decodeField cmd fieldID offset fieldLen valueBytes = .ok (.ok cmd')) :
    Decoded cmd valueBytes fieldID cmd' := by
  rw [decodeField] at h
  -- One test after the other: splitting the chain as a whole takes seconds.
  by_cases h1 : fieldID = fieldService
  · rw [if_pos h1] at h
    obtain ⟨v, hv, rfl⟩ := fixedWidth_put h
    exact h1 ▸ .service hv
  rw [if_neg h1] at h
  by_cases h2 : fieldID = fieldAccountNumber
  · rw [if_pos h2] at h
    obtain ⟨v, -, rfl⟩ := fixedWidth_put h
    exact h2 ▸ .accountNumber v
  rw [if_neg h2] at h
  by_cases h3 : fieldID = fieldAccountOwnerName
  · rw [if_pos h3] at h
    cases h
    exact h3 ▸ .accountOwnerName
  rw [if_neg h3] at h
  by_cases h4 : fieldID = fieldAccountPassword
  · rw [if_pos h4] at h
    cases h
    exact h4 ▸ .accountPassword
  rw [if_neg h4] at h
  by_cases h5 : fieldID = fieldTxAccountNumber
  · rw [if_pos h5] at h
    obtain ⟨v, -, rfl⟩ := fixedWidth_put h
    exact h5 ▸ .txAccountNumber v
  rw [if_neg h5] at h
  by_cases h6 : fieldID = fieldTxAccountOwnerName
  · rw [if_pos h6] at h
    cases h
    exact h6 ▸ .txAccountOwnerName
  rw [if_neg h6] at h
  by_cases h7 : fieldID = fieldMonetaryValue
  · rw [if_pos h7] at h
    obtain ⟨v, -, rfl⟩ := fixedWidth_put h
    exact h7 ▸ .monetaryValue _
  rw [if_neg h7] at h
  by_cases h8 : fieldID = fieldCurrency
  · rw [if_pos h8] at h
    obtain ⟨v, -, rfl⟩ := fixedWidth_put h
    exact h8 ▸ .currency v
  rw [if_neg h8] at h
  by_cases h9 : fieldID = fieldMonitorUpdates
  · rw [if_pos h9] at h
    cases h
    exact h9 ▸ .monitorUpdates
  rw [if_neg h9] at h
  by_cases h10 : fieldID = fieldMonitorTimeoutSeconds
  · rw [if_pos h10] at h
    obtain ⟨v, -, rfl⟩ := fixedWidth_put h
    exact h10 ▸ .monitorTimeoutSeconds v
  rw [if_neg h10] at h
  cases h

omit [Float64 M] in
theorem Decoded.lacks {cmd cmd' : ParsedCommand M} {fieldID : UInt8} {valueBytes : Bytes}
    (h : Decoded cmd valueBytes fieldID cmd') {id : FieldID} (hid : fieldID ≠ id.toUint8)
    (hlacks : Lacks cmd id) : Lacks cmd' id := by
  cases h <;> cases id <;> first | exact hlacks | exact absurd rfl hid

omit [Float64 M] in
theorem Decoded.service_eq {cmd cmd' : ParsedCommand M} {fieldID : UInt8} {valueBytes : Bytes}
    (h : Decoded cmd valueBytes fieldID cmd') (hid : fieldID ≠ fieldService) :
    cmd'.service = cmd.service := by
  cases h <;> first | rfl | exact absurd rfl hid

theorem keeps_cutShort {service : UInt8} {missing : FieldID} {f : TLVField}
    (hmissing : f.id ≠ missing.toUint8)
    (hf : f = tlvUint8 fieldService service ∨ f.id ≠ fieldService) :
    Keeps (CutShort (M := M) service missing) f := by
  intro cmd cmd' offset n hcut h
  have hdecoded := decodeField_decoded h
  refine ⟨?_, hdecoded.lacks hmissing hcut.lacks⟩
  rcases hf with rfl | hother
  · obtain ⟨v, hread, rfl⟩ : ∃ v, index ([service].take n) 0 = .ok v ∧
        cmd' = { cmd with service := some v } := by
      cases hdecoded with
      | service hread => exact ⟨_, hread, rfl⟩
    rcases n with _ | n
    · cases hread
    · cases hread
      exact .inr rfl
  · rw [hdecoded.service_eq hother]
    exact hcut.service_eq

end Lacks

/-- The field that the client writes last for a service. -/
inductive WrittenLast : UInt8 → FieldID → Prop
  | openAccount : WrittenLast serviceOpenAccount .currency
  | closeAccount : WrittenLast serviceCloseAccount .accountPassword
  | deposit : WrittenLast serviceDeposit .currency
  | withdraw : WrittenLast serviceWithdraw .currency
  | monitor : WrittenLast serviceMonitor .monitorTimeoutSeconds
  | getBalance : WrittenLast serviceGetBalance .accountPassword
  | transfer : WrittenLast serviceTransferFunds .currency

theorem requestOf_cutShort {M : Type} {service : UInt8} {missing : FieldID}
    (hlast : WrittenLast service missing) {cmd : ParsedCommand M}
    (h : CutShort service missing cmd) : requestOf cmd = none := by
  obtain ⟨hservice | hservice, hlacks⟩ := h
  · rw [requestOf, hservice]
    rfl
  · have hstop : ∀ {α β : Type} {o : Option α} {next : α → Option β}, o = none →
        (o >>= next) = none := by
      intro α β o next hnone
      rw [hnone]
      rfl
    have hskip : ∀ {α β : Type} {o : Option α} {next : α → Option β}, (∀ a, next a = none) →
        (o >>= next) = none := by
      intro α β o next hnone
      cases o with
      | none => rfl
      | some a => exact hnone a
    rw [requestOf, hservice]
    cases hlast with
    | openAccount =>
      change openRequest cmd = none
      exact hskip fun _ => hskip fun _ => hstop hlacks
    | closeAccount =>
      change closeRequest cmd = none
      exact hskip fun _ => hskip fun _ => hstop hlacks
    | deposit =>
      change depositRequest cmd = none
      exact hskip fun _ => hskip fun _ => hskip fun _ => hstop hlacks
    | withdraw =>
      change withdrawRequest cmd = none
      exact hskip fun _ => hskip fun _ => hskip fun _ => hstop hlacks
    | monitor =>
      change monitorRequest cmd = none
      exact hstop hlacks
    | getBalance =>
      change getBalanceRequest cmd = none
      exact hskip fun _ => hskip fun _ => hstop hlacks
    | transfer =>
      change transferRequest cmd = none
      exact hskip fun _ => hskip fun _ => hskip fun _ => hskip fun _ => hskip fun _ =>
        hstop hlacks

structure EndsIn (service : UInt8) (missing : FieldID) (init : List TLVField) (last : TLVField) :
    Prop where
  id_eq : last.id = missing.toUint8
  short : last.value.length < 2 ^ 32
  sized : ∀ f ∈ init, Sized f
  other : ∀ f ∈ init, f.id ≠ missing.toUint8
  service_eq : ∀ f ∈ init, f = tlvUint8 fieldService service ∨ f.id ≠ fieldService

theorem sized_name {id : UInt8} {name : Bytes} (h : isAlpha name) : Sized (tlvString id name) := by
  right
  intro b hb
  rw [isAlpha, Bool.and_eq_true, List.all_eq_true] at h
  have hletter := h.2 b hb
  simp only [isalpha, isupper, islower, Bool.or_eq_true, Bool.and_eq_true,
    decide_eq_true_eq, UInt8.le_iff_toNat_le] at hletter
  rw [UInt8.lt_iff_toNat_lt]
  have h65 : (65 : UInt8).toNat = 65 := rfl
  have h97 : (97 : UInt8).toNat = 97 := rfl
  have hten : fieldMonitorTimeoutSeconds.toNat = 10 := rfl
  omega

theorem length_password {pw : Bytes} (h : isPassword pw) : pw.length < 2 ^ 32 := by
  simp only [isPassword, isWithinMaxLength, Bool.and_eq_true, decide_eq_true_eq] at h
  exact h.2.2.trans_lt (by decide)

def before (id : FieldID) : List FieldID := fieldOrder.takeWhile fun other => other ≠ id

theorem notMem_before (id : FieldID) : id ∉ before id := by
  intro h
  simpa using List.mem_takeWhile_imp h

/-- The texts of a command as the prompts let them through. -/
structure ValidTexts (cmd : Command) : Prop where
  accountOwnerName : ∀ name, cmd.accountOwnerName = some name → isAlpha name
  accountPassword : ∀ pw, cmd.accountPassword = some pw → isPassword pw
  txAccountOwnerName : ∀ name, cmd.txAccountOwnerName = some name → isAlpha name
  monitorUpdates : cmd.monitorUpdates = none

theorem ValidTexts.sized {cmd : Command} (h : ValidTexts cmd) {id : FieldID} {f : TLVField}
    (hf : f ∈ fieldOf cmd id) : Sized f := by
  cases id <;>
    simp only [fieldOf, Option.mem_toList, Option.map_eq_some_iff] at hf <;>
    obtain ⟨v, hv, rfl⟩ := hf
  case accountOwnerName => exact sized_name (h.accountOwnerName v hv)
  case txAccountOwnerName => exact sized_name (h.txAccountOwnerName v hv)
  case accountPassword => exact .inl (length_password (h.accountPassword v hv))
  case monitorUpdates => simp [h.monitorUpdates] at hv
  all_goals exact .inl (by simp [tlvUint8, tlvUint32, tlvFloat64])

theorem ValidTexts.endsIn {cmd : Command} (h : ValidTexts cmd) {service : UInt8}
    (hservice : cmd.service = some service) {missing : FieldID} {last : TLVField}
    (hlast : last ∈ fieldOf cmd missing) (hshort : last.value.length < 2 ^ 32) :
    EndsIn service missing ((before missing).flatMap (fieldOf cmd)) last := by
  refine ⟨id_of_mem_fieldOf hlast, hshort, ?_, ?_, ?_⟩
  · intro f hf
    obtain ⟨id, -, hid⟩ := List.mem_flatMap.mp hf
    exact h.sized hid
  · intro f hf hsame
    obtain ⟨id, hmem, hid⟩ := List.mem_flatMap.mp hf
    rw [id_of_mem_fieldOf hid] at hsame
    exact notMem_before missing (toUint8_injective hsame ▸ hmem)
  · intro f hf
    obtain ⟨id, -, hid⟩ := List.mem_flatMap.mp hf
    by_cases hfirst : id = .service
    · subst hfirst
      simp only [fieldOf, hservice, Option.map_some, Option.mem_toList, Option.some.injEq] at hid
      exact .inl hid.symm
    · right
      rw [id_of_mem_fieldOf hid]
      exact fun hsame => hfirst (toUint8_injective hsame)

theorem built_validTexts {cmd : Command} (h : Built cmd) : ValidTexts cmd := by
  cases h <;> constructor <;> simp_all

theorem built_endsIn {cmd : Command} (h : Built cmd) :
    ∃ service missing init last, WrittenLast service missing ∧ fieldsOf cmd = init ++ [last] ∧
      EndsIn service missing init last := by
  have hvalid := built_validTexts h
  have hcurrency : ∀ v, (tlvUint8 fieldCurrency v).value.length < 2 ^ 32 := by
    intro v
    simp [tlvUint8]
  cases h with
  | opening hname hpw =>
    exact ⟨_, _, _, _, .openAccount, rfl,
      hvalid.endsIn rfl (List.mem_singleton_self _) (hcurrency _)⟩
  | authenticated hservice hname hpw =>
    rcases hservice with rfl | rfl
    · exact ⟨_, _, _, _, .closeAccount, rfl,
        hvalid.endsIn rfl (List.mem_singleton_self _) (length_password hpw)⟩
    · exact ⟨_, _, _, _, .getBalance, rfl,
        hvalid.endsIn rfl (List.mem_singleton_self _) (length_password hpw)⟩
  | payment hservice hname hpw =>
    rcases hservice with rfl | rfl
    · exact ⟨_, _, _, _, .deposit, rfl,
        hvalid.endsIn rfl (List.mem_singleton_self _) (hcurrency _)⟩
    · exact ⟨_, _, _, _, .withdraw, rfl,
        hvalid.endsIn rfl (List.mem_singleton_self _) (hcurrency _)⟩
  | transfer hname hpw htxName =>
    exact ⟨_, _, _, _, .transfer, rfl,
      hvalid.endsIn rfl (List.mem_singleton_self _) (hcurrency _)⟩
  | monitor hname hpw =>
    exact ⟨_, _, _, _, .monitor, rfl,
      hvalid.endsIn rfl (List.mem_singleton_self _) (by simp [tlvUint32])⟩

theorem built_onHost (e : Endian) {cmd : Command} (h : Built cmd) : Built (onHost e cmd) := by
  cases e with
  | little => exact h
  | big =>
    cases h with
    | opening hname hpw => exact .opening hname hpw
    | authenticated hservice hname hpw => exact .authenticated hservice hname hpw
    | payment hservice hname hpw => exact .payment hservice hname hpw
    | transfer hname hpw htxName => exact .transfer hname hpw htxName
    | monitor hname hpw => exact .monitor hname hpw

section Truncated
variable {M : Type} [Money M] [Float64 M]

omit [Money M] in
theorem parseRequest_truncated {cmd : Command} (h : Built cmd) {e : Endian} {m : Message}
    (hcontent : encodeMessage e cmd = .ok (.ok m.payload.content)) {k : ℕ}
    (hk : k < (serialize e m).length) (hint : k < 2 ^ 62) :
    parseRequest (M := M) ((serialize e m).take k) = none := by
  obtain ⟨service, missing, init, last, hlast, hfields, hends⟩ := built_endsIn (built_onHost e h)
  rw [parseRequest]
  split_ifs with hshort
  · rfl
  have hheader : headerSize ≤ k := by
    rw [List.length_take] at hshort
    omega
  obtain ⟨n, rfl⟩ : ∃ n, k = headerSize + n := ⟨k - headerSize, by omega⟩
  have hne : fieldsOf (onHost e cmd) ≠ [] := by simp [hfields]
  have hbytes : m.payload.content = (init ++ [last]).flatMap fieldBytes := by
    rw [encodeMessage_onHost e cmd hne, hfields] at hcontent
    rw [← encodeTLVFields_eq]
    exact (Except.ok.inj (Except.ok.inj hcontent)).symm
  have hdrop : (serialize e m).drop headerSize = m.payload.content := by
    rw [serialize_header, List.drop_left' (length_headerBytes _)]
  have hlength : n < m.payload.content.length := by
    rw [← hdrop, List.length_drop]
    omega
  have hpayload : ((serialize e m).take (headerSize + n)).drop headerSize =
      ((init ++ [last]).flatMap fieldBytes).take n := by
    rw [List.drop_take, hdrop, Nat.add_sub_cancel_left, hbytes]
  rw [hpayload]
  split
  · rename_i cmd' hdecode
    apply requestOf_cutShort hlast
    have hloop : decodeLoop 64 ([] ++ ((init ++ [last]).flatMap fieldBytes).take n) _
        ([] : Bytes).length {} = .ok (.ok cmd') := hdecode
    refine decodeLoop_truncated ?_ hends.sized hends.short ?_ ?_ ?_ hloop
    · intro f hf
      exact keeps_cutShort (hends.other f hf) (hends.service_eq f hf)
    · rwa [← hbytes]
    · simp
      omega
    · refine ⟨.inl rfl, ?_⟩
      cases missing <;> rfl
  · rfl

/-- A request of the client that lost its end is answered with an error and changes nothing. -/
theorem truncated_refused {stod : Bytes → Except NumberError UInt64} {userInput : ℤ}
    {c c' : Console} {cmd : Command}
    (hbuild : (buildCommand stod userInput).run.run c = (.ok cmd, c')) {e : Endian} {m : Message}
    (hcontent : encodeMessage e cmd = .ok (.ok m.payload.content)) {k : ℕ}
    (hk : k < (serialize e m).length) (hint : k < 2 ^ 62) (now : ℕ) (addr : UDPAddr)
    (b : Backend M) :
    ∃ reply, buildHandler 64 now b ((serialize e m).take k) addr = .ok (b, reply) ∧
      (headerOf reply).statusCode ≠ statusSuccess.toUInt16 := by
  obtain ⟨hbuilt, -⟩ := yields_buildCommand ⟨c, c', hbuild⟩
  have hlen : ((serialize e m).take k).length < 2 ^ 62 := by
    rw [List.length_take]
    omega
  rw [buildHandler_eq now addr b hlen, respond, parseRequest_truncated hbuilt hcontent hk hint]
  refine ⟨_, rfl, ?_⟩
  simp only [outcome, refusal, buildReply_statusCode]
  decide

end Truncated

def stodFifty (str : Bytes) : Except NumberError UInt64 :=
  if str = ascii "50" then .ok 0x4049000000000000 else .error .invalidArgument

def openingLines : Console := ⟨[ascii "4l", ascii " Al ", ascii "pw1", ascii "sgd", ascii "50"], []⟩

def openingCommand : Command :=
  ⟨some 1, none, some (ascii "Al"), some (ascii "pw1"), none, none, some 0x4049000000000000, some 0,
    none, none⟩

def openingMessage : Message :=
  (ClientProtocol.buildMessage ⟨2, 0, (0x7F000001, 4000)⟩
    (encodeTLVFields (fieldsOf openingCommand))).2

theorem opening_truncated_refused :
    ∃ reply, buildHandler (M := Binary64) 64 0 ⟨newMemoryStore, Monitor.newManager⟩
        ((serialize .little openingMessage).take 50) (.loopback 4000) =
          .ok (⟨newMemoryStore, Monitor.newManager⟩, reply) ∧
      (headerOf reply).statusCode ≠ statusSuccess.toUInt16 := by
  have hbuild : (buildCommand stodFifty 1).run.run openingLines =
      (.ok openingCommand, ((buildCommand stodFifty 1).run.run openingLines).2) :=
    Prod.ext (by decide +kernel) rfl
  exact truncated_refused hbuild (by decide +kernel) (by decide +kernel) (by decide) 0 _ _

end DistributedBanking.Handler
