import DistributedBanking.MessageFraming
import DistributedBanking.ReplyDirection

/-!
# Where a message ends

The client takes the content length's worth of bytes after the header and
refuses data that has fewer. The server parses the length and ignores it: the
command is whatever follows the header. The two agree on data whose length is
the declared one, and on data that falls short of it without holding a request.
-/

namespace DistributedBanking.Handler
open Store Banking Marshalling Monitor Semantics Server
open ClientProtocol (deserialize framed deserialize_eq Endian)

/-- The bytes that the handler passes to `DecodeTLV`, if it gets that far. -/
def commandPayload (data : Bytes) : Go (Option Bytes) := do
  match ← parseHeader data with
  | .error _ => return none
  | .ok _ => return some (← slice data headerSize data.length)

theorem commandPayload_eq (data : Bytes) : commandPayload data =
    .ok (if data.length < headerSize then none else some (data.drop headerSize)) := by
  by_cases hshort : data.length < headerSize
  · rw [commandPayload, parseHeader_short hshort, if_pos hshort]
    rfl
  · have hheader : headerSize ≤ data.length := not_lt.mp hshort
    have hslice : slice data headerSize data.length = .ok (data.drop headerSize) := by
      rw [slice_of_le hheader le_rfl, List.take_of_length_le (by simp)]
    rw [commandPayload, parseHeader_ok hheader, ok_bind, if_neg hshort]
    simp only [hslice, ok_bind]
    rfl

section Refusal
variable {M : Type} [Money M] [Float64 M]

theorem buildHandler_payload (bits now : ℕ) (b : Backend M) (data : Bytes) (addr : UDPAddr) :
    buildHandler bits now b data addr = (do
      match ← commandPayload data with
      | none => return (b, buildErrorReply 0 addr statusErrInternal)
      | some payload =>
        let decoded ← decodeTLV bits payload
        return (outcome now addr b (decoded.toOption.bind requestOf)).reply
          (headerOf data).requestID addr) := by
  rw [buildHandler, commandPayload_eq]
  by_cases hshort : data.length < headerSize
  · rw [parseHeader_short hshort, if_pos hshort]
    rfl
  · have hheader : headerSize ≤ data.length := not_lt.mp hshort
    have hslice : slice data headerSize data.length = .ok (data.drop headerSize) := by
      rw [slice_of_le hheader le_rfl, List.take_of_length_le (by simp)]
    rw [parseHeader_ok hheader, if_neg hshort]
    simp only [hslice, ok_bind]
    rcases decodeTLV bits (data.drop headerSize) with panic | err | cmd
    · rfl
    · rfl
    · exact route_eq now cmd _ addr b

def Refuses (M : Type) [Money M] [Float64 M] (data : Bytes) : Prop :=
  ∀ now addr (b : Backend M), buildHandler 64 now b data addr =
    .ok (b, buildErrorReply (requestIDOf data) addr statusErrInternal)

/-- Every request but a payment of no positive amount, which the bank refuses unseen. -/
def Request.Payable : Request M → Prop
  | .bank (.deposit _ _ _ _ amount) _ => ¬ amount ≤ 0
  | .bank (.withdraw _ _ _ _ amount) _ => ¬ amount ≤ 0
  | .bank (.transfer _ _ _ _ _ amount) _ => ¬ amount ≤ 0
  | _ => True

/-- The bytes decode to a service with all its fields, and the bank looks at it. -/
def Executable (M : Type) [Money M] [Float64 M] (payload : Bytes) : Prop :=
  ∃ (cmd : ParsedCommand M) (req : Request M),
    decodeTLV 64 payload = .ok (.ok cmd) ∧ requestOf cmd = some req ∧ req.Payable

theorem serve_not_payable {req : Request M} (h : ¬ req.Payable) (now : ℕ) (addr : UDPAddr)
    (b : Backend M) : serve now addr b req = refusal b := by
  cases req with
  | monitor timeoutSeconds => exact absurd trivial h
  | bank op txName =>
    cases op with
    | deposit name accNo pw curr amount =>
      have hamount : amount ≤ 0 := not_not.mp h
      simp [serve, perform, deposit, hamount, updatesOf, statusOf, contentOf, refusal,
        mapBankingError]
    | withdraw name accNo pw curr amount =>
      have hamount : amount ≤ 0 := not_not.mp h
      simp [serve, perform, withdraw, hamount, updatesOf, statusOf, contentOf, refusal,
        mapBankingError]
    | transfer name accNo pw toAccNo curr amount =>
      have hamount : amount ≤ 0 := not_not.mp h
      simp [serve, perform, transfer, hamount, updatesOf, statusOf, contentOf, refusal,
        mapBankingError]
    | _ => exact absurd trivial h

theorem serve_empty_store {req : Request M} (h : req.Payable) (now : ℕ) (addr : UDPAddr)
    (mon : Manager) : (serve now addr ⟨newMemoryStore, mon⟩ req).status ≠ statusErrInternal := by
  cases req with
  | monitor timeoutSeconds => exact show statusSuccess ≠ statusErrInternal by decide
  | bank op txName =>
    cases op with
    | openAccount => exact show statusSuccess ≠ statusErrInternal by decide
    | transfer name accNo pw toAccNo curr amount =>
      have hamount : ¬ amount ≤ 0 := h
      by_cases hsame : accNo = toAccNo
      · simp [serve, perform, transfer, hamount, hsame, statusOf, mapBankingError,
          statusErrSameAccount, statusErrInternal]
      · simp [serve, perform, transfer, hamount, hsame, getAccount, newMemoryStore, statusOf,
          mapBankingError, statusErrInvalidCreds, statusErrInternal]
    | deposit name accNo pw curr amount =>
      have hamount : ¬ amount ≤ 0 := h
      simp [serve, perform, deposit, hamount, getAccount, newMemoryStore, statusOf,
        mapBankingError, statusErrInvalidCreds, statusErrInternal]
    | withdraw name accNo pw curr amount =>
      have hamount : ¬ amount ≤ 0 := h
      simp [serve, perform, withdraw, hamount, getAccount, newMemoryStore, statusOf,
        mapBankingError, statusErrInvalidCreds, statusErrInternal]
    | closeAccount =>
      simp [serve, perform, closeAccount, getAccount, newMemoryStore, statusOf, mapBankingError,
        statusErrInvalidCreds, statusErrInternal]
    | checkBalance =>
      simp [serve, perform, checkBalance, getAccount, newMemoryStore, statusOf, mapBankingError,
        statusErrInvalidCreds, statusErrInternal]

theorem refuses_of_short {data : Bytes} (h : data.length < headerSize) : Refuses M data := by
  intro now addr b
  rw [buildHandler_payload, commandPayload_eq, if_pos h, requestIDOf, if_pos h]
  rfl

theorem refuses_iff {data : Bytes} (hdata : data.length < 2 ^ 62)
    (hheader : headerSize ≤ data.length) :
    Refuses M data ↔ ¬ Executable M (data.drop headerSize) := by
  have hreq : ∀ cmd : ParsedCommand M, decodeTLV 64 (data.drop headerSize) = .ok (.ok cmd) →
      parseRequest data = requestOf cmd := by
    intro cmd hcmd
    rw [parseRequest, if_neg (not_lt.mpr hheader), hcmd]
  constructor
  · intro hrefuses hexecutable
    obtain ⟨cmd, req, hcmd, hcomplete, hpayable⟩ := hexecutable
    have hreply := hrefuses 0 (.loopback 0) ⟨newMemoryStore, newManager⟩
    rw [buildHandler_eq _ _ _ hdata, respond, hreq cmd hcmd, hcomplete] at hreply
    have hstatus := congrArg (fun r => (headerOf r.2).statusCode) (Except.ok.inj hreply)
    simp only [outcome, Outcome.reply, buildErrorReply, buildReply_statusCode] at hstatus
    apply serve_empty_store hpayable 0 (.loopback 0) newManager
    exact UInt8.toUInt16_inj.mp hstatus
  · intro hidle now addr b
    rw [buildHandler_eq now addr b hdata, respond]
    have hrefusal : outcome now addr b (parseRequest (M := M) data) = refusal b := by
      rcases hparsed : (parseRequest data : Option (Request M)) with _ | req
      · rfl
      · apply serve_not_payable
        intro hpayable
        rw [parseRequest, if_neg (not_lt.mpr hheader)] at hparsed
        split at hparsed
        · exact hidle ⟨_, req, ‹_›, hparsed, hpayable⟩
        · cases hparsed
    rw [hrefusal]
    rfl

/-- The server takes from the data the content that the client takes, and nothing from data
without one. -/
structure SameFraming (M : Type) [Money M] [Float64 M] (e : Endian) (bits : ℕ) (data : Bytes) :
    Prop where
  content : ∀ m, deserialize e bits data = .ok (.ok m) →
    commandPayload data = .ok (some m.payload.content)
  nothing : (∀ m, deserialize e bits data ≠ .ok (.ok m)) → Refuses M data

/-- The data ends where its header says, or before, and then without a request that is looked
at. -/
def EndsAsDeclared (M : Type) [Money M] [Float64 M] (data : Bytes) : Prop :=
  data.length < headerSize ∨
    data.length = headerSize + (headerOf data).contentLen.toNat ∨
    data.length < headerSize + (headerOf data).contentLen.toNat ∧
      ¬ Executable M (data.drop headerSize)

theorem sameFraming_iff (e : Endian) {bits : ℕ} (hbits : 32 ≤ bits) {data : Bytes}
    (hsize : data.length < 2 ^ bits) (hdata : data.length < 2 ^ 62) :
    SameFraming M e bits data ↔ EndsAsDeclared M data := by
  have hclient := deserialize_eq e hbits hsize
  have hserver := commandPayload_eq data
  by_cases hshort : data.length < headerSize
  · rw [if_pos hshort] at hclient
    refine iff_of_true ⟨fun m hm => ?_, fun _ => refuses_of_short hshort⟩ (.inl hshort)
    rw [hclient] at hm
    cases hm
  have hheader : headerSize ≤ data.length := not_lt.mp hshort
  rw [if_neg hshort] at hclient hserver
  by_cases hover : data.length < headerSize + (headerOf data).contentLen.toNat
  · rw [if_pos hover] at hclient
    have hrefused : ∀ m, deserialize e bits data ≠ .ok (.ok m) := by
      intro m hm
      rw [hclient] at hm
      cases hm
    constructor
    · intro h
      exact .inr (.inr ⟨hover, (refuses_iff hdata hheader).mp (h.nothing hrefused)⟩)
    · intro h
      have hidle : ¬ Executable M (data.drop headerSize) := by
        rcases h with h | h | h
        · exact absurd h hshort
        · omega
        · exact h.2
      exact ⟨fun m hm => absurd hm (hrefused m), fun _ => (refuses_iff hdata hheader).mpr hidle⟩
  · rw [if_neg hover] at hclient
    have hcontent : (framed data).payload.content =
        (data.drop headerSize).take (headerOf data).contentLen.toNat := rfl
    have hrest : (data.drop headerSize).length = data.length - headerSize := by simp
    constructor
    · intro h
      have hsame := h.content _ hclient
      rw [hserver, Except.ok.injEq, Option.some.injEq, hcontent] at hsame
      have hlength := congrArg List.length hsame
      rw [List.length_take, hrest] at hlength
      exact .inr (.inl (by omega))
    · intro h
      have hexact : data.length = headerSize + (headerOf data).contentLen.toNat := by
        rcases h with h | h | h
        · exact absurd h hshort
        · exact h
        · exact absurd h.1 hover
      refine ⟨fun m hm => ?_, fun hnone => absurd hclient (hnone _)⟩
      obtain rfl : framed data = m := Except.ok.inj (Except.ok.inj (hclient.symm.trans hm))
      rw [hserver, hcontent, List.take_of_length_le (by omega)]

end Refusal

theorem opening_sameFraming_iff :
    SameFraming Binary64 .little 64 openingPacket.data ↔
      EndsAsDeclared Binary64 openingPacket.data :=
  sameFraming_iff .little (by decide) (by decide +kernel) (by decide +kernel)

def overdeclared : Bytes :=
  openingPacket.data.take 14 ++ [0, 0, 3, 232] ++ openingPacket.data.drop headerSize

theorem overdeclared_executed : ¬ SameFraming Binary64 .little 64 overdeclared := by
  intro h
  have hnone : ∀ m, deserialize .little 64 overdeclared ≠ .ok (.ok m) := by
    intro m hm
    have hrefused : deserialize .little 64 overdeclared =
        .ok (.error .deserializePayloadOverflow) := by
      decide +kernel
    rw [hrefused] at hm
    cases hm
  have hreply := h.nothing hnone 0 (.loopback 4000) ⟨newMemoryStore, newManager⟩
  have hopened : ((buildHandler (M := Binary64) 64 0 ⟨newMemoryStore, newManager⟩ overdeclared
      (.loopback 4000)).toOption.map fun r => r.2.getD 13 0) = some statusSuccess := by
    decide +kernel
  rw [hreply] at hopened
  exact absurd hopened (by decide +kernel)

end DistributedBanking.Handler
