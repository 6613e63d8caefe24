import DistributedBanking.Commutation

/-!
# What a wrong password reveals

A caller without the password of an account is told the same whether the
account exists or not, for every service but one: a transfer looks its
destination up before it checks the credentials, and reports a missing
destination only when the source exists. Two stores can be told apart by a
wrong password exactly when this happens in one of them.
-/

namespace DistributedBanking.Banking
open Store

section Probing
variable {M : Type}

def WrongPassword (s : MemoryStore M) (op : Op M) : Prop :=
  ∀ accNo name pw acc, op.credentials = some (accNo, name, pw) →
    s.accounts.get accNo = some acc → acc.password ≠ pw

theorem presented_wrongPassword {found : Option (Account M)} {name : Bytes} {pw : Vector UInt8 8}
    (h : ∀ acc, found = some acc → acc.password ≠ pw) :
    presented found name pw = .error .errInvalidCredentials := by
  cases found with
  | none => rfl
  | some acc => simp only [presented, checkAuth, if_pos (h acc rfl)]

variable [Money M]

/-- The transfer reaches the lookup of its destination, and fails there. -/
def Discloses (s : MemoryStore M) : Op M → Prop
  | .transfer _ fromAccNo _ toAccNo _ amount =>
    ¬ amount ≤ 0 ∧ fromAccNo ≠ toAccNo ∧ (s.accounts.get fromAccNo).isSome ∧
      s.accounts.get toAccNo = none
  | _ => False

def blindRefusal : Op M → BankingError
  | .deposit _ _ _ _ amount =>
    if amount ≤ 0 then .errNonPositiveAmount else .errInvalidCredentials
  | .withdraw _ _ _ _ amount =>
    if amount ≤ 0 then .errNonPositiveAmount else .errInvalidCredentials
  | .transfer _ fromAccNo _ toAccNo _ amount =>
    if amount ≤ 0 then .errNonPositiveAmount
    else if fromAccNo = toAccNo then .errTransferSameAccount
    else .errInvalidCredentials
  | _ => .errInvalidCredentials

theorem decision_of_discloses {s : MemoryStore M} {op : Op M} (h : Discloses s op) :
    decision s op = .failed .errAccountNotFound := by
  cases op with
  | transfer name accNo pw toAccNo curr amount =>
    obtain ⟨hpos, hne, hfrom, hto⟩ := h
    obtain ⟨acc, hacc⟩ := Option.isSome_iff_exists.mp hfrom
    simp only [decision, if_neg hpos, if_neg hne, hacc, hto]
  | _ => exact absurd h id

theorem decision_of_not_discloses {s : MemoryStore M} {op : Op M} (hopen : op.isOpen = false)
    (hwrong : WrongPassword s op) (h : ¬ Discloses s op) :
    decision s op = .failed (blindRefusal op) := by
  cases op with
  | openAccount => cases hopen
  | closeAccount name accNo pw =>
    rw [decision, presented_wrongPassword fun acc => hwrong accNo name pw acc rfl]
    rfl
  | checkBalance name accNo pw =>
    rw [decision, presented_wrongPassword fun acc => hwrong accNo name pw acc rfl]
    rfl
  | deposit name accNo pw curr amount =>
    rw [decision, presented_wrongPassword fun acc => hwrong accNo name pw acc rfl, blindRefusal]
    split_ifs <;> rfl
  | withdraw name accNo pw curr amount =>
    rw [decision, presented_wrongPassword fun acc => hwrong accNo name pw acc rfl, blindRefusal]
    split_ifs <;> rfl
  | transfer name accNo pw toAccNo curr amount =>
    rw [decision, blindRefusal]
    split_ifs with hpos heq
    · rfl
    · rfl
    rcases hfrom : s.accounts.get accNo with _ | acc
    · rfl
    rcases hto : s.accounts.get toAccNo with _ | toAcc
    · exact absurd ⟨hpos, heq, by rw [hfrom]; rfl, hto⟩ h
    · have hpw := hwrong accNo name pw acc rfl hfrom
      simp only [checkAuth, if_pos hpw]

theorem blindRefusal_ne (op : Op M) : blindRefusal op ≠ .errAccountNotFound := by
  cases op <;> grind [blindRefusal]

end Probing
end DistributedBanking.Banking

namespace DistributedBanking.Server
open Store Banking Marshalling Semantics Handler

theorem mapBankingError_accNotFound {err : BankingError} :
    mapBankingError err = statusErrAccNotFound ↔ err = .errAccountNotFound := by
  cases err <;> simp [mapBankingError, statusErrInvalidCreds, statusErrAccMismatch,
    statusErrCurrMismatch, statusErrInsuffFunds, statusErrSameAccount, statusErrAccNotFound,
    statusErrInternal]

section Replies
variable {M : Type} [Money M] [Float64 M]

omit [Money M] in
def Unauthenticated (s : MemoryStore M) (data : Bytes) : Prop :=
  ∀ op txName, parseRequest data = some (.bank op txName) → WrongPassword s op

/-- The packet is a request whose answer discloses that an account exists. -/
def Probes (s : MemoryStore M) (data : Bytes) : Prop :=
  ∃ op txName, parseRequest data = some (.bank op txName) ∧ Discloses s op

theorem probes_iff {s : MemoryStore M} {data : Bytes} {op : Op M} {txName : Bytes}
    (h : parseRequest data = some (.bank op txName)) : Probes s data ↔ Discloses s op := by
  constructor
  · intro hprobes
    obtain ⟨op', txName', hreq, hdiscloses⟩ := hprobes
    rw [h] at hreq
    cases hreq
    exact hdiscloses
  · exact fun hdiscloses => ⟨op, txName, h, hdiscloses⟩

def blindStatus (M : Type) [Money M] [Float64 M] (data : Bytes) : UInt8 :=
  match (parseRequest data : Option (Request M)) with
  | some (.bank op _) => mapBankingError (blindRefusal op)
  | some (.monitor _) => statusSuccess
  | none => statusErrInternal

theorem blindStatus_ne (data : Bytes) : blindStatus M data ≠ statusErrAccNotFound := by
  rw [blindStatus]
  rcases (parseRequest data : Option (Request M)) with _ | ⟨op, txName⟩ | timeoutSeconds
  · change statusErrInternal ≠ statusErrAccNotFound
    decide
  · exact fun h => blindRefusal_ne op (mapBankingError_accNotFound.mp h)
  · change statusSuccess ≠ statusErrAccNotFound
    decide

variable {s : MemoryStore M} {data : Bytes}

theorem answer_of_probes (h : Probes s data) :
    (answer s (parseRequest data)).2 = (statusErrAccNotFound, []) := by
  obtain ⟨op, txName, hreq, hdiscloses⟩ := h
  simp only [answer, hreq, perform_decision, decision_of_discloses hdiscloses]
  rfl

theorem answer_of_not_probes (hopen : opensAccount M data = false)
    (hunauth : Unauthenticated s data) (h : ¬ Probes s data) :
    (answer s (parseRequest data)).2 = (blindStatus M data, []) := by
  rcases hreq : (parseRequest data : Option (Request M)) with _ | ⟨op, txName⟩ | timeoutSeconds
  · simp only [answer, blindStatus, hreq]
  · rw [opensAccount_of_bank hreq] at hopen
    rw [probes_iff hreq] at h
    simp only [answer, blindStatus, hreq, perform_decision,
      decision_of_not_discloses hopen (hunauth op txName hreq) h]
    rfl
  · simp only [answer, blindStatus, hreq]

theorem respond_status {now : ℕ} {b : Backend M} {addr : UDPAddr} {status : UInt8}
    (h : (answer b.store (parseRequest data)).2 = (status, [])) :
    (respond now b data addr).2 = buildErrorReply (requestIDOf data) addr status := by
  rw [respond_reply, h]
  rfl

theorem buildErrorReply_injective {reqID : UInt32} {addr : UDPAddr} {status status' : UInt8}
    (h : buildErrorReply reqID addr status = buildErrorReply reqID addr status') :
    status = status' := by
  have hstatus := congrArg (fun reply => (headerOf reply).statusCode) h
  simp only [buildErrorReply, buildReply_statusCode] at hstatus
  have hvalue := congrArg UInt16.toNat hstatus
  simpa only [UInt8.toNat_toUInt16, UInt8.toNat_inj] using hvalue

theorem respond_eq_iff {b b' : Backend M} {addr : UDPAddr} (hopen : opensAccount M data = false)
    (hb : Unauthenticated b.store data) (hb' : Unauthenticated b'.store data) (now now' : ℕ) :
    (respond now b data addr).2 = (respond now' b' data addr).2 ↔
      (Probes b.store data ↔ Probes b'.store data) := by
  by_cases h : Probes b.store data
  · rw [respond_status (answer_of_probes h)]
    by_cases h' : Probes b'.store data
    · rw [respond_status (answer_of_probes h')]
      exact iff_of_true rfl (iff_of_true h h')
    · rw [respond_status (answer_of_not_probes hopen hb' h')]
      exact iff_of_false (fun heq => blindStatus_ne data (buildErrorReply_injective heq).symm)
        fun hiff => h' (hiff.mp h)
  · rw [respond_status (answer_of_not_probes hopen hb h)]
    by_cases h' : Probes b'.store data
    · rw [respond_status (answer_of_probes h')]
      exact iff_of_false (fun heq => blindStatus_ne data (buildErrorReply_injective heq))
        fun hiff => h (hiff.mpr h')
    · rw [respond_status (answer_of_not_probes hopen hb' h')]
      exact iff_of_true rfl (iff_of_false h h')

/-- Without the password two stores answer a request alike exactly when it probes both of them or
neither. -/
theorem unauthenticated_replies_eq_iff {b b' : Backend M} {d : Datagram}
    (hopen : opensAccount M d.data = false) (hb : Unauthenticated b.store d.data)
    (hb' : Unauthenticated b'.store d.data) (now now' : ℕ) :
    ∃ c c' reply reply', buildHandler 64 now b d.data d.addr = .ok (c, reply) ∧
      buildHandler 64 now' b' d.data d.addr = .ok (c', reply') ∧
      (reply = reply' ↔ (Probes b.store d.data ↔ Probes b'.store d.data)) :=
  ⟨_, _, _, _, buildHandler_eq now d.addr b d.bounded, buildHandler_eq now' d.addr b' d.bounded,
    respond_eq_iff hopen hb hb' now now'⟩

end Replies

def probeA : Datagram :=
  tellerPacket ⟨some 7, some 10000, some [65], some [81], some 20000, some [66],
    some 0x3FF0000000000000, some 1, none, none⟩ (by decide +kernel)

theorem parseRequest_probeA : parseRequest probeA.data = some
    (.bank (.transfer [65] 10000 (passwordStringToFixed [81]) 20000 1
      (Binary64.ofPattern 0x3FF0000000000000)) [66]) :=
  ClientProtocol.parseRequest_packetOf (M := Binary64)
    (show probeA.data.length ≤ 4096 by decide +kernel)

theorem unauthenticated_probeA {s : MemoryStore Binary64}
    (h : ∀ acc, s.accounts.get 10000 = some acc → acc.password ≠ passwordStringToFixed [81]) :
    Unauthenticated s probeA.data := by
  intro op txName hreq
  rw [parseRequest_probeA] at hreq
  cases hreq
  intro accNo name pw acc hcreds hget
  cases hcreds
  exact h acc hget

def knownA : Backend Binary64 := ⟨bankOfTwo Binary64 (.finite 5) (.finite 1), Monitor.newManager⟩
def unknownA : Backend Binary64 := ⟨newMemoryStore, Monitor.newManager⟩

theorem unauthenticated_knownA : Unauthenticated knownA.store probeA.data := by
  apply unauthenticated_probeA
  intro acc hget
  rw [knownA, bankOfTwo_first] at hget
  cases hget
  exact show passwordStringToFixed [80] ≠ passwordStringToFixed [81] by decide

theorem unauthenticated_unknownA : Unauthenticated unknownA.store probeA.data := by
  apply unauthenticated_probeA
  intro acc hget
  simp [unknownA, newMemoryStore] at hget

theorem probeA_replies_eq_iff :
    ∃ c c' reply reply', buildHandler 64 0 knownA probeA.data probeA.addr = .ok (c, reply) ∧
      buildHandler 64 0 unknownA probeA.data probeA.addr = .ok (c', reply') ∧
      (reply = reply' ↔ (Probes knownA.store probeA.data ↔ Probes unknownA.store probeA.data)) :=
  unauthenticated_replies_eq_iff (by decide +kernel) unauthenticated_knownA
    unauthenticated_unknownA 0 0

/-- The password is wrong or the account is missing, and the replies tell which. -/
theorem probeA_discloses :
    Unauthenticated knownA.store probeA.data ∧ Unauthenticated unknownA.store probeA.data ∧
      ∃ c c' reply reply', buildHandler 64 0 knownA probeA.data probeA.addr = .ok (c, reply) ∧
        buildHandler 64 0 unknownA probeA.data probeA.addr = .ok (c', reply') ∧
        reply ≠ reply' := by
  refine ⟨unauthenticated_knownA, unauthenticated_unknownA, _, _, _, _,
    buildHandler_eq 0 probeA.addr _ probeA.bounded, buildHandler_eq 0 probeA.addr _ probeA.bounded,
    ?_⟩
  intro heq
  have hiff := (respond_eq_iff (by decide +kernel) unauthenticated_knownA unauthenticated_unknownA
    0 0).mp heq
  have hprobes : Probes knownA.store probeA.data := by
    rw [probes_iff parseRequest_probeA]
    refine ⟨by decide +kernel, by decide, ?_, by decide +kernel⟩
    rw [knownA, bankOfTwo_first]
    rfl
  have hnone : ¬ Probes unknownA.store probeA.data := by
    rw [probes_iff parseRequest_probeA]
    intro hdiscloses
    simpa [unknownA, newMemoryStore] using hdiscloses.2.2.1
  exact hnone (hiff.mp hprobes)

end DistributedBanking.Server
