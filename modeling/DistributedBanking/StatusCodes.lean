import DistributedBanking.ContentLength
import DistributedBanking.Decisions
import DistributedBanking.SpecialValues

/-!
# Which errors have a status of their own

The bank refuses an amount that is not positive with an error that the mapping
to status codes has no case for, so the client is told of an internal error.
Every other refusal of a complete request has its own code.
-/

namespace DistributedBanking.Handler
open Store Banking Marshalling Monitor Semantics

def Distinguished {M : Type} (res : Result M) : Prop := statusOf res ≠ statusErrInternal

section Refusals
variable {M : Type} {err : BankingError}

theorem checkAuth_distinguished {acc : Account M} {name : Bytes} {pw : Vector UInt8 8}
    (h : checkAuth acc name pw = .error err) : Distinguished (.failed err : Result M) := by
  rw [checkAuth] at h
  split_ifs at h with hpw hname
  · cases h
    exact show statusErrInvalidCreds ≠ statusErrInternal by decide
  · cases h
    exact show statusErrAccMismatch ≠ statusErrInternal by decide

theorem presented_distinguished {found : Option (Account M)} {name : Bytes} {pw : Vector UInt8 8}
    {rest : Account M → Result M} (hrest : ∀ acc, Distinguished (rest acc)) :
    Distinguished
      (match presented found name pw with
      | .error err => .failed err
      | .ok acc => rest acc) := by
  cases found with
  | none => exact show statusErrInvalidCreds ≠ statusErrInternal by decide
  | some acc =>
    cases hcheck : checkAuth acc name pw with
    | error err =>
      simp only [presented, hcheck]
      exact checkAuth_distinguished hcheck
    | ok u =>
      simp only [presented, hcheck]
      exact hrest acc

variable [Money M]

theorem decision_distinguished {op : Op M} {txName : Bytes} (s : MemoryStore M)
    (h : (Request.bank op txName).Payable) : Distinguished (decision s op) := by
  have hsuccess : statusSuccess ≠ statusErrInternal := by decide
  have hcurr : statusErrCurrMismatch ≠ statusErrInternal := by decide
  have hfunds : statusErrInsuffFunds ≠ statusErrInternal := by decide
  cases op with
  | openAccount name pw curr balance => exact hsuccess
  | closeAccount name accNo pw => exact presented_distinguished fun _ => hsuccess
  | checkBalance name accNo pw => exact presented_distinguished fun _ => hsuccess
  | deposit name accNo pw curr amount =>
    have hpos : ¬ amount ≤ 0 := h
    rw [decision, if_neg hpos]
    refine presented_distinguished fun acc => ?_
    split_ifs
    · exact hcurr
    · exact hsuccess
  | withdraw name accNo pw curr amount =>
    have hpos : ¬ amount ≤ 0 := h
    rw [decision, if_neg hpos]
    refine presented_distinguished fun acc => ?_
    split_ifs
    · exact hcurr
    · exact hfunds
    · exact hsuccess
  | transfer name accNo pw toAccNo curr amount =>
    have hpos : ¬ amount ≤ 0 := h
    rw [decision, if_neg hpos]
    by_cases hsame : accNo = toAccNo
    · rw [if_pos hsame]
      exact show statusErrSameAccount ≠ statusErrInternal by decide
    rw [if_neg hsame]
    cases hfrom : s.accounts.get accNo with
    | none => exact show statusErrInvalidCreds ≠ statusErrInternal by decide
    | some acc =>
      cases hto : s.accounts.get toAccNo with
      | none => exact show statusErrAccNotFound ≠ statusErrInternal by decide
      | some toAcc =>
        dsimp only
        cases hcheck : checkAuth acc name pw with
        | error err => exact checkAuth_distinguished hcheck
        | ok u =>
          dsimp only
          split_ifs
          · exact hcurr
          · exact hfunds
          · exact hsuccess

variable [Float64 M]

/-- The status of a request is its own exactly when the bank looks at it. -/
theorem serve_status_iff (now : ℕ) (addr : UDPAddr) (b : Backend M) (req : Request M) :
    (serve now addr b req).status ≠ statusErrInternal ↔ req.Payable := by
  constructor
  · intro hstatus
    by_contra hpayable
    rw [serve_not_payable hpayable] at hstatus
    exact hstatus rfl
  · intro hpayable
    cases req with
    | monitor timeoutSeconds => exact show statusSuccess ≠ statusErrInternal by decide
    | bank op txName =>
      have hdecision := decision_distinguished b.store hpayable
      rw [← perform_decision] at hdecision
      exact hdecision

end Refusals
end DistributedBanking.Handler

namespace DistributedBanking.Server
open Store Banking Marshalling Monitor Semantics Handler Runs

section Replies
variable {M : Type} [Money M] [Float64 M]

/-- The reply to a complete request tells more than that something went wrong inside. -/
def Dedicated (b : Backend M) (x : Arrival) (b' : Backend M) : Prop :=
  ∃ reply, buildHandler 64 x.2 b x.1.data x.1.addr = .ok (b', reply) ∧
    ∀ req : Request M, parseRequest x.1.data = some req →
      (headerOf reply).statusCode ≠ statusErrInternal.toUInt16

def AsksPayable (M : Type) [Money M] [Float64 M] (x : Arrival) : Prop :=
  ∀ req : Request M, parseRequest x.1.data = some req → req.Payable

theorem handle_dedicated (b : Backend M) (x : Arrival) :
    ∃ b', handle b x = .ok b' ∧ (Dedicated b x b' ↔ AsksPayable M x) := by
  have hbuild := buildHandler_eq x.2 x.1.addr b x.1.bounded
  refine ⟨(respond x.2 b x.1.data x.1.addr).1, ?_, ?_⟩
  · rw [handle, hbuild]
    rfl
  · have hstatus : ∀ req : Request M, parseRequest x.1.data = some req →
        ((headerOf (respond x.2 b x.1.data x.1.addr).2).statusCode ≠
          statusErrInternal.toUInt16 ↔ req.Payable) := by
      intro req hreq
      rw [respond, hreq, Outcome.reply, buildReply_statusCode, ne_eq, UInt8.toUInt16_inj]
      exact serve_status_iff x.2 x.1.addr b req
    constructor
    · intro hdedicated req hreq
      obtain ⟨reply, hreply, hne⟩ := hdedicated
      rw [hbuild] at hreply
      have heq : (respond x.2 b x.1.data x.1.addr).2 = reply :=
        congrArg Prod.snd (Except.ok.inj hreply)
      exact (hstatus req hreq).mp (heq ▸ hne req hreq)
    · intro hpayable
      exact ⟨_, hbuild, fun req hreq => (hstatus req hreq).mpr (hpayable req hreq)⟩

/-- Every reply of a run is dedicated exactly when no request of it is for an amount that is not
positive. -/
theorem dedicated_run_iff (b : Backend M) (xs : List Arrival) :
    EveryStep handle Dedicated b xs ↔ ∀ x ∈ xs, AsksPayable M x := by
  have htotal : ∀ (b : Backend M) x, ∃ b', handle b x = .ok b' := fun b x => by
    obtain ⟨b', hhandle, -⟩ := handle_dedicated b x
    exact ⟨b', hhandle⟩
  rw [← everyStep_input htotal]
  refine everyStep_congr (I := fun _ _ => True) (fun b x _ _ => ?_) trivial
  obtain ⟨b', hhandle, hiff⟩ := handle_dedicated b x
  exact ⟨b', hhandle, hiff, fun _ => trivial⟩

end Replies

def openingOfA : Datagram where
  data := ClientProtocol.packetOf ⟨2, 0, (0x7F000001, 4000)⟩ ⟨some 1, none, some [65],
    some [80], none, none, some 0x4014000000000000, some 1, none, none⟩
  addr := .loopback 4000
  small := lt_of_eq_of_lt (b := 55) rfl (by decide)

theorem zero_deposit_internal :
    ¬ EveryStep handle Dedicated (⟨newMemoryStore, newManager⟩ : Backend Binary64)
      [(openingOfA, 0), (depositPacket 0, 1)] := by
  intro hrun
  obtain ⟨b, -, -, b', hhandle, hdedicated, -⟩ := hrun
  obtain ⟨b'', hhandle', hiff⟩ := handle_dedicated b (depositPacket 0, 1)
  cases hhandle.symm.trans hhandle'
  have hpositive := hiff.mp hdedicated _ (parseRequest_depositPacket 0)
  exact hpositive (by decide +kernel)

end DistributedBanking.Server
