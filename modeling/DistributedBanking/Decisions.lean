import DistributedBanking.HandlerSpec

/-!
# What a call decides and what a packet is answered

The answer of a call is a function of what it finds under the account numbers
that it names (`decision`), and so is what it leaves there (`settled`). Unlike
`Effect` this says which error a refusal is: the checks stand in the order in
which the source makes them. The reply to a packet is made of that answer; the
monitor and the clock have no part in it.
-/

namespace DistributedBanking.Banking
open Store

section Decisions
variable {M : Type}

def Op.credentials : Op M → Option (UInt32 × Bytes × Vector UInt8 8)
  | .openAccount _ _ _ _ => none
  | .closeAccount name accNo pw => some (accNo, name, pw)
  | .checkBalance name accNo pw => some (accNo, name, pw)
  | .deposit name accNo pw _ _ => some (accNo, name, pw)
  | .withdraw name accNo pw _ _ => some (accNo, name, pw)
  | .transfer name accNo pw _ _ _ => some (accNo, name, pw)

def presented (found : Option (Account M)) (name : Bytes) (pw : Vector UInt8 8) :
    Except BankingError (Account M) :=
  match found with
  | none => .error .errInvalidCredentials
  | some acc =>
    match checkAuth acc name pw with
    | .error err => .error err
    | .ok () => .ok acc

def withBalance (balance : M) (acc : Account M) : Account M := { acc with balance }

/-- What stands under `k` after a call with this result, when this was found there. -/
def settled (op : Op M) (res : Result M) (k : UInt32) (found : Option (Account M)) :
    Option (Account M) :=
  match op, res with
  | .closeAccount _ accNo _, .closed => if k = accNo then none else found
  | .deposit _ accNo _ _ _, .balance b => if k = accNo then found.map (withBalance b) else found
  | .withdraw _ accNo _ _ _, .balance b => if k = accNo then found.map (withBalance b) else found
  | .transfer _ fromAccNo _ toAccNo _ _, .balances f t =>
    if k = toAccNo then found.map (withBalance t)
    else if k = fromAccNo then found.map (withBalance f)
    else found
  | _, _ => found

theorem settled_failed (op : Op M) (err : BankingError) (k : UInt32) (found : Option (Account M)) :
    settled op (.failed err) k found = found := by
  cases op <;> rfl

variable [Money M]

def decision (s : MemoryStore M) : Op M → Result M
  | .openAccount _ _ _ _ => .opened s.nextID
  | .closeAccount name accNo pw =>
    match presented (s.accounts.get accNo) name pw with
    | .error err => .failed err
    | .ok _ => .closed
  | .checkBalance name accNo pw =>
    match presented (s.accounts.get accNo) name pw with
    | .error err => .failed err
    | .ok acc => .balance acc.balance
  | .deposit name accNo pw curr amount =>
    if amount ≤ 0 then .failed .errNonPositiveAmount
    else
      match presented (s.accounts.get accNo) name pw with
      | .error err => .failed err
      | .ok acc =>
        if acc.currencyType ≠ curr then .failed .errCurrencyMismatch
        else .balance (acc.balance + amount)
  | .withdraw name accNo pw curr amount =>
    if amount ≤ 0 then .failed .errNonPositiveAmount
    else
      match presented (s.accounts.get accNo) name pw with
      | .error err => .failed err
      | .ok acc =>
        if acc.currencyType ≠ curr then .failed .errCurrencyMismatch
        else if acc.balance < amount then .failed .errInsufficientFunds
        else .balance (acc.balance - amount)
  | .transfer fromName fromAccNo pw toAccNo curr amount =>
    if amount ≤ 0 then .failed .errNonPositiveAmount
    else if fromAccNo = toAccNo then .failed .errTransferSameAccount
    else
      match s.accounts.get fromAccNo, s.accounts.get toAccNo with
      | none, _ => .failed .errInvalidCredentials
      -- The destination is looked up before the credentials are checked.
      | some _, none => .failed .errAccountNotFound
      | some acc, some toAcc =>
        match checkAuth acc fromName pw with
        | .error err => .failed err
        | .ok () =>
          if acc.currencyType ≠ curr ∨ acc.currencyType ≠ toAcc.currencyType then
            .failed .errCurrencyMismatch
          else if acc.balance < amount then .failed .errInsufficientFunds
          else .balances (acc.balance - amount) (toAcc.balance + amount)

theorem perform_decision (s : MemoryStore M) (op : Op M) : (perform s op).2 = decision s op := by
  cases op with
  | openAccount name pw curr balance => rfl
  | closeAccount name accNo pw =>
    rcases hfound : s.accounts.get accNo with _ | acc
    · simp only [perform, closeAccount, decision, presented, getAccount, hfound]
    rcases hcheck : checkAuth acc name pw with err | u
    · simp only [perform, closeAccount, decision, presented, getAccount, hfound, hcheck]
    · simp only [perform, closeAccount, decision, presented, getAccount, hfound, hcheck,
        deleteAccount_some hfound]
  | checkBalance name accNo pw =>
    rcases hfound : s.accounts.get accNo with _ | acc
    · simp only [perform, checkBalance, decision, presented, getAccount, hfound]
    rcases hcheck : checkAuth acc name pw with err | u
    · simp only [perform, checkBalance, decision, presented, getAccount, hfound, hcheck]
    · simp only [perform, checkBalance, decision, presented, getAccount, hfound, hcheck]
  | deposit name accNo pw curr amount =>
    by_cases hpos : amount ≤ 0
    · simp only [perform, deposit, decision, if_pos hpos]
    rcases hfound : s.accounts.get accNo with _ | acc
    · simp only [perform, deposit, decision, if_neg hpos, presented, getAccount, hfound]
    rcases hcheck : checkAuth acc name pw with err | u
    · simp only [perform, deposit, decision, if_neg hpos, presented, getAccount, hfound, hcheck]
    · simp only [perform, deposit, decision, if_neg hpos, presented, getAccount, hfound, hcheck,
        updateAccount_setBalance hfound]
      split_ifs <;> rfl
  | withdraw name accNo pw curr amount =>
    by_cases hpos : amount ≤ 0
    · simp only [perform, withdraw, decision, if_pos hpos]
    rcases hfound : s.accounts.get accNo with _ | acc
    · simp only [perform, withdraw, decision, if_neg hpos, presented, getAccount, hfound]
    rcases hcheck : checkAuth acc name pw with err | u
    · simp only [perform, withdraw, decision, if_neg hpos, presented, getAccount, hfound, hcheck]
    · simp only [perform, withdraw, decision, if_neg hpos, presented, getAccount, hfound, hcheck,
        updateAccount_setBalance hfound]
      split_ifs <;> rfl
  | transfer name accNo pw toAccNo curr amount =>
    by_cases hpos : amount ≤ 0
    · simp only [perform, transfer, decision, if_pos hpos]
    by_cases heq : accNo = toAccNo
    · simp only [perform, transfer, decision, if_neg hpos, if_pos heq]
    rcases hfrom : s.accounts.get accNo with _ | acc
    · simp only [perform, transfer, decision, if_neg hpos, if_neg heq, getAccount, hfrom]
    rcases hto : s.accounts.get toAccNo with _ | toAcc
    · simp only [perform, transfer, decision, if_neg hpos, if_neg heq, getAccount, hfrom, hto]
    rcases hcheck : checkAuth acc name pw with err | u
    · simp only [perform, transfer, decision, if_neg hpos, if_neg heq, getAccount, hfrom, hto,
        hcheck]
    · simp only [perform, transfer, decision, if_neg hpos, if_neg heq, getAccount, hfrom, hto,
        hcheck]
      split_ifs <;> rfl

theorem perform_settled (s : MemoryStore M) {op : Op M} (hopen : op.isOpen = false) (k : UInt32) :
    (perform s op).1.accounts.get k = settled op (perform s op).2 k (s.accounts.get k) := by
  have heff := perform_effect s op
  generalize (perform s op).1 = s' at heff ⊢
  generalize (perform s op).2 = res at heff ⊢
  cases heff with
  | opened => cases hopen
  | closed hauth haccounts => rw [haccounts, FiniteMap.get_delete]; rfl
  | checked => rfl
  | deposited hpos hauth hcurr haccounts =>
    rw [haccounts, FiniteMap.get_set, settled]
    split_ifs with hk
    · rw [hk, hauth.stored]
      rfl
    · rfl
  | withdrawn hpos hauth hcurr hfunds haccounts =>
    rw [haccounts, FiniteMap.get_set, settled]
    split_ifs with hk
    · rw [hk, hauth.stored]
      rfl
    · rfl
  | transferred hpos hne hauth hto hcurr hsame hfunds haccounts =>
    rw [haccounts, FiniteMap.get_set, FiniteMap.get_set, settled]
    split_ifs with hk hk'
    · rw [hk, hto]
      rfl
    · rw [hk', hauth.stored]
      rfl
    · rfl
  | refused => rw [settled_failed]

end Decisions
end DistributedBanking.Banking

namespace DistributedBanking.Handler
open Store Banking Marshalling Semantics

section Answers
variable {M : Type} [Money M] [Float64 M]

def answer (s : MemoryStore M) : Option (Request M) → MemoryStore M × UInt8 × Bytes
  | some (.bank op _) =>
    let (s, res) := perform s op
    (s, statusOf res, contentOf res)
  | some (.monitor _) => (s, statusSuccess, [])
  | none => (s, statusErrInternal, [])

variable (now : ℕ) (b : Backend M) (data : Bytes) (addr : UDPAddr)

theorem respond_store :
    (respond now b data addr).1.store = (answer b.store (parseRequest data)).1 := by
  rw [respond]
  rcases (parseRequest data : Option (Request M)) with _ | ⟨op, txName⟩ | timeoutSeconds
  · rfl
  · rfl
  · rfl

theorem respond_reply :
    (respond now b data addr).2 =
      buildReply (requestIDOf data) addr (answer b.store (parseRequest data)).2.1
        (answer b.store (parseRequest data)).2.2 := by
  rw [respond]
  rcases (parseRequest data : Option (Request M)) with _ | ⟨op, txName⟩ | timeoutSeconds
  · rfl
  · rfl
  · rfl

end Answers
end DistributedBanking.Handler
