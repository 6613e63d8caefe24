import DistributedBanking.Store

/-!
# The banking service

Each operation returns the store it leaves behind and Go's `(value, error)`
pair as an `Except`. Looking an account up, checking the credentials and
locking it come in the source's order; a failed lookup is reported as wrong
credentials, except for the destination of a transfer.
-/

namespace DistributedBanking.Banking
open Store

inductive BankingError
  | errInvalidCredentials
  | errAccountMismatch
  | errCurrencyMismatch
  | errInsufficientFunds
  | errTransferSameAccount
  | errAccountNotFound
  | errNonPositiveAmount
  | store (err : StoreError)
  deriving DecidableEq, Repr

variable {M : Type}

def checkAuth (acc : Account M) (name : Bytes) (pw : Vector UInt8 8) : Except BankingError Unit :=
  if acc.password ≠ pw then .error .errInvalidCredentials
  else if acc.holderName ≠ name then .error .errAccountMismatch
  else .ok ()

/-- The opening balance is stored as it comes; the account number is set by the store. -/
def openAccount (s : MemoryStore M) (name : Bytes) (pw : Vector UInt8 8) (curr : UInt8)
    (balance : M) : MemoryStore M × UInt32 :=
  createAccount s ⟨0, name, pw, curr, balance⟩

def closeAccount (s : MemoryStore M) (name : Bytes) (accNo : UInt32) (pw : Vector UInt8 8) :
    MemoryStore M × Except BankingError Unit :=
  match getAccount s accNo with
  | .error _ => (s, .error .errInvalidCredentials)
  | .ok acc =>
    match checkAuth acc name pw with
    | .error err => (s, .error err)
    | .ok () =>
      match deleteAccount s accNo with
      | (s, .error err) => (s, .error (.store err))
      | (s, .ok ()) => (s, .ok ())

def checkBalance (s : MemoryStore M) (name : Bytes) (accNo : UInt32) (pw : Vector UInt8 8) :
    Except BankingError M :=
  match getAccount s accNo with
  | .error _ => .error .errInvalidCredentials
  | .ok acc =>
    match checkAuth acc name pw with
    | .error err => .error err
    | .ok () => .ok acc.balance

variable [Money M]

def deposit (s : MemoryStore M) (name : Bytes) (accNo : UInt32) (pw : Vector UInt8 8)
    (curr : UInt8) (amount : M) : MemoryStore M × Except BankingError M :=
  if amount ≤ 0 then (s, .error .errNonPositiveAmount)
  else
    match getAccount s accNo with
    | .error _ => (s, .error .errInvalidCredentials)
    | .ok acc =>
      match checkAuth acc name pw with
      | .error err => (s, .error err)
      | .ok () =>
        if acc.currencyType ≠ curr then (s, .error .errCurrencyMismatch)
        else
          -- The shared object is written first, whatever UpdateAccount then answers.
          let balance := acc.balance + amount
          match updateAccount (setBalance s accNo balance) { acc with balance } with
          | (s, .error err) => (s, .error (.store err))
          | (s, .ok ()) => (s, .ok balance)

def withdraw (s : MemoryStore M) (name : Bytes) (accNo : UInt32) (pw : Vector UInt8 8)
    (curr : UInt8) (amount : M) : MemoryStore M × Except BankingError M :=
  if amount ≤ 0 then (s, .error .errNonPositiveAmount)
  else
    match getAccount s accNo with
    | .error _ => (s, .error .errInvalidCredentials)
    | .ok acc =>
      match checkAuth acc name pw with
      | .error err => (s, .error err)
      | .ok () =>
        if acc.currencyType ≠ curr then (s, .error .errCurrencyMismatch)
        else if acc.balance < amount then (s, .error .errInsufficientFunds)
        else
          let balance := acc.balance - amount
          match updateAccount (setBalance s accNo balance) { acc with balance } with
          | (s, .error err) => (s, .error (.store err))
          | (s, .ok ()) => (s, .ok balance)

def transfer (s : MemoryStore M) (fromName : Bytes) (fromAccNo : UInt32) (pw : Vector UInt8 8)
    (toAccNo : UInt32) (curr : UInt8) (amount : M) : MemoryStore M × Except BankingError (M × M) :=
  if amount ≤ 0 then (s, .error .errNonPositiveAmount)
  else if fromAccNo = toAccNo then (s, .error .errTransferSameAccount)
  else
    match getAccount s fromAccNo with
    | .error _ => (s, .error .errInvalidCredentials)
    | .ok fromAcc =>
      match getAccount s toAccNo with
      | .error _ => (s, .error .errAccountNotFound)
      | .ok toAcc =>
        match checkAuth fromAcc fromName pw with
        | .error err => (s, .error err)
        | .ok () =>
          if fromAcc.currencyType ≠ curr ∨ fromAcc.currencyType ≠ toAcc.currencyType then
            (s, .error .errCurrencyMismatch)
          else if fromAcc.balance < amount then (s, .error .errInsufficientFunds)
          else
            let fromBalance := fromAcc.balance - amount
            let toBalance := toAcc.balance + amount
            let s := setBalance (setBalance s fromAccNo fromBalance) toAccNo toBalance
            -- The errors of both UpdateAccount calls are dropped.
            let s := (updateAccount s { fromAcc with balance := fromBalance }).1
            let s := (updateAccount s { toAcc with balance := toBalance }).1
            (s, .ok (fromBalance, toBalance))

end DistributedBanking.Banking
