import DistributedBanking.BankingEffect
import DistributedBanking.Threads

/-!
# Concurrent calls of the bank

The service as its callers run it side by side: accounts are objects behind
pointers, each with its own mutex, and the store has a readers-writer lock.
Every access to a field, to the map or to a lock is a step of its own. The
balance is the only field that is written after an object is in the store.
-/

namespace DistributedBanking.Concurrent
open Store Banking Threads

/-- A pointer to an account object. `CreateAccount` numbers an object once, before it is shared. -/
structure Ref where
  accountNumber : UInt32
  serial : ℕ
  deriving DecidableEq

/-- `acc.Mu` of an account object, and `mu` of the store. -/
inductive Lock
  | account (acc : Ref)
  | store
  deriving DecidableEq

structure Memory (M : Type) where
  objects : Ref → Account M
  accounts : FiniteMap UInt32 Ref
  nextID : UInt32
  allocated : ℕ
  named : ∀ acc, (objects acc).accountNumber = acc.accountNumber
  keyed : ∀ id acc, accounts.get id = some acc → acc.accountNumber = id

variable {M : Type}

namespace Memory

def setBalance (s : Memory M) (acc : Ref) (balance : M) : Memory M :=
  { s with
    objects := Function.update s.objects acc { s.objects acc with balance }
    named := by
      intro acc'
      by_cases h : acc' = acc
      · subst h
        simp [s.named]
      · simp [h, s.named] }

def setEntry (s : Memory M) (acc : Ref) : Memory M :=
  { s with
    accounts := s.accounts.set (s.objects acc).accountNumber acc
    keyed := by
      intro id acc' hget
      rw [FiniteMap.get_set] at hget
      split_ifs at hget with hid
      · cases hget
        rw [hid, s.named]
      · exact s.keyed id acc' hget }

def deleteEntry (s : Memory M) (id : UInt32) : Memory M :=
  { s with
    accounts := s.accounts.delete id
    keyed := by
      intro id' acc hget
      rw [FiniteMap.get_delete] at hget
      split_ifs at hget
      exact s.keyed id' acc hget }

def fresh (s : Memory M) (acc : Account M) : Ref := ⟨acc.accountNumber, s.allocated⟩

def allocate (s : Memory M) (acc : Account M) : Memory M :=
  { s with
    objects := Function.update s.objects (s.fresh acc) acc
    allocated := s.allocated + 1
    named := by
      intro acc'
      by_cases h : acc' = s.fresh acc
      · subst h
        simp [fresh]
      · simp [h, s.named] }

/-- The store as the pointers show it. -/
def view (s : Memory M) : MemoryStore M where
  accounts := s.accounts.map s.objects
  nextID := s.nextID
  keyed := by
    intro id acc hget
    rw [FiniteMap.get_map, Option.map_eq_some_iff] at hget
    obtain ⟨ref, href, rfl⟩ := hget
    rw [s.named, s.keyed id ref href]

@[ext] theorem ext {s t : Memory M} (ho : s.objects = t.objects)
    (ha : s.accounts = t.accounts) (hn : s.nextID = t.nextID) (hl : s.allocated = t.allocated) :
    s = t := by
  cases s
  cases t
  simp_all

@[simp] theorem setBalance_accounts (s : Memory M) (acc : Ref) (balance : M) :
    (s.setBalance acc balance).accounts = s.accounts := rfl

@[simp] theorem setBalance_objects (s : Memory M) (acc : Ref) (balance : M) :
    (s.setBalance acc balance).objects =
      Function.update s.objects acc { s.objects acc with balance } := rfl

@[simp] theorem view_get (s : Memory M) (id : UInt32) :
    s.view.accounts.get id = (s.accounts.get id).map s.objects :=
  FiniteMap.get_map s.objects s.accounts id

@[simp] theorem view_nextID (s : Memory M) : s.view.nextID = s.nextID := rfl

theorem ref_ne {s : Memory M} {id id' : UInt32} {acc acc' : Ref} (h : s.accounts.get id = some acc)
    (h' : s.accounts.get id' = some acc') (hne : id ≠ id') : acc ≠ acc' := by
  intro hsame
  subst hsame
  exact hne ((s.keyed id acc h).symm.trans (s.keyed id' acc h'))

theorem setEntry_self {s : Memory M} {acc : Ref} (h : s.accounts.get acc.accountNumber = some acc) :
    s.setEntry acc = s :=
  ext rfl (FiniteMap.set_get _ (by rwa [s.named])) rfl rfl

end Memory

section Store

/-- `NewMemoryStore()`. No pointer has been given out, so it does not matter what they show. -/
def newMemory [Zero M] : Memory M where
  objects acc := ⟨acc.accountNumber, [], .replicate 8 0, 0, 0⟩
  accounts := ∅
  nextID := 10000
  allocated := 0
  named _ := rfl
  keyed := by simp

def createAccount (acc : Account M) : Prog Lock (Memory M) UInt32 := .writing .store do
  let id ← .read Memory.nextID
  -- The object is known to nobody else until its entry is written.
  let acc := { acc with accountNumber := id }
  let ref ← .act (fun s => s.allocate acc) fun s => .done (s.fresh acc)
  .write fun s => s.setEntry ref
  .write fun s => { s with nextID := s.nextID + 1 }
  return id

def getAccount (id : UInt32) : Prog Lock (Memory M) (Except StoreError Ref) := .reading .store do
  match ← .read fun s => s.accounts.get id with
  | none => return .error .errAccountNotFound
  | some acc => return .ok acc

def updateAccount (acc : Ref) : Prog Lock (Memory M) (Except StoreError Unit) :=
  .writing .store do
    match ← .read fun s => s.accounts.get (s.objects acc).accountNumber with
    | none => return .error .errAccountNotFound
    | some _ =>
      .write fun s => s.setEntry acc
      return .ok ()

def deleteAccount (id : UInt32) : Prog Lock (Memory M) (Except StoreError Unit) :=
  .writing .store do
    match ← .read fun s => s.accounts.get id with
    | none => return .error .errAccountNotFound
    | some _ =>
      .write fun s => s.deleteEntry id
      return .ok ()

end Store

def openAccount (name : Bytes) (pw : Vector UInt8 8) (curr : UInt8) (balance : M) :
    Prog Lock (Memory M) UInt32 :=
  createAccount ⟨0, name, pw, curr, balance⟩

def closeAccount (name : Bytes) (accNo : UInt32) (pw : Vector UInt8 8) :
    Prog Lock (Memory M) (Except BankingError Unit) := do
  match ← getAccount accNo with
  | .error _ => return .error .errInvalidCredentials
  | .ok acc =>
    match ← .read fun s => checkAuth (s.objects acc) name pw with
    | .error err => return .error err
    | .ok () => .locked (.account acc) do
      match ← deleteAccount accNo with
      | .error err => return .error (.store err)
      | .ok () => return .ok ()

def checkBalance (name : Bytes) (accNo : UInt32) (pw : Vector UInt8 8) :
    Prog Lock (Memory M) (Except BankingError M) := do
  match ← getAccount accNo with
  | .error _ => return .error .errInvalidCredentials
  | .ok acc =>
    match ← .read fun s => checkAuth (s.objects acc) name pw with
    | .error err => return .error err
    | .ok () => .locked (.account acc) do
      let balance ← .read fun s => (s.objects acc).balance
      return .ok balance

def adjust (acc : Ref) (f : M → M) : Prog Lock (Memory M) Unit := do
  let balance ← .read fun s => (s.objects acc).balance
  .write fun s => s.setBalance acc (f balance)

/-- What Deposit and Withdraw end with: the object's balance, or the error of the store. -/
def settle (acc : Ref) : Prog Lock (Memory M) (Except BankingError M) := do
  match ← updateAccount acc with
  | .error err => return .error (.store err)
  | .ok () =>
    let balance ← .read fun s => (s.objects acc).balance
    return .ok balance

variable [Money M]

def deposit (name : Bytes) (accNo : UInt32) (pw : Vector UInt8 8) (curr : UInt8) (amount : M) :
    Prog Lock (Memory M) (Except BankingError M) :=
  if amount ≤ 0 then return .error .errNonPositiveAmount
  else do
    match ← getAccount accNo with
    | .error _ => return .error .errInvalidCredentials
    | .ok acc =>
      match ← .read fun s => checkAuth (s.objects acc) name pw with
      | .error err => return .error err
      | .ok () => .locked (.account acc) do
        let currencyType ← .read fun s => (s.objects acc).currencyType
        if currencyType ≠ curr then return .error .errCurrencyMismatch
        else do
          adjust acc (· + amount)
          settle acc

def withdraw (name : Bytes) (accNo : UInt32) (pw : Vector UInt8 8) (curr : UInt8) (amount : M) :
    Prog Lock (Memory M) (Except BankingError M) :=
  if amount ≤ 0 then return .error .errNonPositiveAmount
  else do
    match ← getAccount accNo with
    | .error _ => return .error .errInvalidCredentials
    | .ok acc =>
      match ← .read fun s => checkAuth (s.objects acc) name pw with
      | .error err => return .error err
      | .ok () => .locked (.account acc) do
        let currencyType ← .read fun s => (s.objects acc).currencyType
        if currencyType ≠ curr then return .error .errCurrencyMismatch
        else do
          let balance ← .read fun s => (s.objects acc).balance
          if balance < amount then return .error .errInsufficientFunds
          else do
            adjust acc (· - amount)
            settle acc

def lockInOrder (fromAcc toAcc : Ref) : Prog Lock (Memory M) Unit := do
  let fromNo ← .read fun s => (s.objects fromAcc).accountNumber
  let toNo ← .read fun s => (s.objects toAcc).accountNumber
  if fromNo < toNo then do
    .op .lock (.account fromAcc)
    .op .lock (.account toAcc)
  else do
    .op .lock (.account toAcc)
    .op .lock (.account fromAcc)

def move (fromAcc toAcc : Ref) (amount : M) :
    Prog Lock (Memory M) (Except BankingError (M × M)) := do
  let balance ← .read fun s => (s.objects fromAcc).balance
  if balance < amount then return .error .errInsufficientFunds
  else do
    adjust fromAcc (· - amount)
    adjust toAcc (· + amount)
    -- The errors of both UpdateAccount calls are dropped.
    let _ ← updateAccount fromAcc
    let _ ← updateAccount toAcc
    let fromBalance ← .read fun s => (s.objects fromAcc).balance
    let toBalance ← .read fun s => (s.objects toAcc).balance
    return .ok (fromBalance, toBalance)

def transfer (fromName : Bytes) (fromAccNo : UInt32) (pw : Vector UInt8 8) (toAccNo : UInt32)
    (curr : UInt8) (amount : M) : Prog Lock (Memory M) (Except BankingError (M × M)) :=
  if amount ≤ 0 then return .error .errNonPositiveAmount
  else if fromAccNo = toAccNo then return .error .errTransferSameAccount
  else do
    match ← getAccount fromAccNo with
    | .error _ => return .error .errInvalidCredentials
    | .ok fromAcc =>
      match ← getAccount toAccNo with
      | .error _ => return .error .errAccountNotFound
      | .ok toAcc =>
        match ← .read fun s => checkAuth (s.objects fromAcc) fromName pw with
        | .error err => return .error err
        | .ok () =>
          let fromCurrency ← .read fun s => (s.objects fromAcc).currencyType
          let toCurrency ← .read fun s => (s.objects toAcc).currencyType
          if fromCurrency ≠ curr ∨ fromCurrency ≠ toCurrency then
            return .error .errCurrencyMismatch
          else do
            lockInOrder fromAcc toAcc
            let res ← move fromAcc toAcc amount
            .op .unlock (.account toAcc)
            .op .unlock (.account fromAcc)
            return res

def program : Op M → Prog Lock (Memory M) (Result M)
  | .openAccount name pw curr balance => do
    let accNo ← openAccount name pw curr balance
    return .opened accNo
  | .closeAccount name accNo pw => do
    match ← closeAccount name accNo pw with
    | .ok () => return .closed
    | .error err => return .failed err
  | .checkBalance name accNo pw => do
    match ← checkBalance name accNo pw with
    | .ok b => return .balance b
    | .error err => return .failed err
  | .deposit name accNo pw curr amount => do
    match ← deposit name accNo pw curr amount with
    | .ok b => return .balance b
    | .error err => return .failed err
  | .withdraw name accNo pw curr amount => do
    match ← withdraw name accNo pw curr amount with
    | .ok b => return .balance b
    | .error err => return .failed err
  | .transfer fromName fromAccNo pw toAccNo curr amount => do
    match ← transfer fromName fromAccNo pw toAccNo curr amount with
    | .ok (f, t) => return .balances f t
    | .error err => return .failed err

def start {ι : Type} (s : Memory M) (calls : ι → Op M) : Config ι Lock (Memory M) (Result M) :=
  Threads.start s fun i => program (calls i)

def twoAccounts : Memory ℚ :=
  let s := ((openAccount [65] (.replicate 8 0) 1 100).alone newMemory).2
  ((openAccount [66] (.replicate 8 0) 1 50).alone s).2

end DistributedBanking.Concurrent
