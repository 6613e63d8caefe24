import DistributedBanking.FiniteMap
import DistributedBanking.Money

/-!
# Accounts and the in-memory store

An account object is reachable from exactly one entry of the map, so a write
through the pointer that `GetAccount` returned is a write to that entry
(`setBalance`). The field `keyed` says that an account stands under its own
number; every operation re-establishes it. The mutexes order concurrent calls
and do nothing in a sequential run.
-/

namespace DistributedBanking

/-- `models.Account` without its mutex. -/
structure Account (M : Type) where
  accountNumber : UInt32
  holderName : Bytes
  password : Vector UInt8 8
  currencyType : UInt8
  balance : M
  deriving DecidableEq

namespace Store

inductive StoreError
  | errAccountNotFound
  deriving DecidableEq, Repr

structure MemoryStore (M : Type) where
  accounts : FiniteMap UInt32 (Account M)
  nextID : UInt32
  keyed : ∀ id acc, accounts.get id = some acc → acc.accountNumber = id

variable {M : Type}

@[ext] theorem MemoryStore.ext {s t : MemoryStore M} (ha : s.accounts = t.accounts)
    (hn : s.nextID = t.nextID) : s = t := by
  cases s
  cases t
  simp_all

theorem keyed_set {accounts : FiniteMap UInt32 (Account M)}
    (h : ∀ id acc, accounts.get id = some acc → acc.accountNumber = id) {k : UInt32}
    {a : Account M} (hk : a.accountNumber = k) :
    ∀ id acc, (accounts.set k a).get id = some acc → acc.accountNumber = id := by
  intro id acc hget
  rw [FiniteMap.get_set] at hget
  split_ifs at hget with hid
  · simp_all
  · exact h id acc hget

theorem keyed_delete {accounts : FiniteMap UInt32 (Account M)}
    (h : ∀ id acc, accounts.get id = some acc → acc.accountNumber = id) (k : UInt32) :
    ∀ id acc, (accounts.delete k).get id = some acc → acc.accountNumber = id := by
  intro id acc hget
  rw [FiniteMap.get_delete] at hget
  split_ifs at hget
  exact h id acc hget

def newMemoryStore : MemoryStore M := ⟨∅, 10000, by simp⟩

/-- The map write has no occupancy check, and `nextID` wraps at 32 bits. -/
def createAccount (s : MemoryStore M) (acc : Account M) : MemoryStore M × UInt32 :=
  let id := s.nextID
  let acc := { acc with accountNumber := id }
  (⟨s.accounts.set id acc, s.nextID + 1, keyed_set s.keyed rfl⟩, id)

def getAccount (s : MemoryStore M) (id : UInt32) : Except StoreError (Account M) :=
  match s.accounts.get id with
  | some acc => .ok acc
  | none => .error .errAccountNotFound

/-- `acc.Balance = balance` through the pointer stored under `id`. -/
def setBalance (s : MemoryStore M) (id : UInt32) (balance : M) : MemoryStore M :=
  match h : s.accounts.get id with
  | none => s
  | some acc =>
    ⟨s.accounts.set id { acc with balance }, s.nextID, keyed_set s.keyed (s.keyed id acc h)⟩

def updateAccount (s : MemoryStore M) (acc : Account M) : MemoryStore M × Except StoreError Unit :=
  match s.accounts.get acc.accountNumber with
  | none => (s, .error .errAccountNotFound)
  | some _ => (⟨s.accounts.set acc.accountNumber acc, s.nextID, keyed_set s.keyed rfl⟩, .ok ())

def deleteAccount (s : MemoryStore M) (id : UInt32) : MemoryStore M × Except StoreError Unit :=
  match s.accounts.get id with
  | none => (s, .error .errAccountNotFound)
  | some _ => (⟨s.accounts.delete id, s.nextID, keyed_delete s.keyed id⟩, .ok ())

theorem createAccount_accounts (s : MemoryStore M) (acc : Account M) :
    (createAccount s acc).1.accounts =
      s.accounts.set s.nextID { acc with accountNumber := s.nextID } := rfl

theorem getAccount_ok {s : MemoryStore M} {id : UInt32} {acc : Account M} :
    getAccount s id = .ok acc ↔ s.accounts.get id = some acc := by
  rw [getAccount]
  split <;> simp_all

theorem setBalance_accounts {s : MemoryStore M} {id : UInt32} {acc : Account M}
    (h : s.accounts.get id = some acc) (balance : M) :
    (setBalance s id balance).accounts = s.accounts.set id { acc with balance } := by
  rw [setBalance]
  split <;> simp_all

@[simp] theorem setBalance_nextID (s : MemoryStore M) (id : UInt32) (balance : M) :
    (setBalance s id balance).nextID = s.nextID := by
  rw [setBalance]
  split <;> rfl

theorem updateAccount_self {s : MemoryStore M} {acc : Account M}
    (h : s.accounts.get acc.accountNumber = some acc) : updateAccount s acc = (s, .ok ()) := by
  rw [updateAccount]
  split
  · simp_all
  · refine Prod.ext (MemoryStore.ext ?_ rfl) rfl
    exact FiniteMap.set_get _ h

theorem updateAccount_setBalance {s : MemoryStore M} {id : UInt32} {acc : Account M}
    (h : s.accounts.get id = some acc) (balance : M) :
    updateAccount (setBalance s id balance) { acc with balance } =
      (setBalance s id balance, .ok ()) := by
  apply updateAccount_self
  have hid : acc.accountNumber = id := s.keyed id acc h
  simp [setBalance_accounts h, hid]

theorem deleteAccount_some {s : MemoryStore M} {id : UInt32} {acc : Account M}
    (h : s.accounts.get id = some acc) :
    deleteAccount s id =
      (⟨s.accounts.delete id, s.nextID, keyed_delete s.keyed id⟩, .ok ()) := by
  rw [deleteAccount]
  split <;> simp_all

end Store
end DistributedBanking
