import DistributedBanking.Banking
import DistributedBanking.Monitor
import DistributedBanking.Semantics

/-!
# The request handler

One function for each service, as the source has them: the required fields are
checked against nil, then dereferenced, converted and passed to the bank, and
the outcome is turned into a reply and the callbacks. `now` is the clock that
`Register` and `NotifyAll` read.
-/

namespace DistributedBanking.Handler
open Store Banking Marshalling Monitor Semantics

def serviceOpenAccount : UInt8 := 1
def serviceCloseAccount : UInt8 := 2
def serviceDeposit : UInt8 := 3
def serviceWithdraw : UInt8 := 4
def serviceMonitor : UInt8 := 5
def serviceGetBalance : UInt8 := 6
def serviceTransferFunds : UInt8 := 7

def statusSuccess : UInt8 := 0
def statusErrAccNotFound : UInt8 := 1
def statusErrInvalidCreds : UInt8 := 2
def statusErrAccMismatch : UInt8 := 3
def statusErrCurrMismatch : UInt8 := 4
def statusErrInsuffFunds : UInt8 := 5
def statusErrSameAccount : UInt8 := 6
def statusErrInternal : UInt8 := 7

def mapBankingError : BankingError → UInt8
  | .errInvalidCredentials => statusErrInvalidCreds
  | .errAccountMismatch => statusErrAccMismatch
  | .errCurrencyMismatch => statusErrCurrMismatch
  | .errInsufficientFunds => statusErrInsuffFunds
  | .errTransferSameAccount => statusErrSameAccount
  | .errAccountNotFound => statusErrAccNotFound
  -- `ErrNonPositiveAmount` and the store's own error have no case of their own.
  | _ => statusErrInternal

structure Backend (M : Type) where
  store : MemoryStore M
  mon : Manager

variable {M : Type} [Money M] [Float64 M]

def handleOpen (now : ℕ) (cmd : ParsedCommand M) (reqID : UInt32) (addr : UDPAddr)
    (b : Backend M) : Go (Backend M × Bytes) :=
  if cmd.accountOwnerName.isNone || cmd.accountPassword.isNone || cmd.currency.isNone ||
      cmd.monetaryValue.isNone then
    return (b, buildErrorReply reqID addr statusErrInternal)
  else do
    let name ← deref cmd.accountOwnerName
    let pw := passwordStringToFixed (← deref cmd.accountPassword)
    let currency ← deref cmd.currency
    let value ← deref cmd.monetaryValue
    let (store, accNo) := openAccount b.store name pw currency value
    let content := encodeTLVFields [tlvUint32 fieldAccountNumber accNo]
    let mon := b.mon.notifyAll now ⟨serviceOpenAccount, accNo, name, currency, value⟩
    return (⟨store, mon⟩, buildReply reqID addr statusSuccess content)

def handleClose (now : ℕ) (cmd : ParsedCommand M) (reqID : UInt32) (addr : UDPAddr)
    (b : Backend M) : Go (Backend M × Bytes) :=
  if cmd.accountOwnerName.isNone || cmd.accountNumber.isNone || cmd.accountPassword.isNone then
    return (b, buildErrorReply reqID addr statusErrInternal)
  else do
    let name ← deref cmd.accountOwnerName
    let accNo ← deref cmd.accountNumber
    let pw := passwordStringToFixed (← deref cmd.accountPassword)
    match closeAccount b.store name accNo pw with
    | (store, .error err) =>
      return (⟨store, b.mon⟩, buildErrorReply reqID addr (mapBankingError err))
    | (store, .ok ()) =>
      let mon := b.mon.notifyAll now (⟨serviceCloseAccount, accNo, name, 0, 0⟩ : AccountUpdate M)
      return (⟨store, mon⟩, buildReply reqID addr statusSuccess [])

def handleDeposit (now : ℕ) (cmd : ParsedCommand M) (reqID : UInt32) (addr : UDPAddr)
    (b : Backend M) : Go (Backend M × Bytes) :=
  if cmd.accountOwnerName.isNone || cmd.accountNumber.isNone || cmd.accountPassword.isNone ||
      cmd.currency.isNone || cmd.monetaryValue.isNone then
    return (b, buildErrorReply reqID addr statusErrInternal)
  else do
    let name ← deref cmd.accountOwnerName
    let accNo ← deref cmd.accountNumber
    let pw := passwordStringToFixed (← deref cmd.accountPassword)
    let currency ← deref cmd.currency
    let value ← deref cmd.monetaryValue
    match deposit b.store name accNo pw currency value with
    | (store, .error err) =>
      return (⟨store, b.mon⟩, buildErrorReply reqID addr (mapBankingError err))
    | (store, .ok newBalance) =>
      let content := encodeTLVFields [tlvFloat64 fieldMonetaryValue newBalance]
      let mon := b.mon.notifyAll now ⟨serviceDeposit, accNo, name, currency, newBalance⟩
      return (⟨store, mon⟩, buildReply reqID addr statusSuccess content)

def handleWithdraw (now : ℕ) (cmd : ParsedCommand M) (reqID : UInt32) (addr : UDPAddr)
    (b : Backend M) : Go (Backend M × Bytes) :=
  if cmd.accountOwnerName.isNone || cmd.accountNumber.isNone || cmd.accountPassword.isNone ||
      cmd.currency.isNone || cmd.monetaryValue.isNone then
    return (b, buildErrorReply reqID addr statusErrInternal)
  else do
    let name ← deref cmd.accountOwnerName
    let accNo ← deref cmd.accountNumber
    let pw := passwordStringToFixed (← deref cmd.accountPassword)
    let currency ← deref cmd.currency
    let value ← deref cmd.monetaryValue
    match withdraw b.store name accNo pw currency value with
    | (store, .error err) =>
      return (⟨store, b.mon⟩, buildErrorReply reqID addr (mapBankingError err))
    | (store, .ok newBalance) =>
      let content := encodeTLVFields [tlvFloat64 fieldMonetaryValue newBalance]
      let mon := b.mon.notifyAll now ⟨serviceWithdraw, accNo, name, currency, newBalance⟩
      return (⟨store, mon⟩, buildReply reqID addr statusSuccess content)

omit [Money M] [Float64 M] in
def handleMonitor (now : ℕ) (cmd : ParsedCommand M) (reqID : UInt32) (addr : UDPAddr)
    (b : Backend M) : Go (Backend M × Bytes) :=
  if cmd.monitorTimeoutSeconds.isNone then
    return (b, buildErrorReply reqID addr statusErrInternal)
  else do
    let interval := (← deref cmd.monitorTimeoutSeconds).toNat * second
    let mon := b.mon.register now addr interval
    return (⟨b.store, mon⟩, buildReply reqID addr statusSuccess [])

omit [Money M] in
def handleGetBalance (cmd : ParsedCommand M) (reqID : UInt32) (addr : UDPAddr)
    (b : Backend M) : Go (Backend M × Bytes) :=
  if cmd.accountOwnerName.isNone || cmd.accountNumber.isNone || cmd.accountPassword.isNone then
    return (b, buildErrorReply reqID addr statusErrInternal)
  else do
    let name ← deref cmd.accountOwnerName
    let accNo ← deref cmd.accountNumber
    let pw := passwordStringToFixed (← deref cmd.accountPassword)
    match checkBalance b.store name accNo pw with
    | .error err => return (b, buildErrorReply reqID addr (mapBankingError err))
    | .ok balance =>
      let content := encodeTLVFields [tlvFloat64 fieldMonetaryValue balance]
      return (b, buildReply reqID addr statusSuccess content)

def handleTransfer (now : ℕ) (cmd : ParsedCommand M) (reqID : UInt32) (addr : UDPAddr)
    (b : Backend M) : Go (Backend M × Bytes) :=
  if cmd.accountOwnerName.isNone || cmd.accountNumber.isNone || cmd.accountPassword.isNone ||
      cmd.txAccountNumber.isNone || cmd.txAccountOwnerName.isNone || cmd.currency.isNone ||
      cmd.monetaryValue.isNone then
    return (b, buildErrorReply reqID addr statusErrInternal)
  else do
    let name ← deref cmd.accountOwnerName
    let accNo ← deref cmd.accountNumber
    let pw := passwordStringToFixed (← deref cmd.accountPassword)
    let toAccNo ← deref cmd.txAccountNumber
    let currency ← deref cmd.currency
    let value ← deref cmd.monetaryValue
    match transfer b.store name accNo pw toAccNo currency value with
    | (store, .error err) =>
      return (⟨store, b.mon⟩, buildErrorReply reqID addr (mapBankingError err))
    | (store, .ok (senderNewBalance, receiverNewBalance)) =>
      let content := encodeTLVFields [tlvFloat64 fieldMonetaryValue senderNewBalance]
      -- The source reads the clock in each `NotifyAll`; here both have the time of the request.
      let mon := b.mon.notifyAll now ⟨serviceTransferFunds, accNo, name, 0, senderNewBalance⟩
      let txName ← deref cmd.txAccountOwnerName
      let mon := mon.notifyAll now
        ⟨serviceTransferFunds, toAccNo, txName, 0, receiverNewBalance⟩
      return (⟨store, mon⟩, buildReply reqID addr statusSuccess content)

def buildHandler (bits now : ℕ) : RequestHandler (Backend M) := fun b data addr => do
  match ← parseHeader data with
  | .error _ => return (b, buildErrorReply 0 addr statusErrInternal)
  | .ok header =>
    let payload ← slice data headerSize data.length
    match ← decodeTLV bits payload with
    | .error _ => return (b, buildErrorReply header.requestID addr statusErrInternal)
    | .ok cmd =>
      if cmd.service.isNone then
        return (b, buildErrorReply header.requestID addr statusErrInternal)
      else
        let serviceID ← deref cmd.service
        if serviceID = serviceOpenAccount then handleOpen now cmd header.requestID addr b
        else if serviceID = serviceCloseAccount then handleClose now cmd header.requestID addr b
        else if serviceID = serviceDeposit then handleDeposit now cmd header.requestID addr b
        else if serviceID = serviceWithdraw then handleWithdraw now cmd header.requestID addr b
        else if serviceID = serviceMonitor then handleMonitor now cmd header.requestID addr b
        else if serviceID = serviceGetBalance then handleGetBalance cmd header.requestID addr b
        else if serviceID = serviceTransferFunds then
          handleTransfer now cmd header.requestID addr b
        else return (b, buildErrorReply header.requestID addr statusErrInternal)

end DistributedBanking.Handler
