import DistributedBanking.BankingEffect
import DistributedBanking.Handler
import DistributedBanking.TLVDecoding

/-!
# What the handler does with a packet

A packet either holds a request, with every field its service needs, or is
answered with an internal error. `serve` is the meaning of a request: one call
of the bank with the callbacks it causes, or a registration. `buildHandler_eq`
says that the handler is exactly this on every datagram.
-/

namespace DistributedBanking.Handler
open Store Banking Marshalling Monitor Semantics

inductive Request (M : Type)
  | bank (op : Op M) (txName : Bytes)
  | monitor (timeoutSeconds : UInt32)

section Requests
variable {M : Type}

def openRequest (cmd : ParsedCommand M) : Option (Request M) := do
  let name ← cmd.accountOwnerName
  let pw ← cmd.accountPassword
  let currency ← cmd.currency
  let value ← cmd.monetaryValue
  return .bank (.openAccount name (passwordStringToFixed pw) currency value) []

def closeRequest (cmd : ParsedCommand M) : Option (Request M) := do
  let name ← cmd.accountOwnerName
  let accNo ← cmd.accountNumber
  let pw ← cmd.accountPassword
  return .bank (.closeAccount name accNo (passwordStringToFixed pw)) []

def depositRequest (cmd : ParsedCommand M) : Option (Request M) := do
  let name ← cmd.accountOwnerName
  let accNo ← cmd.accountNumber
  let pw ← cmd.accountPassword
  let currency ← cmd.currency
  let value ← cmd.monetaryValue
  return .bank (.deposit name accNo (passwordStringToFixed pw) currency value) []

def withdrawRequest (cmd : ParsedCommand M) : Option (Request M) := do
  let name ← cmd.accountOwnerName
  let accNo ← cmd.accountNumber
  let pw ← cmd.accountPassword
  let currency ← cmd.currency
  let value ← cmd.monetaryValue
  return .bank (.withdraw name accNo (passwordStringToFixed pw) currency value) []

def monitorRequest (cmd : ParsedCommand M) : Option (Request M) := do
  let timeoutSeconds ← cmd.monitorTimeoutSeconds
  return .monitor timeoutSeconds

def getBalanceRequest (cmd : ParsedCommand M) : Option (Request M) := do
  let name ← cmd.accountOwnerName
  let accNo ← cmd.accountNumber
  let pw ← cmd.accountPassword
  return .bank (.checkBalance name accNo (passwordStringToFixed pw)) []

def transferRequest (cmd : ParsedCommand M) : Option (Request M) := do
  let name ← cmd.accountOwnerName
  let accNo ← cmd.accountNumber
  let pw ← cmd.accountPassword
  let toAccNo ← cmd.txAccountNumber
  let txName ← cmd.txAccountOwnerName
  let currency ← cmd.currency
  let value ← cmd.monetaryValue
  return .bank (.transfer name accNo (passwordStringToFixed pw) toAccNo currency value) txName

def requestOf (cmd : ParsedCommand M) : Option (Request M) := do
  let serviceID ← cmd.service
  if serviceID = serviceOpenAccount then openRequest cmd
  else if serviceID = serviceCloseAccount then closeRequest cmd
  else if serviceID = serviceDeposit then depositRequest cmd
  else if serviceID = serviceWithdraw then withdrawRequest cmd
  else if serviceID = serviceMonitor then monitorRequest cmd
  else if serviceID = serviceGetBalance then getBalanceRequest cmd
  else if serviceID = serviceTransferFunds then transferRequest cmd
  else none

end Requests

theorem buildReply_header (reqID : UInt32) (addr : UDPAddr) (status : UInt8) (content : Bytes) :
    buildReply reqID addr status content =
      headerBytes ⟨msgTypeReply, 0, reqID, ipv4ToUint32 addr, addr.port, status.toUInt16,
        UInt32.ofNat content.length⟩ ++ content := by
  simp [buildReply_eq, headerBytes]

theorem buildReply_statusCode (reqID : UInt32) (addr : UDPAddr) (status : UInt8)
    (content : Bytes) :
    (headerOf (buildReply reqID addr status content)).statusCode = status.toUInt16 := by
  rw [buildReply_header, headerOf_headerBytes]

section Serve
variable {M : Type} [Money M] [Float64 M]

omit [Float64 M] in
def updatesOf (op : Op M) (txName : Bytes) (res : Result M) : List (AccountUpdate M) :=
  match op, res with
  | .openAccount name _ curr balance, .opened accNo =>
    [⟨serviceOpenAccount, accNo, name, curr, balance⟩]
  | .closeAccount name accNo _, .closed => [⟨serviceCloseAccount, accNo, name, 0, 0⟩]
  | .deposit name accNo _ curr _, .balance b => [⟨serviceDeposit, accNo, name, curr, b⟩]
  | .withdraw name accNo _ curr _, .balance b => [⟨serviceWithdraw, accNo, name, curr, b⟩]
  | .transfer name accNo _ toAccNo _ _, .balances f t =>
    [⟨serviceTransferFunds, accNo, name, 0, f⟩, ⟨serviceTransferFunds, toAccNo, txName, 0, t⟩]
  | _, _ => []

omit [Money M] [Float64 M] in
def statusOf : Result M → UInt8
  | .failed err => mapBankingError err
  | _ => statusSuccess

omit [Money M] in
def contentOf : Result M → Bytes
  | .opened accNo => encodeTLVFields [tlvUint32 fieldAccountNumber accNo]
  | .balance b => encodeTLVFields [tlvFloat64 fieldMonetaryValue b]
  | .balances f _ => encodeTLVFields [tlvFloat64 fieldMonetaryValue f]
  | .closed => []
  | .failed _ => []

structure Outcome (M : Type) where
  backend : Backend M
  status : UInt8
  content : Bytes

def serve (now : ℕ) (addr : UDPAddr) (b : Backend M) : Request M → Outcome M
  | .bank op txName =>
    let (store, res) := perform b.store op
    ⟨⟨store, (updatesOf op txName res).foldl (fun mon u => mon.notifyAll now u) b.mon⟩,
      statusOf res, contentOf res⟩
  | .monitor timeoutSeconds =>
    ⟨⟨b.store, b.mon.register now addr (timeoutSeconds.toNat * second)⟩, statusSuccess, []⟩

def refusal (b : Backend M) : Outcome M := ⟨b, statusErrInternal, []⟩

def outcome (now : ℕ) (addr : UDPAddr) (b : Backend M) : Option (Request M) → Outcome M
  | none => refusal b
  | some req => serve now addr b req

def Outcome.reply (o : Outcome M) (reqID : UInt32) (addr : UDPAddr) : Backend M × Bytes :=
  (o.backend, buildReply reqID addr o.status o.content)

theorem mapBankingError_ne_success (err : BankingError) : mapBankingError err ≠ statusSuccess := by
  cases err <;> simp [mapBankingError, statusSuccess, statusErrInvalidCreds, statusErrAccMismatch,
    statusErrCurrMismatch, statusErrInsuffFunds, statusErrSameAccount, statusErrAccNotFound,
    statusErrInternal]

omit [Money M] [Float64 M] in
theorem statusOf_success {r : Result M} : statusOf r = statusSuccess ↔ r.Succeeds := by
  cases r with
  | failed err => simp [statusOf, Result.Succeeds, mapBankingError_ne_success]
  | _ => simp [statusOf, Result.Succeeds]

variable (now : ℕ) (cmd : ParsedCommand M) (reqID : UInt32) (addr : UDPAddr) (b : Backend M)

theorem handleOpen_eq :
    handleOpen now cmd reqID addr b =
      .ok ((outcome now addr b (openRequest cmd)).reply reqID addr) := by
  obtain ⟨service, accNo, name, pw, txNo, txName, value, curr, updates, timeout⟩ := cmd
  rcases name with _ | name
  · rfl
  rcases pw with _ | pw
  · rfl
  rcases curr with _ | curr
  · rfl
  rcases value with _ | value
  · rfl
  rfl

theorem handleClose_eq :
    handleClose now cmd reqID addr b =
      .ok ((outcome now addr b (closeRequest cmd)).reply reqID addr) := by
  obtain ⟨service, accNo, name, pw, txNo, txName, value, curr, updates, timeout⟩ := cmd
  rcases name with _ | name
  · rfl
  rcases accNo with _ | accNo
  · rfl
  rcases pw with _ | pw
  · rfl
  rcases h : closeAccount b.store name accNo (passwordStringToFixed pw) with ⟨store, err | u⟩
  · simp [handleClose, closeRequest, outcome, serve, perform, h, ok_bind, Outcome.reply,
      updatesOf, statusOf, contentOf, buildErrorReply, pure, Except.pure]
  · simp [handleClose, closeRequest, outcome, serve, perform, h, ok_bind, Outcome.reply,
      updatesOf, statusOf, contentOf, pure, Except.pure]

theorem handleDeposit_eq :
    handleDeposit now cmd reqID addr b =
      .ok ((outcome now addr b (depositRequest cmd)).reply reqID addr) := by
  obtain ⟨service, accNo, name, pw, txNo, txName, value, curr, updates, timeout⟩ := cmd
  rcases name with _ | name
  · rfl
  rcases accNo with _ | accNo
  · rfl
  rcases pw with _ | pw
  · rfl
  rcases curr with _ | curr
  · rfl
  rcases value with _ | value
  · rfl
  rcases h : deposit b.store name accNo (passwordStringToFixed pw) curr value with
    ⟨store, err | newBalance⟩
  · simp [handleDeposit, depositRequest, outcome, serve, perform, h, ok_bind, Outcome.reply,
      updatesOf, statusOf, contentOf, buildErrorReply, pure, Except.pure]
  · simp [handleDeposit, depositRequest, outcome, serve, perform, h, ok_bind, Outcome.reply,
      updatesOf, statusOf, contentOf, pure, Except.pure]

theorem handleWithdraw_eq :
    handleWithdraw now cmd reqID addr b =
      .ok ((outcome now addr b (withdrawRequest cmd)).reply reqID addr) := by
  obtain ⟨service, accNo, name, pw, txNo, txName, value, curr, updates, timeout⟩ := cmd
  rcases name with _ | name
  · rfl
  rcases accNo with _ | accNo
  · rfl
  rcases pw with _ | pw
  · rfl
  rcases curr with _ | curr
  · rfl
  rcases value with _ | value
  · rfl
  rcases h : withdraw b.store name accNo (passwordStringToFixed pw) curr value with
    ⟨store, err | newBalance⟩
  · simp [handleWithdraw, withdrawRequest, outcome, serve, perform, h, ok_bind, Outcome.reply,
      updatesOf, statusOf, contentOf, buildErrorReply, pure, Except.pure]
  · simp [handleWithdraw, withdrawRequest, outcome, serve, perform, h, ok_bind, Outcome.reply,
      updatesOf, statusOf, contentOf, pure, Except.pure]

theorem handleMonitor_eq :
    handleMonitor now cmd reqID addr b =
      .ok ((outcome now addr b (monitorRequest cmd)).reply reqID addr) := by
  obtain ⟨service, accNo, name, pw, txNo, txName, value, curr, updates, timeout⟩ := cmd
  rcases timeout with _ | timeout
  · rfl
  rfl

theorem handleGetBalance_eq :
    handleGetBalance cmd reqID addr b =
      .ok ((outcome now addr b (getBalanceRequest cmd)).reply reqID addr) := by
  obtain ⟨service, accNo, name, pw, txNo, txName, value, curr, updates, timeout⟩ := cmd
  rcases name with _ | name
  · rfl
  rcases accNo with _ | accNo
  · rfl
  rcases pw with _ | pw
  · rfl
  rcases h : checkBalance b.store name accNo (passwordStringToFixed pw) with err | balance
  · simp [handleGetBalance, getBalanceRequest, outcome, serve, perform, h, ok_bind, Outcome.reply,
      updatesOf, statusOf, contentOf, buildErrorReply, pure, Except.pure]
  · simp [handleGetBalance, getBalanceRequest, outcome, serve, perform, h, ok_bind, Outcome.reply,
      updatesOf, statusOf, contentOf, pure, Except.pure]

theorem handleTransfer_eq :
    handleTransfer now cmd reqID addr b =
      .ok ((outcome now addr b (transferRequest cmd)).reply reqID addr) := by
  obtain ⟨service, accNo, name, pw, txNo, txName, value, curr, updates, timeout⟩ := cmd
  rcases name with _ | name
  · rfl
  rcases accNo with _ | accNo
  · rfl
  rcases pw with _ | pw
  · rfl
  rcases txNo with _ | txNo
  · rfl
  rcases txName with _ | txName
  · rfl
  rcases curr with _ | curr
  · rfl
  rcases value with _ | value
  · rfl
  rcases h : transfer b.store name accNo (passwordStringToFixed pw) txNo curr value with
    ⟨store, err | newBalances⟩
  · simp [handleTransfer, transferRequest, outcome, serve, perform, h, ok_bind, Outcome.reply,
      updatesOf, statusOf, contentOf, buildErrorReply, pure, Except.pure]
  · simp [handleTransfer, transferRequest, outcome, serve, perform, h, ok_bind, Outcome.reply,
      updatesOf, statusOf, contentOf, pure, Except.pure]

def parseRequest (data : Bytes) : Option (Request M) :=
  if data.length < headerSize then none
  else
    match decodeTLV 64 (data.drop headerSize) with
    | .ok (.ok cmd) => requestOf cmd
    | _ => none

def requestIDOf (data : Bytes) : UInt32 :=
  if data.length < headerSize then 0 else (headerOf data).requestID

def respond (now : ℕ) (b : Backend M) (data : Bytes) (addr : UDPAddr) : Backend M × Bytes :=
  (outcome now addr b (parseRequest data)).reply (requestIDOf data) addr

theorem respond_requestID (data : Bytes) :
    (headerOf (respond now b data addr).2).requestID = requestIDOf data := by
  rw [respond, Outcome.reply, buildReply_header, headerOf_headerBytes]

theorem route_eq :
    (if cmd.service.isNone then
        return (b, buildErrorReply reqID addr statusErrInternal)
      else do
        let serviceID ← deref cmd.service
        if serviceID = serviceOpenAccount then handleOpen now cmd reqID addr b
        else if serviceID = serviceCloseAccount then handleClose now cmd reqID addr b
        else if serviceID = serviceDeposit then handleDeposit now cmd reqID addr b
        else if serviceID = serviceWithdraw then handleWithdraw now cmd reqID addr b
        else if serviceID = serviceMonitor then handleMonitor now cmd reqID addr b
        else if serviceID = serviceGetBalance then handleGetBalance cmd reqID addr b
        else if serviceID = serviceTransferFunds then handleTransfer now cmd reqID addr b
        else return (b, buildErrorReply reqID addr statusErrInternal) : Go (Backend M × Bytes)) =
      .ok ((outcome now addr b (requestOf cmd)).reply reqID addr) := by
  rw [handleOpen_eq, handleClose_eq, handleDeposit_eq, handleWithdraw_eq, handleMonitor_eq,
    handleGetBalance_eq, handleTransfer_eq]
  rcases hservice : cmd.service with _ | serviceID
  · simp [requestOf, hservice, outcome, refusal, Outcome.reply, buildErrorReply, pure, Except.pure]
  · simp only [requestOf, hservice, Option.isNone_some, Bool.false_eq_true, if_false, deref_some,
      ok_bind, Option.bind_eq_bind, Option.bind_some]
    split_ifs
    all_goals rfl

theorem buildHandler_eq {data : Bytes} (hlen : data.length < 2 ^ 62) :
    buildHandler 64 now b data addr = .ok (respond now b data addr) := by
  by_cases hshort : data.length < headerSize
  · rw [buildHandler, parseHeader_short hshort, ok_bind, respond, parseRequest, if_pos hshort,
      requestIDOf, if_pos hshort]
    rfl
  · have hheader : headerSize ≤ data.length := not_lt.mp hshort
    have hslice : slice data headerSize data.length = .ok (data.drop headerSize) := by
      rw [slice_of_le hheader le_rfl, List.take_of_length_le (by simp)]
    have hpayload : (data.drop headerSize).length < 2 ^ 62 := by
      rw [List.length_drop]
      omega
    obtain ⟨r, hr⟩ := decodeTLV_total (M := M) hpayload
    rw [buildHandler, parseHeader_ok hheader, ok_bind]
    simp only [hslice, ok_bind, hr, respond, parseRequest, if_neg hshort, requestIDOf]
    cases r with
    | error err => rfl
    | ok cmd => exact route_eq now cmd _ addr b

theorem respond_effect (data : Bytes) :
    (∃ op txName, parseRequest (M := M) data = some (.bank op txName) ∧
        (respond now b data addr).1.store = (perform b.store op).1) ∨
      (∀ op txName, parseRequest (M := M) data ≠ some (.bank op txName)) ∧
        (respond now b data addr).1.store = b.store := by
  rcases hreq : (parseRequest data : Option (Request M)) with _ | ⟨op, txName⟩ | timeoutSeconds
  · right
    exact ⟨by simp, by simp only [respond, hreq, outcome, refusal, Outcome.reply]⟩
  · left
    exact ⟨op, txName, rfl, by simp only [respond, hreq, outcome, serve, Outcome.reply]⟩
  · right
    exact ⟨by simp, by simp only [respond, hreq, outcome, serve, Outcome.reply]⟩

end Serve

section Fields
variable {M : Type}

def Carries (cmd : ParsedCommand M) : Op M → Prop
  | .openAccount name pw curr balance => cmd.service = some serviceOpenAccount ∧
    cmd.accountOwnerName = some name ∧ cmd.accountPassword.map passwordStringToFixed = some pw ∧
    cmd.currency = some curr ∧ cmd.monetaryValue = some balance
  | .closeAccount name accNo pw => cmd.service = some serviceCloseAccount ∧
    cmd.accountOwnerName = some name ∧ cmd.accountNumber = some accNo ∧
    cmd.accountPassword.map passwordStringToFixed = some pw
  | .checkBalance name accNo pw => cmd.service = some serviceGetBalance ∧
    cmd.accountOwnerName = some name ∧ cmd.accountNumber = some accNo ∧
    cmd.accountPassword.map passwordStringToFixed = some pw
  | .deposit name accNo pw curr amount => cmd.service = some serviceDeposit ∧
    cmd.accountOwnerName = some name ∧ cmd.accountNumber = some accNo ∧
    cmd.accountPassword.map passwordStringToFixed = some pw ∧ cmd.currency = some curr ∧
    cmd.monetaryValue = some amount
  | .withdraw name accNo pw curr amount => cmd.service = some serviceWithdraw ∧
    cmd.accountOwnerName = some name ∧ cmd.accountNumber = some accNo ∧
    cmd.accountPassword.map passwordStringToFixed = some pw ∧ cmd.currency = some curr ∧
    cmd.monetaryValue = some amount
  | .transfer name accNo pw toAccNo curr amount => cmd.service = some serviceTransferFunds ∧
    cmd.accountOwnerName = some name ∧ cmd.accountNumber = some accNo ∧
    cmd.accountPassword.map passwordStringToFixed = some pw ∧
    cmd.txAccountNumber = some toAccNo ∧ cmd.currency = some curr ∧
    cmd.monetaryValue = some amount

theorem requestOf_carries {cmd : ParsedCommand M} {op : Op M} {txName : Bytes}
    (h : requestOf cmd = some (.bank op txName)) : Carries cmd op := by
  simp only [requestOf, Option.bind_eq_bind, Option.bind_eq_some_iff] at h
  obtain ⟨serviceID, hservice, h⟩ := h
  split_ifs at h with h1 h2 h3 h4 h5 h6 h7
  · simp only [openRequest, Option.bind_eq_bind, Option.bind_eq_some_iff] at h
    obtain ⟨name, hname, pw, hpw, curr, hcurr, value, hvalue, hpure⟩ := h
    cases hpure
    exact ⟨h1 ▸ hservice, hname, by rw [hpw]; rfl, hcurr, hvalue⟩
  · simp only [closeRequest, Option.bind_eq_bind, Option.bind_eq_some_iff] at h
    obtain ⟨name, hname, accNo, haccNo, pw, hpw, hpure⟩ := h
    cases hpure
    exact ⟨h2 ▸ hservice, hname, haccNo, by rw [hpw]; rfl⟩
  · simp only [depositRequest, Option.bind_eq_bind, Option.bind_eq_some_iff] at h
    obtain ⟨name, hname, accNo, haccNo, pw, hpw, curr, hcurr, value, hvalue, hpure⟩ := h
    cases hpure
    exact ⟨h3 ▸ hservice, hname, haccNo, by rw [hpw]; rfl, hcurr, hvalue⟩
  · simp only [withdrawRequest, Option.bind_eq_bind, Option.bind_eq_some_iff] at h
    obtain ⟨name, hname, accNo, haccNo, pw, hpw, curr, hcurr, value, hvalue, hpure⟩ := h
    cases hpure
    exact ⟨h4 ▸ hservice, hname, haccNo, by rw [hpw]; rfl, hcurr, hvalue⟩
  · simp only [monitorRequest, Option.bind_eq_bind, Option.bind_eq_some_iff] at h
    obtain ⟨timeout, htimeout, hpure⟩ := h
    cases hpure
  · simp only [getBalanceRequest, Option.bind_eq_bind, Option.bind_eq_some_iff] at h
    obtain ⟨name, hname, accNo, haccNo, pw, hpw, hpure⟩ := h
    cases hpure
    exact ⟨h6 ▸ hservice, hname, haccNo, by rw [hpw]; rfl⟩
  · simp only [transferRequest, Option.bind_eq_bind, Option.bind_eq_some_iff] at h
    obtain ⟨name, hname, accNo, haccNo, pw, hpw, txNo, htxNo, txName, -, curr, hcurr, value, hvalue,
      hpure⟩ := h
    cases hpure
    exact ⟨h7 ▸ hservice, hname, haccNo, by rw [hpw]; rfl, htxNo, hcurr, hvalue⟩

theorem parseRequest_carries [Float64 M] {data : Bytes} {op : Op M} {txName : Bytes}
    (h : parseRequest data = some (.bank op txName)) :
    ∃ cmd, decodeTLV 64 (data.drop headerSize) = .ok (.ok cmd) ∧ Carries cmd op := by
  rw [parseRequest] at h
  split_ifs at h
  rcases hdecode : decodeTLV (M := M) 64 (data.drop headerSize) with e | e | cmd
  · simp [hdecode] at h
  · simp [hdecode] at h
  · simp only [hdecode] at h
    exact ⟨cmd, rfl, requestOf_carries h⟩

end Fields
end DistributedBanking.Handler
