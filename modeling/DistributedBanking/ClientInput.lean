import DistributedBanking.ClientProtocol

/-!
# What the user types

`build_command` and the prompts it runs through. A prompt takes at most five
lines, trimmed, until one is accepted or says quit. The console keeps the lines
to come, after which `read_line` returns empty ones, and what was shown of
prompts and errors. Characters are those of the C locale; `stod` is the
library's and yields the pattern of a double.
-/

namespace DistributedBanking.ClientInput
open ClientProtocol

inductive Output
  | prompt (fieldName : String)
  | error (msg : String)
  deriving DecidableEq, Repr

structure Console where
  lines : List Bytes
  output : List Output
  deriving DecidableEq, Repr

/-- A `Result` computed at the console, which keeps its state when the result is an error. -/
abbrev Input (α : Type) := ExceptT InternalError (StateM Console) α

inductive NumberError
  | invalidArgument
  | outOfRange
  deriving DecidableEq, Repr

def printPrompt (fieldName : String) : Input Unit :=
  modify fun c => { c with output := c.output ++ [.prompt fieldName] }

def printError (msg : String) : Input Unit :=
  modify fun c => { c with output := c.output ++ [.error msg] }

def readLine : Input Bytes := do
  let c ← get
  set { c with lines := c.lines.tail }
  return c.lines.headD []

def isspace (c : UInt8) : Bool := c = 32 || (9 ≤ c && c ≤ 13)
def isdigit (c : UInt8) : Bool := 48 ≤ c && c ≤ 57
def isupper (c : UInt8) : Bool := 65 ≤ c && c ≤ 90
def islower (c : UInt8) : Bool := 97 ≤ c && c ≤ 122
def isalpha (c : UInt8) : Bool := isupper c || islower c
def isalnum (c : UInt8) : Bool := isalpha c || isdigit c
def toupper (c : UInt8) : UInt8 := if islower c then c - 32 else c

def trimString (str : Bytes) : Bytes :=
  ((str.dropWhile isspace).reverse.dropWhile isspace).reverse

def isAlpha (str : Bytes) : Bool := !str.isEmpty && str.all isalpha
def isAlphaNumeric (str : Bytes) : Bool := !str.isEmpty && str.all isalnum

def maxTries : ℕ := 5
def maxPwLen : ℕ := 8

def isWithinMaxLength (str : Bytes) : Bool := !str.isEmpty && str.length ≤ maxPwLen

def ascii (s : String) : Bytes := s.toList.map fun c => UInt8.ofNat c.toNat

def quit : Bytes := ascii "quit"

/-- The loop of all prompts: `accept` converts a trimmed line or gives the error to show. -/
def getValidated {α : Type} (prompt : String) (accept : Bytes → Except String α)
    (exhausted : InternalError) : ℕ → Input α
  | 0 => do
    printError "Exceeded Maximum Tries"
    throw exhausted
  | tries + 1 => do
    printPrompt (prompt ++ " (or type 'quit' to cancel)")
    let input := trimString (← readLine)
    if input = quit then throw .userCanceled
    else
      match accept input with
      | .ok v => return v
      | .error msg =>
        printError msg
        getValidated prompt accept exhausted tries

def getValidatedString (prompt : String) : Input Bytes :=
  getValidated prompt (fun input =>
    if isAlpha input then .ok input else .error ("Invalid " ++ prompt ++ " string. Try again."))
    .badInput maxTries

def getValidatedPassword (prompt : String) : Input Bytes :=
  getValidated prompt (fun input =>
    if isAlphaNumeric input && isWithinMaxLength input then .ok input
    else .error ("Invalid " ++ prompt ++ " string. Try again.")) .badInput maxTries

def currencySGD : UInt8 := 0
def currencyUSD : UInt8 := 1
def currencyEUR : UInt8 := 2

def stringToCurrency : List (Bytes × UInt8) :=
  [(ascii "SGD", currencySGD), (ascii "USD", currencyUSD), (ascii "EUR", currencyEUR)]

def getValidatedCurrency (prompt : String) : Input UInt8 :=
  getValidated prompt (fun input =>
    match stringToCurrency.lookup (input.map toupper) with
    | some currency => .ok currency
    | none => .error ("Invalid " ++ prompt ++ ". Try again.")) .invalidCurrency maxTries

/-- `std::stoll` in base ten, which reads the longest numeric prefix. -/
def stoll (str : Bytes) : Except NumberError ℤ :=
  let (negative, rest) :=
    match str.dropWhile isspace with
    | 45 :: rest => (true, rest)
    | 43 :: rest => (false, rest)
    | rest => (false, rest)
  let digits := rest.takeWhile isdigit
  if digits.isEmpty then .error .invalidArgument
  else
    let magnitude : ℕ := digits.foldl (fun acc c => acc * 10 + (c.toNat - 48)) 0
    let v : ℤ := if negative then -magnitude else magnitude
    if v < -2 ^ 63 ∨ v > 2 ^ 63 - 1 then .error .outOfRange else .ok v

def numberError (prompt : String) : NumberError → String
  | .invalidArgument => "Invalid " ++ prompt ++ " input. Please enter a number"
  | .outOfRange => "Invalid " ++ prompt ++ " input. Number out of range."

def getValidatedNumber {α : Type} (convert : Bytes → Except NumberError α) (prompt : String) :
    Input α :=
  getValidated prompt (fun input => (convert input).mapError (numberError prompt)) .badInput
    maxTries

def convertUint32 (input : Bytes) : Except NumberError UInt32 :=
  match stoll input with
  | .error err => .error err
  | .ok v =>
    if v < 0 ∨ v > 2 ^ 32 - 1 then .error .outOfRange
    else .ok (UInt32.ofNat v.toNat)

variable (stod : Bytes → Except NumberError UInt64)

def fillAccountCreationDetails (req : Command) : Input Command := do
  let accountOwnerName ← getValidatedString "Account Holder"
  let accountPassword ← getValidatedPassword "Set Password"
  let currency ← getValidatedCurrency "Desired currency (SGD/USD/EUR)"
  let monetaryValue ← getValidatedNumber stod "Initial Deposit"
  return { req with accountOwnerName, accountPassword, currency, monetaryValue }

def fillAuthDetails (req : Command) : Input Command := do
  let accountOwnerName ← getValidatedString "Account Holder"
  let accountNumber ← getValidatedNumber convertUint32 "Account Number"
  let accountPassword ← getValidatedPassword "Account Password"
  return { req with accountOwnerName, accountNumber, accountPassword }

def fillCurrencyDetails (req : Command) : Input Command := do
  let currency ← getValidatedCurrency "Desired currency (SGD/USD/EUR)"
  return { req with currency }

def fillAmountDetails (req : Command) : Input Command := do
  let monetaryValue ← getValidatedNumber stod "Desired Amount"
  return { req with monetaryValue }

def fillTransferAccountDetails (req : Command) : Input Command := do
  let txAccountOwnerName ← getValidatedString "Transfer Account Holder Name"
  let txAccountNumber ← getValidatedNumber convertUint32 "Transfer Account Number"
  return { req with txAccountOwnerName, txAccountNumber }

def fillMonitorDetails (req : Command) : Input Command := do
  let monitorTimeoutSeconds ← getValidatedNumber convertUint32 "Desired Monitor Time (In Seconds)"
  return { req with monitorTimeoutSeconds }

def serviceOpen : UInt8 := 1
def serviceClose : UInt8 := 2
def serviceDeposit : UInt8 := 3
def serviceWithdraw : UInt8 := 4
def serviceMonitor : UInt8 := 5
def serviceGetBalance : UInt8 := 6
def serviceTransferFunds : UInt8 := 7

/-- `user_input` is what `read_int` returned; the cast to the enumeration keeps its low byte. -/
def buildCommand (userInput : ℤ) : Input Command :=
  if userInput = 0 then throw .userQuit
  else
    let serviceType := UInt8.ofNat (userInput % 2 ^ 8).toNat
    let cmd : Command := { service := some serviceType }
    if serviceType = serviceOpen then fillAccountCreationDetails stod cmd
    else if serviceType = serviceClose ∨ serviceType = serviceGetBalance then fillAuthDetails cmd
    else if serviceType = serviceDeposit ∨ serviceType = serviceWithdraw then do
      fillAmountDetails stod (← fillCurrencyDetails (← fillAuthDetails cmd))
    else if serviceType = serviceTransferFunds then do
      let cmd ← fillTransferAccountDetails (← fillAuthDetails cmd)
      fillAmountDetails stod (← fillCurrencyDetails cmd)
    else if serviceType = serviceMonitor then do fillMonitorDetails (← fillAuthDetails cmd)
    else do
      printError "Invalid Selection"
      throw .invalidService

/-- With some lines at the console the prompts come to this value. -/
def Yields {α : Type} (x : Input α) (v : α) : Prop := ∃ c c', x.run.run c = (.ok v, c')

section Yields
variable {α β : Type}

theorem Yields.bind {x : Input α} {f : α → Input β} {v : β} (h : Yields (x >>= f) v) :
    ∃ a, Yields x a ∧ Yields (f a) v := by
  obtain ⟨c, c', hrun⟩ := h
  rcases hx : x.run.run c with ⟨err | a, c₁⟩
  · have hfail : (x >>= f).run.run c = (.error err, c₁) := by
      simp only [ExceptT.run_bind, StateT.run_bind, hx]
      rfl
    rw [hrun] at hfail
    cases hfail
  · have hnext : (x >>= f).run.run c = (f a).run.run c₁ := by
      simp only [ExceptT.run_bind, StateT.run_bind, hx]
      rfl
    rw [hrun] at hnext
    exact ⟨a, ⟨c, c₁, hx⟩, c₁, c', hnext.symm⟩

theorem Yields.pure {v w : α} (h : Yields (Pure.pure v : Input α) w) : w = v := by
  obtain ⟨c, c', hrun⟩ := h
  cases hrun
  rfl

theorem not_yields_throw {err : InternalError} {v : α} : ¬ Yields (throw err : Input α) v := by
  intro hyields
  obtain ⟨c, c', hrun⟩ := hyields
  cases hrun

theorem Yields.getValidated {prompt : String} {accept : Bytes → Except String α}
    {exhausted : InternalError} {tries : ℕ} {v : α}
    (h : Yields (getValidated prompt accept exhausted tries) v) :
    ∃ line, accept (trimString line) = .ok v := by
  induction tries with
  | zero =>
    obtain ⟨_, -, hthrow⟩ := h.bind
    exact absurd hthrow not_yields_throw
  | succ tries ih =>
    obtain ⟨_, -, h⟩ := h.bind
    obtain ⟨line, -, h⟩ := h.bind
    dsimp only at h
    split_ifs at h
    · exact absurd h not_yields_throw
    · split at h
      · exact ⟨line, by rw [h.pure]; assumption⟩
      · obtain ⟨_, -, h⟩ := h.bind
        exact ih h

end Yields

theorem yields_string {prompt : String} {v : Bytes} (h : Yields (getValidatedString prompt) v) :
    isAlpha v = true := by
  obtain ⟨line, hline⟩ := h.getValidated
  split_ifs at hline with halpha
  · cases hline
    exact halpha

def isPassword (pw : Bytes) : Bool := isAlphaNumeric pw && isWithinMaxLength pw

theorem yields_password {prompt : String} {v : Bytes} (h : Yields (getValidatedPassword prompt) v) :
    isPassword v = true := by
  obtain ⟨line, hline⟩ := h.getValidated
  split_ifs at hline with hvalid
  · cases hline
    exact hvalid

/-- The commands that `build_command` puts together, one rule for each way through its switch. -/
inductive Built : Command → Prop
  | opening {name pw : Bytes} {currency : UInt8} {value : UInt64} (hname : isAlpha name)
      (hpw : isPassword pw) :
      Built
        { service := serviceOpen, accountOwnerName := name, accountPassword := pw,
          currency := currency, monetaryValue := value }
  | authenticated {service : UInt8} {name pw : Bytes} {accNo : UInt32}
      (hservice : service = serviceClose ∨ service = serviceGetBalance) (hname : isAlpha name)
      (hpw : isPassword pw) :
      Built
        { service := service, accountOwnerName := name, accountNumber := accNo,
          accountPassword := pw }
  | payment {service currency : UInt8} {name pw : Bytes} {accNo : UInt32} {value : UInt64}
      (hservice : service = serviceDeposit ∨ service = serviceWithdraw) (hname : isAlpha name)
      (hpw : isPassword pw) :
      Built
        { service := service, accountOwnerName := name, accountNumber := accNo,
          accountPassword := pw, currency := currency, monetaryValue := value }
  | transfer {name pw txName : Bytes} {currency : UInt8} {accNo txAccNo : UInt32} {value : UInt64}
      (hname : isAlpha name) (hpw : isPassword pw) (htxName : isAlpha txName) :
      Built
        { service := serviceTransferFunds, accountOwnerName := name, accountNumber := accNo,
          accountPassword := pw, txAccountOwnerName := txName, txAccountNumber := txAccNo,
          currency := currency, monetaryValue := value }
  | monitor {name pw : Bytes} {accNo timeout : UInt32} (hname : isAlpha name)
      (hpw : isPassword pw) :
      Built
        { service := serviceMonitor, accountOwnerName := name, accountNumber := accNo,
          accountPassword := pw, monitorTimeoutSeconds := timeout }

theorem yields_authDetails {req cmd : Command} (h : Yields (fillAuthDetails req) cmd) :
    ∃ name accNo pw, isAlpha name = true ∧ isPassword pw = true ∧
      cmd =
        { req with accountOwnerName := some name, accountNumber := some accNo,
                   accountPassword := some pw } := by
  obtain ⟨name, hname, h⟩ := h.bind
  obtain ⟨accNo, -, h⟩ := h.bind
  obtain ⟨pw, hpw, h⟩ := h.bind
  exact ⟨name, accNo, pw, yields_string hname, yields_password hpw, h.pure⟩

variable {stod}

theorem yields_payment {req cmd : Command}
    (h : Yields (do fillAmountDetails stod (← fillCurrencyDetails req)) cmd) :
    ∃ currency value,
      cmd = { req with currency := some currency, monetaryValue := some value } := by
  obtain ⟨_, hcurrency, h⟩ := h.bind
  obtain ⟨currency, -, hcurrency⟩ := hcurrency.bind
  obtain ⟨value, -, h⟩ := h.bind
  exact ⟨currency, value, by rw [h.pure, hcurrency.pure]⟩

theorem yields_buildCommand {userInput : ℤ} {cmd : Command}
    (h : Yields (buildCommand stod userInput) cmd) :
    Built cmd ∧ cmd.service = some (UInt8.ofNat (userInput % 2 ^ 8).toNat) := by
  rw [buildCommand] at h
  dsimp only at h
  split_ifs at h with hquit hopen hauth hpayment htransfer hmonitor
  · exact absurd h not_yields_throw
  · obtain ⟨name, hname, h⟩ := h.bind
    obtain ⟨pw, hpw, h⟩ := h.bind
    obtain ⟨currency, -, h⟩ := h.bind
    obtain ⟨value, -, h⟩ := h.bind
    rw [h.pure, hopen]
    exact ⟨.opening (yields_string hname) (yields_password hpw), rfl⟩
  · obtain ⟨name, accNo, pw, hname, hpw, rfl⟩ := yields_authDetails h
    exact ⟨.authenticated hauth hname hpw, rfl⟩
  · obtain ⟨_, hdetails, h⟩ := h.bind
    obtain ⟨name, accNo, pw, hname, hpw, rfl⟩ := yields_authDetails hdetails
    obtain ⟨currency, value, rfl⟩ := yields_payment h
    exact ⟨.payment hpayment hname hpw, rfl⟩
  · obtain ⟨_, hdetails, h⟩ := h.bind
    obtain ⟨name, accNo, pw, hname, hpw, rfl⟩ := yields_authDetails hdetails
    obtain ⟨_, htx, h⟩ := h.bind
    obtain ⟨txName, htxName, htx⟩ := htx.bind
    obtain ⟨txAccNo, -, htx⟩ := htx.bind
    obtain ⟨currency, value, rfl⟩ := yields_payment h
    rw [htx.pure, htransfer]
    exact ⟨.transfer hname hpw (yields_string htxName), rfl⟩
  · obtain ⟨_, hdetails, h⟩ := h.bind
    obtain ⟨name, accNo, pw, hname, hpw, rfl⟩ := yields_authDetails hdetails
    obtain ⟨timeout, -, h⟩ := h.bind
    rw [h.pure, hmonitor]
    exact ⟨.monitor hname hpw, rfl⟩
  · obtain ⟨_, -, h⟩ := h.bind
    exact absurd h not_yields_throw

end DistributedBanking.ClientInput
