import DistributedBanking.CallbackBounds
import DistributedBanking.CommandRoundTrip
import DistributedBanking.CopyBounds
import DistributedBanking.RetryOutcomes
import DistributedBanking.StandardInput

/-!
# The client program

`BankClient::run` over standard input, a network and a clock. The network is
given by what each request's sends and receives come to, and a listening period
by the time at each test of its loop. The menu, the banners, the boxes and the
colours are left out of what is shown. Which requests are made depends on the
keys alone (`dialogue`).
-/

namespace DistributedBanking.BankClient.Program
open ClientProtocol ClientInput Stdin

/-- What surrounds the client, by the number of the request, from 1. -/
structure Surroundings where
  endian : Endian
  bits : ℕ
  stod : Bytes → Except NumberError UInt64
  -- `std::to_string` of a double.
  toString : UInt64 → String
  socket : ℕ → Socket InternalError
  -- The nanoseconds since `start` at each test of the loop in `listen_server`.
  elapsed : ℕ → ℕ → ℕ
  heard : ℕ → ℕ → Result Bytes InternalError

inductive Fault
  | client (fault : BankClient.Fault)
  | memory (fault : ClientProtocol.Fault)
  deriving DecidableEq, Repr

inductive Action
  | typed (output : Output)
  | exchange (event : Event InternalError)
  | heard (result : Result Bytes InternalError)
  | print (msg : String)
  | printError (msg : String)
  deriving DecidableEq, Repr

structure State where
  cin : Cin
  session : Session
  requests : ℕ
  log : List Action

abbrev Effect := StateT State (Except Fault)

def record (action : Action) : Effect Unit :=
  modify fun s => { s with log := s.log ++ [action] }

def ofCpp {α : Type} : Cpp α → Effect α
  | .ok a => pure a
  | .error fault => throw (.memory fault)

/-- `Protocol::to_string`. -/
def serviceToString (svc : UInt8) : String :=
  if svc = 0 then "SERVICE_NONE"
  else if svc = serviceOpen then "SERVICE_OPEN"
  else if svc = serviceClose then "SERVICE_CLOSE"
  else if svc = serviceDeposit then "SERVICE_DEPOSIT"
  else if svc = serviceWithdraw then "SERVICE_WITHDRAW"
  else if svc = serviceMonitor then "SERVICE_MONITOR"
  else if svc = serviceGetBalance then "SERVICE_GET_BALANCE"
  else if svc = serviceTransferFunds then "SERVICE_TRANSFER_FUNDS"
  else "UNKNOWN_SERVICE"

def currencyToString (curType : UInt8) : String :=
  if curType = currencySGD then "SGD"
  else if curType = currencyUSD then "USD"
  else if curType = currencyEUR then "EUR"
  else "UNKNOWN_CURRENCY _TYPE"

def statusToString (statusCode : UInt16) : String :=
  match statusCode.toNat with
  | 0 => "SUCCESS"
  | 1 => "ACCOUNT_NOT_FOUND"
  | 2 => "INVALID_CREDENTIALS"
  | 3 => "ACCOUNT_MISMATCH"
  | 4 => "CURRENCY_MISMATCH"
  | 5 => "INSUFFICIENT_FUNDS"
  | 6 => "TRANSFER_SAME_ACCOUNT"
  | 7 => "INTERNAL_SERVER_ERROR"
  | _ => "UNKNOWN_STATUS_CODE"

section Source
variable (env : Surroundings) (fuel : ℕ)

def buildCommand : Effect (Except InternalError Command) := do
  let s ← get
  let (userInput, cin) := readInt s.cin
  let (result, t) := Stdin.typed (ClientInput.buildCommand env.stod userInput) ⟨cin, []⟩
  set { s with cin := t.cin, log := s.log ++ t.output.map Action.typed }
  return result

def prepareMessage (cmd : Command) : Effect (Result Bytes InternalError) := do
  let s ← get
  match ← ofCpp (ClientProtocol.prepareMessage env.endian s.session cmd) with
  | .error err =>
    record (.printError ("[Client] Failed to encode command: " ++ errorToString err))
    return .failure err
  | .ok (session, msg) =>
    set { s with session }
    return .success (serialize env.endian msg)

def sendToServer (data : Bytes) : Effect (Result Bytes InternalError) := do
  let s ← get
  let socket := env.socket (s.requests + 1)
  match (BankClient.sendToServer errorToString socket fuel data).run [] with
  | .error fault => throw (.client fault)
  | .ok (result, events) =>
    set { s with requests := s.requests + 1, log := s.log ++ events.map Action.exchange }
    return result

def decodeMessage (data : Bytes) : Effect (Result Message InternalError) := do
  match ← ofCpp (deserialize env.endian env.bits data) with
  | .error err =>
    record (.printError ("[Client] Failed to deserialize response: " ++ errorToString err))
    return .failure err
  | .ok msg => return .success msg

def decodeStatusCode (msg : Message) : Effect (Result Unit InternalError) := do
  let status := statusToString msg.payload.statusCode
  record (.print ("[ SERVER RESPONSE STATUS : " ++ status ++ " ]"))
  match ClientProtocol.decodeStatusCode msg with
  | .error err => return .failure err
  | .ok () => return .success ()

def decodeCommand (msg : Message) : Effect Unit := do
  if msg.payload.content ≠ [] then
    match ← ofCpp (ClientProtocol.decodeMessage env.endian env.bits msg.payload.content) with
    | .error err =>
      record (.printError ("[Client] Failed to decode response content: " ++ errorToString err))
    | .ok resCmd =>
      if let some accountNumber := resCmd.accountNumber then
        record (.print ("Account Number   : " ++ Nat.repr accountNumber.toNat ++ "\n"))
      if let some monetaryValue := resCmd.monetaryValue then
        record (.print ("Balance          : " ++ env.toString monetaryValue ++ "\n"))

def executeRequestPipeline (cmd : Command) : Effect (Result Message InternalError) := do
  match ← prepareMessage env cmd with
  | .failure err => return .failure err
  | .success request =>
    match ← sendToServer env fuel request with
    | .failure err => return .failure err
    | .success response =>
      match ← decodeMessage env response with
      | .failure err => return .failure err
      | .success resMsg =>
        match ← decodeStatusCode resMsg with
        | .failure err => return .failure err
        | .success () => return .success resMsg

def executeClientReq (cmd : Command) : Effect Unit := do
  if cmd.service = some serviceMonitor then return
  match ← executeRequestPipeline env fuel cmd with
  | .failure _ => return
  | .success res => decodeCommand env res

def showCallback (msg : CallbackMessage) : Effect Unit := do
  record (.print "[ MONITOR CALLBACK UPDATE ]\n")
  record (.print ("Service          : " ++ serviceToString msg.service ++ "\n"))
  record (.print ("Account Number   : " ++ Nat.repr msg.accountNumber.toNat ++ "\n"))
  record (.print ("Account Holder   : " ++ text msg.accountOwnerName ++ "\n"))
  record (.print ("Currency         : " ++ currencyToString msg.currency ++ "\n"))
  record (.print ("New Balance      : " ++ env.toString msg.monetaryValue ++ "\n"))
where
  -- Each byte is shown as a character of its own.
  text (bytes : Bytes) : String := String.ofList (bytes.map fun c => Char.ofNat c.toNat)

/-- What `listen_server` does with what it has received. -/
def routeResponse : Result Bytes InternalError → Effect Unit
  | .failure err => do
    if err ≠ .receiveTimeout then
      record (.printError ("[Client] Failed to listen to server: " ++ errorToString err))
  | .success raw => do
    if isCallback raw then
      match ← ofCpp (CallbackEncoder.decodeMessage env.endian raw) with
      | .error err =>
        record (.printError ("[Client] Failed to listen to server: " ++ errorToString err))
      | .ok msg => showCallback env msg

def seconds (time : UInt32) : ℕ := time.toNat * 10 ^ 9

/-- The loop from its `j`-th test on. -/
def listenServer (time : UInt32) : ℕ → ℕ → Effect Unit
  | 0, _ => throw (.client .nonTermination)
  | rounds + 1, j => do
    let number := (← get).requests
    if env.elapsed number j < seconds time then
      record (.heard (env.heard number j))
      routeResponse env (env.heard number j)
      listenServer time rounds (j + 1)

def monitorServerUpdates (cmd : Command) : Effect Unit := do
  if cmd.service ≠ some serviceMonitor then return
  match ← executeRequestPipeline env fuel cmd with
  | .failure _ => return
  | .success res =>
    decodeCommand env res
    record (.print "[ Listening TO SERVER ]\n")
    listenServer env (← ofCpp (value cmd.monitorTimeoutSeconds)) fuel 0

/-- The two ways that `run` takes with a command. -/
def request (req : Command) : Effect Unit :=
  if req.service = some serviceMonitor then monitorServerUpdates env fuel req
  else executeClientReq env fuel req

/-- `run` for at most `rounds` rounds of its loop. -/
def run : ℕ → Effect Unit
  | 0 => throw (.client .nonTermination)
  | rounds + 1 => do
    match ← buildCommand env with
    | .error err =>
      if err ≠ .userCanceled then record (.printError (errorToString err))
      else run rounds
    | .ok req =>
      record (.print "[ SENDING REQUEST TO SERVER ]\n")
      request env fuel req
      modify fun s => { s with cin := waitForEnter s.cin }
      run rounds

end Source

def commandsFrom (rest : Cin → List Command) (t : Terminal) :
    Except InternalError Command → List Command
  | .error err => if err = .userCanceled then rest t.cin else []
  | .ok cmd => cmd :: rest (waitForEnter t.cin)

/-- The commands that the keys make the client send, whatever the network does. -/
def dialogue (stod : Bytes → Except NumberError UInt64) : ℕ → Cin → List Command
  | 0, _ => []
  | rounds + 1, cin =>
    let (userInput, cin) := readInt cin
    let (result, t) := Stdin.typed (ClientInput.buildCommand stod userInput) ⟨cin, []⟩
    commandsFrom (dialogue stod rounds) t result

section Rules
variable {α β : Type}

def Action.sentData : Action → Option Bytes
  | .exchange event => event.sentData
  | _ => none

/-- The program does not fault, and what it returns and leaves meets `Q`. -/
def Ends (x : Effect α) (s : State) (Q : α → State → Prop) : Prop :=
  ∃ a s', x.run s = .ok (a, s') ∧ Q a s'

variable {x : Effect α} {f : α → Effect β} {s s' s'' : State} {P : α → State → Prop}
  {R : β → State → Prop}

theorem Ends.pure {a : α} {Q : α → State → Prop} (h : Q a s) :
    Ends (Pure.pure a : Effect α) s Q := ⟨a, s, rfl, h⟩

theorem Ends.bind (hx : Ends x s P) (hf : ∀ a s', P a s' → Ends (f a) s' R) :
    Ends (x >>= f) s R := by
  obtain ⟨a, s', hrun, hP⟩ := hx
  obtain ⟨b, s'', hrun', hR⟩ := hf a s' hP
  refine ⟨b, s'', ?_, hR⟩
  rw [StateT.run_bind, hrun]
  exact hrun'

theorem Ends.get {g : State → Effect β} (h : Ends (g s) s R) : Ends (get >>= g) s R := h

structure Sends (s s' : State) (session : Session) (requests : ℕ) (data : List Bytes) :
    Prop where
  cin : s'.cin = s.cin
  session : s'.session = session
  requests : s'.requests = requests
  log : s'.log.filterMap Action.sentData = s.log.filterMap Action.sentData ++ data

def Silent (s s' : State) : Prop := Sends s s' s.session s.requests []

theorem Silent.refl (s : State) : Silent s s := ⟨rfl, rfl, rfl, (List.append_nil _).symm⟩

theorem Sends.silent {session : Session} {requests : ℕ} {data : List Bytes}
    (h : Sends s s' session requests data) (hquiet : Silent s' s'') :
    Sends s s'' session requests data where
  cin := hquiet.cin.trans h.cin
  session := hquiet.session.trans h.session
  requests := hquiet.requests.trans h.requests
  log := by rw [hquiet.log, h.log, List.append_nil]

theorem Silent.sends {session : Session} {requests : ℕ} {data : List Bytes}
    (hquiet : Silent s s') (h : Sends s' s'' session requests data) :
    Sends s s'' session requests data where
  cin := h.cin.trans hquiet.cin
  session := h.session
  requests := h.requests
  log := by rw [h.log, hquiet.log, List.append_nil]

theorem Silent.trans (h : Silent s s') (h' : Silent s' s'') : Silent s s'' := by
  rw [Silent, h.session.symm, h.requests.symm]
  exact h.sends h'

def Quiet (x : Effect α) : Prop := ∀ s, Ends x s fun _ => Silent s

theorem Quiet.pure (a : α) : Quiet (Pure.pure a : Effect α) := fun s => .pure (.refl s)

theorem Quiet.bind (hx : Quiet x) (hf : ∀ a, Quiet (f a)) : Quiet (x >>= f) := by
  intro s
  apply (hx s).bind
  intro a s' hquiet
  obtain ⟨b, s'', hrun, hquiet'⟩ := hf a s'
  exact ⟨b, s'', hrun, hquiet.trans hquiet'⟩

theorem Quiet.ite {p : Prop} [Decidable p] {x y : Effect α} (hx : Quiet x) (hy : Quiet y) :
    Quiet (if p then x else y) := by
  split_ifs
  · exact hx
  · exact hy

theorem quiet_record {action : Action} (h : action.sentData = none) : Quiet (record action) := by
  intro s
  refine ⟨(), _, rfl, rfl, rfl, rfl, ?_⟩
  rw [List.filterMap_append]
  simp [h]

theorem quiet_print (msg : String) : Quiet (record (.print msg)) := quiet_record rfl

theorem quiet_printError (msg : String) : Quiet (record (.printError msg)) := quiet_record rfl

theorem quiet_ofCpp {y : Cpp α} {a : α} (h : y = .ok a) {g : α → Effect β}
    (hg : Quiet (g a)) : Quiet (ofCpp y >>= g) := by
  rw [h, ofCpp, pure_bind]
  exact hg

end Rules

section Parts
variable {env : Surroundings} {fuel : ℕ}

theorem exists_of_sound {α : Type} {data : Bytes} {x : Logged α} {y : Cpp α}
    (h : Sound data x y) : ∃ a, y = .ok a := by
  obtain ⟨a, -, -, hy, -⟩ := h [] fun c hc => by cases hc
  exact ⟨a, hy⟩

theorem quiet_decodeMessage (hbits : 32 ≤ env.bits) (data : Bytes) :
    Quiet (decodeMessage env data) := by
  obtain ⟨result, hresult⟩ :=
    exists_of_sound (sound_deserialize env.endian hbits)
  apply quiet_ofCpp hresult
  cases result with
  | error err => exact (quiet_printError _).bind fun _ => .pure _
  | ok msg => exact .pure _

theorem quiet_decodeStatusCode (msg : Message) : Quiet (decodeStatusCode msg) := by
  apply (quiet_print _).bind
  intro _
  cases ClientProtocol.decodeStatusCode msg with
  | error err => exact .pure _
  | ok u => exact .pure _

theorem quiet_decodeCommand (hbits : 32 ≤ env.bits) (msg : Message) :
    Quiet (decodeCommand env msg) := by
  rw [decodeCommand]
  apply Quiet.ite
  · obtain ⟨result, hresult⟩ :=
      exists_of_sound (sound_decodeMessage env.endian hbits)
    apply quiet_ofCpp hresult
    cases result with
    | error err => exact quiet_printError _
    | ok resCmd =>
      dsimp only
      cases resCmd.accountNumber with
      | none =>
        cases resCmd.monetaryValue with
        | none => exact .pure _
        | some v => exact quiet_print _
      | some n =>
        cases resCmd.monetaryValue with
        | none => exact (quiet_print _).bind fun _ => .pure _
        | some v => exact (quiet_print _).bind fun _ => quiet_print _
  · exact .pure _

theorem quiet_showCallback (msg : CallbackMessage) : Quiet (showCallback env msg) :=
  (quiet_print _).bind fun _ => (quiet_print _).bind fun _ => (quiet_print _).bind fun _ =>
    (quiet_print _).bind fun _ => (quiet_print _).bind fun _ => quiet_print _

/-- There is too little for any callback, or enough for the name that is declared. -/
def Fits (raw : Bytes) : Prop :=
  raw.length < 19 ∨ 10 + CallbackEncoder.nameLength raw + 9 ≤ raw.length

theorem decode_of_fits (e : Endian) {raw : Bytes} (h : Fits raw) :
    ∃ result, CallbackEncoder.decodeMessage e raw = .ok result := by
  by_cases hshort : raw.length < CallbackEncoder.minCallbackSize
  · exact ⟨_, CallbackEncoder.decodeMessage_short e hshort⟩
  obtain ⟨accNo, nameLen, -, hdecode⟩ := CallbackEncoder.decodeMessage_name e (not_lt.mp hshort)
  rw [CallbackEncoder.minCallbackSize] at hshort
  obtain hlt | hroom := h
  · exact absurd hlt hshort
  obtain ⟨v, hv⟩ := loadUint64_ok (e := e)
    (show 10 + CallbackEncoder.nameLength raw + 1 + 8 ≤ raw.length by omega)
  rw [hdecode, memcpy_ok (by omega), ok_bind, loadUint8_ok (by omega), ok_bind, hv, ok_bind]
  exact ⟨_, rfl⟩

theorem quiet_routeResponse {response : Result Bytes InternalError}
    (hfits : ∀ raw, response = .success raw → isCallback raw = true → Fits raw) :
    Quiet (routeResponse env response) := by
  cases response with
  | failure err => exact .ite (quiet_printError _) (.pure _)
  | success raw =>
    rw [routeResponse]
    split_ifs with hcallback
    · obtain ⟨result, hresult⟩ := decode_of_fits env.endian (hfits raw rfl hcallback)
      apply quiet_ofCpp hresult
      cases result with
      | error err => exact quiet_printError _
      | ok msg => exact quiet_showCallback msg
    · exact .pure _

theorem listenServer_ends {s : State} {time : UInt32} {rounds j : ℕ}
    (hfits : ∀ k raw, env.heard s.requests k = .success raw → isCallback raw = true → Fits raw)
    (hends : ∃ k, j ≤ k ∧ k < j + rounds ∧ seconds time ≤ env.elapsed s.requests k) :
    Ends (listenServer env time rounds j) s fun _ => Silent s := by
  induction rounds generalizing j s with
  | zero =>
    obtain ⟨k, hle, hlt, -⟩ := hends
    omega
  | succ rounds ih =>
    rw [listenServer]
    apply Ends.get
    dsimp only
    split_ifs with hlistens
    · apply (quiet_record rfl s).bind
      intro _ t hquiet
      apply (quiet_routeResponse (hfits j) t).bind
      intro _ t' hquiet'
      have hsame := (hquiet.trans hquiet').requests
      rw [← hsame] at hfits hends hlistens
      obtain ⟨k, hle, hlt, hlate⟩ := hends
      have hne : k ≠ j := by
        rintro rfl
        omega
      obtain ⟨_, t'', hrun, hquiet''⟩ := ih (j := j + 1) hfits ⟨k, by omega, by omega, hlate⟩
      exact ⟨_, t'', hrun, (hquiet.trans hquiet').trans hquiet''⟩
    · exact .pure (.refl s)

theorem prepareMessage_ends {s : State} {cmd : Command} {session : Session} {msg : Message}
    (hprepared : ClientProtocol.prepareMessage env.endian s.session cmd =
      .ok (.ok (session, msg))) :
    Ends (prepareMessage env cmd) s fun request s' =>
      request = .success (serialize env.endian msg) ∧ Sends s s' session s.requests [] := by
  rw [prepareMessage]
  apply Ends.get
  rw [hprepared, ofCpp, pure_bind]
  exact ⟨_, _, rfl, rfl, rfl, rfl, rfl, (List.append_nil _).symm⟩

theorem sentData_exchange (events : List (Event InternalError)) :
    (events.map Action.exchange).filterMap Action.sentData = events.filterMap Event.sentData := by
  rw [List.filterMap_map]
  rfl

def AnsweredIn (env : Surroundings) (fuel number : ℕ) : Prop :=
  ∀ i, 1 ≤ i → i ≤ BankClient.maxTries → (env.socket number).sendMessage i = .success () →
    ∃ j < fuel, ((env.socket number).receiveMessage i j).isCallback = false

theorem sendToServer_ends {s : State} (hanswered : AnsweredIn env fuel (s.requests + 1))
    (data : Bytes) :
    Ends (sendToServer env fuel data) s fun _ s' => ∃ n, 1 ≤ n ∧ n ≤ BankClient.maxTries ∧
      Sends s s' s.session (s.requests + 1) (List.replicate n data) := by
  obtain ⟨n, result, events, hn, hle, hrun, hsent⟩ :=
    sendToServer_copies errorToString data hanswered
  rw [sendToServer]
  apply Ends.get
  dsimp only
  rw [hrun]
  refine ⟨_, _, rfl, n, hn, hle, rfl, rfl, rfl, ?_⟩
  rw [List.filterMap_append, sentData_exchange, hsent]

/-- A request is sent one to five times, and nothing else is. -/
theorem pipeline_ends {s : State} {cmd : Command} {session : Session} {msg : Message}
    (hbits : 32 ≤ env.bits) (hanswered : AnsweredIn env fuel (s.requests + 1))
    (hprepared : ClientProtocol.prepareMessage env.endian s.session cmd =
      .ok (.ok (session, msg))) :
    Ends (executeRequestPipeline env fuel cmd) s fun _ s' =>
      ∃ n, 1 ≤ n ∧ n ≤ BankClient.maxTries ∧ Sends s s' session (s.requests + 1)
        (List.replicate n (serialize env.endian msg)) := by
  rw [executeRequestPipeline]
  apply (prepareMessage_ends hprepared).bind
  rintro _ t ⟨rfl, hcounted⟩
  dsimp only
  rw [← hcounted.requests] at hanswered
  apply (sendToServer_ends hanswered _).bind
  rintro response t' ⟨n, hn, hle, hsends⟩
  have hsent : Sends s t' session (s.requests + 1)
      (List.replicate n (serialize env.endian msg)) := by
    constructor
    · exact hsends.cin.trans hcounted.cin
    · exact hsends.session.trans hcounted.session
    · rw [hsends.requests, hcounted.requests]
    · rw [hsends.log, hcounted.log, List.append_nil]
  cases response with
  | failure err => exact .pure ⟨n, hn, hle, hsent⟩
  | success raw =>
    apply (quiet_decodeMessage hbits raw t').bind
    intro decoded u hquiet
    cases decoded with
    | failure err => exact .pure ⟨n, hn, hle, hsent.silent hquiet⟩
    | success resMsg =>
      apply (quiet_decodeStatusCode resMsg u).bind
      intro status u' hquiet'
      cases status with
      | failure err => exact .pure ⟨n, hn, hle, (hsent.silent hquiet).silent hquiet'⟩
      | success _ => exact .pure ⟨n, hn, hle, (hsent.silent hquiet).silent hquiet'⟩

theorem built_timeout {cmd : Command} (h : Built cmd)
    (hmonitor : cmd.service = some serviceMonitor) :
    ∃ time, cmd.monitorTimeoutSeconds = some time := by
  cases h with
  | monitor => exact ⟨_, rfl⟩
  | authenticated hservice =>
    obtain rfl | rfl := hservice
    · cases hmonitor
    · cases hmonitor
  | payment hservice =>
    obtain rfl | rfl := hservice
    · cases hmonitor
    · cases hmonitor
  | _ => cases hmonitor

structure Ready (env : Surroundings) (fuel number : ℕ) : Prop where
  answered : AnsweredIn env fuel number
  late : ∃ k < fuel, 2 ^ 32 * 10 ^ 9 ≤ env.elapsed number k
  fits : ∀ k raw, env.heard number k = .success raw → isCallback raw = true → Fits raw

theorem seconds_le (time : UInt32) : seconds time ≤ 2 ^ 32 * 10 ^ 9 :=
  Nat.mul_le_mul_right _ time.toNat_lt.le

theorem request_ends {s : State} {cmd : Command} {session : Session} {msg : Message}
    (hbits : 32 ≤ env.bits) (hready : Ready env fuel (s.requests + 1)) (hbuilt : Built cmd)
    (hprepared : ClientProtocol.prepareMessage env.endian s.session cmd =
      .ok (.ok (session, msg))) :
    Ends (request env fuel cmd) s fun _ s' =>
      ∃ n, 1 ≤ n ∧ n ≤ BankClient.maxTries ∧ Sends s s' session (s.requests + 1)
        (List.replicate n (serialize env.endian msg)) := by
  have hpipeline := pipeline_ends hbits hready.answered hprepared
  rw [request]
  split_ifs with hmonitor
  · rw [monitorServerUpdates, if_neg (not_not.mpr hmonitor)]
    apply hpipeline.bind
    rintro result t ⟨n, hn, hle, hsends⟩
    cases result with
    | failure err => exact .pure ⟨n, hn, hle, hsends⟩
    | success res =>
      apply (quiet_decodeCommand hbits res t).bind
      intro _ t' hquiet
      apply (quiet_print _ t').bind
      intro _ u hquiet'
      obtain ⟨time, htime⟩ := built_timeout hbuilt hmonitor
      rw [htime, value, ofCpp, pure_bind]
      have hsent := (hsends.silent hquiet).silent hquiet'
      have hready' := hready
      rw [← hsent.requests] at hready'
      obtain ⟨k, hk, hlate⟩ := hready'.late
      have hlisten := listenServer_ends hready'.fits
        ⟨k, Nat.zero_le k, (Nat.zero_add fuel).symm ▸ hk, (seconds_le time).trans hlate⟩
      obtain ⟨_, u', hrun, hquiet''⟩ := hlisten
      exact ⟨_, u', hrun, n, hn, hle, hsent.silent hquiet''⟩
  · rw [executeClientReq, if_neg hmonitor]
    apply hpipeline.bind
    rintro result t ⟨n, hn, hle, hsends⟩
    cases result with
    | failure err => exact .pure ⟨n, hn, hle, hsends⟩
    | success res =>
      obtain ⟨_, t', hrun, hquiet⟩ := quiet_decodeCommand hbits res t
      exact ⟨_, t', hrun, n, hn, hle, hsends.silent hquiet⟩

end Parts
theorem length_waitForEnter_le {cin : Cin} (h : Settled cin) :
    (waitForEnter cin).rest.length ≤ cin.rest.length := by
  have hshort := List.length_dropWhile_le (· ≠ newline) cin.rest
  rw [(waitForEnter_settled h).1, List.length_tail, List.length_tail]
  omega

section Dialogue
variable {stod : Bytes → Except NumberError UInt64}

/-- A round that goes on has read at least one byte, and what it sends is one of the kinds. -/
theorem round_reads {cin : Cin} (h : Settled cin) {result : Except InternalError Command}
    {t : Terminal}
    (hround : Stdin.typed (ClientInput.buildCommand stod (readInt cin).1) ⟨(readInt cin).2, []⟩ =
      (result, t)) :
    Settled t.cin ∧ (result ≠ .error .userQuit → t.cin.rest.length < cin.rest.length) ∧
      ∀ cmd, result = .ok cmd → Built cmd := by
  obtain ⟨hsettled, hread⟩ := readInt_settled h
  obtain ⟨hend, hlen⟩ := typed_settled (t := ⟨(readInt cin).2, []⟩) hsettled
    (ClientInput.buildCommand stod (readInt cin).1)
  rw [hround] at hend hlen
  refine ⟨hend, fun hne => ?_, fun cmd hcmd => ?_⟩
  · by_cases hzero : (readInt cin).1 = 0
    · rw [hzero] at hround
      exact absurd (congrArg Prod.fst hround).symm hne
    · exact hlen.trans_lt (hread hzero)
  · have hconsole := typed_console (t := ⟨(readInt cin).2, []⟩) hsettled
      (Tracks.buildCommand stod (readInt cin).1)
    rw [hround, hcmd] at hconsole
    exact (yields_buildCommand ⟨_, _, hconsole⟩).1

theorem dialogue_round {cin : Cin} {result : Except InternalError Command} {t : Terminal}
    (hround : Stdin.typed (ClientInput.buildCommand stod (readInt cin).1) ⟨(readInt cin).2, []⟩ =
      (result, t)) (rounds : ℕ) :
    dialogue stod (rounds + 1) cin = commandsFrom (dialogue stod rounds) t result := by
  rw [dialogue]
  generalize readInt cin = p at hround
  obtain ⟨userInput, cin⟩ := p
  dsimp only at hround ⊢
  rw [hround]

theorem dialogue_complete {m n : ℕ} {cin : Cin} (h : Settled cin) (hm : cin.rest.length < m)
    (hn : cin.rest.length < n) : dialogue stod m cin = dialogue stod n cin := by
  induction m generalizing n cin with
  | zero => omega
  | succ m ih =>
    obtain ⟨n, rfl⟩ : ∃ k, n = k + 1 := ⟨n - 1, by omega⟩
    generalize hround : Stdin.typed (ClientInput.buildCommand stod (readInt cin).1)
      ⟨(readInt cin).2, []⟩ = out
    obtain ⟨result, t⟩ := out
    obtain ⟨hend, hshorter, -⟩ := round_reads h hround
    rw [dialogue_round hround, dialogue_round hround]
    cases result with
    | error err =>
      rw [commandsFrom, commandsFrom]
      split_ifs with hcancel
      · have hless := hshorter (by rw [hcancel]; decide)
        exact ih hend (by omega) (by omega)
      · rfl
    | ok cmd =>
      have hless := hshorter (by simp)
      have hwait := length_waitForEnter_le hend
      have hrest := ih (n := n) (waitForEnter_settled hend).2 (by omega) (by omega)
      rw [commandsFrom, commandsFrom, hrest]

end Dialogue

section Run
variable {env : Surroundings} {fuel : ℕ}

theorem buildCommand_run {s : State} {result : Except InternalError Command} {t : Terminal}
    (hround : Stdin.typed (ClientInput.buildCommand env.stod (readInt s.cin).1)
      ⟨(readInt s.cin).2, []⟩ = (result, t)) :
    (buildCommand env).run s =
      .ok (result, { s with cin := t.cin, log := s.log ++ t.output.map Action.typed }) := by
  have hget : ∀ g : State → Effect (Except InternalError Command),
      (get >>= g).run s = (g s).run s := fun _ => rfl
  rw [buildCommand, hget]
  generalize readInt s.cin = p at hround
  obtain ⟨userInput, cin⟩ := p
  dsimp only at hround ⊢
  rw [hround]
  rfl

inductive Issued (e : Endian) : Session → List Command → List Bytes → Prop
  | nil {session : Session} : Issued e session [] []
  | cons {session session' : Session} {cmd : Command} {cmds : List Command} {msg : Message}
      {n : ℕ} {data : List Bytes} (hbuilt : Built cmd)
      (hprepared : ClientProtocol.prepareMessage e session cmd = .ok (.ok (session', msg)))
      (hn : 1 ≤ n) (hle : n ≤ BankClient.maxTries) (hrest : Issued e session' cmds data) :
      Issued e session (cmd :: cmds) (List.replicate n (serialize e msg) ++ data)

theorem built_ne_empty {cmd : Command} (h : Built cmd) : cmd ≠ {} := by
  cases h <;> exact fun heq => by cases heq

theorem built_prepared (e : Endian) {cmd : Command} (h : Built cmd) (session : Session) :
    ∃ session' msg, ClientProtocol.prepareMessage e session cmd = .ok (.ok (session', msg)) := by
  have hencode := encodeMessage_onHost e cmd (fieldsOf_onHost_ne_nil e (built_ne_empty h))
  have hprepare : ClientProtocol.prepareMessage e session cmd =
      .ok (.ok (buildMessage session (Marshalling.encodeTLVFields (fieldsOf (onHost e cmd))))) := by
    rw [ClientProtocol.prepareMessage, hencode]
    rfl
  exact ⟨_, _, hprepare⟩

structure Ended (env : Surroundings) (s s' : State) (cmds : List Command) : Prop where
  sent : ∃ data, s'.log.filterMap Action.sentData = s.log.filterMap Action.sentData ++ data ∧
    Issued env.endian s.session cmds data
  error : ∃ err, err ≠ .userCanceled ∧ s'.log.getLast? = some (.printError (errorToString err))

theorem Ended.of_same {s t s' : State} {cmds : List Command} (h : Ended env t s' cmds)
    (hsession : t.session = s.session)
    (hlog : t.log.filterMap Action.sentData = s.log.filterMap Action.sentData) :
    Ended env s s' cmds := by
  obtain ⟨data, hdata, hissued⟩ := h.sent
  exact ⟨⟨data, by rw [hdata, hlog], hsession ▸ hissued⟩, h.error⟩

theorem Ended.cons {s t s' : State} {cmd : Command} {cmds : List Command} {msg : Message} {n : ℕ}
    (h : Ended env t s' cmds) (hbuilt : Built cmd)
    (hprepared : ClientProtocol.prepareMessage env.endian s.session cmd =
      .ok (.ok (t.session, msg)))
    (hn : 1 ≤ n) (hle : n ≤ BankClient.maxTries)
    (hlog : t.log.filterMap Action.sentData =
      s.log.filterMap Action.sentData ++ List.replicate n (serialize env.endian msg)) :
    Ended env s s' (cmd :: cmds) := by
  obtain ⟨data, hdata, hissued⟩ := h.sent
  refine ⟨⟨_, ?_, .cons hbuilt hprepared hn hle hissued⟩, h.error⟩
  rw [hdata, hlog, List.append_assoc]

theorem sentData_typed (output : List Output) :
    (output.map Action.typed).filterMap Action.sentData = [] := by
  rw [List.filterMap_map, List.filterMap_eq_nil_iff]
  exact fun _ _ => rfl

theorem run_ends {rounds : ℕ} {s : State} (hbits : 32 ≤ env.bits) (hsettled : Settled s.cin)
    (hrounds : s.cin.rest.length < rounds)
    (hready : ∀ number ≤ s.requests + rounds, Ready env fuel number) :
    Ends (run env fuel rounds) s fun _ s' => Ended env s s' (dialogue env.stod rounds s.cin) := by
  induction rounds generalizing s with
  | zero => omega
  | succ rounds ih =>
    rw [run]
    generalize hround : Stdin.typed (ClientInput.buildCommand env.stod (readInt s.cin).1)
      ⟨(readInt s.cin).2, []⟩ = out
    obtain ⟨result, t⟩ := out
    obtain ⟨hend, hshorter, hbuilt⟩ := round_reads hsettled hround
    rw [dialogue_round hround]
    have hbuild : Ends (buildCommand env) s fun r s₁ => r = result ∧
        s₁ = { s with cin := t.cin, log := s.log ++ t.output.map Action.typed } :=
      ⟨_, _, buildCommand_run hround, rfl, rfl⟩
    apply hbuild.bind
    rintro r s₁ ⟨hr, hs₁⟩
    rw [hr]
    have hlog : s₁.log.filterMap Action.sentData = s.log.filterMap Action.sentData := by
      rw [hs₁, List.filterMap_append, sentData_typed, List.append_nil]
    have hsession : s₁.session = s.session := by rw [hs₁]
    have hrequests : s₁.requests = s.requests := by rw [hs₁]
    have hcin : s₁.cin = t.cin := by rw [hs₁]
    clear hs₁
    rw [← hcin] at hend hshorter
    cases result with
    | error err =>
      dsimp only
      by_cases hcancel : err = .userCanceled
      · rw [if_neg (not_not.mpr hcancel), commandsFrom, if_pos hcancel, ← hcin]
        have hless := hshorter (by rw [hcancel]; decide)
        obtain ⟨_, s', hrun, hended⟩ := ih (s := s₁) hend (by omega)
          fun number hnumber => hready number (by omega)
        exact ⟨_, s', hrun, hended.of_same hsession hlog⟩
      · rw [if_pos hcancel, commandsFrom, if_neg hcancel]
        refine ⟨(), _, rfl, ⟨[], ?_, .nil⟩, err, hcancel, List.getLast?_concat⟩
        rw [List.filterMap_append, hlog]
        rfl
    | ok cmd =>
      have hless := hshorter (by simp)
      have hkind := hbuilt cmd rfl
      rw [commandsFrom, ← hcin]
      apply (quiet_print _ s₁).bind
      intro _ s₂ hquiet
      obtain ⟨session, msg, hprepared⟩ := built_prepared env.endian hkind s.session
      have hsession₂ := hquiet.session.trans hsession
      have hrequests₂ := hquiet.requests.trans hrequests
      rw [← hsession₂] at hprepared
      have hready₂ : Ready env fuel (s₂.requests + 1) := hready _ (by omega)
      apply (request_ends hbits hready₂ hkind hprepared).bind
      rintro _ s₃ ⟨n, hn, hle, hsends⟩
      have hcin₃ : s₃.cin = s₁.cin := hsends.cin.trans hquiet.cin
      have hrequests₃ := hsends.requests
      rw [← hcin₃] at hend hless ⊢
      have hwait := length_waitForEnter_le hend
      obtain ⟨_, s', hrun, hended⟩ := ih (s := { s₃ with cin := waitForEnter s₃.cin })
        (waitForEnter_settled hend).2 (by dsimp only; omega)
        fun number hnumber => hready number (by dsimp only at hnumber; omega)
      have hnext : ClientProtocol.prepareMessage env.endian s.session cmd =
          .ok (.ok (s₃.session, msg)) := by
        rw [hsends.session, ← hsession₂, hprepared]
      have hdata : s₃.log.filterMap Action.sentData = s.log.filterMap Action.sentData ++
          List.replicate n (serialize env.endian msg) := by
        rw [hsends.log, hquiet.log, hlog, List.append_nil]
      exact ⟨_, s', hrun, hended.cons hkind hnext hn hle hdata⟩

/-- Receiving does not go on with callbacks for ever, time passes, and the callbacks that are heard
have room for the names they declare. -/
structure Live (env : Surroundings) : Prop where
  answers : ∀ number i, (env.socket number).sendMessage i = .success () →
    ∃ j, ((env.socket number).receiveMessage i j).isCallback = false
  passes : ∀ number time, ∃ k, time ≤ env.elapsed number k
  fits : ∀ number k raw, env.heard number k = .success raw → isCallback raw = true → Fits raw

theorem Live.ready (h : Live env) (n : ℕ) :
    ∃ bound, ∀ fuel ≥ bound, ∀ number ≤ n, Ready env fuel number := by
  have hanswers := h.answers
  choose! reply hreply using hanswers
  choose late hlate using fun number => h.passes number (2 ^ 32 * 10 ^ 9)
  let numbers := Finset.range (n + 1)
  let tries := Finset.range (BankClient.maxTries + 1)
  refine ⟨numbers.sup (fun number => tries.sup (reply number)) + numbers.sup late + 1,
    fun fuel hfuel number hnumber => ?_⟩
  have hmem : number ∈ numbers := Finset.mem_range.mpr (Nat.lt_succ_of_le hnumber)
  constructor
  · intro i hi hle hsend
    have hinner : reply number i ≤ tries.sup (reply number) :=
      Finset.le_sup (Finset.mem_range.mpr (Nat.lt_succ_of_le hle))
    have houter : tries.sup (reply number) ≤ numbers.sup fun number => tries.sup (reply number) :=
      Finset.le_sup (f := fun number => tries.sup (reply number)) hmem
    exact ⟨reply number i, by omega, hreply number i hsend⟩
  · have hsup : late number ≤ numbers.sup late := Finset.le_sup hmem
    exact ⟨late number, by omega, hlate number⟩
  · exact h.fits number

/-- Whatever is typed and whatever the network does, the client ends without a fault, on an error
that it shows; the requests it has sent are those of the dialogue, one to five copies of each. -/
theorem client_program (hbits : env.bits = 32 ∨ env.bits = 64) (hlive : Live env)
    (session : Session) (text : Bytes) {rounds : ℕ} (hrounds : text.length < rounds) :
    ∃ bound, ∀ fuel ≥ bound, ∃ s',
      (run env fuel rounds).run ⟨⟨text, false, false⟩, session, 0, []⟩ = .ok ((), s') ∧
      (∃ err, err ≠ .userCanceled ∧ s'.log.getLast? = some (.printError (errorToString err))) ∧
      Issued env.endian session (dialogue env.stod (text.length + 1) ⟨text, false, false⟩)
        (s'.log.filterMap Action.sentData) := by
  have hsettled : Settled ⟨text, false, false⟩ := fun hset => by simp at hset
  obtain ⟨bound, hbound⟩ := hlive.ready rounds
  refine ⟨bound, fun fuel hfuel => ?_⟩
  have hready : ∀ number ≤ 0 + rounds, Ready env fuel number :=
    fun number hnumber => hbound fuel hfuel number (by omega)
  obtain ⟨_, s', hrun, hended⟩ := run_ends
    (s := ⟨⟨text, false, false⟩, session, 0, []⟩) (by omega) hsettled hrounds hready
  obtain ⟨data, hdata, hissued⟩ := hended.sent
  refine ⟨s', hrun, hended.error, ?_⟩
  rw [dialogue_complete hsettled hrounds (Nat.lt_succ_self _)] at hissued
  rw [hdata]
  exact hissued

def openedUpdate : Bytes :=
  [2, 1, 0, 0, 39, 16, 0, 0, 0, 1, 65, 1, 64, 20, 0, 0, 0, 0, 0, 0]

def openedReply (number : ℕ) : Bytes :=
  serialize .little ⟨messageTypeReply, 0, ⟨UInt32.ofNat number, 0x7F000001, 4000⟩,
    ⟨0, if number = 1 then [2, 0, 0, 0, 4, 0, 0, 39, 16] else []⟩⟩

/-- A callback comes before each reply, and others while the client listens. -/
def answering : Surroundings where
  endian := .little
  bits := 64
  stod input := if input = ascii "5" then .ok 0x4014000000000000 else .error .invalidArgument
  toString _ := "5.000000"
  socket number := ⟨fun _ => .success (),
    fun _ j => .success (if j = 0 then openedUpdate else openedReply number)⟩
  elapsed _ k := k * 10 ^ 9
  heard _ _ := .success openedUpdate

theorem answering_live : Live answering where
  answers _ _ _ := ⟨1, rfl⟩
  passes _ time := ⟨time, Nat.le_mul_of_pos_right time (by decide)⟩
  fits _ _ raw hraw _ := by
    cases hraw
    exact .inr (by decide)

def openAl : Command :=
  { service := some serviceOpen, accountOwnerName := some (ascii "Al"),
    accountPassword := some (ascii "pw1"), currency := some currencySGD,
    monetaryValue := some 0x4014000000000000 }

def watchAl : Command :=
  { service := some serviceMonitor, accountOwnerName := some (ascii "Al"),
    accountNumber := some 10000, accountPassword := some (ascii "pw1"),
    monitorTimeoutSeconds := some 2 }

/-- The user opens an account, listens for two seconds and quits. -/
def openAndWatchKeys : Bytes :=
  ascii "1\nAl\npw1\nsgd\n5\n\n\n5\nAl\n10000\npw1\n2\n\n\n0\n"

def openAndWatch : State :=
  ⟨⟨openAndWatchKeys, false, false⟩, ⟨2, 0, (0x7F000001, 4000)⟩, 0, []⟩

theorem openAndWatch_sent :
    ((run answering 3 40).run openAndWatch).toOption.map (fun out =>
        (out.2.log.count (.print "Account Number   : 10000\n"),
          out.2.log.count (.print "[ MONITOR CALLBACK UPDATE ]\n"))) = some (3, 2) ∧
      ∃ bound, ∀ fuel ≥ bound, ∃ s', (run answering fuel 40).run openAndWatch = .ok ((), s') ∧
        (∃ err, err ≠ .userCanceled ∧ s'.log.getLast? = some (.printError (errorToString err))) ∧
        Issued .little openAndWatch.session [openAl, watchAl]
          (s'.log.filterMap Action.sentData) := by
  refine ⟨by decide +kernel, ?_⟩
  have hkeys : dialogue answering.stod (openAndWatchKeys.length + 1) openAndWatch.cin =
      [openAl, watchAl] := by
    decide +kernel
  rw [← hkeys]
  exact client_program (.inr rfl) answering_live openAndWatch.session openAndWatchKeys
    (show openAndWatchKeys.length < 40 by decide +kernel)

/-- The menu and the prompts at the stream come to what `build_command` makes of the number and of
the lines behind it, and leave the lines that it leaves. -/
theorem buildCommand_console {s : State} (hsettled : Settled s.cin) :
    ∃ result output cin,
      (buildCommand env).run s =
        .ok (result, { s with cin, log := s.log ++ output.map Action.typed }) ∧
      Settled cin ∧
      (ClientInput.buildCommand env.stod (readInt s.cin).1).run.run
          ⟨linesOf (readInt s.cin).2.rest, []⟩ = (result, ⟨linesOf cin.rest, output⟩) := by
  have hread := (readInt_settled hsettled).1
  have hconsole := typed_console (t := ⟨(readInt s.cin).2, []⟩) hread
    (Tracks.buildCommand env.stod (readInt s.cin).1)
  have hend := typed_settled (t := ⟨(readInt s.cin).2, []⟩) hread
    (ClientInput.buildCommand env.stod (readInt s.cin).1)
  exact ⟨_, _, _, buildCommand_run rfl, hend.1, hconsole⟩

theorem openAndWatch_console :
    ∃ output cin,
      (buildCommand answering).run openAndWatch =
        .ok (.ok openAl, { openAndWatch with cin, log := output.map Action.typed }) ∧
      Settled cin ∧
      (ClientInput.buildCommand answering.stod 1).run.run
          ⟨linesOf (readInt openAndWatch.cin).2.rest, []⟩ =
        (.ok openAl, ⟨linesOf cin.rest, output⟩) := by
  have hsettled : Settled openAndWatch.cin := fun hset => by simp [openAndWatch] at hset
  obtain ⟨result, output, cin, hrun, hend, hconsole⟩ :=
    @buildCommand_console answering _ hsettled
  have hinput : (readInt openAndWatch.cin).1 = 1 := by decide +kernel
  have hresult : ((ClientInput.buildCommand answering.stod 1).run.run
      ⟨linesOf (readInt openAndWatch.cin).2.rest, []⟩).1 = .ok openAl := by
    decide +kernel
  rw [hinput] at hconsole
  rw [hconsole] at hresult
  cases hresult
  exact ⟨output, cin, hrun, hend, hconsole⟩

end Run
end DistributedBanking.BankClient.Program
