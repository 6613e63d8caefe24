import DistributedBanking.AtMostOnce
import DistributedBanking.WireRoundTrip

/-!
# Clients, the server and the network between them

Any number of clients run their sessions in at-most-once mode against one
server in that mode. `up` and `down` hold every datagram ever sent, and the
network may deliver any of them at any time and any number of times, or never:
this is loss, delay, duplication and reordering, and also the server's own
loss simulator. An action that is not enabled leaves everything as it is.

A datagram carries the call it belongs to, a reply the call it answers. These
tags, the calls, the executions and the returned messages are a record for the
proofs; no transition looks at them.
-/

namespace DistributedBanking.Network
open Store Banking Monitor Semantics Handler Server ClientProtocol

/-- For each client its address as the server sees it, its byte order and what `getsockname`
says. -/
structure Config (ι : Type) where
  addr : ι → UDPAddr
  host : ι → Endian
  localIpPort : ι → UInt32 × UInt16

/-- One run of `execute_request_pipeline`: the `number`-th command of a session of a client. -/
structure Call (ι : Type) where
  client : ι
  session : ℕ
  number : ℕ
  command : Command
  message : Message
  deriving DecidableEq

/-- Where `send_to_server` is. After a successful Monitor request the client listens. -/
inductive Phase (ι : Type)
  | idle
  | sending (call : Call ι) (attempt : ℕ)
  | receiving (call : Call ι) (attempt : ℕ)
  | listening

structure Client (ι : Type) where
  bank : Session
  session : ℕ
  issued : ℕ
  phase : Phase ι
  -- The socket's receive queue, with the call that a reply answers.
  inbox : List (Option (Call ι) × Bytes)

structure Reply (ι : Type) where
  call : Call ι
  data : Bytes
  deriving DecidableEq

structure Returned (ι : Type) where
  call : Call ι
  answers : Option (Call ι)
  raw : Bytes
  message : Message

structure Net (ι M : Type) where
  clients : ι → Client ι
  calls : List (Call ι)
  up : List (Call ι)
  down : List (Reply ι)
  dispatcher : Dispatcher
  backend : Backend M
  executions : List ((Call ι × ℕ) × Bytes)
  returned : List (Returned ι)

inductive Action (ι : Type)
  | start (i : ι) (cmd : Command)
  | send (i : ι)
  | sendFails (i : ι)
  | receive (i : ι)
  | receiveFails (i : ι)
  | listen (i : ι)
  | stopListening (i : ι)
  | restart (i : ι)
  | toServer (n now : ℕ)
  | toClient (n : ℕ) (i : ι)
  | callback (i : ι) (payload : Bytes)
  | sweep (now : ℕ)

def maxTries : ℕ := 5

/-- The server's receive buffer; a longer datagram is cut. -/
def maxPacketSize : ℕ := 4096

/-- `sendto` refuses a longer datagram. -/
def maxPayload : ℕ := 65507

section Clients
variable {ι : Type} (cfg : Config ι)

def Client.new (i : ι) (session : ℕ) : Client ι where
  bank := ⟨invocationFlagAtMostOnce, 0, cfg.localIpPort i⟩
  session := session
  issued := 0
  phase := .idle
  inbox := []

def Call.request (call : Call ι) : Bytes := serialize (cfg.host call.client) call.message

def Call.arrived (call : Call ι) : Datagram where
  data := (call.request cfg).take maxPacketSize
  addr := cfg.addr call.client
  small := lt_of_le_of_lt (List.length_take_le _ _) (by decide)

def retry (call : Call ι) (attempt : ℕ) : Phase ι :=
  if attempt < maxTries then .sending call (attempt + 1) else .idle

def afterReply (call : Call ι) : Phase ι :=
  if call.command.service = some serviceMonitor then .listening else .idle

end Clients

section Steps
variable {ι M : Type} [DecidableEq ι] (cfg : Config ι)

def Net.setClient (net : Net ι M) (i : ι) (c : Client ι) : Net ι M :=
  { net with clients := Function.update net.clients i c }

theorem Net.setClient_self (net : Net ι M) (i : ι) (c : Client ι) :
    (net.setClient i c).clients i = c := by
  simp [Net.setClient]

theorem Net.setClient_of_ne (net : Net ι M) {i j : ι} (c : Client ι) (h : j ≠ i) :
    (net.setClient i c).clients j = net.clients j := by
  simp [Net.setClient, h]

theorem Net.setClient_forall {net : Net ι M} {P : ι → Client ι → Prop} {i : ι} {c : Client ι}
    (h : ∀ j, P j (net.clients j)) (hc : P i c) (j : ι) : P j ((net.setClient i c).clients j) := by
  by_cases hj : j = i
  · rw [hj, Net.setClient_self]
    exact hc
  · rw [Net.setClient_of_ne net c hj]
    exact h j

def start (net : Net ι M) (i : ι) (cmd : Command) : Net ι M :=
  let c := net.clients i
  match c.phase, prepareMessage (cfg.host i) c.bank cmd with
  | .idle, .ok (.ok (bank, message)) =>
    let call := ⟨i, c.session, c.issued + 1, cmd, message⟩
    { net.setClient i { c with bank, issued := c.issued + 1, phase := .sending call 1 } with
      calls := net.calls ++ [call] }
  | _, _ => net

def send (net : Net ι M) (i : ι) : Net ι M :=
  let c := net.clients i
  match c.phase with
  | .sending call attempt =>
    if (call.request cfg).length ≤ maxPayload then
      { net.setClient i { c with phase := .receiving call attempt } with up := net.up ++ [call] }
    else net.setClient i { c with phase := retry call attempt }
  | _ => net

def sendFails (net : Net ι M) (i : ι) : Net ι M :=
  let c := net.clients i
  match c.phase with
  | .sending call attempt => net.setClient i { c with phase := retry call attempt }
  | _ => net

/-- One datagram from the receive queue: a callback is skipped, anything else ends the call. -/
def receive (net : Net ι M) (i : ι) : Net ι M :=
  let c := net.clients i
  match c.phase, c.inbox with
  | .receiving call _, (answers, raw) :: inbox =>
    if isCallback raw then net.setClient i { c with inbox }
    else
      match decodeReply (cfg.host i) 64 raw with
      | .ok (.ok message) =>
        { net.setClient i { c with inbox, phase := afterReply call } with
          returned := net.returned ++ [⟨call, answers, raw, message⟩] }
      | _ => net.setClient i { c with inbox, phase := .idle }
  | _, _ => net

def receiveFails (net : Net ι M) (i : ι) : Net ι M :=
  let c := net.clients i
  match c.phase with
  | .receiving call attempt => net.setClient i { c with phase := retry call attempt }
  | _ => net

/-- `listen_server` shows callbacks and drops whatever else arrives. -/
def listen (net : Net ι M) (i : ι) : Net ι M :=
  let c := net.clients i
  match c.phase with
  | .listening => net.setClient i { c with inbox := c.inbox.tail }
  | _ => net

def stopListening (net : Net ι M) (i : ι) : Net ι M :=
  let c := net.clients i
  match c.phase with
  | .listening => net.setClient i { c with phase := .idle }
  | _ => net

def restart (net : Net ι M) (i : ι) : Net ι M :=
  net.setClient i (Client.new cfg i ((net.clients i).session + 1))

def toClient (net : Net ι M) (n : ℕ) (i : ι) : Net ι M :=
  let c := net.clients i
  match net.down[n]? with
  | some reply =>
    if cfg.addr i = cfg.addr reply.call.client then
      net.setClient i { c with inbox := c.inbox ++ [(some reply.call, reply.data)] }
    else net
  | none => net

def callback (net : Net ι M) (i : ι) (payload : Bytes) : Net ι M :=
  let c := net.clients i
  if ∃ sent ∈ net.backend.mon.conn, (cfg.addr i, payload) ∈ sent then
    net.setClient i { c with inbox := c.inbox ++ [(none, payload)] }
  else net

variable [Money M] [Float64 M]

omit [DecidableEq ι] in
/-- The request handler, with a record of what it was called on and what it answered. -/
def traced (call : Call ι) (now : ℕ) :
    RequestHandler (Backend M × List ((Call ι × ℕ) × Bytes)) := fun s data addr => do
  let (backend, reply) ← buildHandler 64 now s.1 data addr
  return ((backend, s.2 ++ [((call, now), reply)]), reply)

omit [DecidableEq ι] in
def toServer (net : Net ι M) (n now : ℕ) : Go (Net ι M) := do
  match net.up[n]? with
  | some call =>
    let (dispatcher, (backend, executions), result) ← net.dispatcher.dispatch (traced call now)
      (net.backend, net.executions) (call.arrived cfg).data (call.arrived cfg).addr
    let down :=
      match result with
      | .ok reply => net.down ++ [⟨call, reply⟩]
      | .error _ => net.down
    return { net with dispatcher, backend, executions, down }
  | none => return net

def step (net : Net ι M) : Action ι → Go (Net ι M)
  | .start i cmd => return start cfg net i cmd
  | .send i => return send cfg net i
  | .sendFails i => return sendFails net i
  | .receive i => return receive cfg net i
  | .receiveFails i => return receiveFails net i
  | .listen i => return listen net i
  | .stopListening i => return stopListening net i
  | .restart i => return restart cfg net i
  | .toServer n now => toServer cfg net n now
  | .toClient n i => return toClient cfg net n i
  | .callback i payload => return callback cfg net i payload
  | .sweep now =>
    return { net with backend := { net.backend with mon := net.backend.mon.evictExpired now } }

def run (net : Net ι M) (acts : List (Action ι)) : Go (Net ι M) := acts.foldlM (step cfg) net

omit [DecidableEq ι] [Money M] [Float64 M] in
def initial : Net ι M where
  clients i := Client.new cfg i 0
  calls := []
  up := []
  down := []
  dispatcher := Dispatcher.newDispatcher .atMostOnce
  backend := ⟨newMemoryStore, newManager⟩
  executions := []
  returned := []

end Steps
end DistributedBanking.Network
