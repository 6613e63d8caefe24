import DistributedBanking.Network

/-!
# What holds in every reachable network

`Step` says once what an action can do. The invariant ties the pieces together:
a client's counter and its calls, the calls and the datagrams in flight, the
replies and the server's reply history, the history and the log of executions.
-/

namespace DistributedBanking.Network
open Store Banking Marshalling Monitor Semantics Handler Server ClientProtocol

section Requests

theorem headerOf_take {data : Bytes} {n : ℕ} (hn : headerSize ≤ n) :
    headerOf (data.take n) = headerOf data := by
  have hget : ∀ i < 18, (data.take n).getD i 0 = data.getD i 0 := by
    intro i hi
    have hlt : i < n := lt_of_lt_of_le hi hn
    simp [List.getD_eq_getElem?_getD, hlt]
  have hdrop : ∀ a w, a + w ≤ 18 → ((data.take n).drop a).take w = (data.drop a).take w := by
    intro a w haw
    have hle : a + w ≤ n := le_trans haw hn
    rw [List.drop_take, List.take_take, min_eq_left (by omega)]
  rw [headerOf, hget 0 (by omega), hget 1 (by omega), hdrop 2 4 (by omega), hdrop 6 4 (by omega),
    hdrop 10 2 (by omega), hdrop 12 2 (by omega), hdrop 14 4 (by omega), headerOf]

theorem prepareMessage_atMostOnce {e : Endian} {id : UInt32} {lip : UInt32 × UInt16}
    {cmd : Command} {bank : Session} {m : Message}
    (h : prepareMessage e ⟨invocationFlagAtMostOnce, id, lip⟩ cmd = .ok (.ok (bank, m))) :
    bank = ⟨invocationFlagAtMostOnce, id + 1, lip⟩ ∧ m.flag = invocationFlagAtMostOnce ∧
      m.id.requestId = id + 1 := by
  rcases hencode : encodeMessage e cmd with fault | err | content
  · rw [prepareMessage, hencode] at h
    cases h
  · rw [prepareMessage, hencode] at h
    cases h
  · rw [prepareMessage, hencode] at h
    cases h
    exact ⟨rfl, rfl, rfl⟩

theorem ofNat_succ_sub {n : ℕ} (h : 1 ≤ n) : UInt32.ofNat (n - 1) + 1 = UInt32.ofNat n := by
  obtain ⟨k, rfl⟩ : ∃ k, n = k + 1 := ⟨n - 1, by omega⟩
  rw [Nat.add_sub_cancel, UInt32.ofNat_add]
  rfl

variable {ι : Type} (cfg : Config ι)

/-- The call's message is what its command became when the session's counter stood before it. -/
structure Call.WellFormed (call : Call ι) : Prop where
  number_pos : 1 ≤ call.number
  prepared : ∃ bank, prepareMessage (cfg.host call.client)
    ⟨invocationFlagAtMostOnce, UInt32.ofNat (call.number - 1), cfg.localIpPort call.client⟩
    call.command = .ok (.ok (bank, call.message))

def Call.key (call : Call ι) : Bytes × UInt32 :=
  ((cfg.addr call.client).string, call.message.id.requestId)

variable {cfg} {call : Call ι}

theorem Call.WellFormed.requestId (h : call.WellFormed cfg) :
    call.message.id.requestId = UInt32.ofNat call.number := by
  obtain ⟨bank, hprepared⟩ := h.prepared
  rw [(prepareMessage_atMostOnce hprepared).2.2, ofNat_succ_sub h.number_pos]

theorem Call.headerOf_arrived (call : Call ι) :
    (headerOf (call.arrived cfg).data).requestID = call.message.id.requestId := by
  rw [Call.arrived, headerOf_take (by decide), Call.request, headerOf_serialize]

theorem Call.WellFormed.accepts (h : call.WellFormed cfg) :
    Accepts .atMostOnce (call.arrived cfg) := by
  obtain ⟨bank, hprepared⟩ := h.prepared
  constructor
  · have hlen := headerSize_le_serialize (cfg.host call.client) call.message
    simp only [Call.arrived, Call.request, List.length_take, maxPacketSize, headerSize] at hlen ⊢
    omega
  · rw [Call.arrived, headerOf_take (by decide), Call.request, headerOf_serialize]
    exact (prepareMessage_atMostOnce hprepared).2.1

theorem Call.WellFormed.requestKey (h : call.WellFormed cfg) :
    requestKey (call.arrived cfg) = some (call.key cfg) := by
  rw [requestKey_of_accepts h.accepts, Call.headerOf_arrived]
  rfl

end Requests

def Phase.call {ι : Type} : Phase ι → Option (Call ι)
  | .sending call _ => some call
  | .receiving call _ => some call
  | _ => none

theorem retry_call {ι : Type} {call call' : Call ι} {attempt : ℕ}
    (h : (retry call attempt).call = some call') : call' = call := by
  rw [retry] at h
  split_ifs at h
  · exact (Option.some.inj h).symm
  · cases h

theorem afterReply_call {ι : Type} (call : Call ι) : (afterReply call).call = none := by
  rw [afterReply]
  split_ifs
  · rfl
  · rfl

structure Client.Moves {ι : Type} (c c' : Client ι) : Prop where
  bank : c'.bank = c.bank
  session : c'.session = c.session
  issued : c'.issued = c.issued
  phase : ∀ call, c'.phase.call = some call → c.phase.call = some call
  inbox : ∀ e ∈ c'.inbox, e ∈ c.inbox

theorem Client.Moves.retry {ι : Type} {c : Client ι} {call : Call ι}
    (hcall : c.phase.call = some call) (attempt : ℕ) :
    c.Moves { c with phase := Network.retry call attempt } where
  bank := rfl
  session := rfl
  issued := rfl
  phase call' h := by rw [retry_call h, hcall]
  inbox e he := he

section Machine
variable {ι M : Type} [Money M] [Float64 M] (cfg : Config ι)

def netMachine : Dedup.Machine (Backend M) (Call ι × ℕ) (Bytes × UInt32) Bytes :=
  machine (fun b x => respond x.2 b (x.1.arrived cfg).data (x.1.arrived cfg).addr)
    fun x => x.1.arrived cfg

omit [Money M] [Float64 M] in
def Net.log (net : Net ι M) :
    Dedup.State (Backend M × List ((Call ι × ℕ) × Bytes)) (Bytes × UInt32) Bytes :=
  ⟨(net.backend, net.executions), cacheOf net.dispatcher.history⟩

theorem netMachine_key {call : Call ι} (h : call.WellFormed cfg) (now : ℕ) :
    (netMachine (M := M) cfg).key (call, now) = some (call.key cfg) :=
  h.requestKey

theorem traced_eq (call : Call ι) (now : ℕ) (s : Backend M × List ((Call ι × ℕ) × Bytes)) :
    traced call now s (call.arrived cfg).data (call.arrived cfg).addr =
      .ok ((netMachine cfg).logged.exec s (call, now)) := by
  have hexec : (netMachine cfg).exec s.1 (call, now) =
      respond now s.1 (call.arrived cfg).data (call.arrived cfg).addr := rfl
  rw [traced, buildHandler_eq now (call.arrived cfg).addr s.1 (call.arrived cfg).bounded, ok_bind]
  simp only [Dedup.Machine.logged, hexec]
  rfl

end Machine

section Step
variable {ι M : Type} [DecidableEq ι] [Money M] [Float64 M] (cfg : Config ι)

inductive Step (net : Net ι M) : Action ι → Net ι M → Prop
  | idle {a : Action ι} : Step net a net
  | moved {a : Action ι} {i : ι} {c : Client ι} (hmoves : (net.clients i).Moves c) :
      Step net a (net.setClient i c)
  | started {i : ι} {cmd : Command} {bank : Session} {message : Message}
      (hprepared : prepareMessage (cfg.host i) (net.clients i).bank cmd = .ok (.ok (bank, message)))
      (call : Call ι)
      (hcall : call = ⟨i, (net.clients i).session, (net.clients i).issued + 1, cmd, message⟩) :
      Step net (.start i cmd) { net.setClient i { net.clients i with
        bank, issued := (net.clients i).issued + 1, phase := .sending call 1 } with
          calls := net.calls ++ [call] }
  | sent {a : Action ι} {i : ι} {call : Call ι} {attempt : ℕ}
      (hphase : (net.clients i).phase = .sending call attempt) :
      Step net a { net.setClient i { net.clients i with phase := .receiving call attempt } with
        up := net.up ++ [call] }
  | returned {i : ι} {call : Call ι} {attempt : ℕ} {answers : Option (Call ι)} {raw : Bytes}
      {inbox : List (Option (Call ι) × Bytes)} {message : Message}
      (hphase : (net.clients i).phase = .receiving call attempt)
      (hinbox : (net.clients i).inbox = (answers, raw) :: inbox)
      (hreply : isCallback raw = false)
      (hdecode : decodeReply (cfg.host i) 64 raw = .ok (.ok message)) :
      Step net (.receive i) { net.setClient i { net.clients i with
        inbox, phase := afterReply call } with
          returned := net.returned ++ [⟨call, answers, raw, message⟩] }
  | restarted (i : ι) :
      Step net (.restart i) (net.setClient i (Client.new cfg i ((net.clients i).session + 1)))
  | delivered {a : Action ι} {reply : Reply ι} (i : ι) (hreply : reply ∈ net.down) :
      Step net a (net.setClient i { net.clients i with
        inbox := (net.clients i).inbox ++ [(some reply.call, reply.data)] })
  | calledBack {a : Action ι} {i : ι} {payload : Bytes}
      (hsent : ∃ sent ∈ net.backend.mon.conn, (cfg.addr i, payload) ∈ sent) :
      Step net a (net.setClient i { net.clients i with
        inbox := (net.clients i).inbox ++ [(none, payload)] })
  | served {n now : ℕ} {call : Call ι} {dispatcher : Dispatcher} {backend : Backend M}
      {executions : List ((Call ι × ℕ) × Bytes)} {reply : Bytes} (hn : net.up[n]? = some call)
      (hmode : dispatcher.mode = .atMostOnce)
      (hlog : ⟨(backend, executions), cacheOf dispatcher.history⟩ =
        ((netMachine cfg).logged.step net.log (call, now)).1)
      (hreply : ((netMachine cfg).logged.step net.log (call, now)).2 = some reply) :
      Step net (.toServer n now)
        { net with dispatcher, backend, executions, down := net.down ++ [⟨call, reply⟩] }
  | swept {a : Action ι} (now : ℕ) :
      Step net a { net with
        backend := { net.backend with mon := net.backend.mon.evictExpired now } }

theorem send_step (net : Net ι M) (i : ι) (a : Action ι) :
    Step cfg net a (send cfg net i) := by
  rw [send]
  dsimp only
  split
  · rename_i call attempt hphase
    split_ifs
    · exact .sent hphase
    · exact .moved (.retry (by rw [hphase]; rfl) attempt)
  · exact .idle

theorem sendFails_step (net : Net ι M) (i : ι) (a : Action ι) :
    Step cfg net a (sendFails net i) := by
  rw [sendFails]
  split
  · rename_i call attempt hphase
    exact .moved (.retry (by rw [hphase]; rfl) attempt)
  · exact .idle

theorem receiveFails_step (net : Net ι M) (i : ι) (a : Action ι) :
    Step cfg net a (receiveFails net i) := by
  rw [receiveFails]
  split
  · rename_i call attempt hphase
    exact .moved (.retry (by rw [hphase]; rfl) attempt)
  · exact .idle

theorem listen_step (net : Net ι M) (i : ι) (a : Action ι) : Step cfg net a (listen net i) := by
  rw [listen]
  split
  · exact .moved ⟨rfl, rfl, rfl, fun call hcall => hcall, fun e he => List.mem_of_mem_tail he⟩
  · exact .idle

theorem stopListening_step (net : Net ι M) (i : ι) (a : Action ι) :
    Step cfg net a (stopListening net i) := by
  rw [stopListening]
  split
  · refine .moved ⟨rfl, rfl, rfl, ?_, fun e he => he⟩
    intro call hcall
    cases hcall
  · exact .idle

theorem start_step (net : Net ι M) (i : ι) (cmd : Command) :
    Step cfg net (.start i cmd) (start cfg net i cmd) := by
  rw [start]
  dsimp only
  split
  · rename_i hphase hprepared
    exact .started hprepared _ rfl
  · exact .idle

theorem receive_step (net : Net ι M) (i : ι) : Step cfg net (.receive i) (receive cfg net i) := by
  rw [receive]
  dsimp only
  split
  · rename_i call attempt answers raw inbox hphase hinbox
    have htail : ∀ e ∈ inbox, e ∈ (net.clients i).inbox := by
      intro e he
      rw [hinbox]
      exact List.mem_cons_of_mem _ he
    split_ifs with hcallback
    · exact .moved ⟨rfl, rfl, rfl, fun call hcall => hcall, htail⟩
    · split
      · rename_i message hdecode
        exact .returned hphase hinbox (by simpa using hcallback) hdecode
      · refine .moved ⟨rfl, rfl, rfl, ?_, htail⟩
        intro call' hcall
        cases hcall
  · exact .idle

theorem toClient_step (net : Net ι M) (n : ℕ) (i : ι) (a : Action ι) :
    Step cfg net a (toClient cfg net n i) := by
  rw [toClient]
  split
  · rename_i reply hreply
    split_ifs
    · exact .delivered i (List.mem_of_getElem? hreply)
    · exact .idle
  · exact .idle

theorem callback_step (net : Net ι M) (i : ι) (payload : Bytes) (a : Action ι) :
    Step cfg net a (callback cfg net i payload) := by
  rw [callback]
  split_ifs with hsent
  · exact .calledBack hsent
  · exact .idle

omit [DecidableEq ι] in
theorem toServer_served {net : Net ι M} (hmode : net.dispatcher.mode = .atMostOnce) {n : ℕ}
    {call : Call ι} (hn : net.up[n]? = some call) (hcall : call.WellFormed cfg) (now : ℕ) :
    ∃ dispatcher backend executions reply,
      toServer cfg net n now = .ok { net with
        dispatcher, backend, executions, down := net.down ++ [⟨call, reply⟩] } ∧
      dispatcher.mode = .atMostOnce ∧
      ⟨(backend, executions), cacheOf dispatcher.history⟩ =
        ((netMachine cfg).logged.step net.log (call, now)).1 ∧
      ((netMachine cfg).logged.step net.log (call, now)).2 = some reply := by
  have hhandler := traced_eq cfg call now (net.backend, net.executions)
  obtain ⟨dispatcher, ⟨backend, executions⟩, result, hdispatch, hmode', hlog, hresult⟩ :=
    dispatch_refines _ (fun x : Call ι × ℕ => x.1.arrived cfg) (x := (call, now)) hmode hhandler
  have hkey := netMachine_key (M := M) cfg hcall now
  obtain ⟨reply, hreply, -⟩ :=
    (netMachine (M := M) cfg).logged.step_reply (s := net.log) (x := (call, now)) hkey
  have hok : result = .ok reply := by
    have hsome : result.toOption = some reply := hresult.trans hreply
    rcases result with err | r
    · cases hsome
    · rw [Option.some.inj hsome]
  refine ⟨dispatcher, backend, executions, reply, ?_, hmode', hlog, hreply⟩
  rw [toServer, hn]
  simp only [hdispatch, ok_bind, hok]
  rfl

theorem toServer_step {net : Net ι M} (hmode : net.dispatcher.mode = .atMostOnce)
    (hup : ∀ call ∈ net.up, call.WellFormed cfg) (n now : ℕ) :
    ∃ net', toServer cfg net n now = .ok net' ∧ Step cfg net (.toServer n now) net' := by
  rcases hn : net.up[n]? with _ | call
  · exact ⟨net, by rw [toServer, hn]; rfl, .idle⟩
  · have hcall := hup call (List.mem_of_getElem? hn)
    obtain ⟨dispatcher, backend, executions, reply, hserver, hmode', hlog, hreply⟩ :=
      toServer_served cfg hmode hn hcall now
    exact ⟨_, hserver, .served hn hmode' hlog hreply⟩

theorem step_cases {net : Net ι M} (hmode : net.dispatcher.mode = .atMostOnce)
    (hup : ∀ call ∈ net.up, call.WellFormed cfg) (a : Action ι) :
    ∃ net', step cfg net a = .ok net' ∧ Step cfg net a net' := by
  cases a with
  | start i cmd => exact ⟨_, rfl, start_step cfg net i cmd⟩
  | send i => exact ⟨_, rfl, send_step cfg net i _⟩
  | sendFails i => exact ⟨_, rfl, sendFails_step cfg net i _⟩
  | receive i => exact ⟨_, rfl, receive_step cfg net i⟩
  | receiveFails i => exact ⟨_, rfl, receiveFails_step cfg net i _⟩
  | listen i => exact ⟨_, rfl, listen_step cfg net i _⟩
  | stopListening i => exact ⟨_, rfl, stopListening_step cfg net i _⟩
  | restart i => exact ⟨_, rfl, .restarted i⟩
  | toServer n now => exact toServer_step cfg hmode hup n now
  | toClient n i => exact ⟨_, rfl, toClient_step cfg net n i _⟩
  | callback i payload => exact ⟨_, rfl, callback_step cfg net i payload _⟩
  | sweep now => exact ⟨_, rfl, .swept now⟩

end Step

section Callbacks
variable {M : Type} [Money M] [Float64 M]

def CallbacksOnly (mon : Manager) : Prop :=
  ∀ sent ∈ mon.conn, ∀ p ∈ sent, isCallback p.2 = true

omit [Money M] in
theorem isCallback_marshal (update : AccountUpdate M) :
    isCallback (marshalCallbackUpdate update) = true := rfl

omit [Money M] in
theorem CallbacksOnly.notifyAll {mon : Manager} (h : CallbacksOnly mon) (now : ℕ)
    (update : AccountUpdate M) : CallbacksOnly (mon.notifyAll now update) := by
  rw [Manager.notifyAll]
  split_ifs
  · exact h
  · intro sent hsent p hp
    rcases List.mem_append.mp hsent with hsent | hsent
    · exact h sent hsent p hp
    · rw [List.mem_singleton.mp hsent] at hp
      obtain ⟨e, -, rfl⟩ := Multiset.mem_map.mp hp
      exact isCallback_marshal update

omit [Money M] in
theorem CallbacksOnly.updates {mon : Manager} (h : CallbacksOnly mon) (now : ℕ)
    (updates : List (AccountUpdate M)) :
    CallbacksOnly (updates.foldl (fun mon u => mon.notifyAll now u) mon) := by
  induction updates generalizing mon with
  | nil => exact h
  | cons update updates ih => exact ih (h.notifyAll now update)

theorem CallbacksOnly.respond {b : Backend M} (h : CallbacksOnly b.mon) (now : ℕ) (data : Bytes)
    (addr : UDPAddr) : CallbacksOnly (respond now b data addr).1.mon := by
  rcases hreq : (parseRequest data : Option (Handler.Request M)) with
    _ | ⟨op, txName⟩ | timeoutSeconds
  · simp only [Handler.respond, hreq, outcome, refusal, Outcome.reply]
    exact h
  · simp only [Handler.respond, hreq, outcome, serve, Outcome.reply]
    exact h.updates now _
  · simp only [Handler.respond, hreq, outcome, serve, Outcome.reply]
    exact h

end Callbacks

section Invariant
variable {ι M : Type} [Money M] [Float64 M] (cfg : Config ι)

structure ClientInv (calls : List (Call ι)) (down : List (Reply ι)) (i : ι) (c : Client ι) :
    Prop where
  bank : c.bank = ⟨invocationFlagAtMostOnce, UInt32.ofNat c.issued, cfg.localIpPort i⟩
  phase : ∀ call, c.phase.call = some call → call ∈ calls
  answers : ∀ e ∈ c.inbox, ∀ call, e.1 = some call → ⟨call, e.2⟩ ∈ down
  callbacks : ∀ e ∈ c.inbox, e.1 = none → isCallback e.2 = true

/-- The call was made in an earlier session of its client, or by now in this one. -/
def Placed (clients : ι → Client ι) (call : Call ι) : Prop :=
  call.session < (clients call.client).session ∨
    call.session = (clients call.client).session ∧ call.number ≤ (clients call.client).issued

def SamePlace (a b : Call ι) : Prop :=
  a.client = b.client ∧ a.session = b.session ∧ a.number = b.number

structure Inv (net : Net ι M) : Prop where
  mode : net.dispatcher.mode = .atMostOnce
  clients : ∀ i, ClientInv cfg net.calls net.down i (net.clients i)
  wellFormed : ∀ call ∈ net.calls, call.WellFormed cfg
  placed : ∀ call ∈ net.calls, Placed net.clients call
  distinct : net.calls.Pairwise fun a b => ¬ SamePlace a b
  up : ∀ call ∈ net.up, call ∈ net.calls
  executed : ∀ e ∈ net.executions, e.1.1 ∈ net.calls
  down : ∀ r ∈ net.down, r.call ∈ net.calls ∧ net.log.cache (r.call.key cfg) = some r.data
  recorded : Dedup.Recorded (netMachine cfg) net.log
  callbacks : CallbacksOnly net.backend.mon

theorem initial_inv : Inv cfg (initial cfg : Net ι M) where
  mode := rfl
  clients i := ⟨rfl, by simp [initial, Client.new, Phase.call], by simp [initial, Client.new],
    by simp [initial, Client.new]⟩
  wellFormed := by simp [initial]
  placed := by simp [initial]
  distinct := List.Pairwise.nil
  up := by simp [initial]
  executed := by simp [initial]
  down := by simp [initial]
  recorded := by
    rw [Net.log, initial, cacheOf_new]
    exact .initial _
  callbacks := by simp [CallbacksOnly, initial, newManager]

section Clients
variable {cfg} {calls calls' : List (Call ι)} {down down' : List (Reply ι)} {i : ι}
  {c c' : Client ι}

omit [Money M] [Float64 M] in
theorem ClientInv.mono (h : ClientInv cfg calls down i c) (hcalls : calls ⊆ calls')
    (hdown : down ⊆ down') : ClientInv cfg calls' down' i c where
  bank := h.bank
  phase call hcall := hcalls (h.phase call hcall)
  answers e he call hcall := hdown (h.answers e he call hcall)
  callbacks := h.callbacks

theorem ClientInv.moves (h : ClientInv cfg calls down i c) (hmoves : c.Moves c') :
    ClientInv cfg calls down i c' where
  bank := by rw [hmoves.bank, hmoves.issued, h.bank]
  phase call hcall := h.phase call (hmoves.phase call hcall)
  answers e he := h.answers e (hmoves.inbox e he)
  callbacks e he := h.callbacks e (hmoves.inbox e he)

theorem ClientInv.new (cfg : Config ι) (calls : List (Call ι)) (down : List (Reply ι)) (i : ι)
    (session : ℕ) : ClientInv cfg calls down i (Client.new cfg i session) where
  bank := rfl
  phase := by simp [Client.new, Phase.call]
  answers := by simp [Client.new]
  callbacks := by simp [Client.new]

theorem ClientInv.push (h : ClientInv cfg calls down i c) {e : Option (Call ι) × Bytes}
    (hanswers : ∀ call, e.1 = some call → ⟨call, e.2⟩ ∈ down)
    (hcallback : e.1 = none → isCallback e.2 = true) :
    ClientInv cfg calls down i { c with inbox := c.inbox ++ [e] } where
  bank := h.bank
  phase := h.phase
  answers := List.forall_mem_append.mpr ⟨h.answers, List.forall_mem_singleton.mpr hanswers⟩
  callbacks := List.forall_mem_append.mpr ⟨h.callbacks, List.forall_mem_singleton.mpr hcallback⟩

end Clients

section Preservation
variable {cfg} [DecidableEq ι] {net net' : Net ι M}

def Client.Before (c c' : Client ι) : Prop :=
  c.session < c'.session ∨ c.session = c'.session ∧ c.issued ≤ c'.issued

omit [Money M] [Float64 M] in
theorem Placed.setClient {call : Call ι} (h : Placed net.clients call) {i : ι} {c : Client ι}
    (hc : (net.clients i).Before c) : Placed (net.setClient i c).clients call := by
  have hbefore := Net.setClient_forall (P := fun j => (net.clients j).Before)
    (fun j => .inr ⟨rfl, le_rfl⟩) hc call.client
  unfold Placed Client.Before at *
  omega

theorem Inv.setClient (h : Inv cfg net) {i : ι} {c : Client ι} (hc : (net.clients i).Before c)
    (hinv : ClientInv cfg net.calls net.down i c) : Inv cfg (net.setClient i c) where
  mode := h.mode
  clients := Net.setClient_forall h.clients hinv
  wellFormed := h.wellFormed
  placed call hcall := (h.placed call hcall).setClient hc
  distinct := h.distinct
  up := h.up
  executed := h.executed
  down := h.down
  recorded := h.recorded
  callbacks := h.callbacks

theorem Inv.moved (h : Inv cfg net) {i : ι} {c : Client ι} (hmoves : (net.clients i).Moves c) :
    Inv cfg (net.setClient i c) := by
  apply h.setClient _ ((h.clients i).moves hmoves)
  exact .inr ⟨hmoves.session.symm, hmoves.issued.ge⟩

omit [DecidableEq ι] in
theorem Inv.addCall (h : Inv cfg net) {call : Call ι} (hwf : call.WellFormed cfg)
    (hplaced : Placed net.clients call) (hnew : ∀ old ∈ net.calls, ¬ SamePlace old call) :
    Inv cfg { net with calls := net.calls ++ [call] } where
  mode := h.mode
  clients i := (h.clients i).mono (List.subset_append_left _ _) (List.Subset.refl _)
  wellFormed := List.forall_mem_append.mpr ⟨h.wellFormed, List.forall_mem_singleton.mpr hwf⟩
  placed := List.forall_mem_append.mpr ⟨h.placed, List.forall_mem_singleton.mpr hplaced⟩
  distinct := by
    refine List.pairwise_append.mpr ⟨h.distinct, List.pairwise_singleton _ _, ?_⟩
    intro a ha b hb
    rw [List.mem_singleton.mp hb]
    exact hnew a ha
  up call' hcall' := List.mem_append_left _ (h.up call' hcall')
  executed e he := List.mem_append_left _ (h.executed e he)
  down r hr := ⟨List.mem_append_left _ (h.down r hr).1, (h.down r hr).2⟩
  recorded := h.recorded
  callbacks := h.callbacks

theorem Inv.started (h : Inv cfg net) {i : ι} {cmd : Command} {bank : Session} {message : Message}
    (hprepared : prepareMessage (cfg.host i) (net.clients i).bank cmd = .ok (.ok (bank, message)))
    {call : Call ι}
    (hcall : call = ⟨i, (net.clients i).session, (net.clients i).issued + 1, cmd, message⟩) :
    Inv cfg { net.setClient i { net.clients i with
      bank, issued := (net.clients i).issued + 1, phase := .sending call 1 } with
        calls := net.calls ++ [call] } := by
  have hbank := (h.clients i).bank
  rw [hbank] at hprepared
  have hnext := (prepareMessage_atMostOnce hprepared).1
  have hwf : call.WellFormed cfg := by
    rw [hcall]
    refine ⟨Nat.le_add_left _ _, bank, ?_⟩
    simp only [Nat.add_sub_cancel]
    exact hprepared
  have hnew : ∀ old ∈ net.calls, ¬ SamePlace old call := by
    intro old hold hsame
    have hplaced := h.placed old hold
    rw [hcall] at hsame
    obtain ⟨hclient, hsession, hnumber⟩ := hsame
    simp only at hclient hsession hnumber
    rw [Placed, hclient] at hplaced
    omega
  -- The counter moves first, then the call is entered, then the client holds it.
  have hcounted := h.setClient (i := i) (c := { net.clients i with
    bank, issued := (net.clients i).issued + 1, phase := .idle })
    (.inr ⟨rfl, Nat.le_succ _⟩) ⟨?_, by simp [Phase.call], (h.clients i).answers,
      (h.clients i).callbacks⟩
  · have hplaced : Placed (net.setClient i { net.clients i with
        bank, issued := (net.clients i).issued + 1, phase := .idle }).clients call := by
      right
      rw [hcall]
      simp [Net.setClient]
    have hentered := hcounted.addCall hwf hplaced hnew
    have hheld := hentered.setClient (i := i) (c := { net.clients i with
      bank, issued := (net.clients i).issued + 1, phase := .sending call 1 })
      (.inr (by simp [Net.setClient])) ⟨?_, ?_, ?_, ?_⟩
    · simpa [Net.setClient] using hheld
    · have hb := (hentered.clients i).bank
      simpa [Net.setClient] using hb
    · intro call' hcall'
      rw [← Option.some.inj hcall']
      exact List.mem_append_right _ (List.mem_singleton_self _)
    · exact (h.clients i).answers
    · exact (h.clients i).callbacks
  · rw [hnext, UInt32.ofNat_add]
    rfl

omit [DecidableEq ι] in
theorem Inv.served (h : Inv cfg net) {n now : ℕ} {call : Call ι} {dispatcher : Dispatcher}
    {backend : Backend M} {executions : List ((Call ι × ℕ) × Bytes)} {reply : Bytes}
    (hn : net.up[n]? = some call) (hmode : dispatcher.mode = .atMostOnce)
    (hlog : ⟨(backend, executions), cacheOf dispatcher.history⟩ =
      ((netMachine cfg).logged.step net.log (call, now)).1)
    (hreply : ((netMachine cfg).logged.step net.log (call, now)).2 = some reply) :
    Inv cfg { net with
      dispatcher, backend, executions, down := net.down ++ [⟨call, reply⟩] } where
  mode := hmode
  clients i := (h.clients i).mono (List.Subset.refl _) (List.subset_append_left _ _)
  wellFormed := h.wellFormed
  placed := h.placed
  distinct := h.distinct
  up := h.up
  executed := by
    intro e he
    have hlogged : e ∈ ((netMachine cfg).logged.step net.log (call, now)).1.inner.2 := by
      rw [← hlog]
      exact he
    rcases (netMachine cfg).logged_step_log net.log (call, now) hlogged with hold | hnew
    · exact h.executed e hold
    · rw [hnew]
      exact h.up call (List.mem_of_getElem? hn)
  down := by
    intro r hr
    rw [Net.log, hlog]
    rcases List.mem_append.mp hr with hr | hr
    · obtain ⟨hcall, hcache⟩ := h.down r hr
      exact ⟨hcall, (netMachine cfg).logged.step_cache (call, now) hcache⟩
    · rw [List.mem_singleton.mp hr]
      have hcall := h.up call (List.mem_of_getElem? hn)
      have hkey := netMachine_key (M := M) cfg (h.wellFormed call hcall) now
      obtain ⟨reply', hreply', hcache⟩ := (netMachine (M := M) cfg).logged.step_reply (s := net.log)
        (x := (call, now)) hkey
      rw [hreply] at hreply'
      rw [Option.some.inj hreply']
      exact ⟨hcall, hcache⟩
  recorded := by
    rw [Net.log, hlog]
    exact h.recorded.step (call, now)
  callbacks := by
    have hbackend : backend = ((netMachine cfg).logged.step net.log (call, now)).1.inner.1 := by
      rw [← hlog]
    rw [hbackend, ((netMachine cfg).logged_step_inner net.log (call, now)).1]
    rw [Dedup.Machine.step]
    split
    · exact h.callbacks
    · split
      · exact h.callbacks
      · exact h.callbacks.respond now _ _

theorem Inv.step (h : Inv cfg net) {a : Action ι} (hstep : Step cfg net a net') : Inv cfg net' := by
  cases hstep with
  | idle => exact h
  | moved hmoves => exact h.moved hmoves
  | started hprepared call hcall => exact h.started hprepared hcall
  | @sent _ i call attempt hphase =>
    have hmem := (h.clients i).phase call (by rw [hphase]; rfl)
    have hmoves : (net.clients i).Moves { net.clients i with phase := .receiving call attempt } :=
      ⟨rfl, rfl, rfl, fun call' hcall' => by rw [hphase]; exact hcall', fun e he => he⟩
    have hinv := h.moved hmoves
    refine ⟨hinv.mode, hinv.clients, hinv.wellFormed, hinv.placed, hinv.distinct, ?_,
      hinv.executed, hinv.down, hinv.recorded, hinv.callbacks⟩
    exact List.forall_mem_append.mpr ⟨h.up, List.forall_mem_singleton.mpr hmem⟩
  | @returned i call attempt answers raw inbox message hphase hinbox hreply hdecode =>
    have hmoves : (net.clients i).Moves { net.clients i with
        inbox, phase := afterReply call } := by
      refine ⟨rfl, rfl, rfl, ?_, ?_⟩
      · intro call' hcall'
        rw [afterReply_call] at hcall'
        cases hcall'
      · intro e he
        rw [hinbox]
        exact List.mem_cons_of_mem _ he
    have hinv := h.moved hmoves
    exact ⟨hinv.mode, hinv.clients, hinv.wellFormed, hinv.placed, hinv.distinct, hinv.up,
      hinv.executed, hinv.down, hinv.recorded, hinv.callbacks⟩
  | restarted i => exact h.setClient (.inl (Nat.lt_succ_self _)) (ClientInv.new cfg _ _ i _)
  | delivered i hreply =>
    apply h.setClient _ ((h.clients i).push _ _)
    · exact .inr ⟨rfl, le_rfl⟩
    · intro call hcall
      rw [← Option.some.inj hcall]
      exact hreply
    · intro hnone
      cases hnone
  | calledBack hsent =>
    apply h.setClient _ ((h.clients _).push _ _)
    · exact .inr ⟨rfl, le_rfl⟩
    · intro call hcall
      cases hcall
    · intro _
      obtain ⟨sent, hsent, hp⟩ := hsent
      exact h.callbacks sent hsent _ hp
  | served hn hmode hlog hreply => exact h.served hn hmode hlog hreply
  | swept now =>
    exact ⟨h.mode, h.clients, h.wellFormed, h.placed, h.distinct, h.up, h.executed, h.down,
      h.recorded.withInner _, h.callbacks⟩

theorem Inv.total (h : Inv cfg net) (a : Action ι) :
    ∃ net', Network.step cfg net a = .ok net' ∧ Step cfg net a net' ∧ Inv cfg net' := by
  have hup : ∀ call ∈ net.up, call.WellFormed cfg := fun call hcall =>
    h.wellFormed call (h.up call hcall)
  obtain ⟨net', hnet', hstep⟩ := step_cases cfg h.mode hup a
  exact ⟨net', hnet', hstep, h.step hstep⟩

end Preservation

section Consequences
variable {cfg} {net : Net ι M}

theorem Inv.unique (h : Inv cfg net) {a b : Call ι} (ha : a ∈ net.calls) (hb : b ∈ net.calls)
    (hsame : SamePlace a b) : a = b := by
  have hsymm : Std.Symm fun a b : Call ι => ¬ SamePlace a b :=
    ⟨fun _ _ hab hba => hab ⟨hba.1.symm, hba.2.1.symm, hba.2.2.symm⟩⟩
  by_contra hne
  exact h.distinct.forall ha hb hne hsame

theorem Inv.key (h : Inv cfg net) {e : (Call ι × ℕ) × Bytes} (he : e ∈ net.executions) :
    (netMachine (M := M) cfg).key e.1 = some (e.1.1.key cfg) :=
  netMachine_key cfg (h.wellFormed _ (h.executed e he)) e.1.2

theorem Inv.executed_once (h : Inv cfg net) {a b : (Call ι × ℕ) × Bytes}
    (ha : a ∈ net.executions) (hb : b ∈ net.executions) (hkey : a.1.1.key cfg = b.1.1.key cfg) :
    a = b := by
  apply h.recorded.unique ha hb
  rw [h.key ha, h.key hb, hkey]

theorem Inv.execution (h : Inv cfg net) {r : Reply ι} (hr : r ∈ net.down) :
    ∃ e ∈ net.executions, e.2 = r.data ∧ e.1.1.key cfg = r.call.key cfg := by
  obtain ⟨x, hx, hkey⟩ := h.recorded.cached _ _ (h.down r hr).2
  rw [h.key hx] at hkey
  exact ⟨(x, r.data), hx, rfl, Option.some.inj hkey⟩

theorem Inv.computed (h : Inv cfg net) {e : (Call ι × ℕ) × Bytes} (he : e ∈ net.executions) :
    ∃ b : Backend M, (respond e.1.2 b (e.1.1.arrived cfg).data (e.1.1.arrived cfg).addr).2 = e.2 :=
  h.recorded.computed e he

theorem Inv.reply_requestId (h : Inv cfg net) {r : Reply ι} (hr : r ∈ net.down) :
    (headerOf r.data).requestID = r.call.message.id.requestId := by
  obtain ⟨e, he, hreply, hkey⟩ := h.execution hr
  obtain ⟨b, hb⟩ := h.computed he
  have hlong : ¬ (e.1.1.arrived cfg).data.length < headerSize := by
    have haccept := (h.wellFormed _ (h.executed e he)).accepts
    exact not_lt.mpr haccept.1
  rw [← hreply, ← hb, respond_requestID, requestIDOf, if_neg hlong, Call.headerOf_arrived]
  exact congrArg Prod.snd hkey

end Consequences
end Invariant

end DistributedBanking.Network
