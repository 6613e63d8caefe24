import DistributedBanking.CommandDecoding
import DistributedBanking.Server

/-!
# Replies as the client reads them

Every reply that the server sends is a `BuildReply` of the request's id, also
one from the reply history: that is the invariant over runs. The client parses
it with nothing left over, and the content of a fresh reply decodes to the one
value the service returns.
-/

namespace DistributedBanking.Server
open Store Banking Marshalling Monitor Semantics Handler
open ClientProtocol hiding statusSuccess

/-- What `BuildReply` can make of a request with this id: a known status, and at most one field. -/
structure IsReply (requestID : UInt32) (reply : Bytes) : Prop where
  built : ∃ addr status content, reply = buildReply requestID addr status content ∧
    status.toNat ≤ 7 ∧ content.length < 2 ^ 16

theorem framed_buildReply (requestID : UInt32) (addr : UDPAddr) (status : UInt8)
    {content : Bytes} (hcontent : content.length < 2 ^ 16) :
    framed (buildReply requestID addr status content) =
        ⟨messageTypeReply, 0, ⟨requestID, ipv4ToUint32 addr, addr.port⟩,
          ⟨status.toUInt16, content⟩⟩ ∧
      (headerOf (buildReply requestID addr status content)).contentLen.toNat = content.length ∧
      (buildReply requestID addr status content).length = headerSize + content.length := by
  have hlen : (UInt32.ofNat content.length).toNat = content.length :=
    UInt32.toNat_ofNat_of_lt' (show content.length < 2 ^ 32 by omega)
  rw [buildReply_header]
  refine ⟨?_, ?_, ?_⟩
  · rw [framed, headerOf_headerBytes, List.drop_left' (length_headerBytes _)]
    simp only [hlen, List.take_length]
    rfl
  · rw [headerOf_headerBytes, hlen]
  · rw [List.length_append, length_headerBytes]

theorem deserialize_buildReply (e : Endian) {bits : ℕ} (hbits : 32 ≤ bits) {requestID : UInt32}
    {addr : UDPAddr} {status : UInt8} {content : Bytes} (hcontent : content.length < 2 ^ 16) :
    deserialize e bits (buildReply requestID addr status content) =
      .ok (.ok ⟨messageTypeReply, 0, ⟨requestID, ipv4ToUint32 addr, addr.port⟩,
        ⟨status.toUInt16, content⟩⟩) := by
  have hpow : 2 ^ 32 ≤ 2 ^ bits := Nat.pow_le_pow_right (by omega) hbits
  obtain ⟨hframed, hlen, hsize⟩ := framed_buildReply requestID addr status hcontent
  rw [deserialize_eq e hbits (by rw [hsize, headerSize]; omega), if_neg (by omega),
    if_neg (by omega), hframed]

theorem isCallback_buildReply (requestID : UInt32) (addr : UDPAddr) (status : UInt8)
    (content : Bytes) : isCallback (buildReply requestID addr status content) = false := by
  rw [buildReply_eq]
  rfl

section Replies
variable {M : Type} [Money M] [Float64 M]

omit [Money M] in
theorem length_contentOf (r : Result M) : (contentOf r).length < 2 ^ 16 := by
  cases r with
  | opened accNo => simp [contentOf, encodeTLVFields_eq, length_fieldBytes, tlvUint32]
  | closed => simp [contentOf]
  | balance b => simp [contentOf, encodeTLVFields_eq, length_fieldBytes, tlvFloat64]
  | balances f t => simp [contentOf, encodeTLVFields_eq, length_fieldBytes, tlvFloat64]
  | failed err => simp [contentOf]

theorem mapBankingError_le (err : BankingError) : (mapBankingError err).toNat ≤ 7 := by
  cases err <;> simp [mapBankingError, statusErrInvalidCreds, statusErrAccMismatch,
    statusErrCurrMismatch, statusErrInsuffFunds, statusErrSameAccount, statusErrAccNotFound,
    statusErrInternal]

omit [Money M] [Float64 M] in
theorem statusOf_le (r : Result M) : (statusOf r).toNat ≤ 7 := by
  cases r with
  | failed err => exact mapBankingError_le err
  | _ => simp [statusOf, statusSuccess]

theorem outcome_wellFormed (now : ℕ) (addr : UDPAddr) (b : Backend M) (req : Option (Request M)) :
    (outcome now addr b req).status.toNat ≤ 7 ∧
      (outcome now addr b req).content.length < 2 ^ 16 := by
  rcases req with _ | ⟨op, txName⟩ | timeoutSeconds
  · exact ⟨by simp [outcome, refusal, statusErrInternal], by simp [outcome, refusal]⟩
  · exact ⟨statusOf_le _, length_contentOf _⟩
  · exact ⟨by simp [outcome, serve, statusSuccess], by simp [outcome, serve]⟩

theorem respond_isReply (now : ℕ) (b : Backend M) (data : Bytes) (addr : UDPAddr) :
    IsReply (requestIDOf data) (respond now b data addr).2 := by
  obtain ⟨hstatus, hcontent⟩ := outcome_wellFormed now addr b (parseRequest data)
  exact ⟨addr, _, _, rfl, hstatus, hcontent⟩

theorem requestIDOf_of_le {data : Bytes} (h : headerSize ≤ data.length) :
    requestIDOf data = (headerOf data).requestID := by
  rw [requestIDOf, if_neg (not_lt.mpr h)]

omit [Money M] [Float64 M] in
def CachesReplies (s : Server M) : Prop :=
  ∀ history, s.dispatcher.history = some history → ∀ c id reply,
    history.lookup c id = some reply → IsReply id reply

theorem CachesReplies.receive {s s' : Server M} {d : Datagram} {now : ℕ}
    {res : Except DispatchError Bytes} (h : CachesReplies s) (hdisp : Dispatched s d now s' res) :
    CachesReplies s' := by
  obtain ⟨dispatcher, backend⟩ := s'
  cases hdisp with
  | rejected haccept => exact h
  | executed haccept hmode => exact h
  | @recorded history haccept hmode hhistory hfresh =>
    intro history' hhistory' c id reply hlookup
    cases hhistory'
    rw [ReplyHistory.lookup_store] at hlookup
    split_ifs at hlookup with hkey
    · obtain ⟨-, rfl⟩ := hkey
      cases hlookup
      rw [← requestIDOf_of_le haccept.1]
      exact respond_isReply now s.backend d.data d.addr
    · exact h history hhistory c id reply hlookup
  | replayed haccept hmode hhistory hcached => exact h

theorem CachesReplies.answer {s s' : Server M} {d : Datagram} {now : ℕ} {reply : Bytes}
    (h : CachesReplies s) (hdisp : Dispatched s d now s' (.ok reply)) :
    IsReply (headerOf d.data).requestID reply := by
  obtain ⟨dispatcher, backend⟩ := s'
  have hfresh : headerSize ≤ d.data.length →
      IsReply (headerOf d.data).requestID (respond now s.backend d.data d.addr).2 := by
    intro hlen
    rw [← requestIDOf_of_le hlen]
    exact respond_isReply now s.backend d.data d.addr
  cases hdisp with
  | executed haccept hmode => exact hfresh haccept.1
  | recorded haccept hmode hhistory hnew => exact hfresh haccept.1
  | replayed haccept hmode hhistory hcached => exact h _ hhistory _ _ _ hcached

omit [Float64 M] in
theorem requestOf_monitor {cmd : ParsedCommand M} {timeoutSeconds : UInt32}
    (h : requestOf cmd = some (.monitor timeoutSeconds)) : cmd.service = some serviceMonitor := by
  simp only [requestOf, Option.bind_eq_bind, Option.bind_eq_some_iff] at h
  obtain ⟨serviceID, hservice, h⟩ := h
  split_ifs at h with h1 h2 h3 h4 h5
  all_goals first
    | exact h5 ▸ hservice
    | simp [openRequest, closeRequest, depositRequest, withdrawRequest, getBalanceRequest,
        transferRequest, Option.bind_eq_some_iff] at h

theorem parseRequest_monitor {data : Bytes} {timeoutSeconds : UInt32}
    (h : (parseRequest data : Option (Request M)) = some (.monitor timeoutSeconds)) :
    ∃ cmd : ParsedCommand M, decodeTLV 64 (data.drop headerSize) = .ok (.ok cmd) ∧
      cmd.service = some serviceMonitor := by
  rw [parseRequest] at h
  split_ifs at h
  rcases hdecode : decodeTLV (M := M) 64 (data.drop headerSize) with fault | err | cmd
  · simp [hdecode] at h
  · simp [hdecode] at h
  · simp only [hdecode] at h
    exact ⟨cmd, rfl, requestOf_monitor h⟩

/-- What a fresh SUCCESS reply tells the client: nothing for Close and Monitor, the number of the
new account for Open, and the resulting balance of the named account for the other services. -/
inductive Tells (e : Endian) (bits : ℕ) (store store' : MemoryStore M) (cmd : ParsedCommand M)
    (content : Bytes) : Prop
  | nothing (hservice : cmd.service = some serviceCloseAccount ∨ cmd.service = some serviceMonitor)
      (hcontent : content = [])
  | newAccount {acc : Account M} (hservice : cmd.service = some serviceOpenAccount)
      (hopened : store'.accounts.get store.nextID = some acc)
      (hcontent : decodeMessage e bits content =
        .ok (.ok { accountNumber := some store.nextID }))
  | balance {accNo : UInt32} {acc : Account M}
      (hservice : cmd.service = some serviceDeposit ∨ cmd.service = some serviceWithdraw ∨
        cmd.service = some serviceGetBalance ∨ cmd.service = some serviceTransferFunds)
      (hnamed : cmd.accountNumber = some accNo) (hstored : store'.accounts.get accNo = some acc)
      (hcontent : e = .little → decodeMessage e bits content =
        .ok (.ok { monetaryValue := some (Float64.bits acc.balance) }))

omit [Money M] [Float64 M] in
theorem get_of_eq_set {m m' : FiniteMap UInt32 (Account M)} {k : UInt32} {acc : Account M}
    (h : m' = m.set k acc) : m'.get k = some acc := by
  rw [h, FiniteMap.get_set_self]

theorem effect_tells {e : Endian} {bits : ℕ} (hbits : 32 ≤ bits) {s s' : MemoryStore M} {op : Op M}
    {res : Result M} (heff : Effect s op s' res) {cmd : ParsedCommand M} (hcmd : Carries cmd op)
    (hsuccess : res.Succeeds) : Tells e bits s s' cmd (contentOf res) := by
  have hbalance : ∀ b : M, e = .little → decodeMessage e bits (contentOf (.balance b)) =
      .ok (.ok { monetaryValue := some (Float64.bits b) }) := by
    intro b hb
    subst hb
    exact decodeMessage_monetaryValue hbits b
  cases heff with
  | opened haccounts hnext =>
    exact .newAccount hcmd.1 (get_of_eq_set haccounts) (decodeMessage_accountNumber hbits _)
  | closed hauth haccounts hnext => exact .nothing (.inl hcmd.1) rfl
  | checked hauth =>
    exact .balance (.inr (.inr (.inl hcmd.1))) hcmd.2.2.1 hauth.stored (hbalance _)
  | deposited hpos hauth hcurr haccounts hnext =>
    exact .balance (.inl hcmd.1) hcmd.2.2.1 (get_of_eq_set haccounts) (hbalance _)
  | withdrawn hpos hauth hcurr hfunds haccounts hnext =>
    exact .balance (.inr (.inl hcmd.1)) hcmd.2.2.1 (get_of_eq_set haccounts) (hbalance _)
  | @transferred name accNo pw toAccNo curr amount acc toAcc s' hpos hne hauth hto hcurr hsame
      hfunds haccounts hnext =>
    have hsource : s'.accounts.get accNo = some { acc with balance := acc.balance - amount } := by
      rw [haccounts, FiniteMap.get_set_of_ne _ _ hne, FiniteMap.get_set_self]
    exact .balance (.inr (.inr (.inr hcmd.1))) hcmd.2.2.1 hsource (hbalance _)
  | refused => exact absurd hsuccess id

theorem outcome_content {e : Endian} {bits : ℕ} (hbits : 32 ≤ bits) (now : ℕ) (addr : UDPAddr)
    (b : Backend M) (data : Bytes) :
    ((outcome now addr b (parseRequest data)).status ≠ statusSuccess →
      (outcome now addr b (parseRequest data)).content = []) ∧
    ((outcome now addr b (parseRequest data)).status = statusSuccess →
      ∃ cmd, decodeTLV 64 (data.drop headerSize) = .ok (.ok cmd) ∧
        Tells e bits b.store (outcome now addr b (parseRequest data)).backend.store cmd
          (outcome now addr b (parseRequest data)).content) := by
  rcases hreq : (parseRequest data : Option (Request M)) with _ | ⟨op, txName⟩ | timeoutSeconds
  · refine ⟨fun _ => rfl, fun hstatus => ?_⟩
    simp [outcome, refusal, statusErrInternal, statusSuccess] at hstatus
  · obtain ⟨cmd, hdecode, hcarries⟩ := parseRequest_carries hreq
    have heff := perform_effect b.store op
    have hstatus : (outcome now addr b (some (.bank op txName))).status =
        statusOf (perform b.store op).2 := rfl
    have hcontent : (outcome now addr b (some (.bank op txName))).content =
        contentOf (perform b.store op).2 := rfl
    have hstore : (outcome now addr b (some (.bank op txName))).backend.store =
        (perform b.store op).1 := rfl
    rw [hstatus, hcontent, hstore]
    refine ⟨fun hfailed => ?_, fun hsuccess => ?_⟩
    · have hnot : ¬ (perform b.store op).2.Succeeds := fun h => hfailed (statusOf_success.mpr h)
      generalize (perform b.store op).2 = res at hnot
      cases res with
      | failed err => rfl
      | _ => exact absurd trivial hnot
    · exact ⟨cmd, hdecode, effect_tells hbits heff hcarries (statusOf_success.mp hsuccess)⟩
  · obtain ⟨cmd, hdecode, hservice⟩ := parseRequest_monitor hreq
    exact ⟨fun _ => rfl, fun _ => ⟨cmd, hdecode, .nothing (.inr hservice) rfl⟩⟩

/-- The client reads the reply to the datagram as the message, with nothing left over, and from a
fresh reply exactly what the service returned. -/
structure Understood (e : Endian) (bits : ℕ) (s s' : Server M) (d : Datagram) (reply : Bytes)
    (msg : Message) : Prop where
  accepted : deserialize e bits reply = .ok (.ok msg)
  type : msg.type = messageTypeReply
  requestId : msg.id.requestId = (headerOf d.data).requestID
  status : msg.payload.statusCode.toNat ≤ 7
  declared : msg.payload.content.length = (headerOf reply).contentLen.toNat
  whole : reply.drop headerSize = msg.payload.content
  notCallback : isCallback reply = false
  failed : Executes s d → msg.payload.statusCode ≠ ClientProtocol.statusSuccess →
    msg.payload.content = []
  told : Executes s d → msg.payload.statusCode = ClientProtocol.statusSuccess →
    ∃ cmd, decodeTLV 64 (d.data.drop headerSize) = .ok (.ok cmd) ∧
      Tells e bits s.backend.store s'.backend.store cmd msg.payload.content

/-- In every reachable state, on every host, the client understands the reply to a datagram that
the dispatcher accepts. -/
theorem reply_understood {mode : Mode} (hmode : mode = .atLeastOnce ∨ mode = .atMostOnce)
    (es : List Event) {d : Datagram} (haccept : Accepts mode d) (now : ℕ) :
    ∃ (s s' : Server M) (reply : Bytes),
      run (newServer mode) es = .ok s ∧ receive s d now = .ok (s', .ok reply) ∧
      ∀ e bits, 32 ≤ bits → ∃ msg, Understood e bits s s' d reply msg := by
  obtain ⟨s, hrun, hsmode, hcaches⟩ := run_invariant (M := M) (P := CachesReplies)
    (s := newServer mode) (by
      intro history hhistory c id reply hlookup
      rcases hmode with rfl | rfl
      · cases hhistory
      · cases hhistory
        simp at hlookup)
    (running_newServer hmode) (fun _ _ _ _ _ h hdisp => h.receive hdisp)
    (fun _ _ h => h) es
  have hrunning : Running s.dispatcher := by
    rw [Running, hsmode]
    exact hmode
  obtain ⟨⟨s', res⟩, hreceive, hdisp⟩ := receive_dispatched hrunning d now
  have haccept' : Accepts s.dispatcher.mode d := by
    rw [hsmode]
    exact haccept
  obtain ⟨reply, rfl⟩ : ∃ reply, res = .ok reply := hdisp.reply haccept'
  refine ⟨s, s', reply, hrun, hreceive, ?_⟩
  intro e bits hbits
  obtain ⟨addr, status, content, rfl, hstatus, hcontent⟩ := (hcaches.answer hdisp).built
  obtain ⟨hframed, hlen, hsize⟩ :=
    framed_buildReply (headerOf d.data).requestID addr status hcontent
  have hfresh : Executes s d →
      status = (outcome now d.addr s.backend (parseRequest d.data)).status ∧
        content = (outcome now d.addr s.backend (parseRequest d.data)).content ∧
        s'.backend.store = (outcome now d.addr s.backend (parseRequest d.data)).backend.store := by
    intro hexec
    rcases hdisp.backend with ⟨-, hbackend, hreply⟩ | ⟨hnot, -⟩
    swap
    · exact absurd hexec hnot
    have hframed' := congrArg framed (Except.ok.inj hreply)
    obtain ⟨-, hshort⟩ := outcome_wellFormed now d.addr s.backend (parseRequest d.data)
    rw [hframed, respond, Outcome.reply, (framed_buildReply _ _ _ hshort).1] at hframed'
    simp only [Message.mk.injEq, Payload.mk.injEq] at hframed'
    obtain ⟨-, -, -, hcode, hbody⟩ := hframed'
    exact ⟨UInt8.toUInt16_inj.mp hcode, hbody, by rw [hbackend]; rfl⟩
  obtain ⟨hfailed, hsuccess⟩ := outcome_content (e := e) hbits now d.addr s.backend d.data
  exact ⟨_, {
    accepted := deserialize_buildReply e hbits hcontent
    type := rfl
    requestId := rfl
    status := by simpa using hstatus
    declared := hlen.symm
    whole := by rw [buildReply_header, List.drop_left' (length_headerBytes _)]
    notCallback := isCallback_buildReply _ _ _ _
    failed := fun hexec hne => by
      obtain ⟨hcode, hbody, -⟩ := hfresh hexec
      simp only [hcode] at hne
      exact hbody.trans (hfailed fun heq => hne (by rw [heq]; rfl))
    told := fun hexec heq => by
      obtain ⟨hcode, hbody, hstore⟩ := hfresh hexec
      simp only [hcode] at heq
      simp only [hbody, hstore]
      exact hsuccess (UInt8.toUInt16_inj.mp heq) }⟩

def openingPacket : Datagram where
  data := packetOf ⟨2, 0, (0x7F000001, 4000)⟩ ⟨some 1, none, some [65], some [80],
    none, none, some 0x4049000000000000, some 1, none, none⟩
  addr := .loopback 4000
  small := by decide +kernel

theorem opening_reply_understood :
    ∃ (s s' : Server Binary64) (reply : Bytes),
      run (newServer .atMostOnce) [] = .ok s ∧
      receive s openingPacket 0 = .ok (s', .ok reply) ∧
      ∀ e bits, 32 ≤ bits → ∃ msg, Understood e bits s s' openingPacket reply msg :=
  reply_understood (.inr rfl) [] (by decide +kernel) 0

end Replies
end DistributedBanking.Server
