import DistributedBanking.EndToEnd

/-!
# Stale replies

The server files a reply under the address and the request id, and a client
that is started again counts its requests from 1: a new request can meet the
reply to a request of an earlier session. The client takes the first datagram
that is no callback for the reply to its request: a duplicate, or a reply that
came after the client gave up, is taken for the reply to a later request.
-/

namespace DistributedBanking.Network
open Runs Store Banking Monitor Semantics Handler Server ClientProtocol

section Server
variable {ι M : Type} [DecidableEq ι] [Money M] [Float64 M] {cfg : Config ι} {net net' : Net ι M}
  {a : Action ι}

/-- Every reply was computed by the handler from the call that it answers. -/
def OwnReplies (net : Net ι M) : Prop :=
  ∀ r ∈ net.down, ∃ now, ((r.call, now), r.data) ∈ net.executions

/-- A call arrives whose address and request id the server has executed another call under. -/
def Collides (cfg : Config ι) (net : Net ι M) : Action ι → Prop
  | .toServer n _ => ∃ call, net.up[n]? = some call ∧ ∃ e ∈ net.executions, e.1.1 ≠ call ∧
    cfg.addr e.1.1.client = cfg.addr call.client ∧
    e.1.1.message.id.requestId = call.message.id.requestId
  | _ => False

omit [DecidableEq ι] in
theorem Inv.key_eq_iff {x y : Call ι} : x.key cfg = y.key cfg ↔
    cfg.addr x.client = cfg.addr y.client ∧ x.message.id.requestId = y.message.id.requestId := by
  simp only [Call.key, Prod.mk.injEq, UDPAddr.string_injective.eq_iff]

theorem step_own (h : Inv cfg net) (hown : OwnReplies net) (hstep : Step cfg net a net')
    (hclean : ¬ Collides cfg net a) : OwnReplies net' := by
  cases hstep with
  | @served n now call dispatcher backend executions reply hn hmode hlog hreply =>
    have hexecutions : executions =
        ((netMachine cfg).logged.step net.log (call, now)).1.inner.2 := by
      rw [← hlog]
    intro r hr
    simp only [hexecutions]
    rcases List.mem_append.mp hr with hr | hr
    · obtain ⟨now', he⟩ := hown r hr
      exact ⟨now', (netMachine cfg).logged_step_mem he (call, now)⟩
    · rw [List.mem_singleton.mp hr]
      have hcall := h.up call (List.mem_of_getElem? hn)
      obtain ⟨y, hy, hkey⟩ := h.recorded.reply hreply
      rcases (netMachine cfg).logged_step_log net.log (call, now) hy with hold | hnew
      · rw [h.key hold, netMachine_key cfg (h.wellFormed call hcall), Option.some.injEq,
          Inv.key_eq_iff] at hkey
        obtain ⟨executed, now'⟩ := y
        by_cases hsame : executed = call
        · rw [hsame] at hy
          exact ⟨now', hy⟩
        · exact absurd ⟨call, hn, ((executed, now'), reply), hold, hsame, hkey⟩ hclean
      · simp only at hnew
        rw [hnew] at hy
        exact ⟨now, hy⟩
  | _ => exact hown

theorem collides_not_own (h : Inv cfg net) (hcollides : Collides cfg net a)
    (hnet' : step cfg net a = .ok net') : ¬ OwnReplies net' := by
  intro hown
  cases a with
  | toServer n now =>
    obtain ⟨call, hn, e, he, hne, hsame⟩ := hcollides
    have hcall := h.up call (List.mem_of_getElem? hn)
    obtain ⟨dispatcher, backend, executions, reply, hserver, -, hlog, hreply⟩ :=
      toServer_served cfg h.mode hn (h.wellFormed call hcall) now
    have hkey : e.1.1.key cfg = call.key cfg := Inv.key_eq_iff.mpr hsame
    -- The key is on record, so the call is not executed and gets the other call's reply.
    obtain ⟨k, hk, hcached⟩ := h.recorded.filed e he
    rw [h.key he, Option.some.injEq] at hk
    rw [← hk, hkey] at hcached
    have hreplayed := (netMachine (M := M) cfg).logged.step_of_cached (x := (call, now))
      (netMachine_key (M := M) cfg (h.wellFormed call hcall) now) hcached
    rw [hreplayed] at hlog
    have hexecutions : executions = net.executions := congrArg (fun s => s.inner.2) hlog
    rw [step, hserver] at hnet'
    cases hnet'
    obtain ⟨now', hmem⟩ := hown ⟨call, reply⟩
      (List.mem_append_right _ (List.mem_singleton_self _))
    simp only [hexecutions] at hmem
    have honce := h.executed_once he hmem hkey
    exact hne (by rw [honce])
  | _ => exact hcollides

/-- In a run of the network every reply is the call's own exactly when no call arrives under the
address and the request id of another one that was executed. -/
theorem own_replies_iff (cfg : Config ι) (acts : List (Action ι)) :
    EveryStep (step cfg) (fun _ _ net' => OwnReplies net') (initial cfg : Net ι M) acts ↔
      EveryStep (step cfg) (fun net a _ => ¬ Collides cfg net a) (initial cfg : Net ι M) acts := by
  apply everyStep_congr (I := fun net _ => Inv cfg net ∧ OwnReplies net)
  · intro net a acts h
    obtain ⟨hinv, hown⟩ := h
    obtain ⟨net', hnet', hstep, hinv'⟩ := hinv.total a
    have hiff : OwnReplies net' ↔ ¬ Collides cfg net a :=
      ⟨fun hown' hcollides => collides_not_own hinv hcollides hnet' hown',
        step_own hinv hown hstep⟩
    exact ⟨net', hnet', hiff, fun hclean => ⟨hinv', hiff.mpr hclean⟩⟩
  · exact ⟨initial_inv cfg, by simp [OwnReplies, initial]⟩

end Server

def oneClient : Config Unit where
  addr _ := .loopback 4000
  host _ := .little
  localIpPort _ := (0x7F000001, 4000)

/-- "A" opens an account, the client is started again, and "B" opens an account. -/
def restartedSession : List (Action Unit) :=
  [.start () (openCommand 65), .send (), .toServer 0 0, .toClient 0 (), .receive (), .restart (),
    .start () (openCommand 66), .send (), .toServer 1 1]

/-- The second session's request is answered, but only the first session's was executed. -/
theorem restartedSession_stale :
    ¬ EveryStep (step oneClient) (fun _ _ net' => OwnReplies net')
      (initial oneClient : Net Unit Binary64) restartedSession := by
  intro hown
  obtain ⟨net, hrun, hlast⟩ := hown.last (by simp [OwnReplies, initial])
  have hsessions := eq_of_check (f := fun net => (net.down.map fun r => r.call.session,
    net.executions.map fun e => e.1.1.session)) (b := ([0, 1], [0])) hrun (by decide +kernel)
  obtain ⟨hdown, hexecutions⟩ := Prod.mk.inj hsessions
  have hanswered : 1 ∈ net.down.map fun r => r.call.session := by
    rw [hdown]
    decide
  obtain ⟨r, hr, hsession⟩ := List.mem_map.mp hanswered
  obtain ⟨now, hexecuted⟩ := hlast r hr
  have hmem := List.mem_map_of_mem (f := fun e : (Call Unit × ℕ) × Bytes => e.1.1.session) hexecuted
  rw [hexecutions] at hmem
  simp only [List.mem_singleton] at hmem
  omega

section Decoding
variable {e : Endian}

theorem deserialize_requestId {bits : ℕ} {data : Bytes} {m : Message}
    (h : deserialize e bits data = .ok (.ok m)) :
    m.id.requestId = (headerOf data).requestID := by
  rw [deserialize] at h
  split_ifs at h with hshort
  · cases h
  · have hlen : 18 ≤ data.length := by simpa [validateHeader] using hshort
    have hid : ((data.drop 2).take 4).length = 4 := by
      simp only [List.length_take, List.length_drop]
      omega
    have htype : loadUint8 data 0 = .ok data[0] := by
      rw [loadUint8, List.getElem?_eq_getElem]
    have hflag : loadUint8 data 1 = .ok data[1] := by
      rw [loadUint8, List.getElem?_eq_getElem]
    have hcopy : ∀ offset n, offset + n ≤ 18 →
        memcpy data offset n = .ok ((data.drop offset).take n) := by
      intro offset n hn
      exact memcpy_ok (hn.trans hlen)
    simp only [htype, hflag, loadUint32, loadUint16, hcopy 2 4 (by omega), hcopy 6 4 (by omega),
      hcopy 10 2 (by omega), hcopy 12 2 (by omega), hcopy 14 4 (by omega), ok_bind,
      pure_bind] at h
    split_ifs at h
    · cases h
    · rcases hcontent : memcpy data 18 _ with fault | content
      · rw [hcontent] at h
        cases h
      · rw [hcontent] at h
        cases h
        exact ntohl_objectValue hid

theorem decodeReply_requestId {bits : ℕ} {raw : Bytes} {m : Message}
    (h : decodeReply e bits raw = .ok (.ok m)) : m.id.requestId = (headerOf raw).requestID := by
  rw [decodeReply] at h
  rcases hdecode : deserialize e bits raw with fault | err | msg
  · rw [hdecode] at h
    cases h
  · rw [hdecode] at h
    cases h
  · rw [hdecode, ok_bind] at h
    dsimp only at h
    rcases hstatus : decodeStatusCode msg with err | u
    · rw [hstatus] at h
      cases h
    · rw [hstatus] at h
      cases h
      exact deserialize_requestId hdecode

end Decoding

section Client
variable {ι M : Type} [DecidableEq ι] [Money M] [Float64 M] {cfg : Config ι} {net net' : Net ι M}
  {a : Action ι}

/-- Every message that the pipeline returned for a call carries the call's request id, and was read
from a datagram that the server sent in answer to this call. -/
def Matched (net : Net ι M) : Prop :=
  ∀ r ∈ net.returned, r.message.id.requestId = r.call.message.id.requestId ∧
    r.answers = some r.call ∧ ⟨r.call, r.raw⟩ ∈ net.down

/-- The waiting client finds at the head of its receive queue a SUCCESS reply that the server sent
in answer to another call. -/
def FindsStale (cfg : Config ι) (net : Net ι M) : Action ι → Prop
  | .receive i => ∃ call attempt other raw inbox message,
    (net.clients i).phase = .receiving call attempt ∧
      (net.clients i).inbox = (some other, raw) :: inbox ∧ other ≠ call ∧
      isCallback raw = false ∧ decodeReply (cfg.host i) 64 raw = .ok (.ok message)
  | _ => False

theorem step_matched (h : Inv cfg net) (hmatched : Matched net) (hstep : Step cfg net a net')
    (hfresh : ¬ FindsStale cfg net a) : Matched net' := by
  cases hstep with
  | @returned i call attempt answers raw inbox message hphase hinbox hreply hdecode =>
    intro r hr
    rcases List.mem_append.mp hr with hr | hr
    · exact hmatched r hr
    · rw [List.mem_singleton.mp hr]
      have hhead : (answers, raw) ∈ (net.clients i).inbox := by
        rw [hinbox]
        exact List.mem_cons_self
      have hanswers : answers = some call := by
        rcases answers with _ | other
        · have hcallback := (h.clients i).callbacks _ hhead rfl
          rw [hreply] at hcallback
          cases hcallback
        · by_contra hne
          have hother : other ≠ call := fun heq => hne (by rw [heq])
          exact hfresh ⟨call, attempt, other, raw, inbox, message, hphase, hinbox, hother, hreply,
            hdecode⟩
      have hsent := (h.clients i).answers _ hhead call hanswers
      refine ⟨?_, hanswers, hsent⟩
      rw [decodeReply_requestId hdecode]
      exact h.reply_requestId hsent
  | served hn hmode hlog hreply =>
    intro r hr
    obtain ⟨hid, hanswers, hsent⟩ := hmatched r hr
    exact ⟨hid, hanswers, List.mem_append_left _ hsent⟩
  | _ => exact hmatched

theorem findsStale_not_matched (hstale : FindsStale cfg net a)
    (hnet' : step cfg net a = .ok net') : ¬ Matched net' := by
  intro hmatched
  cases a with
  | receive i =>
    obtain ⟨call, attempt, other, raw, inbox, message, hphase, hinbox, hother, hreply, hdecode⟩ :=
      hstale
    have hreceive : receive cfg net i = { net.setClient i { net.clients i with
        inbox, phase := afterReply call } with
          returned := net.returned ++ [⟨call, some other, raw, message⟩] } := by
      simp only [receive, hphase, hinbox, hreply, hdecode, Bool.false_eq_true, if_false]
    rw [step, hreceive] at hnet'
    cases hnet'
    obtain ⟨-, hanswers, -⟩ := hmatched ⟨call, some other, raw, message⟩
      (List.mem_append_right _ (List.mem_singleton_self _))
    exact hother (Option.some.inj hanswers)
  | _ => exact hstale

/-- In a run of the network every returned message is the reply to its call exactly when no waiting
client finds a SUCCESS reply to another call. -/
theorem matched_run_iff (cfg : Config ι) (acts : List (Action ι)) :
    EveryStep (step cfg) (fun _ _ net' => Matched net') (initial cfg : Net ι M) acts ↔
      EveryStep (step cfg) (fun net a _ => ¬ FindsStale cfg net a) (initial cfg : Net ι M)
        acts := by
  apply everyStep_congr (I := fun net _ => Inv cfg net ∧ Matched net)
  · intro net a acts h
    obtain ⟨hinv, hmatched⟩ := h
    obtain ⟨net', hnet', hstep, hinv'⟩ := hinv.total a
    have hiff : Matched net' ↔ ¬ FindsStale cfg net a :=
      ⟨fun hmatched' hstale => findsStale_not_matched hstale hnet' hmatched',
        step_matched hinv hmatched hstep⟩
    exact ⟨net', hnet', hiff, fun hfresh => ⟨hinv', hiff.mpr hfresh⟩⟩
  · exact ⟨initial_inv cfg, by simp [Matched, initial]⟩

end Client

/-- The first reply to "A" is late, so its request is sent again and answered twice; "B" opens an
account while the second reply is still in the receive queue. -/
def retransmittedOpening : List (Action Unit) :=
  [.start () (openCommand 65), .send (), .toServer 0 0, .receiveFails (), .send (), .toServer 1 1,
    .toClient 0 (), .receive (), .toClient 1 (), .start () (openCommand 66), .send (),
    .receive ()]

theorem retransmittedOpening_mismatched :
    ¬ EveryStep (step oneClient) (fun _ _ net' => Matched net')
      (initial oneClient : Net Unit Binary64) retransmittedOpening := by
  intro hmatched
  obtain ⟨net, hrun, hlast⟩ := hmatched.last (by simp [Matched, initial])
  have hids := eq_of_check (f := fun net => net.returned.map fun r =>
    (r.message.id.requestId, r.call.message.id.requestId)) (b := [(1, 1), (1, 2)]) hrun
    (by decide +kernel)
  have hreturned : ((1, 2) : UInt32 × UInt32) ∈ net.returned.map fun r =>
      (r.message.id.requestId, r.call.message.id.requestId) := by
    rw [hids]
    decide
  obtain ⟨r, hr, hpair⟩ := List.mem_map.mp hreturned
  have hsame := (hlast r hr).1
  rw [Prod.mk.injEq] at hpair
  rw [hpair.1, hpair.2] at hsame
  exact absurd hsame (by decide)

end DistributedBanking.Network
