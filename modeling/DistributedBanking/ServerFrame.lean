import DistributedBanking.Server
import DistributedBanking.WireRoundTrip

/-!
# Requests that leave no trace

A request that the server turns away, that the handler answers with an error
status, or that only reads a balance, changes neither the store nor the monitor
and sends no callback.
-/

namespace DistributedBanking.Server
open Store Banking Marshalling Monitor Semantics Handler

variable {M : Type} [Float64 M]

def IsGetBalance (M : Type) [Float64 M] (data : Bytes) : Prop :=
  ∃ cmd : ParsedCommand M, decodeTLV 64 (data.drop headerSize) = .ok (.ok cmd) ∧
    cmd.service = some serviceGetBalance

variable [Money M]

omit [Float64 M] in
theorem updatesOf_failed (op : Op M) (txName : Bytes) (err : BankingError) :
    updatesOf op txName (.failed err) = [] := by
  cases op <;> rfl

theorem serve_of_failed {now : ℕ} {addr : UDPAddr} {b : Backend M} {req : Request M}
    (h : (serve now addr b req).status ≠ statusSuccess) : (serve now addr b req).backend = b := by
  cases req with
  | monitor timeoutSeconds => exact absurd rfl h
  | bank op txName =>
    have hfailed : ¬ (perform b.store op).2.Succeeds := fun hs => h (statusOf_success.mpr hs)
    have hstore := perform_of_not_succeeds hfailed
    generalize hr : (perform b.store op).2 = r at hfailed
    cases r with
    | failed err => simp only [serve, hr, hstore, updatesOf_failed, List.foldl_nil]
    | opened accNo => exact absurd trivial hfailed
    | closed => exact absurd trivial hfailed
    | balance bal => exact absurd trivial hfailed
    | balances f t => exact absurd trivial hfailed

omit [Float64 M] in
theorem perform_checkBalance (s : MemoryStore M) (name : Bytes) (accNo : UInt32)
    (pw : Vector UInt8 8) : (perform s (.checkBalance name accNo pw)).1 = s := by
  rcases h : checkBalance s name accNo pw with err | bal
  · simp only [perform, h]
  · simp only [perform, h]

theorem serve_checkBalance (now : ℕ) (addr : UDPAddr) (b : Backend M) (name : Bytes)
    (accNo : UInt32) (pw : Vector UInt8 8) :
    (serve now addr b (.bank (.checkBalance name accNo pw) [])).backend = b := by
  have hupdates : ∀ res : Result M, updatesOf (.checkBalance name accNo pw) [] res = [] :=
    fun _ => rfl
  simp only [serve, perform_checkBalance, hupdates, List.foldl_nil]

theorem respond_of_failed {now : ℕ} {b : Backend M} {data : Bytes} {addr : UDPAddr}
    (h : (headerOf (respond now b data addr).2).statusCode ≠ statusSuccess.toUInt16) :
    (respond now b data addr).1 = b := by
  simp only [respond, Outcome.reply, buildReply_statusCode] at h ⊢
  rcases hreq : (parseRequest data : Option (Request M)) with _ | req
  · rfl
  · rw [hreq] at h
    exact serve_of_failed fun hstatus => h (congrArg UInt8.toUInt16 hstatus)

theorem respond_of_isGetBalance {now : ℕ} {b : Backend M} {data : Bytes} {addr : UDPAddr}
    (h : IsGetBalance M data) : (respond now b data addr).1 = b := by
  obtain ⟨cmd, hcmd, hservice⟩ := h
  have hreq : ∀ req : Request M, parseRequest data = some req →
      ∃ name accNo pw, req = .bank (.checkBalance name accNo pw) [] := by
    intro req hparse
    rw [parseRequest] at hparse
    split_ifs at hparse
    have hroute : requestOf cmd = getBalanceRequest cmd := by
      rw [requestOf, hservice]
      rfl
    simp only [hcmd, hroute, getBalanceRequest, Option.bind_eq_bind,
      Option.bind_eq_some_iff] at hparse
    obtain ⟨name, -, accNo, -, pw, -, hpure⟩ := hparse
    exact ⟨name, accNo, passwordStringToFixed pw, (Option.some.inj hpure).symm⟩
  rcases hparse : (parseRequest data : Option (Request M)) with _ | req
  · simp only [respond, Outcome.reply, hparse, outcome, refusal]
  · obtain ⟨name, accNo, pw, rfl⟩ := hreq req hparse
    simp only [respond, Outcome.reply, hparse, outcome, serve_checkBalance]

theorem dispatched_frame {s s' : Server M} {d : Datagram} {now : ℕ}
    {res : Except DispatchError Bytes} (hdisp : Dispatched s d now s' res)
    (hquiet : (∃ err, res = .error err) ∨
      (∃ reply, res = .ok reply ∧ (headerOf reply).statusCode ≠ statusSuccess.toUInt16) ∨
      IsGetBalance M d.data) : s'.backend = s.backend := by
  have hrespond : ∀ reply, res = .ok reply → reply = (respond now s.backend d.data d.addr).2 →
      (respond now s.backend d.data d.addr).1 = s.backend := by
    intro reply hres hreply
    rcases hquiet with ⟨err, herr⟩ | ⟨reply', hres', hstatus⟩ | hget
    · rw [herr] at hres
      cases hres
    · rw [hres] at hres'
      cases hres'
      exact respond_of_failed (hreply ▸ hstatus)
    · exact respond_of_isGetBalance hget
  obtain ⟨dispatcher, backend⟩ := s'
  cases hdisp with
  | rejected => rfl
  | executed => exact hrespond _ rfl rfl
  | recorded => exact hrespond _ rfl rfl
  | replayed => rfl

theorem dispatched_error {s s' : Server M} {d : Datagram} {now : ℕ} {err : DispatchError}
    (hdisp : Dispatched s d now s' (.error err)) : s' = s := by
  obtain ⟨dispatcher, backend⟩ := s'
  cases hdisp
  rfl

theorem failed_or_readonly_leaves_no_trace {mode : Mode}
    (hmode : mode = .atLeastOnce ∨ mode = .atMostOnce) (es : List Event) (d : Datagram)
    (now : ℕ) :
    ∃ (s s' : Server M) (res : Except DispatchError Bytes),
      run (newServer mode) es = .ok s ∧ receive s d now = .ok (s', res) ∧
      ((∃ err, res = .error err) ∨
        (∃ reply, res = .ok reply ∧ (headerOf reply).statusCode ≠ statusSuccess.toUInt16) ∨
        IsGetBalance M d.data →
        s'.backend.store = s.backend.store ∧
          s'.backend.mon.subscribers = s.backend.mon.subscribers ∧
          s'.backend.mon.conn = s.backend.mon.conn) ∧
      ((∃ err, res = .error err) → s'.dispatcher.history = s.dispatcher.history) := by
  obtain ⟨s, hrun, hsmode, -⟩ := run_invariant (P := fun _ : Server M => True) trivial
    (running_newServer hmode) (fun _ _ _ _ _ _ _ => trivial) (fun _ _ _ => trivial) es
  have hrunning : Running s.dispatcher := by
    rw [Running, hsmode]
    exact hmode
  obtain ⟨out, hout, hdisp⟩ := receive_dispatched hrunning d now
  refine ⟨s, out.1, out.2, hrun, hout, ?_, ?_⟩
  · intro hquiet
    have hbackend := dispatched_frame hdisp hquiet
    rw [hbackend]
    exact ⟨rfl, rfl, rfl⟩
  · intro hfailed
    obtain ⟨err, herr⟩ := hfailed
    rw [herr] at hdisp
    rw [dispatched_error hdisp]

section Refusal
open ClientProtocol (packetOf)

def openedAndWatched : List Event :=
  [.datagram ⟨packetOf ⟨2, 0, (0x7F000001, 4002)⟩ ⟨some 1, none, some [67], some [80], none, none,
      some 0x401C000000000000, some 1, none, none⟩, .loopback 4002, by decide +kernel⟩ 0,
    .datagram ⟨packetOf ⟨2, 0, (0x7F000001, 4003)⟩
      { service := some 5, monitorTimeoutSeconds := some 20 }, .loopback 4003, by decide +kernel⟩ 1]

def overdraft : Datagram where
  data := packetOf ⟨2, 1, (0x7F000001, 4002)⟩ ⟨some 4, some 10000, some [67], some [80], none, none,
    some 0x4020000000000000, some 1, none, none⟩
  addr := .loopback 4002
  small := by decide +kernel

theorem overdraft_leaves_no_trace :
    ∃ (s s' : Server Binary64) (reply : Bytes),
      run (newServer .atMostOnce) openedAndWatched = .ok s ∧
      receive s overdraft 2 = .ok (s', .ok reply) ∧
      (headerOf reply).statusCode = statusErrInsuffFunds.toUInt16 ∧
      s.backend.store.accounts.size = 1 ∧ s.backend.mon.subscribers.size = 1 ∧
      s'.backend.store = s.backend.store ∧
      s'.backend.mon.subscribers = s.backend.mon.subscribers ∧
      s'.backend.mon.conn = s.backend.mon.conn := by
  have hmode : Mode.atMostOnce = .atLeastOnce ∨ Mode.atMostOnce = .atMostOnce := .inr rfl
  obtain ⟨s, s', res, hrun, hreceive, hquiet, -⟩ :=
    failed_or_readonly_leaves_no_trace (M := Binary64) hmode openedAndWatched overdraft 2
  have hserved : (run (newServer (M := Binary64) .atMostOnce) openedAndWatched).toOption.bind
      (fun s => (receive s overdraft 2).toOption.bind fun out => out.2.toOption.map fun reply =>
        ((headerOf reply).statusCode, s.backend.store.accounts.size,
          s.backend.mon.subscribers.size)) = some (statusErrInsuffFunds.toUInt16, 1, 1) := by
    decide +kernel
  rw [hrun] at hserved
  simp only [Except.toOption, Option.bind_some, hreceive] at hserved
  cases res with
  | error err => cases hserved
  | ok reply =>
    simp only [Option.map_some, Option.some.injEq, Prod.mk.injEq] at hserved
    obtain ⟨hcode, haccounts, hsubscribers⟩ := hserved
    have hframe := hquiet (.inr (.inl ⟨reply, rfl, by rw [hcode]; decide⟩))
    exact ⟨s, s', reply, hrun, hreceive, hcode, haccounts, hsubscribers, hframe⟩

end Refusal

end DistributedBanking.Server
