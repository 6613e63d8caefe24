import DistributedBanking.Decisions
import DistributedBanking.ReplyDirection
import DistributedBanking.RetryOutcomes
import DistributedBanking.ServerLoop

/-!
# The fault tolerance experiment

One client sends a request to the server program, which may lose its answers.
The client sends again until an answer gets through, five times at most. In
at-most-once mode the request is executed once, whatever is lost; in
at-least-once mode it is executed as often as it was sent.
-/

namespace DistributedBanking.Server
open Store Banking Monitor Semantics Handler ClientProtocol
variable {M : Type} [Money M] [Float64 M]

def executions (d : Datagram) (now : ℕ → ℕ) (b : Backend M) : ℕ → Backend M
  | 0 => b
  | n + 1 => (respond (now n) (executions d now b n) d.data d.addr).1

def executionReply (d : Datagram) (now : ℕ → ℕ) (b : Backend M) (n : ℕ) : Bytes :=
  (respond (now n) (executions d now b n) d.data d.addr).2

def executed (mode : Mode) (n : ℕ) : ℕ := if mode = .atLeastOnce then n else min n 1

structure Served (p : Process (Backend M)) (d : Datagram) (now : ℕ → ℕ) (n : ℕ)
    (q : Process (Backend M)) : Prop where
  mode : q.dispatcher.mode = p.dispatcher.mode
  state : q.state = executions d now p.state (executed p.dispatcher.mode n)
  drops : ∀ i, q.replyLoss.drops i = p.replyLoss.drops (n + i)
  cached : p.dispatcher.mode ≠ .atLeastOnce →
    (⟨q.dispatcher, q.state⟩ : Server M).cachedReply d =
      if n = 0 then none else some (executionReply d now p.state 0)

section Rounds
variable {p q : Process (Backend M)} {d : Datagram} {now : ℕ → ℕ} {n : ℕ}

theorem Served.round (h : Served p d now n q) (hrun : Running p.dispatcher)
    (haccept : Accepts p.dispatcher.mode d) :
    ∃ q', q.round (buildHandler 64 (now n)) d = .ok (q', if p.replyLoss.drops n then none
        else some (executionReply d now p.state (executed p.dispatcher.mode (n + 1) - 1))) ∧
      Served p d now (n + 1) q' := by
  have hrun' : Running q.dispatcher := by
    rw [Running, h.mode]
    exact hrun
  have hhandler := buildHandler_eq (M := M) (now n) d.addr q.state d.bounded
  obtain ⟨dispatcher, state, result, hdispatch, hanswered⟩ := dispatch_answered hrun' hhandler
  have hdrops : ∀ i, q.replyLoss.shouldDrop.2.drops i = p.replyLoss.drops (n + 1 + i) := by
    intro i
    rw [q.replyLoss.shouldDrop_snd.2, h.drops]
    congr 1
    omega
  have hdrop : q.replyLoss.drops 0 = p.replyLoss.drops n := h.drops 0
  cases hanswered with
  | rejected hreject => exact absurd (h.mode ▸ haccept) hreject
  | executed _ hleast =>
    have hmode : p.dispatcher.mode = .atLeastOnce := h.mode ▸ hleast
    have hn : ∀ k, executed p.dispatcher.mode k = k := fun k => by simp [executed, hmode]
    have hstate : q.state = executions d now p.state n := by rw [h.state, hn]
    refine ⟨⟨q.dispatcher, (respond (now n) q.state d.data d.addr).1, q.replyLoss.shouldDrop.2⟩,
      ?_, ⟨h.mode, ?_, hdrops, fun hne => absurd hmode hne⟩⟩
    · rw [Process.round_ok hdispatch, hdrop, hn, executionReply, Nat.add_sub_cancel, hstate]
    · rw [hn, executions, hstate]
  | @recorded history _ hleast hhistory hfresh =>
    have hmode : p.dispatcher.mode ≠ .atLeastOnce := h.mode ▸ hleast
    obtain rfl : n = 0 := by
      by_contra hn
      have hcached := h.cached hmode
      simp [cachedReply, hhistory, hfresh, hn] at hcached
    have hstate : q.state = p.state := by
      rw [h.state, executed, if_neg hmode]
      rfl
    have honce : executed p.dispatcher.mode (0 + 1) = 1 := if_neg hmode
    refine ⟨⟨q.dispatcher.setHistory (history.store d.addr.string (headerOf d.data).requestID
        (respond (now 0) q.state d.data d.addr).2), (respond (now 0) q.state d.data d.addr).1,
      q.replyLoss.shouldDrop.2⟩, ?_, ⟨h.mode, ?_, hdrops, fun _ => ?_⟩⟩
    · rw [Process.round_ok hdispatch, hdrop, honce, executionReply, hstate]
      rfl
    · rw [honce, hstate]
      rfl
    · simp [cachedReply, Dispatcher.setHistory, ReplyHistory.lookup_store, executionReply,
        executions, hstate]
  | @replayed history reply _ hleast hhistory hcached =>
    have hmode : p.dispatcher.mode ≠ .atLeastOnce := h.mode ▸ hleast
    have hreply := h.cached hmode
    have hn : n ≠ 0 := by
      rintro rfl
      simp [cachedReply, hhistory, hcached] at hreply
    have honce : ∀ k, k ≠ 0 → executed p.dispatcher.mode k = 1 := by
      intro k hk
      rw [executed, if_neg hmode]
      omega
    have hfirst : reply = executionReply d now p.state 0 := by
      simpa [cachedReply, hhistory, hcached, hn] using hreply
    refine ⟨⟨q.dispatcher, q.state, q.replyLoss.shouldDrop.2⟩, ?_,
      ⟨h.mode, ?_, hdrops, fun _ => ?_⟩⟩
    · rw [Process.round_ok hdispatch, hdrop, honce _ (Nat.succ_ne_zero n), hfirst]
    · rw [honce _ (Nat.succ_ne_zero n), h.state, honce n hn]
    · rw [hreply, if_neg hn, if_neg (Nat.succ_ne_zero n)]

end Rounds

def delivered : Option Bytes → BankClient.Result Bytes InternalError
  | some reply => .success reply
  | none => .failure .receiveTimeout

theorem delivered_ok (answer : Option Bytes) : (delivered answer).ok = answer.isSome := by
  cases answer <;> rfl

/-- The client's socket when the `i`-th copy that it sends gets the `i`-th answer, after whatever
callbacks are on their way. -/
def connection (callbacks : ℕ → List Bytes) (answers : ℕ → Option Bytes) :
    BankClient.Socket InternalError where
  sendMessage _ := .success ()
  receiveMessage i j :=
    match (callbacks i)[j]? with
    | some raw => .success raw
    | none => delivered (answers (i - 1))

theorem connection_comesTo {callbacks : ℕ → List Bytes} {answers : ℕ → Option Bytes} {fuel : ℕ}
    (hcallbacks : ∀ i, ∀ raw ∈ callbacks i, isCallback raw = true)
    (hanswers : ∀ i, ∀ reply ∈ answers i, isCallback reply = false)
    (hfuel : ∀ i, (callbacks i).length < fuel) (i : ℕ) :
    BankClient.ComesTo (connection callbacks answers) fuel i (delivered (answers (i - 1))) := by
  refine .reply rfl (hfuel i) (fun k hk => ?_) ?_ ?_
  · simp only [connection, List.getElem?_eq_getElem hk]
    exact hcallbacks i _ (List.getElem_mem hk)
  · simp only [connection, List.getElem?_eq_none le_rfl]
  · cases hanswer : answers (i - 1) with
    | some reply => exact hanswers _ _ hanswer
    | none => rfl

/-- What the client and the server have done once `n` copies of the request have been sent. -/
structure Conducted (p : Process (Backend M)) (d : Datagram) (now : ℕ → ℕ) (n : ℕ)
    (q : Process (Backend M)) (data : Bytes) (result : BankClient.Result Bytes InternalError)
    (log : List (BankClient.Event InternalError)) : Prop where
  copies : log.filterMap BankClient.Event.sentData = List.replicate n data
  lost : ∀ i, i + 1 < n → p.replyLoss.drops i = true
  last : n < BankClient.maxTries → p.replyLoss.drops (n - 1) = false
  executed : q.state = executions d now p.state (executed p.dispatcher.mode n)
  result : result = if p.replyLoss.drops (n - 1) then .failure .receiveTimeout
    else .success (executionReply d now p.state (Server.executed p.dispatcher.mode n - 1))

/-- The client sends its request until an answer is not lost, five times at most. With
at-most-once semantics the request has then been executed once, also if the client has given up;
with at-least-once semantics it has been executed as often as it was sent, and the client sees the
last of these executions only. -/
theorem experiment {p : Process (Backend M)} {x : Datagram} (hrun : Running p.dispatcher)
    (haccept : Accepts p.dispatcher.mode (received x))
    (hnew : (⟨p.dispatcher, p.state⟩ : Server M).cachedReply (received x) = none) (now : ℕ → ℕ)
    (callbacks : ℕ → List Bytes) (hcallbacks : ∀ i, ∀ raw ∈ callbacks i, isCallback raw = true)
    {fuel : ℕ} (hfuel : ∀ i, (callbacks i).length < fuel) :
    ∃ (q : ℕ → Process (Backend M)) (answers : ℕ → Option Bytes), q 0 = p ∧
      (∀ i, (q i).round (buildHandler 64 (now i)) (received x) = .ok (q (i + 1), answers i)) ∧
      ∃ n result log, 1 ≤ n ∧ n ≤ BankClient.maxTries ∧
        (BankClient.sendToServer BankClient.errorToString (connection callbacks answers) fuel
          x.data).run [] = .ok (result, log) ∧
        Conducted p (received x) now n (q n) x.data result log := by
  have hstart : Served p (received x) now 0 p := by
    refine ⟨rfl, ?_, fun i => by rw [zero_add], fun _ => hnew⟩
    rw [executed, executions.eq_def]
    split_ifs <;> rfl
  obtain ⟨q, answers, hq, hsequence⟩ := Runs.exists_sequence hstart
    (f := fun i s => s.round (buildHandler 64 (now i)) (received x))
    (Q := fun i r => r = if p.replyLoss.drops i then none else
      some (executionReply (received x) now p.state (executed p.dispatcher.mode (i + 1) - 1)))
    fun i s hs => by
      obtain ⟨s', hround, hs'⟩ := hs.round hrun haccept
      exact ⟨s', _, hround, rfl, hs'⟩
  have hanswers : ∀ i, ∀ reply ∈ answers i, isCallback reply = false := by
    intro i reply hreply
    rw [(hsequence i).2.2] at hreply
    split_ifs at hreply
    · cases hreply
    · cases hreply
      rw [executionReply, respond_reply]
      exact isCallback_buildReply _ _ _ _
  have hcomes := connection_comesTo hcallbacks hanswers hfuel
  have hfailure : ∀ {i}, p.replyLoss.drops i = true →
      delivered (answers i) = .failure .receiveTimeout := by
    intro i hdrop
    rw [(hsequence i).2.2, hdrop]
    rfl
  obtain ⟨n, hn, hle, hlost, hlast⟩ := BankClient.exists_last_attempt p.replyLoss.drops
  obtain ⟨log, hrun', hcopies⟩ := BankClient.sendToServer_outcome
    BankClient.errorToString x.data hn hle
    (fun i hi hlt => ⟨_, hfailure (hlost (i - 1) (by omega)) ▸ hcomes i⟩) (hcomes n)
    fun hlt => by rw [delivered_ok, (hsequence _).2.2, hlast hlt]; rfl
  refine ⟨q, answers, hq, fun i => (hsequence i).2.1, n, _, log, hn, hle, hrun',
    hcopies, hlost, hlast, (hsequence n).1.state, ?_⟩
  rw [(hsequence (n - 1)).2.2, Nat.sub_add_cancel hn]
  split_ifs <;> rfl

def firstLost : Process (Backend Binary64) where
  dispatcher := Dispatcher.newDispatcher .atMostOnce
  state := ⟨newMemoryStore, newManager⟩
  replyLoss := ⟨.finite (3 / 10), firstSmall⟩

theorem experiment_second_try : ∃ (q : Process (Backend Binary64)) (answers : ℕ → Option Bytes)
    (reply : Bytes) (log : List (BankClient.Event InternalError)),
      (BankClient.sendToServer BankClient.errorToString (connection (fun _ => []) answers) 1
        emptyRequest.data).run [] = .ok (.success reply, log) ∧
      log.filterMap BankClient.Event.sentData = [emptyRequest.data, emptyRequest.data] ∧
      q.state = executions (received emptyRequest) id firstLost.state 1 := by
  obtain ⟨q, answers, -, -, n, result, log, hn, hle, hrun, hconducted⟩ :=
    experiment (p := firstLost) (x := emptyRequest) (.inr rfl) (by decide) (by decide) id
      (fun _ => []) (fun _ _ hraw => nomatch hraw) fun _ => Nat.one_pos
  have hfirst : firstLost.replyLoss.drops 0 = true := by decide +kernel
  have hsecond : firstLost.replyLoss.drops 1 = false := by decide +kernel
  obtain rfl : n = 2 := by
    have hmore : n ≠ 1 := by
      rintro rfl
      have hlast := hconducted.last (by decide)
      rw [hfirst] at hlast
      cases hlast
    have hless : ¬ 2 < n := fun hlt => by
      have hlost := hconducted.lost 1 hlt
      rw [hsecond] at hlost
      cases hlost
    omega
  have hresult := hconducted.result
  rw [hsecond] at hresult
  rw [hresult] at hrun
  exact ⟨q 2, answers, _, log, hrun, hconducted.copies, hconducted.executed⟩

end DistributedBanking.Server
