import Mathlib.Data.Finset.Lattice.Fold
import DistributedBanking.ClientProtocol

/-!
# The client's retry loop

`send_to_server` sends a datagram, skips callbacks until something else is
received, and tries again when either step fails. What sending and receiving
come to is given for each attempt. A result holds a value or an error, and
reading the one it does not hold is a fault, as is reading the error variable
before it is set. The error type is open, with its text as a parameter.
-/

namespace DistributedBanking.BankClient
open ClientProtocol

inductive Fault
  | badVariantAccess
  | indeterminateValue
  -- Not a fault of C++: a loop that outlives its bound ends here.
  | nonTermination
  deriving DecidableEq, Repr

/-- `std::variant<T, E>`. -/
inductive Result (α ε : Type)
  | success (val : α)
  | failure (err : ε)
  deriving DecidableEq, Repr

inductive Colour
  | cyan
  | yellow
  deriving DecidableEq, Repr

inductive Event (ε : Type)
  | sent (data : Bytes)
  | received (result : Result Bytes ε)
  | print (msg : String) (colour : Colour)
  | printError (msg : String)
  | sleep (seconds : ℕ)
  deriving DecidableEq, Repr

abbrev Client (ε α : Type) := StateT (List (Event ε)) (Except Fault) α

namespace Result
variable {α ε : Type}

/-- A default-constructed variant holds its first alternative. -/
instance [Inhabited α] : Inhabited (Result α ε) := ⟨.success default⟩

def ok : Result α ε → Bool
  | success _ => true
  | failure _ => false

def value : Result α ε → Client ε α
  | success val => pure val
  | failure _ => throw .badVariantAccess

def error : Result α ε → Client ε ε
  | success _ => throw .badVariantAccess
  | failure err => pure err

end Result

section Source
variable {ε : Type} (toString : ε → String)

/-- The results of the calls, by attempt and, within an attempt, by receive. -/
structure Socket (ε : Type) where
  sendMessage : ℕ → Result Unit ε
  receiveMessage : ℕ → ℕ → Result Bytes ε

variable (socket : Socket ε)

def emit (event : Event ε) : Client ε Unit := modify fun log => log ++ [event]

def maxTries : ℕ := 5
def backoff : ℕ := 2

/-- The inner loop from the `j`-th receive of attempt `i` on. -/
def receiveReply (i : ℕ) : ℕ → ℕ → Client ε (Result Bytes ε)
  | 0, _ => throw .nonTermination
  | fuel + 1, j => do
    let resRecv := socket.receiveMessage i j
    emit (.received resRecv)
    if !resRecv.ok then return resRecv
    else
      let raw ← resRecv.value
      if isCallback raw then receiveReply i fuel (j + 1)
      else return resRecv

/-- What `res_recv` holds once attempt `i` has tried to send. -/
def receiveIfSent (i fuel : ℕ) (resSend : Result Unit ε) (resRecv : Result Bytes ε) :
    Client ε (Result Bytes ε) :=
  if resSend.ok then receiveReply socket i fuel 0 else pure resRecv

structure Locals (ε : Type) where
  curBackoff : ℕ
  resRecv : Result Bytes ε
  -- `none` while the variable is not initialised.
  err : Option ε

def readErr (s : Locals ε) : Client ε ε :=
  match s.err with
  | some err => pure err
  | none => throw .indeterminateValue

/-- The outer loop with attempt `i` next and `remaining` attempts to go. -/
def attempts (fuel : ℕ) (data : Bytes) : ℕ → ℕ → Locals ε → Client ε (Result Bytes ε)
  | 0, _, s => return .failure (← readErr s)
  | remaining + 1, i, s => do
    emit (.sent data)
    let resSend := socket.sendMessage i
    let resRecv ← receiveIfSent socket i fuel resSend s.resRecv
    let s := { s with resRecv }
    if resSend.ok && resRecv.ok then
      emit (.print "[SUCCESS: Message sent and received from server]\n" .cyan)
      return resRecv
    else if i < maxTries then
      emit (.print ("[!] Attempt " ++ Nat.repr i ++ " failed. Retrying in " ++
        Nat.repr s.curBackoff ++ "s...\n") .yellow)
      emit (.sleep s.curBackoff)
      attempts fuel data remaining (i + 1) { s with curBackoff := s.curBackoff * 2 }
    else if !resSend.ok then
      emit (.printError ("Final send failure after " ++ Nat.repr maxTries ++ " attempts: " ++
        toString (← resSend.error)))
      attempts fuel data remaining (i + 1) { s with err := some (← resSend.error) }
    else
      emit (.printError ("Final receive failure after " ++ Nat.repr maxTries ++ " attempts: " ++
        toString (← resRecv.error)))
      attempts fuel data remaining (i + 1) { s with err := some (← resRecv.error) }

def sendToServer (fuel : ℕ) (data : Bytes) : Client ε (Result Bytes ε) :=
  attempts toString socket fuel data maxTries 1 ⟨backoff, default, none⟩

end Source

section Returns
variable {ε α β : Type}

/-- The client does not fault, and what it returns and has logged meets `Q`. -/
def Returns (x : Client ε α) (log : List (Event ε)) (Q : α → List (Event ε) → Prop) : Prop :=
  ∃ a log', x.run log = .ok (a, log') ∧ Q a log'

variable {x : Client ε α} {f : α → Client ε β} {log : List (Event ε)}
  {P Q : α → List (Event ε) → Prop} {R : β → List (Event ε) → Prop}

theorem Returns.pure {a : α} (h : Q a log) : Returns (pure a : Client ε α) log Q :=
  ⟨a, log, rfl, h⟩

theorem Returns.bind (hx : Returns x log P) (hf : ∀ a log', P a log' → Returns (f a) log' R) :
    Returns (x >>= f) log R := by
  obtain ⟨a, log', hrun, hP⟩ := hx
  obtain ⟨b, log'', hrun', hR⟩ := hf a log' hP
  refine ⟨b, log'', ?_, hR⟩
  rw [StateT.run_bind, hrun]
  exact hrun'

theorem Returns.emit {event : Event ε} {g : Unit → Client ε β}
    (h : Returns (g ()) (log ++ [event]) R) : Returns (emit event >>= g) log R :=
  .bind (P := fun _ log' => log' = log ++ [event]) ⟨(), _, rfl, rfl⟩ fun _ _ hlog => hlog ▸ h

end Returns

section Specification
variable {ε : Type} (socket : Socket ε) (data : Bytes)

def Result.isCallback : Result Bytes ε → Bool
  | success raw => ClientProtocol.isCallback raw
  | failure _ => false

def Result.toList {α : Type} : Result α ε → List α
  | success val => [val]
  | failure _ => []

/-- What attempt `i` comes to: the error of its send, or what it receives first but callbacks. -/
inductive Outcome (i : ℕ) : Result Bytes ε → Prop
  | notSent {err : ε} (hsend : socket.sendMessage i = .failure err) : Outcome i (.failure err)
  | reply {j : ℕ} (hsend : socket.sendMessage i = .success ())
      (hskipped : ∀ k < j, (socket.receiveMessage i k).isCallback = true)
      (hfirst : (socket.receiveMessage i j).isCallback = false) :
      Outcome i (socket.receiveMessage i j)

def Event.sentData : Event ε → Option Bytes
  | sent data => some data
  | _ => none

def Event.datagram : Event ε → Option Bytes
  | received (.success raw) => some raw
  | _ => none

def Discards (kept : List Bytes) (log : List (Event ε)) : Prop :=
  ∃ skipped, (∀ raw ∈ skipped, isCallback raw = true) ∧
    log.filterMap Event.datagram = skipped ++ kept

def Reached (i : ℕ) : Prop := ∀ k, 1 ≤ k → k < i → ∃ err, Outcome socket k (.failure err)

structure Failing (i : ℕ) (s : Locals ε) (log : List (Event ε)) : Prop where
  failed : Reached socket i
  error : maxTries < i → ∃ err, s.err = some err ∧ Outcome socket maxTries (.failure err)
  sent : log.filterMap Event.sentData = List.replicate (i - 1) data
  discarded : Discards [] log

structure Specified (result : Result Bytes ε) (log : List (Event ε)) : Prop where
  copies : ∃ n ≤ maxTries, log.filterMap Event.sentData = List.replicate n data
  discarded : Discards result.toList log
  kept : result.isCallback = false
  success : ∀ d, result = .success d ↔
    ∃ i, 1 ≤ i ∧ i ≤ maxTries ∧ Outcome socket i (.success d) ∧ Reached socket i
  failure : ∀ err, result = .failure err ↔
    Outcome socket maxTries (.failure err) ∧ Reached socket (maxTries + 1)

def Answered (fuel : ℕ) : Prop :=
  ∀ i, 1 ≤ i → i ≤ maxTries → Reached socket i → socket.sendMessage i = .success () →
    ∃ j < fuel, (socket.receiveMessage i j).isCallback = false

end Specification

section Outcomes
variable {ε : Type} {socket : Socket ε} {i : ℕ} {a b : Result Bytes ε}

theorem Outcome.not_callback (h : Outcome socket i a) : a.isCallback = false := by
  cases h with
  | notSent hsend => rfl
  | reply hsend hskipped hfirst => exact hfirst

theorem Outcome.unique (ha : Outcome socket i a) (hb : Outcome socket i b) : a = b := by
  cases ha with
  | notSent hsend =>
    cases hb with
    | notSent hsend' =>
      have herr := hsend.symm.trans hsend'
      cases herr
      rfl
    | reply hsend' _ _ => simp [hsend] at hsend'
  | @reply j hsend hskipped hfirst =>
    cases hb with
    | notSent hsend' => simp [hsend] at hsend'
    | @reply j' _ hskipped' hfirst' =>
      obtain hlt | heq | hgt := lt_trichotomy j j'
      · simp [hskipped' j hlt] at hfirst
      · rw [heq]
      · simp [hskipped j' hgt] at hfirst'

end Outcomes

section Inner
variable {ε : Type} {socket : Socket ε} {kept : List Bytes} {log : List (Event ε)}

theorem Discards.received (h : Discards [] log) (result : Result Bytes ε) :
    Discards result.toList (log ++ [.received result]) := by
  obtain ⟨skipped, hskipped, hlog⟩ := h
  refine ⟨skipped, hskipped, ?_⟩
  rw [List.filterMap_append, hlog, List.append_nil]
  cases result with
  | success raw => rfl
  | failure err => rfl

theorem Discards.callback {result : Result Bytes ε} (h : Discards result.toList log)
    (hcallback : result.isCallback = true) : Discards [] log := by
  obtain ⟨skipped, hskipped, hlog⟩ := h
  refine ⟨skipped ++ result.toList, ?_, by rw [hlog, List.append_nil]⟩
  intro raw hraw
  obtain hmem | hmem := List.mem_append.mp hraw
  · exact hskipped raw hmem
  · cases result with
    | success raw' => rwa [List.mem_singleton.mp hmem]
    | failure err => cases hmem

theorem Discards.append (h : Discards kept log) {events : List (Event ε)}
    (hevents : events.filterMap Event.datagram = []) : Discards kept (log ++ events) := by
  obtain ⟨skipped, hskipped, hlog⟩ := h
  exact ⟨skipped, hskipped, by rw [List.filterMap_append, hevents, List.append_nil, hlog]⟩

variable {i j fuel : ℕ}

theorem receiveReply_done (h : (socket.receiveMessage i j).isCallback = false) :
    (receiveReply socket i (fuel + 1) j).run log =
      .ok (socket.receiveMessage i j, log ++ [.received (socket.receiveMessage i j)]) := by
  rw [receiveReply]
  cases hresult : socket.receiveMessage i j with
  | failure err => rfl
  | success raw =>
    rw [hresult] at h
    have hraw : ¬ isCallback raw = true := Bool.eq_false_iff.mp h
    refine (congrArg (StateT.run · _) (if_neg hraw)).trans ?_
    rfl

theorem receiveReply_callback (h : (socket.receiveMessage i j).isCallback = true) :
    (receiveReply socket i (fuel + 1) j).run log =
      (receiveReply socket i fuel (j + 1)).run
        (log ++ [.received (socket.receiveMessage i j)]) := by
  rw [receiveReply]
  cases hresult : socket.receiveMessage i j with
  | failure err =>
    rw [hresult] at h
    cases h
  | success raw =>
    rw [hresult] at h
    exact congrArg (StateT.run · _) (if_pos h)

theorem receiveReply_returns {j₀ : ℕ}
    (hfirst : (socket.receiveMessage i j₀).isCallback = false) (hfuel : j₀ < j + fuel)
    (hj : j ≤ j₀)
    (hskipped : ∀ k, j ≤ k → k < j₀ → (socket.receiveMessage i k).isCallback = true)
    (hlog : Discards [] log) :
    Returns (receiveReply socket i fuel j) log fun result log' =>
      result = socket.receiveMessage i j₀ ∧ Discards result.toList log' ∧
        log'.filterMap Event.sentData = log.filterMap Event.sentData := by
  induction fuel generalizing j log with
  | zero => omega
  | succ fuel ih =>
    have hreceived := hlog.received (socket.receiveMessage i j)
    have hsent : (log ++ [Event.received (socket.receiveMessage i j)]).filterMap Event.sentData =
        log.filterMap Event.sentData := by
      rw [List.filterMap_append]
      exact List.append_nil _
    obtain rfl | hlt := hj.eq_or_lt
    · exact ⟨_, _, receiveReply_done hfirst, rfl, hreceived, hsent⟩
    · have hcallback := hskipped j le_rfl hlt
      obtain ⟨result, log', hrun, hpost⟩ := ih (by omega) hlt
        (fun k hk => hskipped k (by omega)) (hreceived.callback hcallback)
      rw [hsent] at hpost
      exact ⟨result, log', (receiveReply_callback hcallback).trans hrun, hpost⟩

end Inner

section Outer
variable {ε : Type} {socket : Socket ε} {data : Bytes} {i fuel : ℕ} {s : Locals ε}
  {log : List (Event ε)}

theorem Failing.next (h : Failing socket data i s log) {err : ε} {s' : Locals ε}
    {log' events : List (Event ε)} (hout : Outcome socket i (.failure err))
    (herr : maxTries ≤ i → i = maxTries ∧ s'.err = some err) (hdiscarded : Discards [] log')
    (hsent : log'.filterMap Event.sentData = List.replicate i data)
    (hquiet : events.filterMap Event.datagram = [])
    (hsilent : events.filterMap Event.sentData = []) :
    Failing socket data (i + 1) s' (log' ++ events) where
  failed k hk hlt := by
    obtain hlt' | rfl := Nat.lt_succ_iff_lt_or_eq.mp hlt
    · exact h.failed k hk hlt'
    · exact ⟨err, hout⟩
  error hlast := by
    obtain ⟨rfl, hs⟩ := herr (Nat.lt_succ_iff.mp hlast)
    exact ⟨err, hs, hout⟩
  sent := by rw [List.filterMap_append, hsent, hsilent, List.append_nil, Nat.add_sub_cancel]
  discarded := hdiscarded.append hquiet

theorem Failing.retry (h : Failing socket data i s log) (hlast : i < maxTries) {err : ε}
    {s' : Locals ε} {log' : List (Event ε)} {msg : String} {colour : Colour} {seconds : ℕ}
    {next : Client ε (Result Bytes ε)} (hout : Outcome socket i (.failure err))
    (hdiscarded : Discards [] log')
    (hsent : log'.filterMap Event.sentData = List.replicate i data)
    (hnext : ∀ log, Failing socket data (i + 1) s' log →
      Returns next log (Specified socket data)) :
    Returns (do emit (.print msg colour); emit (.sleep seconds); next) log'
      (Specified socket data) := by
  refine .emit (.emit (hnext _ ?_))
  rw [List.append_assoc]
  exact h.next hout (fun hge => absurd hlast hge.not_gt) hdiscarded hsent rfl rfl

theorem Failing.giveUp (h : Failing socket data i s log) (hlast : i = maxTries) {err : ε}
    {s' : Locals ε} {log' : List (Event ε)} {msg : String} {next : Client ε (Result Bytes ε)}
    (hout : Outcome socket i (.failure err)) (herr : s'.err = some err)
    (hdiscarded : Discards [] log')
    (hsent : log'.filterMap Event.sentData = List.replicate i data)
    (hnext : ∀ log, Failing socket data (i + 1) s' log →
      Returns next log (Specified socket data)) :
    Returns (do emit (.printError msg); next) log' (Specified socket data) := by
  refine .emit (hnext _ ?_)
  exact h.next hout (fun _ => ⟨hlast, herr⟩) hdiscarded hsent rfl rfl

theorem Failing.specified (h : Failing socket data (maxTries + 1) s log) {err : ε}
    (herr : s.err = some err) : Specified socket data (.failure err) log := by
  obtain ⟨err', herr', hlast⟩ := h.error (Nat.lt_succ_self maxTries)
  cases herr.symm.trans herr'
  refine ⟨⟨maxTries, le_rfl, h.sent⟩, h.discarded, rfl, fun d => ⟨?_, ?_⟩, fun e => ⟨?_, ?_⟩⟩
  · intro heq
    cases heq
  · intro hsuccess
    obtain ⟨i, hi, hle, hout, -⟩ := hsuccess
    obtain ⟨e, hfailed⟩ := h.failed i hi (Nat.lt_succ_of_le hle)
    cases hout.unique hfailed
  · intro heq
    cases heq
    exact ⟨hlast, h.failed⟩
  · intro hfailure
    exact hlast.unique hfailure.1

theorem Failing.specified_success (h : Failing socket data i s log) (hi : 1 ≤ i)
    (hle : i ≤ maxTries) {d : Bytes} {log' : List (Event ε)} (hout : Outcome socket i (.success d))
    (hdiscarded : Discards [d] log')
    (hsent : log'.filterMap Event.sentData = List.replicate i data) :
    Specified socket data (.success d) log' := by
  refine ⟨⟨i, hle, hsent⟩, hdiscarded, hout.not_callback, fun d' => ⟨?_, ?_⟩, fun e => ⟨?_, ?_⟩⟩
  · intro heq
    cases heq
    exact ⟨i, hi, hle, hout, h.failed⟩
  · intro hsuccess
    obtain ⟨i', hi', -, hout', hfailed'⟩ := hsuccess
    obtain hlt | rfl | hgt := lt_trichotomy i i'
    · obtain ⟨e, hfailed⟩ := hfailed' i hi hlt
      cases hout.unique hfailed
    · exact hout.unique hout'
    · obtain ⟨e, hfailed⟩ := h.failed i' hi' hgt
      cases hout'.unique hfailed
  · intro heq
    cases heq
  · intro hfailure
    obtain ⟨e, hfailed⟩ := hfailure.2 i hi (Nat.lt_succ_of_le hle)
    cases hout.unique hfailed

inductive Attempted (socket : Socket ε) (i : ℕ) (resRecv : Result Bytes ε)
    (log : List (Event ε)) : Prop
  | notSent {err : ε} (hsend : socket.sendMessage i = .failure err) (hlog : Discards [] log)
  | received (hsend : socket.sendMessage i = .success ()) (hout : Outcome socket i resRecv)
      (hlog : Discards resRecv.toList log)

theorem attempt_returns (hanswered : Answered socket fuel) (hi : 1 ≤ i) (hle : i ≤ maxTries)
    (hreached : Reached socket i) (hlog : Discards [] log) :
    Returns (receiveIfSent socket i fuel (socket.sendMessage i) s.resRecv) log
      fun resRecv log' => Attempted socket i resRecv log' ∧
        log'.filterMap Event.sentData = log.filterMap Event.sentData := by
  rw [receiveIfSent]
  cases hsend : socket.sendMessage i with
  | failure err => exact .pure ⟨.notSent hsend hlog, rfl⟩
  | success sent =>
    have hexists : ∃ j, (socket.receiveMessage i j).isCallback = false := by
      obtain ⟨j, -, hj⟩ := hanswered i hi hle hreached hsend
      exact ⟨j, hj⟩
    have hskipped : ∀ k < Nat.find hexists, (socket.receiveMessage i k).isCallback = true := by
      intro k hk
      exact Bool.not_eq_false _ ▸ Nat.find_min hexists hk
    have hbound : Nat.find hexists < 0 + fuel := by
      obtain ⟨j, hj, hfirst⟩ := hanswered i hi hle hreached hsend
      exact (Nat.zero_add fuel).symm ▸ (Nat.find_min' hexists hfirst).trans_lt hj
    obtain ⟨resRecv, log', hrun, rfl, hdiscarded, hsent⟩ := receiveReply_returns
      (Nat.find_spec hexists) hbound (Nat.zero_le _) (fun k _ => hskipped k) hlog
    exact ⟨_, log', hrun,
      .received hsend (.reply hsend hskipped (Nat.find_spec hexists)) hdiscarded, hsent⟩

variable (toString : ε → String)

theorem attempts_returns (hanswered : Answered socket fuel) {remaining : ℕ}
    (hremaining : i + remaining = maxTries + 1) (hi : 1 ≤ i) (h : Failing socket data i s log) :
    Returns (attempts toString socket fuel data remaining i s) log (Specified socket data) := by
  induction remaining generalizing i s log with
  | zero =>
    obtain rfl : i = maxTries + 1 := hremaining
    obtain ⟨err, herr, -⟩ := h.error (Nat.lt_succ_self maxTries)
    refine ⟨.failure err, log, ?_, h.specified herr⟩
    rw [attempts, readErr, herr]
    rfl
  | succ remaining ih =>
    have hle : i ≤ maxTries := by omega
    rw [attempts]
    refine .emit (.bind (attempt_returns hanswered hi hle h.failed (h.discarded.append rfl)) ?_)
    intro resRecv log' hattempt
    obtain ⟨hattempted, hsent⟩ := hattempt
    have hcopies : log'.filterMap Event.sentData = List.replicate i data := by
      rw [hsent, List.filterMap_append, h.sent, ← Nat.sub_add_cancel hi, List.replicate_succ',
        Nat.add_sub_cancel]
      rfl
    cases hattempted with
    | notSent hsend hlog =>
      have hout : Outcome socket i _ := .notSent hsend
      rw [hsend]
      by_cases hlast : i < maxTries
      · simp only [Result.ok, Bool.false_and, Bool.false_eq_true, if_false, if_pos hlast]
        exact h.retry hlast hout hlog hcopies fun _ => ih (by omega) (by omega)
      · simp only [Result.ok, Bool.false_and, Bool.false_eq_true, if_false, if_neg hlast,
          Bool.not_false, if_true, Result.error, pure_bind]
        exact h.giveUp (hle.antisymm (not_lt.mp hlast)) hout rfl hlog hcopies fun _ =>
          ih (by omega) (by omega)
    | received hsend hout hlog =>
      rw [hsend]
      cases resRecv with
      | success d =>
        refine .emit (.pure (h.specified_success hi hle hout (hlog.append rfl) ?_))
        rw [List.filterMap_append, hcopies]
        exact List.append_nil _
      | failure err =>
        by_cases hlast : i < maxTries
        · simp only [Result.ok, Bool.and_false, Bool.false_eq_true, if_false, if_pos hlast]
          exact h.retry hlast hout hlog hcopies fun _ => ih (by omega) (by omega)
        · simp only [Result.ok, Bool.and_false, Bool.false_eq_true, if_false, if_neg hlast,
            Bool.not_true, Result.error, pure_bind]
          exact h.giveUp (hle.antisymm (not_lt.mp hlast)) hout rfl hlog hcopies fun _ =>
            ih (by omega) (by omega)

end Outer

/-- `Error::to_string`. -/
def errorToString : InternalError → String
  | .userQuit => "USER_QUIT"
  | .userCanceled => "USER_CANCELED"
  | .badInput => "BAD_INPUT"
  | .invalidService => "INVALID_SERVICE"
  | .invalidCurrency => "INVALID_CURRENCY"
  | .encodeUnknownField => "ENCODE_UNKNOWN_FIELD"
  | .encodeEmptyCommand => "ENCODE_EMPTY_COMMAND"
  | .decodeEmptyData => "DECODE_EMPTY_DATA"
  | .decodeUnknownField => "DECODE_UNKNOWN_FIELD"
  | .decodeFieldOverflow => "DECODE_FIELD_OVERFLOW"
  | .decodeOffsetOverflow => "DECODE_OFFSET_OVERFLOW"
  | .decodeStringTooLong => "DECODE_STRING_TOO_LONG"
  | .deserializeHeaderTooShort => "DESERIALIZE_HEADER_TOO_SHORT"
  | .deserializePayloadOverflow => "DESERIALIZE_PAYLOAD_OVERFLOW"
  | .badStatus => "BAD_STATUS"
  | .sendTimeout => "SEND_TIMEOUT"
  | .sendFailed => "SEND_FAILED"
  | .receiveTimeout => "RECEIVE_TIMEOUT"
  | .receiveFailed => "RECEIVE_FAILED"

/-- The first send fails; the second attempt gets a callback and a timeout, the third a reply. -/
def flakySocket : Socket InternalError where
  sendMessage i := if i = 1 then .failure .sendFailed else .success ()
  receiveMessage i j :=
    if j = 0 then .success [2] else if i = 2 then .failure .receiveTimeout else .success [1, 7]

example : (sendToServer errorToString flakySocket 2 [0]).run [] = .ok (.success [1, 7],
    [.sent [0], .print "[!] Attempt 1 failed. Retrying in 2s...\n" .yellow, .sleep 2,
      .sent [0], .received (.success [2]), .received (.failure .receiveTimeout),
      .print "[!] Attempt 2 failed. Retrying in 4s...\n" .yellow, .sleep 4,
      .sent [0], .received (.success [2]), .received (.success [1, 7]),
      .print "[SUCCESS: Message sent and received from server]\n" .cyan]) := by
  rfl

end DistributedBanking.BankClient
