import DistributedBanking.NetworkInvariant
import DistributedBanking.RetryOutcomes

/-!
# The network's client is the client's code

The network takes the sends and receives of a client as actions of their own.
Here they are written down as they happen, and the retry loop of the source is
run on what was written down: it ends as the network's client does.
-/

namespace DistributedBanking.Network
open Store Banking Monitor Semantics Handler Server ClientProtocol
open BankClient (Socket ComesTo sendToServer errorToString sendToServer_outcome)

/-- The attempts of a call so far, each with the result of its send and what it has received. -/
abbrev Script :=
  List (BankClient.Result Unit InternalError × List (BankClient.Result Bytes InternalError))

namespace Script

def received (script : Script) (result : BankClient.Result Bytes InternalError) : Script :=
  match script.getLast? with
  | some attempt => script.dropLast ++ [(attempt.1, attempt.2 ++ [result])]
  | none => script

def socket (script : Script) : Socket InternalError where
  sendMessage i := (script[i - 1]?).elim (.failure .sendFailed) Prod.fst
  receiveMessage i j :=
    ((script[i - 1]?).bind fun attempt => attempt.2[j]?).getD (.failure .receiveTimeout)

end Script

def Action.client {ι : Type} : Action ι → Option ι
  | .start i _ => some i
  | .send i => some i
  | .sendFails i => some i
  | .receive i => some i
  | .receiveFails i => some i
  | .listen i => some i
  | .stopListening i => some i
  | .restart i => some i
  | _ => none

section Watching
variable {ι M : Type} [DecidableEq ι] [Money M] [Float64 M] (cfg : Config ι)

/-- What client `i` finds out of its socket when the network makes a step. -/
def watch (i : ι) (net : Net ι M) (script : Script) (a : Action ι) : Script :=
  if a.client = some i then
    match a, (net.clients i).phase, (net.clients i).inbox with
    | .start _ cmd, .idle, _ =>
      match prepareMessage (cfg.host i) (net.clients i).bank cmd with
      | .ok (.ok _) => []
      | _ => script
    | .send _, .sending call _, _ =>
      if (call.request cfg).length ≤ maxPayload then script ++ [(.success (), [])]
      else script ++ [(.failure .sendFailed, [])]
    | .sendFails _, .sending _ _, _ => script ++ [(.failure .sendFailed, [])]
    | .receive _, .receiving _ _, (_, raw) :: _ => script.received (.success raw)
    | .receiveFails _, .receiving _ _, _ => script.received (.failure .receiveTimeout)
    | _, _, _ => script
  else script

def watchedStep (i : ι) (x : Net ι M × Script) (a : Action ι) : Go (Net ι M × Script) := do
  return (← step cfg x.1 a, watch cfg i x.1 x.2 a)

def watchedRun (i : ι) (acts : List (Action ι)) : Go (Net ι M × Script) :=
  acts.foldlM (watchedStep cfg i) (initial cfg, [])

end Watching

section Attempts
open BankClient (Result)

inductive Failed : Result Unit InternalError × List (Result Bytes InternalError) → Prop
  | notSent (err : InternalError) : Failed (.failure err, [])
  | notReceived {skipped : List (Result Bytes InternalError)} (err : InternalError)
      (hskipped : ∀ result ∈ skipped, result.isCallback = true) :
      Failed (.success (), skipped ++ [.failure err])

variable {script : Script} {n fuel : ℕ}

theorem comesTo_last {skipped : List (Result Bytes InternalError)}
    {result : Result Bytes InternalError}
    (hn : script[n]? = some (.success (), skipped ++ [result]))
    (hskipped : ∀ result ∈ skipped, result.isCallback = true) (hkept : result.isCallback = false)
    (hfuel : skipped.length < fuel) : ComesTo script.socket fuel (n + 1) result := by
  refine .reply ?_ hfuel (fun k hk => ?_) ?_ hkept
  · simp [Script.socket, hn]
  · have hget : (skipped ++ [result])[k]? = some skipped[k] := by
      rw [List.getElem?_append_left hk, List.getElem?_eq_getElem hk]
    simp only [Script.socket, Nat.add_sub_cancel, hn, Option.bind_some, hget, Option.getD_some]
    exact hskipped _ (List.getElem_mem hk)
  · simp [Script.socket, hn]

theorem Failed.comesTo {attempt : Result Unit InternalError × List (Result Bytes InternalError)}
    (h : Failed attempt) (hn : script[n]? = some attempt) (hfuel : attempt.2.length ≤ fuel) :
    ∃ err, ComesTo script.socket fuel (n + 1) (.failure err) := by
  cases h with
  | notSent err =>
    refine ⟨err, .notSent ?_⟩
    simp [Script.socket, hn]
  | notReceived err hskipped =>
    refine ⟨err, comesTo_last hn hskipped rfl ?_⟩
    simpa using hfuel

theorem exists_bound (script : Script) : ∃ bound, ∀ attempt ∈ script, attempt.2.length < bound := by
  refine ⟨(script.map fun attempt => attempt.2.length).sum + 1, fun attempt hattempt => ?_⟩
  exact Nat.lt_succ_of_le (List.le_sum_of_mem (List.mem_map_of_mem hattempt))

theorem comesTo_failure {past rest : Script} (hfailed : ∀ attempt ∈ past, Failed attempt)
    (hscript : script = past ++ rest) {bound : ℕ}
    (hbound : ∀ attempt ∈ script, attempt.2.length < bound) (hfuel : bound ≤ fuel) {i : ℕ}
    (hi : 1 ≤ i) (hle : i ≤ past.length) :
    ∃ err, ComesTo script.socket fuel i (.failure err) := by
  have hlt : i - 1 < past.length := by omega
  have hget : script[i - 1]? = some past[i - 1] := by
    rw [hscript, List.getElem?_append_left hlt, List.getElem?_eq_getElem hlt]
  have hlong := hbound _ (List.mem_of_getElem? hget)
  have hcomes := (hfailed _ (List.getElem_mem hlt)).comesTo hget (hlong.le.trans hfuel)
  rwa [Nat.sub_add_cancel hi] at hcomes

theorem loop_gives_up (hfailed : ∀ attempt ∈ script, Failed attempt)
    (hlength : script.length = BankClient.maxTries) (data : Bytes) :
    ∃ bound, ∀ fuel ≥ bound, ∃ err log,
      (sendToServer errorToString script.socket fuel data).run [] = .ok (.failure err, log) ∧
        log.filterMap BankClient.Event.sentData = List.replicate script.length data := by
  obtain ⟨bound, hbound⟩ := exists_bound script
  refine ⟨bound, fun fuel hfuel => ?_⟩
  have hcomes : ∀ i, 1 ≤ i → i ≤ script.length →
      ∃ err, ComesTo script.socket fuel i (.failure err) := fun i hi hle =>
    comesTo_failure hfailed (List.append_nil _).symm hbound hfuel hi hle
  have hpos : 1 ≤ script.length := by
    rw [hlength]
    decide
  obtain ⟨err, hlast⟩ := hcomes script.length hpos le_rfl
  obtain ⟨log, hrun, hsent⟩ := sendToServer_outcome errorToString data hpos hlength.le
    (fun i hi hlt => hcomes i hi hlt.le) hlast fun hlt => absurd hlt hlength.ge.not_gt
  exact ⟨err, log, hrun, hsent⟩

theorem loop_answered {past : Script} (hfailed : ∀ attempt ∈ past, Failed attempt)
    (hlength : past.length < BankClient.maxTries) {skipped : List (Result Bytes InternalError)}
    (hskipped : ∀ result ∈ skipped, result.isCallback = true) {raw : Bytes}
    (hraw : isCallback raw = false)
    (hscript : script = past ++ [(.success (), skipped ++ [.success raw])]) (data : Bytes) :
    ∃ bound, ∀ fuel ≥ bound, ∃ log,
      (sendToServer errorToString script.socket fuel data).run [] = .ok (.success raw, log) ∧
        log.filterMap BankClient.Event.sentData = List.replicate script.length data := by
  obtain ⟨bound, hbound⟩ := exists_bound script
  refine ⟨bound, fun fuel hfuel => ?_⟩
  have hlast : script[past.length]? = some (.success (), skipped ++ [.success raw]) := by
    rw [hscript]
    exact List.getElem?_concat_length
  have hlong : skipped.length < fuel := by
    have hshort := hbound _ (List.mem_of_getElem? hlast)
    simp only [List.length_append, List.length_singleton] at hshort
    omega
  obtain ⟨log, hrun, hsent⟩ := sendToServer_outcome errorToString data (Nat.le_add_left 1 _) hlength
    (fun i hi hlt => comesTo_failure hfailed hscript hbound hfuel hi (by omega))
    (comesTo_last hlast hskipped hraw hlong) fun _ => rfl
  refine ⟨log, hrun, ?_⟩
  rw [hsent, hscript, List.length_append]
  rfl

end Attempts

section Calls
variable {ι M : Type} [DecidableEq ι] {cfg : Config ι} {i : ι}
  {net net' : Net ι M} {script : Script} {a : Action ι}

inductive Follows : Phase ι → Script → Prop
  | sending {call : Call ι} {script : Script} (hroom : script.length < maxTries)
      (hfailed : ∀ attempt ∈ script, Failed attempt) :
      Follows (.sending call (script.length + 1)) script
  | receiving {call : Call ι} {past : Script}
      {skipped : List (BankClient.Result Bytes InternalError)} (hroom : past.length < maxTries)
      (hfailed : ∀ attempt ∈ past, Failed attempt)
      (hskipped : ∀ result ∈ skipped, result.isCallback = true) :
      Follows (.receiving call (past.length + 1)) (past ++ [(.success (), skipped)])
  | away {phase : Phase ι} {script : Script} (h : phase.call = none) : Follows phase script

omit [DecidableEq ι] in
theorem follows_retry {call : Call ι}
    (hfailed : ∀ attempt ∈ script, Failed attempt) :
    Follows (retry call script.length) script := by
  rw [retry]
  split_ifs with hroom
  · exact .sending hroom hfailed
  · exact .away rfl

theorem received_last (past : Script)
    (attempt : BankClient.Result Unit InternalError × List (BankClient.Result Bytes InternalError))
    (result : BankClient.Result Bytes InternalError) :
    Script.received (past ++ [attempt]) result = past ++ [(attempt.1, attempt.2 ++ [result])] := by
  simp [Script.received]

theorem phase_inbox (net : Net ι M) {j : ι} (inbox : List (Option (Call ι) × Bytes)) :
    ((net.setClient j { net.clients j with inbox }).clients i).phase = (net.clients i).phase := by
  by_cases hi : i = j
  · rw [hi, Net.setClient_self]
  · rw [Net.setClient_of_ne net _ hi]

theorem watch_other (hother : a.client ≠ some i) : watch cfg i net script a = script :=
  if_neg hother

theorem phase_other [Money M] [Float64 M] (hother : a.client ≠ some i)
    (hstep : step cfg net a = .ok net') :
    (net'.clients i).phase = (net.clients i).phase := by
  have hne : ∀ j, a.client = some j → i ≠ j := fun j hj heq => hother (heq ▸ hj)
  cases a with
  | start j cmd =>
    cases hstep
    simp only [start]
    split
    · rw [Net.setClient_of_ne net _ (hne j rfl)]
    · rfl
  | send j =>
    cases hstep
    simp only [send]
    split
    · split <;> rw [Net.setClient_of_ne net _ (hne j rfl)]
    · rfl
  | sendFails j =>
    cases hstep
    simp only [sendFails]
    split
    · rw [Net.setClient_of_ne net _ (hne j rfl)]
    · rfl
  | receive j =>
    cases hstep
    simp only [receive]
    split
    · split
      · rw [Net.setClient_of_ne net _ (hne j rfl)]
      · split <;> rw [Net.setClient_of_ne net _ (hne j rfl)]
    · rfl
  | receiveFails j =>
    cases hstep
    simp only [receiveFails]
    split
    · rw [Net.setClient_of_ne net _ (hne j rfl)]
    · rfl
  | listen j =>
    cases hstep
    simp only [listen]
    split
    · rw [Net.setClient_of_ne net _ (hne j rfl)]
    · rfl
  | stopListening j =>
    cases hstep
    simp only [stopListening]
    split
    · rw [Net.setClient_of_ne net _ (hne j rfl)]
    · rfl
  | restart j =>
    cases hstep
    rw [restart, Net.setClient_of_ne net _ (hne j rfl)]
  | toServer n now =>
    rw [step, toServer] at hstep
    cases hn : net.up[n]? with
    | none =>
      rw [hn] at hstep
      cases hstep
      rfl
    | some call =>
      rw [hn] at hstep
      cases hdispatch : net.dispatcher.dispatch (traced call now) (net.backend, net.executions)
          (call.arrived cfg).data (call.arrived cfg).addr with
      | error panic => simp [hdispatch] at hstep
      | ok out =>
        simp only [hdispatch, ok_bind] at hstep
        cases hstep
        rfl
  | toClient n j =>
    cases hstep
    simp only [toClient]
    split
    · split
      · exact phase_inbox net _
      · rfl
    · rfl
  | callback j payload =>
    cases hstep
    simp only [callback]
    split
    · exact phase_inbox net _
    · rfl
  | sweep now =>
    cases hstep
    rfl

/-- How a call of client `i` has ended in a step of the network, for what the loop returns. -/
inductive CallEnds (cfg : Config ι) (i : ι) (net net' : Net ι M) (call : Call ι) :
    BankClient.Result Bytes InternalError → Prop
  | gaveUp (err : InternalError) (hreturned : net'.returned = net.returned) :
      CallEnds cfg i net net' call (.failure err)
  | answered {answers : Option (Call ι)} {raw : Bytes} {inbox : List (Option (Call ι) × Bytes)}
      (hinbox : (net.clients i).inbox = (answers, raw) :: inbox)
      (hreturned : net'.returned = net.returned ++
        match decodeReply (cfg.host i) 64 raw with
        | .ok (.ok message) => [⟨call, answers, raw, message⟩]
        | _ => []) :
      CallEnds cfg i net net' call (.success raw)

def LoopEnds (cfg : Config ι) (i : ι) (net net' : Net ι M) (call : Call ι) (script : Script) :
    Prop :=
  ∃ bound, ∀ fuel ≥ bound, ∃ result log,
    (sendToServer errorToString script.socket fuel (call.request cfg)).run [] = .ok (result, log) ∧
      log.filterMap BankClient.Event.sentData =
        List.replicate script.length (call.request cfg) ∧
      CallEnds cfg i net net' call result

structure Watched (cfg : Config ι) (i : ι) (net net' : Net ι M) (script : Script) : Prop where
  follows : Follows (net'.clients i).phase script
  ends : ∀ call, (net.clients i).phase.call = some call →
    (net'.clients i).phase.call ≠ some call → LoopEnds cfg i net net' call script

omit [DecidableEq ι] in
theorem watched_same (hfollows : Follows (net.clients i).phase script)
    (hphase : (net'.clients i).phase = (net.clients i).phase) : Watched cfg i net net' script where
  follows := hphase ▸ hfollows
  ends _ hcall hend := absurd (hphase ▸ hcall) hend

omit [DecidableEq ι] in
theorem watched_idle {script' : Script} (hfollows : Follows (net.clients i).phase script)
    (hnet : net' = net) (hscript : script' = script) : Watched cfg i net net' script' := by
  rw [hscript, hnet]
  exact watched_same hfollows rfl

omit [DecidableEq ι] in
theorem watched_retry {call : Call ι} (hcall : (net.clients i).phase.call = some call)
    (hfailed : ∀ attempt ∈ script, Failed attempt) (hlength : script.length ≤ maxTries)
    (hphase : (net'.clients i).phase = retry call script.length)
    (hreturned : net'.returned = net.returned) : Watched cfg i net net' script where
  follows := hphase ▸ follows_retry hfailed
  ends call' hcall' hend := by
    obtain rfl : call = call' := Option.some.inj (hcall.symm.trans hcall')
    rw [hphase, retry] at hend
    split_ifs at hend with hroom
    · exact absurd rfl hend
    · have hall : script.length = BankClient.maxTries := le_antisymm hlength (not_lt.mp hroom)
      obtain ⟨bound, hbound⟩ := loop_gives_up hfailed hall (call.request cfg)
      refine ⟨bound, fun fuel hfuel => ?_⟩
      obtain ⟨err, log, hrun, hsent⟩ := hbound fuel hfuel
      exact ⟨_, log, hrun, hsent, .gaveUp err hreturned⟩

omit [DecidableEq ι] in
theorem failed_snoc (hfailed : ∀ attempt ∈ script, Failed attempt)
    {attempt : BankClient.Result Unit InternalError × List (BankClient.Result Bytes InternalError)}
    (hattempt : Failed attempt) : ∀ attempt' ∈ script ++ [attempt], Failed attempt' :=
  List.forall_mem_append.mpr ⟨hfailed, List.forall_mem_singleton.mpr hattempt⟩

theorem watched_send (hfollows : Follows (net.clients i).phase script) :
    Watched cfg i net (send cfg net i) (watch cfg i net script (.send i)) := by
  cases hphase : (net.clients i).phase with
  | sending call attempt =>
    rw [hphase] at hfollows
    cases hfollows with
    | away h => cases h
    | sending hroom hfailed =>
      by_cases hfits : (call.request cfg).length ≤ maxPayload
      · have hclient : ((send cfg net i).clients i).phase =
            .receiving call (script.length + 1) := by
          simp only [send, hphase, if_pos hfits]
          rw [Net.setClient_self]
        have hwatch : watch cfg i net script (.send i) = script ++ [(.success (), [])] := by
          simp only [watch, Action.client, if_true, hphase, if_pos hfits]
        rw [hwatch]
        refine ⟨hclient ▸ .receiving hroom hfailed (by simp), fun call' hcall hend => ?_⟩
        rw [hclient] at hend
        rw [hphase] at hcall
        exact absurd hcall hend
      · have hclient : ((send cfg net i).clients i).phase = retry call (script.length + 1) := by
          simp only [send, hphase, if_neg hfits]
          rw [Net.setClient_self]
        have hwatch : watch cfg i net script (.send i) =
            script ++ [(.failure .sendFailed, [])] := by
          simp only [watch, Action.client, if_true, hphase, if_neg hfits]
        rw [hwatch]
        refine watched_retry (by rw [hphase]; rfl) (failed_snoc hfailed (.notSent _)) ?_ ?_ ?_
        · simpa using hroom
        · simpa using hclient
        · simp only [send, hphase, if_neg hfits]
          rfl
  | _ =>
    have hnet : send cfg net i = net := by simp only [send, hphase]
    have hwatch : watch cfg i net script (.send i) = script := by
      simp only [watch, hphase, ite_self]
    exact watched_idle hfollows hnet hwatch

theorem watched_sendFails (hfollows : Follows (net.clients i).phase script) :
    Watched cfg i net (sendFails net i) (watch cfg i net script (.sendFails i)) := by
  cases hphase : (net.clients i).phase with
  | sending call attempt =>
    rw [hphase] at hfollows
    cases hfollows with
    | away h => cases h
    | sending hroom hfailed =>
      have hclient : ((sendFails net i).clients i).phase = retry call (script.length + 1) := by
        simp only [sendFails, hphase]
        rw [Net.setClient_self]
      have hwatch : watch cfg i net script (.sendFails i) =
          script ++ [(.failure .sendFailed, [])] := by
        simp only [watch, Action.client, if_true, hphase]
      rw [hwatch]
      refine watched_retry (by rw [hphase]; rfl) (failed_snoc hfailed (.notSent _)) ?_ ?_ ?_
      · simpa using hroom
      · simpa using hclient
      · simp only [sendFails, hphase]
        rfl
  | _ =>
    have hnet : sendFails net i = net := by simp only [sendFails, hphase]
    have hwatch : watch cfg i net script (.sendFails i) = script := by
      simp only [watch, hphase, ite_self]
    exact watched_idle hfollows hnet hwatch

theorem watched_receiveFails (hfollows : Follows (net.clients i).phase script) :
    Watched cfg i net (receiveFails net i) (watch cfg i net script (.receiveFails i)) := by
  cases hphase : (net.clients i).phase with
  | receiving call attempt =>
    rw [hphase] at hfollows
    cases hfollows with
    | away h => cases h
    | @receiving _ past skipped hroom hfailed hskipped =>
      have hclient : ((receiveFails net i).clients i).phase = retry call (past.length + 1) := by
        simp only [receiveFails, hphase]
        rw [Net.setClient_self]
      have hwatch : watch cfg i net (past ++ [(.success (), skipped)]) (.receiveFails i) =
          past ++ [(.success (), skipped ++ [.failure .receiveTimeout])] := by
        simp only [watch, Action.client, if_true, hphase, received_last]
      rw [hwatch]
      refine watched_retry (by rw [hphase]; rfl)
        (failed_snoc hfailed (.notReceived _ hskipped)) ?_ ?_ ?_
      · simpa using hroom
      · simpa using hclient
      · simp only [receiveFails, hphase]
        rfl
  | _ =>
    have hnet : receiveFails net i = net := by simp only [receiveFails, hphase]
    have hwatch : watch cfg i net script (.receiveFails i) = script := by
      simp only [watch, hphase, ite_self]
    exact watched_idle hfollows hnet hwatch

theorem watched_received {call : Call ι} {attempt : ℕ}
    (hphase : (net.clients i).phase = .receiving call attempt) {answers : Option (Call ι)}
    {raw : Bytes} {inbox : List (Option (Call ι) × Bytes)}
    (hinbox : (net.clients i).inbox = (answers, raw) :: inbox)
    (hfollows : Follows (.receiving call attempt) script) :
    Watched cfg i net (receive cfg net i) (script.received (.success raw)) := by
  cases hfollows with
  | away h => cases h
  | @receiving _ past skipped hroom hfailed hskipped =>
    rw [received_last]
    by_cases hcallback : isCallback raw = true
    · have hclient : ((receive cfg net i).clients i).phase =
          .receiving call (past.length + 1) := by
        simp only [receive, hphase, hinbox, if_pos hcallback]
        rw [Net.setClient_self]
      refine ⟨hclient ▸ .receiving hroom hfailed ?_, fun call' hcall hend => ?_⟩
      · exact List.forall_mem_append.mpr ⟨hskipped, List.forall_mem_singleton.mpr hcallback⟩
      · rw [hclient] at hend
        rw [hphase] at hcall
        exact absurd hcall hend
    · have hraw : isCallback raw = false := by simpa using hcallback
      have hends : ((receive cfg net i).clients i).phase.call = none ∧
          CallEnds cfg i net (receive cfg net i) call (.success raw) := by
        cases hdecode : decodeReply (cfg.host i) 64 raw with
        | error fault =>
          refine ⟨?_, .answered hinbox ?_⟩
          · simp only [receive, hphase, hinbox, if_neg hcallback, hdecode, Net.setClient_self]
            rfl
          · simp only [receive, hphase, hinbox, if_neg hcallback, hdecode, Net.setClient,
              List.append_nil]
        | ok result =>
          cases result with
          | error err =>
            refine ⟨?_, .answered hinbox ?_⟩
            · simp only [receive, hphase, hinbox, if_neg hcallback, hdecode, Net.setClient_self]
              rfl
            · simp only [receive, hphase, hinbox, if_neg hcallback, hdecode, Net.setClient,
                List.append_nil]
          | ok message =>
            refine ⟨?_, .answered hinbox ?_⟩
            · simp only [receive, hphase, hinbox, if_neg hcallback, hdecode, Net.setClient_self,
                afterReply_call]
            · simp only [receive, hphase, hinbox, if_neg hcallback, hdecode]
      refine ⟨.away hends.1, fun call' hcall _ => ?_⟩
      rw [hphase] at hcall
      cases hcall
      obtain ⟨bound, hbound⟩ := loop_answered hfailed hroom hskipped hraw rfl (call.request cfg)
      refine ⟨bound, fun fuel hfuel => ?_⟩
      obtain ⟨log, hrun, hsent⟩ := hbound fuel hfuel
      exact ⟨_, log, hrun, hsent, hends.2⟩

theorem watched_receive (hfollows : Follows (net.clients i).phase script) :
    Watched cfg i net (receive cfg net i) (watch cfg i net script (.receive i)) := by
  cases hphase : (net.clients i).phase with
  | receiving call attempt =>
    cases hinbox : (net.clients i).inbox with
    | nil =>
      have hnet : receive cfg net i = net := by simp only [receive, hphase, hinbox]
      have hwatch : watch cfg i net script (.receive i) = script := by
        simp only [watch, hphase, hinbox, ite_self]
      exact watched_idle hfollows hnet hwatch
    | cons entry inbox =>
      obtain ⟨answers, raw⟩ := entry
      have hwatch : watch cfg i net script (.receive i) = script.received (.success raw) := by
        simp only [watch, Action.client, if_true, hphase, hinbox]
      rw [hwatch]
      exact watched_received hphase hinbox (hphase ▸ hfollows)
  | _ =>
    have hnet : receive cfg net i = net := by simp only [receive, hphase]
    have hwatch : watch cfg i net script (.receive i) = script := by
      simp only [watch, hphase, ite_self]
    exact watched_idle hfollows hnet hwatch

theorem watched_start (hfollows : Follows (net.clients i).phase script) (cmd : Command) :
    Watched cfg i net (start cfg net i cmd) (watch cfg i net script (.start i cmd)) := by
  cases hphase : (net.clients i).phase with
  | idle =>
    cases hprepared : prepareMessage (cfg.host i) (net.clients i).bank cmd with
    | ok result =>
      cases result with
      | ok prepared =>
        have hwatch : watch cfg i net script (.start i cmd) = [] := by
          simp only [watch, Action.client, if_true, hphase, hprepared]
        rw [hwatch]
        refine ⟨?_, fun call hcall => ?_⟩
        · simp only [start, hphase, hprepared]
          rw [Net.setClient_self]
          exact @Follows.sending _ _ [] (by decide) (by simp)
        · rw [hphase] at hcall
          cases hcall
      | error err =>
        have hnet : start cfg net i cmd = net := by simp only [start, hphase, hprepared]
        have hwatch : watch cfg i net script (.start i cmd) = script := by
          simp only [watch, hphase, hprepared, ite_self]
        exact watched_idle hfollows hnet hwatch
    | error fault =>
      have hnet : start cfg net i cmd = net := by simp only [start, hphase, hprepared]
      have hwatch : watch cfg i net script (.start i cmd) = script := by
        simp only [watch, hphase, hprepared, ite_self]
      exact watched_idle hfollows hnet hwatch
  | _ =>
    have hnet : start cfg net i cmd = net := by simp only [start, hphase]
    have hwatch : watch cfg i net script (.start i cmd) = script := by
      simp only [watch, hphase, ite_self]
    exact watched_idle hfollows hnet hwatch

theorem watched_listen (hfollows : Follows (net.clients i).phase script) :
    Watched cfg i net (listen net i) (watch cfg i net script (.listen i)) := by
  have hwatch : watch cfg i net script (.listen i) = script := by
    simp only [watch, ite_self]
  rw [hwatch]
  apply watched_same hfollows
  cases hphase : (net.clients i).phase with
  | listening =>
    simp only [listen, hphase]
    rw [Net.setClient_self]
  | _ => simp only [listen, hphase]

theorem watched_stopListening (hfollows : Follows (net.clients i).phase script) :
    Watched cfg i net (stopListening net i) (watch cfg i net script (.stopListening i)) := by
  have hwatch : watch cfg i net script (.stopListening i) = script := by
    simp only [watch, ite_self]
  rw [hwatch]
  cases hphase : (net.clients i).phase with
  | listening =>
    refine ⟨.away ?_, fun call hcall => ?_⟩
    · simp only [stopListening, hphase]
      rw [Net.setClient_self]
      rfl
    · rw [hphase] at hcall
      cases hcall
  | _ => exact watched_idle hfollows (by simp only [stopListening, hphase]) rfl

end Calls

section Runs
variable {ι M : Type} [DecidableEq ι] [Money M] [Float64 M] {cfg : Config ι} {i : ι}
  {net net' : Net ι M} {script : Script} {a : Action ι}

theorem watched_step (hfollows : Follows (net.clients i).phase script)
    (hstep : step cfg net a = .ok net') :
    Follows (net'.clients i).phase (watch cfg i net script a) ∧
      (a ≠ .restart i → Watched cfg i net net' (watch cfg i net script a)) := by
  by_cases hother : a.client ≠ some i
  · rw [watch_other hother]
    have hsame : Watched cfg i net net' script := watched_same hfollows (phase_other hother hstep)
    exact ⟨hsame.follows, fun _ => hsame⟩
  have howner : a.client = some i := not_not.mp hother
  have hwatched : a ≠ .restart i → Watched cfg i net net' (watch cfg i net script a) := by
    intro hrestart
    cases a with
    | start j cmd =>
      obtain rfl : j = i := Option.some.inj howner
      cases hstep
      exact watched_start hfollows cmd
    | send j =>
      obtain rfl : j = i := Option.some.inj howner
      cases hstep
      exact watched_send hfollows
    | sendFails j =>
      obtain rfl : j = i := Option.some.inj howner
      cases hstep
      exact watched_sendFails hfollows
    | receive j =>
      obtain rfl : j = i := Option.some.inj howner
      cases hstep
      exact watched_receive hfollows
    | receiveFails j =>
      obtain rfl : j = i := Option.some.inj howner
      cases hstep
      exact watched_receiveFails hfollows
    | listen j =>
      obtain rfl : j = i := Option.some.inj howner
      cases hstep
      exact watched_listen hfollows
    | stopListening j =>
      obtain rfl : j = i := Option.some.inj howner
      cases hstep
      exact watched_stopListening hfollows
    | restart j => exact absurd (Option.some.inj howner ▸ rfl) hrestart
    | toServer n now => cases howner
    | toClient n j => cases howner
    | callback j payload => cases howner
    | sweep now => cases howner
  refine ⟨?_, hwatched⟩
  by_cases hrestart : a = .restart i
  · subst hrestart
    cases hstep
    rw [restart, Net.setClient_self]
    exact .away rfl
  · exact (hwatched hrestart).follows

theorem watchedStep_total {x : Net ι M × Script} (hinv : Inv cfg x.1)
    (hfollows : Follows (x.1.clients i).phase x.2) (a : Action ι) :
    ∃ x', watchedStep cfg i x a = .ok x' ∧ step cfg x.1 a = .ok x'.1 ∧ Inv cfg x'.1 ∧
      Follows (x'.1.clients i).phase x'.2 ∧
      (a ≠ .restart i → Watched cfg i x.1 x'.1 x'.2) := by
  obtain ⟨net', hnet', -, hinv'⟩ := hinv.total a
  obtain ⟨hfollows', hwatched⟩ := watched_step hfollows hnet'
  refine ⟨(net', watch cfg i x.1 x.2 a), ?_, hnet', hinv', hfollows', hwatched⟩
  rw [watchedStep, hnet']
  rfl

theorem watchedRun_total (cfg : Config ι) (i : ι) (acts : List (Action ι)) :
    ∃ x : Net ι M × Script, watchedRun cfg i acts = .ok x ∧
      Network.run cfg (initial cfg) acts = .ok x.1 ∧ Inv cfg x.1 ∧
      Follows (x.1.clients i).phase x.2 := by
  obtain ⟨x, acts', net, hrun, hsame, hrun', rfl, hinv, hfollows⟩ := Runs.foldlM_simulation
    (f := watchedStep cfg i) (g := step cfg) (Q := Eq)
    (R := fun x net => x.1 = net ∧ Inv cfg net ∧ Follows (net.clients i).phase x.2)
    (fun x net a hx => by
      obtain ⟨rfl, hinv, hfollows⟩ := hx
      obtain ⟨x', hx', hstep, hinv', hfollows', -⟩ := watchedStep_total hinv hfollows a
      exact ⟨x', a, x'.1, hx', rfl, hstep, rfl, hinv', hfollows'⟩)
    acts (s := (initial cfg, [])) (t := (initial cfg : Net ι M))
    ⟨rfl, initial_inv cfg, .away rfl⟩
  obtain rfl : acts = acts' := List.forall₂_eq_eq_eq ▸ hsame
  exact ⟨x, hrun, hrun', hinv, hfollows⟩

/-- Whatever has happened on the network, when a call of a client ends the retry loop of the
source, run on the results that the client's sends and receives have had, ends as the call has:
with the datagram that the client took, after as many copies of the request as the client made
attempts, or with an error, when the client has given up. -/
theorem client_refines (cfg : Config ι) (i : ι) (acts : List (Action ι)) (a : Action ι) :
    ∃ x x' : Net ι M × Script, watchedRun cfg i acts = .ok x ∧
      Network.run cfg (initial cfg) acts = .ok x.1 ∧ watchedStep cfg i x a = .ok x' ∧
      step cfg x.1 a = .ok x'.1 ∧ (a ≠ .restart i → ∀ call,
        (x.1.clients i).phase.call = some call → (x'.1.clients i).phase.call ≠ some call →
          LoopEnds cfg i x.1 x'.1 call x'.2) := by
  obtain ⟨x, hrun, hrun', hinv, hfollows⟩ := watchedRun_total (M := M) cfg i acts
  obtain ⟨x', hx', hstep, -, -, hwatched⟩ := watchedStep_total hinv hfollows a
  exact ⟨x, x', hrun, hrun', hx', hstep, fun hrestart => (hwatched hrestart).ends⟩

end Runs
end DistributedBanking.Network
