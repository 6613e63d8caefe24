import DistributedBanking.RetryLoop

/-!
# How many attempts are made

The retry loop makes attempts up to the first that comes to a reply, and five if
none does. It has then sent as many copies of its datagram.
-/

namespace DistributedBanking.BankClient
open ClientProtocol
variable {ε : Type} {socket : Socket ε} {data : Bytes} {fuel i : ℕ}

inductive ComesTo (socket : Socket ε) (fuel i : ℕ) : Result Bytes ε → Prop
  | notSent {err : ε} (hsend : socket.sendMessage i = .failure err) :
      ComesTo socket fuel i (.failure err)
  | reply {j : ℕ} {result : Result Bytes ε} (hsend : socket.sendMessage i = .success ())
      (hj : j < fuel) (hskipped : ∀ k < j, (socket.receiveMessage i k).isCallback = true)
      (hfirst : socket.receiveMessage i j = result) (hkept : result.isCallback = false) :
      ComesTo socket fuel i result

theorem sentData_append {log events : List (Event ε)}
    (hevents : events.filterMap Event.sentData = []) :
    (log ++ events).filterMap Event.sentData = log.filterMap Event.sentData := by
  rw [List.filterMap_append, hevents, List.append_nil]

theorem receiveReply_skips {j : ℕ}
    (hskipped : ∀ k < j, (socket.receiveMessage i k).isCallback = true)
    (hkept : (socket.receiveMessage i j).isCallback = false) (rest : ℕ) :
    ∀ (start : ℕ) (log : List (Event ε)), start + rest = j → j < fuel →
    Returns (receiveReply socket i (fuel - start) start) log fun result log' =>
      result = socket.receiveMessage i j ∧
        log'.filterMap Event.sentData = log.filterMap Event.sentData := by
  induction rest with
  | zero =>
    intro start log hstart hfuel
    obtain rfl : start = j := hstart
    rw [show fuel - start = (fuel - start - 1) + 1 by omega]
    exact ⟨_, _, receiveReply_done hkept, rfl, sentData_append rfl⟩
  | succ rest ih =>
    intro start log hstart hfuel
    rw [show fuel - start = (fuel - (start + 1)) + 1 by omega]
    obtain ⟨result, log', hrun, hresult, hsent⟩ :=
      ih (start + 1) (log ++ [.received (socket.receiveMessage i start)]) (by omega) hfuel
    refine ⟨result, log', ?_, hresult, hsent.trans (sentData_append rfl)⟩
    rw [receiveReply_callback (hskipped start (by omega)), hrun]

theorem attempt_comesTo {result : Result Bytes ε} (h : ComesTo socket fuel i result)
    (before : Result Bytes ε) (log : List (Event ε)) :
    Returns (receiveIfSent socket i fuel (socket.sendMessage i) before) log fun resRecv log' =>
      (socket.sendMessage i = .success () ∧ resRecv = result ∨
        ∃ err, socket.sendMessage i = .failure err ∧ result = .failure err) ∧
      log'.filterMap Event.sentData = log.filterMap Event.sentData := by
  cases h with
  | @notSent err hsend =>
    rw [hsend]
    exact .pure ⟨.inr ⟨err, rfl, rfl⟩, rfl⟩
  | @reply j _ hsend hj hskipped hfirst hkept =>
    rw [hsend]
    obtain ⟨resRecv, log', hrun, hresult, hsent⟩ :=
      receiveReply_skips hskipped (hfirst ▸ hkept) j 0 log (Nat.zero_add j) hj
    exact ⟨resRecv, log', hrun, .inl ⟨rfl, hresult.trans hfirst⟩, hsent⟩

variable (toString : ε → String)

theorem attempts_success {remaining : ℕ} {s : Locals ε} {log : List (Event ε)} {reply : Bytes}
    (h : ComesTo socket fuel i (.success reply)) :
    Returns (attempts toString socket fuel data (remaining + 1) i s) log fun result log' =>
      result = .success reply ∧
        log'.filterMap Event.sentData = log.filterMap Event.sentData ++ [data] := by
  rw [attempts]
  refine .emit (.bind (attempt_comesTo h s.resRecv _) fun resRecv log' hattempt => ?_)
  obtain ⟨hresult, hsent⟩ := hattempt
  obtain ⟨hsend, rfl⟩ | ⟨err, -, hfailure⟩ := hresult
  · rw [hsend]
    refine .emit (.pure ⟨rfl, ?_⟩)
    rw [sentData_append rfl, hsent, List.filterMap_append]
    rfl
  · cases hfailure

theorem attempts_failure {remaining : ℕ} {s : Locals ε} {log : List (Event ε)} {err : ε}
    (h : ComesTo socket fuel i (.failure err)) {Q : Result Bytes ε → List (Event ε) → Prop}
    (hnext : ∀ s' log', (maxTries ≤ i → s'.err = some err) →
      log'.filterMap Event.sentData = log.filterMap Event.sentData ++ [data] →
      Returns (attempts toString socket fuel data remaining (i + 1) s') log' Q) :
    Returns (attempts toString socket fuel data (remaining + 1) i s) log Q := by
  rw [attempts]
  refine .emit (.bind (attempt_comesTo h s.resRecv _) fun resRecv log' hattempt => ?_)
  obtain ⟨hresult, hsent⟩ := hattempt
  have hcopy : log'.filterMap Event.sentData = log.filterMap Event.sentData ++ [data] := by
    rw [hsent, List.filterMap_append]
    rfl
  by_cases hlast : i < maxTries
  · have hretry : ∀ s' log'', log''.filterMap Event.sentData = log'.filterMap Event.sentData →
        Returns (attempts toString socket fuel data remaining (i + 1) s') log'' Q :=
      fun s' log'' hquiet => hnext s' log'' (fun hle => absurd hlast hle.not_gt)
        (hquiet.trans hcopy)
    obtain ⟨hsend, rfl⟩ | ⟨err', hsend, -⟩ := hresult
    · rw [hsend]
      simp only [Result.ok, Bool.and_false, Bool.false_eq_true, if_false, if_pos hlast]
      exact .emit (.emit (hretry _ _ ((sentData_append rfl).trans (sentData_append rfl))))
    · rw [hsend]
      simp only [Result.ok, Bool.false_and, Bool.false_eq_true, if_false, if_pos hlast]
      exact .emit (.emit (hretry _ _ ((sentData_append rfl).trans (sentData_append rfl))))
  · obtain ⟨hsend, rfl⟩ | ⟨err', hsend, herr⟩ := hresult
    · rw [hsend]
      simp only [Result.ok, Bool.and_false, Bool.false_eq_true, if_false, if_neg hlast,
        Bool.not_true, Result.error, pure_bind]
      exact .emit (hnext _ _ (fun _ => rfl) ((sentData_append rfl).trans hcopy))
    · cases herr
      rw [hsend]
      simp only [Result.ok, Bool.false_and, Bool.false_eq_true, if_false, if_neg hlast,
        Bool.not_false, if_true, Result.error, pure_bind]
      exact .emit (hnext _ _ (fun _ => rfl) ((sentData_append rfl).trans hcopy))

section Loop
variable {k : ℕ} {result : Result Bytes ε}

theorem attempts_outcome (hle : k ≤ maxTries)
    (hfailed : ∀ i, 1 ≤ i → i < k → ∃ err, ComesTo socket fuel i (.failure err))
    (hlast : ComesTo socket fuel k result) (hend : k < maxTries → result.ok = true) (rest : ℕ) :
    ∀ (i remaining : ℕ) (s : Locals ε) (log : List (Event ε)), 1 ≤ i → i + rest = k →
    i + remaining = maxTries →
    Returns (attempts toString socket fuel data (remaining + 1) i s) log fun res log' =>
      res = result ∧ log'.filterMap Event.sentData =
        log.filterMap Event.sentData ++ List.replicate (rest + 1) data := by
  induction rest with
  | zero =>
    intro i remaining s log hi hk hremaining
    obtain rfl : i = k := hk
    cases result with
    | success reply => exact attempts_success toString hlast
    | failure err =>
      have hlate : ¬ i < maxTries := fun hlt => by cases hend hlt
      obtain rfl : remaining = 0 := by omega
      refine attempts_failure toString hlast fun s' log' herr hsent =>
        ⟨.failure err, log', ?_, rfl, hsent⟩
      rw [attempts, readErr, herr (not_lt.mp hlate)]
      rfl
  | succ rest ih =>
    intro i remaining s log hi hk hremaining
    obtain ⟨err, hfailure⟩ := hfailed i hi (by omega)
    obtain ⟨remaining, rfl⟩ : ∃ n, remaining = n + 1 := ⟨remaining - 1, by omega⟩
    refine attempts_failure toString hfailure fun s' log' _ hsent => ?_
    obtain ⟨res, log'', hrun, hresult, hsent'⟩ :=
      ih (i + 1) remaining s' log' (by omega) (by omega) (by omega)
    refine ⟨res, log'', hrun, hresult, ?_⟩
    rw [hsent', hsent, List.append_assoc]
    rfl

theorem sendToServer_outcome (data : Bytes) (hk : 1 ≤ k) (hle : k ≤ maxTries)
    (hfailed : ∀ i, 1 ≤ i → i < k → ∃ err, ComesTo socket fuel i (.failure err))
    (hlast : ComesTo socket fuel k result) (hend : k < maxTries → result.ok = true) :
    ∃ log, (sendToServer toString socket fuel data).run [] = .ok (result, log) ∧
      log.filterMap Event.sentData = List.replicate k data := by
  obtain ⟨res, log, hrun, hresult, hsent⟩ := attempts_outcome toString hle hfailed hlast hend
    (k - 1) 1 4 ⟨backoff, default, none⟩ [] le_rfl (by omega) rfl
  refine ⟨log, hresult ▸ hrun, ?_⟩
  rw [hsent, Nat.sub_add_cancel hk]
  rfl

theorem exists_last_attempt (drops : ℕ → Bool) : ∃ n, 1 ≤ n ∧ n ≤ maxTries ∧
    (∀ i, i + 1 < n → drops i = true) ∧ (n < maxTries → drops (n - 1) = false) := by
  by_cases hall : ∃ i, drops i = false
  · have hfind := Nat.find_spec hall
    have hbefore : ∀ i < Nat.find hall, drops i = true := fun i hi => by
      simpa using Nat.find_min hall hi
    by_cases hlate : Nat.find hall < maxTries
    · exact ⟨Nat.find hall + 1, by omega, hlate, fun i hi => hbefore i (by omega), fun _ => hfind⟩
    · exact ⟨maxTries, by decide, le_rfl, fun i hi => hbefore i (by omega),
        fun hlt => absurd hlt (lt_irrefl _)⟩
  · have hdrops : ∀ i, drops i = true := fun i => by simpa using not_exists.mp hall i
    exact ⟨maxTries, by decide, le_rfl, fun i _ => hdrops i,
      fun hlt => absurd hlt (lt_irrefl _)⟩

theorem exists_comesTo (hanswered : socket.sendMessage i = .success () →
    ∃ j < fuel, (socket.receiveMessage i j).isCallback = false) :
    ∃ result, ComesTo socket fuel i result := by
  cases hsend : socket.sendMessage i with
  | failure err => exact ⟨_, .notSent hsend⟩
  | success u =>
    have hany : ∃ j, (socket.receiveMessage i j).isCallback = false := by
      obtain ⟨j, -, hkept⟩ := hanswered hsend
      exact ⟨j, hkept⟩
    obtain ⟨j, hj, hkept⟩ := hanswered hsend
    have hfirst := Nat.find_spec hany
    have hskipped : ∀ k < Nat.find hany, (socket.receiveMessage i k).isCallback = true := by
      intro k hk
      simpa using Nat.find_min hany hk
    exact ⟨_, .reply hsend ((Nat.find_le hkept).trans_lt hj) hskipped rfl hfirst⟩

theorem sendToServer_copies (data : Bytes)
    (hanswered : ∀ i, 1 ≤ i → i ≤ maxTries → socket.sendMessage i = .success () →
      ∃ j < fuel, (socket.receiveMessage i j).isCallback = false) :
    ∃ n result log, 1 ≤ n ∧ n ≤ maxTries ∧
      (sendToServer toString socket fuel data).run [] = .ok (result, log) ∧
      log.filterMap Event.sentData = List.replicate n data := by
  have hall : ∀ i, ∃ result, 1 ≤ i → i ≤ maxTries → ComesTo socket fuel i result := by
    intro i
    by_cases hi : 1 ≤ i ∧ i ≤ maxTries
    · obtain ⟨result, hresult⟩ := exists_comesTo (hanswered i hi.1 hi.2)
      exact ⟨result, fun _ _ => hresult⟩
    · exact ⟨default, fun h h' => absurd ⟨h, h'⟩ hi⟩
  choose outcome houtcome using hall
  obtain ⟨n, hn, hle, hfailed, hlast⟩ := exists_last_attempt fun i => !(outcome (i + 1)).ok
  have hfailures : ∀ i, 1 ≤ i → i < n → ∃ err, ComesTo socket fuel i (.failure err) := by
    intro i hi hlt
    have hcomes := houtcome i hi (by omega)
    have hfail := hfailed (i - 1) (by omega)
    rw [Nat.sub_add_cancel hi] at hfail
    cases hresult : outcome i with
    | success reply => simp [hresult, Result.ok] at hfail
    | failure err => exact ⟨err, hresult ▸ hcomes⟩
  obtain ⟨log, hrun, hsent⟩ := sendToServer_outcome toString data hn hle hfailures
    (houtcome n hn hle) fun hlt => by
      have hok := hlast hlt
      rw [Nat.sub_add_cancel hn] at hok
      simpa using hok
  exact ⟨n, outcome n, log, hn, hle, hrun, hsent⟩

end Loop
end DistributedBanking.BankClient
