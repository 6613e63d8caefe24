import DistributedBanking.Commutation

/-!
# Balances stay between the bank and their holder

Two servers that differ in the balance of one account answer alike as long as
nobody presents the account's name and password for it. Other calls read its
identity, which is the same in both; a transfer to it changes its balance in
both, and the new balance is not in the reply. If the account is closed or its
number handed out again, nothing is left of the difference.
-/

namespace DistributedBanking.Banking
open Store

section Veil
variable {M : Type}

/-- The same store but for the balance of an account, which has these credentials. -/
structure Veiled (a : UInt32) (name : Bytes) (pw : Vector UInt8 8) (s t : MemoryStore M) :
    Prop where
  nextID : s.nextID = t.nextID
  others : ∀ k, k ≠ a → s.accounts.get k = t.accounts.get k
  secret : ∃ acc balance, s.accounts.get a = some acc ∧
    t.accounts.get a = some (withBalance balance acc) ∧ acc.holderName = name ∧ acc.password = pw

def Indistinct (a : UInt32) (name : Bytes) (pw : Vector UInt8 8) (s t : MemoryStore M) : Prop :=
  s = t ∨ Veiled a name pw s t

/-- The answers of two calls, but for the balance at the other end of a transfer. -/
def SameAnswer (res res' : Result M) : Prop :=
  res = res' ∨ ∃ f x y, res = .balances f x ∧ res' = .balances f y

theorem checkAuth_refused {acc : Account M} {name : Bytes} {pw : Vector UInt8 8}
    (h : (name, pw) ≠ (acc.holderName, acc.password)) :
    ∃ err, checkAuth acc name pw = .error err := by
  rcases hcheck : checkAuth acc name pw with err | u
  · exact ⟨err, rfl⟩
  · obtain ⟨hpw, hname⟩ := checkAuth_ok.mp hcheck
    exact absurd (by rw [hpw, hname]) h

variable {a : UInt32} {name : Bytes} {pw : Vector UInt8 8} {s t : MemoryStore M}

theorem presented_veiled (h : Veiled a name pw s t) {accNo : UInt32} {name' : Bytes}
    {pw' : Vector UInt8 8} (hne : (accNo, name', pw') ≠ (a, name, pw)) :
    presented (s.accounts.get accNo) name' pw' = presented (t.accounts.get accNo) name' pw' := by
  by_cases ha : accNo = a
  · subst ha
    obtain ⟨acc, balance, hs, ht, rfl, rfl⟩ := h.secret
    have hwrong : (name', pw') ≠ (acc.holderName, acc.password) := by simpa using hne
    obtain ⟨err, herr⟩ := checkAuth_refused hwrong
    have herr' : checkAuth (withBalance balance acc) name' pw' = .error err := herr
    simp only [presented, hs, ht, herr, herr']
  · rw [h.others accNo ha]

theorem settled_cases (op : Op M) (res : Result M) (k : UInt32) :
    (∀ found, settled op res k found = found) ∨ (∀ found, settled op res k found = none) ∨
      ∃ x, ∀ found, settled op res k found = found.map (withBalance x) := by
  cases op with
  | closeAccount name accNo pw =>
    cases res with
    | closed =>
      by_cases hk : k = accNo
      · exact .inr (.inl fun _ => if_pos hk)
      · exact .inl fun _ => if_neg hk
    | _ => exact .inl fun _ => rfl
  | deposit name accNo pw curr amount =>
    cases res with
    | balance b =>
      by_cases hk : k = accNo
      · exact .inr (.inr ⟨b, fun _ => if_pos hk⟩)
      · exact .inl fun _ => if_neg hk
    | _ => exact .inl fun _ => rfl
  | withdraw name accNo pw curr amount =>
    cases res with
    | balance b =>
      by_cases hk : k = accNo
      · exact .inr (.inr ⟨b, fun _ => if_pos hk⟩)
      · exact .inl fun _ => if_neg hk
    | _ => exact .inl fun _ => rfl
  | transfer name fromAccNo pw toAccNo curr amount =>
    cases res with
    | balances f t =>
      by_cases hto : k = toAccNo
      · exact .inr (.inr ⟨t, fun _ => if_pos hto⟩)
      · by_cases hfrom : k = fromAccNo
        · exact .inr (.inr ⟨f, fun _ => (if_neg hto).trans (if_pos hfrom)⟩)
        · exact .inl fun _ => (if_neg hto).trans (if_neg hfrom)
    | _ => exact .inl fun _ => rfl
  | _ => exact .inl fun _ => by cases res <;> rfl

variable [Money M]

theorem transfer_veiled (h : Veiled a name pw s t) {fromName : Bytes} {fromAccNo : UInt32}
    {pw' : Vector UInt8 8} (hne : (fromAccNo, fromName, pw') ≠ (a, name, pw)) (toAccNo : UInt32)
    (curr : UInt8) (amount : M) :
    decision s (.transfer fromName fromAccNo pw' toAccNo curr amount) =
        decision t (.transfer fromName fromAccNo pw' toAccNo curr amount) ∨
      toAccNo = a ∧ ∃ f x y,
        decision s (.transfer fromName fromAccNo pw' toAccNo curr amount) = .balances f x ∧
        decision t (.transfer fromName fromAccNo pw' toAccNo curr amount) = .balances f y := by
  simp only [decision]
  by_cases hpos : amount ≤ 0
  · simp only [if_pos hpos, true_or]
  by_cases hsame : fromAccNo = toAccNo
  · simp only [if_neg hpos, if_pos hsame, true_or]
  simp only [if_neg hpos, if_neg hsame]
  obtain ⟨acc, balance, hs, ht, rfl, rfl⟩ := h.secret
  by_cases hfrom : fromAccNo = a
  · -- The secret account pays: its credentials are refused in both stores.
    subst hfrom
    have hwrong : (fromName, pw') ≠ (acc.holderName, acc.password) := by simpa using hne
    obtain ⟨err, herr⟩ := checkAuth_refused hwrong
    have herr' : checkAuth (withBalance balance acc) fromName pw' = .error err := herr
    rw [hs, ht, h.others toAccNo (Ne.symm hsame)]
    rcases t.accounts.get toAccNo with _ | toAcc
    · exact .inl rfl
    · simp only [herr, herr', true_or]
  rw [h.others fromAccNo hfrom]
  by_cases hto : toAccNo = a
  · -- It is paid: only the second balance of the answer may differ.
    subst hto
    rw [hs, ht]
    rcases t.accounts.get fromAccNo with _ | fromAcc
    · exact .inl rfl
    rcases hcheck : checkAuth fromAcc fromName pw' with err | u
    · simp only [hcheck, true_or]
    by_cases hcurr : fromAcc.currencyType ≠ curr ∨ fromAcc.currencyType ≠ acc.currencyType
    · have hcurr' : fromAcc.currencyType ≠ curr ∨
          fromAcc.currencyType ≠ (withBalance balance acc).currencyType := hcurr
      simp only [hcheck, if_pos hcurr, if_pos hcurr', true_or]
    have hcurr' : ¬ (fromAcc.currencyType ≠ curr ∨
        fromAcc.currencyType ≠ (withBalance balance acc).currencyType) := hcurr
    by_cases hfunds : fromAcc.balance < amount
    · simp only [hcheck, if_neg hcurr, if_neg hcurr', if_pos hfunds, true_or]
    · simp only [hcheck, if_neg hcurr, if_neg hcurr', if_neg hfunds]
      exact .inr ⟨trivial, _, _, _, rfl, rfl⟩
  · rw [h.others toAccNo hto]
    exact .inl rfl

theorem decision_veiled (h : Veiled a name pw s t) {op : Op M} (hopen : op.isOpen = false)
    (hop : op.credentials ≠ some (a, name, pw)) :
    decision s op = decision t op ∨
      ∃ fromName fromAccNo pw' curr amount f x y,
        op = .transfer fromName fromAccNo pw' a curr amount ∧ decision s op = .balances f x ∧
          decision t op = .balances f y := by
  cases op with
  | openAccount => cases hopen
  | closeAccount =>
    left
    rw [decision, decision, presented_veiled h fun heq => hop (congrArg some heq)]
  | checkBalance =>
    left
    rw [decision, decision, presented_veiled h fun heq => hop (congrArg some heq)]
  | deposit =>
    left
    rw [decision, decision, presented_veiled h fun heq => hop (congrArg some heq)]
  | withdraw =>
    left
    rw [decision, decision, presented_veiled h fun heq => hop (congrArg some heq)]
  | transfer fromName fromAccNo pw' toAccNo curr amount =>
    have hne : (fromAccNo, fromName, pw') ≠ (a, name, pw) := fun heq => hop (congrArg some heq)
    rcases transfer_veiled h hne toAccNo curr amount with hsame | ⟨rfl, f, x, y, hs, ht⟩
    · exact .inl hsame
    · exact .inr ⟨_, _, _, _, _, f, x, y, rfl, hs, ht⟩

omit [Money M] in
theorem veiled_settled (h : Veiled a name pw s t) {s' t' : MemoryStore M} {op : Op M}
    {res : Result M} (hnext : s'.nextID = t'.nextID)
    (hs : ∀ k, s'.accounts.get k = settled op res k (s.accounts.get k))
    (ht : ∀ k, t'.accounts.get k = settled op res k (t.accounts.get k)) :
    Indistinct a name pw s' t' := by
  obtain ⟨acc, balance, hsa, hta, hname, hpw⟩ := h.secret
  have hothers : ∀ k, k ≠ a → s'.accounts.get k = t'.accounts.get k := by
    intro k hk
    rw [hs, ht, h.others k hk]
  rcases settled_cases op res a with hkeep | hempty | ⟨x, hset⟩
  · exact .inr ⟨hnext, hothers, acc, balance, by rw [hs, hkeep, hsa], by rw [ht, hkeep, hta], hname,
      hpw⟩
  · left
    apply MemoryStore.ext _ hnext
    ext1 k
    by_cases hk : k = a
    · rw [hk, hs, ht, hempty, hempty]
    · exact hothers k hk
  · refine .inr ⟨hnext, hothers, withBalance x acc, x, ?_, ?_, hname, hpw⟩
    · rw [hs, hset, hsa]
      rfl
    · rw [ht, hset, hta]
      rfl

omit [Money M] in
theorem veiled_credited (h : Veiled a name pw s t) {s' t' : MemoryStore M}
    {fromName : Bytes} {fromAccNo : UInt32} {pw' : Vector UInt8 8} {curr : UInt8}
    {amount f x y : M} (hnext : s'.nextID = t'.nextID)
    (hs : ∀ k, s'.accounts.get k =
      settled (.transfer fromName fromAccNo pw' a curr amount) (.balances f x) k (s.accounts.get k))
    (ht : ∀ k, t'.accounts.get k =
      settled (.transfer fromName fromAccNo pw' a curr amount) (.balances f y) k
        (t.accounts.get k)) :
    Veiled a name pw s' t' := by
  obtain ⟨acc, balance, hsa, hta, hname, hpw⟩ := h.secret
  refine ⟨hnext, ?_, withBalance x acc, y, ?_, ?_, hname, hpw⟩
  · intro k hk
    rw [hs, ht, h.others k hk]
    simp only [settled, if_neg hk]
  · simp only [hs, settled, hsa, if_true, Option.map_some]
  · simp only [ht, settled, hta, if_true, Option.map_some]
    rfl

omit [Money M] in
theorem opened_veiled (h : Veiled a name pw s t) (acc : Account M) :
    Indistinct a name pw (createAccount s acc).1 (createAccount t acc).1 := by
  have hnext : (createAccount s acc).1.nextID = (createAccount t acc).1.nextID :=
    congrArg (· + 1) h.nextID
  have hothers : ∀ k, k ≠ a ∨ k = t.nextID →
      (createAccount s acc).1.accounts.get k = (createAccount t acc).1.accounts.get k := by
    intro k hk
    rw [createAccount_accounts, createAccount_accounts, h.nextID, FiniteMap.get_set,
      FiniteMap.get_set]
    split_ifs with hnew
    · rfl
    · exact h.others k (hk.resolve_right hnew)
  by_cases ha : a = t.nextID
  · -- The counter has come round: the account is overwritten in both stores.
    left
    apply MemoryStore.ext _ hnext
    ext1 k
    apply hothers
    by_cases hk : k = a
    · exact .inr (hk.trans ha)
    · exact .inl hk
  · right
    obtain ⟨secret, balance, hsa, hta, hname, hpw⟩ := h.secret
    refine ⟨hnext, fun k hk => hothers k (.inl hk), secret, balance, ?_, ?_, hname, hpw⟩
    · rw [createAccount_accounts, FiniteMap.get_set_of_ne _ _ (h.nextID ▸ ha), hsa]
    · rw [createAccount_accounts, FiniteMap.get_set_of_ne _ _ ha, hta]

/-- A call without the credentials of the secret account answers the same in both stores, and
leaves them apart in that balance at most. -/
theorem perform_indistinct (h : Indistinct a name pw s t) {op : Op M}
    (hop : op.credentials ≠ some (a, name, pw)) :
    SameAnswer (perform s op).2 (perform t op).2 ∧
      Indistinct a name pw (perform s op).1 (perform t op).1 := by
  rcases h with rfl | h
  · exact ⟨.inl rfl, .inl rfl⟩
  rcases hopen : op.isOpen with _ | _
  swap
  · cases op with
    | openAccount holderName password curr balance =>
      exact ⟨.inl (congrArg Result.opened h.nextID), opened_veiled h _⟩
    | _ => cases hopen
  have hnext : (perform s op).1.nextID = (perform t op).1.nextID := by
    rw [perform_nextID, perform_nextID, h.nextID]
  have hs := perform_settled s hopen
  have ht := perform_settled t hopen
  rw [perform_decision] at hs ht ⊢
  rw [perform_decision]
  rcases decision_veiled h hopen hop with
    hsame | ⟨fromName, fromAccNo, pw', curr, amount, f, x, y, rfl, hds, hdt⟩
  · rw [hsame] at hs
    exact ⟨.inl hsame, veiled_settled h hnext hs ht⟩
  · rw [hds] at hs
    rw [hdt] at ht
    exact ⟨.inr ⟨f, x, y, hds, hdt⟩, .inr (veiled_credited h hnext hs ht)⟩

end Veil
end DistributedBanking.Banking

namespace DistributedBanking.Server
open Runs Store Banking Marshalling Semantics Handler

section Lockstep
variable {M : Type} [Money M] [Float64 M] {a : UInt32} {name : Bytes} {pw : Vector UInt8 8}

omit [Money M] in
theorem reply_of_sameAnswer {res res' : Result M} (h : SameAnswer res res') :
    statusOf res = statusOf res' ∧ contentOf res = contentOf res' := by
  rcases h with rfl | ⟨f, x, y, rfl, rfl⟩
  · exact ⟨rfl, rfl⟩
  · exact ⟨rfl, rfl⟩

theorem answer_indistinct {s t : MemoryStore M} (h : Indistinct a name pw s t) {data : Bytes}
    (hdata : ∀ op txName, parseRequest (M := M) data = some (.bank op txName) →
      op.credentials ≠ some (a, name, pw)) :
    (answer s (parseRequest data)).2 = (answer t (parseRequest data)).2 ∧
      Indistinct a name pw (answer s (parseRequest data)).1 (answer t (parseRequest data)).1 := by
  rcases hreq : (parseRequest data : Option (Request M)) with _ | ⟨op, txName⟩ | timeoutSeconds
  · exact ⟨rfl, h⟩
  · obtain ⟨hsame, hstores⟩ := perform_indistinct h (hdata op txName hreq)
    obtain ⟨hstatus, hcontent⟩ := reply_of_sameAnswer hsame
    exact ⟨Prod.ext hstatus hcontent, hstores⟩
  · exact ⟨rfl, h⟩

theorem respond_indistinct {b c : Backend M} (h : Indistinct a name pw b.store c.store)
    (now : ℕ) {data : Bytes} (addr : UDPAddr)
    (hdata : ∀ op txName, parseRequest (M := M) data = some (.bank op txName) →
      op.credentials ≠ some (a, name, pw)) :
    (respond now b data addr).2 = (respond now c data addr).2 ∧
      Indistinct a name pw (respond now b data addr).1.store (respond now c data addr).1.store := by
  obtain ⟨hreply, hstores⟩ := answer_indistinct h hdata
  rw [respond_store, respond_store, respond_reply, respond_reply, hreply]
  exact ⟨rfl, hstores⟩

omit [Money M] [Float64 M] in
/-- Dispatch decides by the packet and the history whether it hands the packet on; what the
handler works on takes no part in it. -/
theorem dispatch_uniform {σ : Type} (handler : RequestHandler σ) {d : Dispatcher}
    (hrun : Running d) (data : Bytes) (addr : UDPAddr) (reply : Bytes) :
    ∃ d' res, ∃ executes : Bool, d'.mode = d.mode ∧
      ∀ s s', handler s data addr = .ok (s', reply) →
        d.dispatch handler s data addr = .ok (d', if executes then s' else s, res) := by
  by_cases hshort : data.length < headerSize
  · refine ⟨d, .error (.header .errPacketTooShort), false, rfl, ?_⟩
    intro s s' hs
    rw [Dispatcher.dispatch, parseHeader_short hshort]
    rfl
  have hheader := parseHeader_ok (not_lt.mp hshort)
  by_cases hflag : (headerOf data).flag = d.mode.toUint8
  swap
  · refine ⟨d, .error (.flagMismatch (headerOf data).flag d.mode), false, rfl, ?_⟩
    intro s s' hs
    simp only [Dispatcher.dispatch, hheader, ok_bind, ne_eq, hflag, not_false_eq_true, if_true]
    rfl
  by_cases hmode : d.mode = .atLeastOnce
  · refine ⟨d, .ok reply, true, rfl, ?_⟩
    intro s s' hs
    simp only [Dispatcher.dispatch, hheader, ok_bind, ne_eq, hflag, not_true_eq_false, if_false,
      hmode, if_true, hs]
    rfl
  obtain ⟨history, hhistory⟩ := Option.isSome_iff_exists.mp (d.wf (hrun.resolve_left hmode))
  rcases hlookup : history.lookup addr.string (headerOf data).requestID with _ | cached
  · refine ⟨d.setHistory (history.store addr.string (headerOf data).requestID reply), .ok reply,
      true, rfl, ?_⟩
    intro s s' hs
    simp only [Dispatcher.dispatch, hheader, ok_bind, ne_eq, hflag, not_true_eq_false, if_false,
      hmode, hhistory, deref_some, hlookup, hs]
    rfl
  · refine ⟨d, .ok cached, false, rfl, ?_⟩
    intro s s' hs
    simp only [Dispatcher.dispatch, hheader, ok_bind, ne_eq, hflag, not_true_eq_false, if_false,
      hmode, hhistory, deref_some, hlookup]
    rfl

/-- Two servers that nobody without the credentials can tell apart. -/
structure Lockstep (a : UInt32) (name : Bytes) (pw : Vector UInt8 8) (s t : Server M) : Prop where
  dispatcher : s.dispatcher = t.dispatcher
  running : Running s.dispatcher
  stores : Indistinct a name pw s.backend.store t.backend.store

def reply (s : Server M) : Event → Go (Server M × Option (Except DispatchError Bytes))
  | .datagram d now => do
    let (s, res) ← receive s d now
    return (s, some res)
  | .sweep now => return (sweep s now, none)

theorem receive_lockstep {s t : Server M} (h : Lockstep a name pw s t) {d : Datagram}
    (hdata : ∀ op txName, parseRequest (M := M) d.data = some (.bank op txName) →
      op.credentials ≠ some (a, name, pw)) (now : ℕ) :
    ∃ s' t' res, receive s d now = .ok (s', res) ∧ receive t d now = .ok (t', res) ∧
      Lockstep a name pw s' t' := by
  obtain ⟨hreply, hstores⟩ := respond_indistinct h.stores now d.addr hdata
  have hs := buildHandler_eq now d.addr s.backend d.bounded
  have ht := buildHandler_eq now d.addr t.backend d.bounded
  obtain ⟨d', res, executes, hmode, hdispatch⟩ := dispatch_uniform
    (buildHandler (M := M) 64 now) h.running d.data d.addr (respond now s.backend d.data d.addr).2
  have hs' : receive s d now =
      .ok (⟨d', if executes then (respond now s.backend d.data d.addr).1 else s.backend⟩, res) := by
    rw [receive, hdispatch s.backend _ hs]
    rfl
  have ht' : receive t d now =
      .ok (⟨d', if executes then (respond now t.backend d.data d.addr).1 else t.backend⟩, res) := by
    rw [receive, ← h.dispatcher, hdispatch t.backend _ (ht.trans (by rw [hreply]))]
    rfl
  refine ⟨_, _, res, hs', ht', rfl, ?_, ?_⟩
  · rw [Running, hmode]
    exact h.running
  · cases executes with
    | false => exact h.stores
    | true => exact hstores

omit [Money M] [Float64 M] in
theorem carries_credentials {cmd : ParsedCommand M} {op : Op M} (h : Carries cmd op)
    (hcreds : op.credentials = some (a, name, pw)) :
    cmd.accountNumber = some a ∧ cmd.accountOwnerName = some name ∧
      cmd.accountPassword.map passwordStringToFixed = some pw := by
  cases op with
  | openAccount => cases hcreds
  | closeAccount =>
    cases hcreds
    obtain ⟨-, hname, hno, hpw⟩ := h
    exact ⟨hno, hname, hpw⟩
  | checkBalance =>
    cases hcreds
    obtain ⟨-, hname, hno, hpw⟩ := h
    exact ⟨hno, hname, hpw⟩
  | deposit =>
    cases hcreds
    obtain ⟨-, hname, hno, hpw, -⟩ := h
    exact ⟨hno, hname, hpw⟩
  | withdraw =>
    cases hcreds
    obtain ⟨-, hname, hno, hpw, -⟩ := h
    exact ⟨hno, hname, hpw⟩
  | transfer =>
    cases hcreds
    obtain ⟨-, hname, hno, hpw, -⟩ := h
    exact ⟨hno, hname, hpw⟩

omit [Money M] in
theorem credentials_ne {s : MemoryStore M} {acc : Account M} {data : Bytes}
    (hacc : s.accounts.get a = some acc)
    (h : ∀ cmd : ParsedCommand M, decodeTLV 64 (data.drop headerSize) = .ok (.ok cmd) →
      ¬ Authenticates cmd acc) {op : Op M} {txName : Bytes}
    (hreq : parseRequest data = some (.bank op txName)) :
    op.credentials ≠ some (a, acc.holderName, acc.password) := by
  intro hcreds
  obtain ⟨cmd, hcmd, hcarries⟩ := parseRequest_carries hreq
  obtain ⟨hno, hname, hpw⟩ := carries_credentials hcarries hcreds
  have hid : acc.accountNumber = a := s.keyed a acc hacc
  exact h cmd hcmd ⟨by rw [hno, hid], hname, hpw⟩

def setBalance (s : Server M) (a : UInt32) (balance : M) : Server M :=
  { s with backend := { s.backend with store := Store.setBalance s.backend.store a balance } }

omit [Money M] [Float64 M] in
theorem setBalance_lockstep {s : Server M} (hrun : Running s.dispatcher) {acc : Account M}
    (hacc : s.backend.store.accounts.get a = some acc) (balance : M) :
    Lockstep a acc.holderName acc.password s (setBalance s a balance) := by
  refine ⟨rfl, hrun, .inr ⟨(setBalance_nextID _ _ _).symm, ?_, acc, balance, hacc, ?_, rfl, rfl⟩⟩
  · intro k hk
    simp only [setBalance, setBalance_accounts hacc, FiniteMap.get_set_of_ne _ _ hk]
  · simp only [setBalance, setBalance_accounts hacc, FiniteMap.get_set_self]
    rfl

/-- Two servers that differ in one balance send the same replies, if no packet authenticates as the
holder of that account. -/
theorem balance_not_in_replies {s : Server M} (hrun : Running s.dispatcher) {a : UInt32}
    {acc : Account M} (hacc : s.backend.store.accounts.get a = some acc) (balance : M)
    {es : List Event}
    (hes : ∀ d now, .datagram d now ∈ es → ∀ cmd : ParsedCommand M,
      decodeTLV 64 (d.data.drop headerSize) = .ok (.ok cmd) → ¬ Authenticates cmd acc) :
    ∃ s' t' replies, outputs reply s es = .ok (s', replies) ∧
      outputs reply (setBalance s a balance) es = .ok (t', replies) := by
  have hstep : ∀ s t : Server M, ∀ e ∈ es, Lockstep a acc.holderName acc.password s t →
      ∃ s' t' r, reply (M := M) s e = .ok (s', r) ∧ reply t e = .ok (t', r) ∧
        Lockstep a acc.holderName acc.password s' t' := by
    intro s₁ t₁ e he h
    cases e with
    | datagram d now =>
      have hdata : ∀ op txName, parseRequest (M := M) d.data = some (.bank op txName) →
          op.credentials ≠ some (a, acc.holderName, acc.password) :=
        fun _ _ hreq => credentials_ne hacc (hes d now he) hreq
      obtain ⟨s', t', res, hs, ht, hlock⟩ := receive_lockstep h hdata now
      refine ⟨s', t', some res, ?_, ?_, hlock⟩
      · rw [reply, hs]
        rfl
      · rw [reply, ht]
        rfl
    | sweep now =>
      exact ⟨sweep s₁ now, sweep t₁ now, none, rfl, rfl, h.dispatcher, h.running, h.stores⟩
  obtain ⟨s', t', replies, hs, ht, -⟩ :=
    outputs_lockstep hstep (setBalance_lockstep hrun hacc balance)
  exact ⟨s', t', replies, hs, ht⟩

end Lockstep

def transferToA : Datagram :=
  tellerPacket ⟨some 7, some 10001, some [66], some [80], some 10000, some [65],
    some 0x3FF0000000000000, some 1, none, none⟩ (by decide +kernel)

def peekA : Datagram :=
  tellerPacket ⟨some 6, some 10000, some [65], some [81], none, none, none, none, none, none⟩
    (by decide +kernel)

theorem decodeTLV_tellerPacket {M : Type} [Float64 M] {cmd : ClientProtocol.Command}
    {small : (ClientProtocol.packetOf ⟨1, 0, (0x7F000001, 4000)⟩ cmd).length < 2 ^ 16}
    (hsize : (tellerPacket cmd small).data.length ≤ 4096) :
    decodeTLV (M := M) 64 ((tellerPacket cmd small).data.drop headerSize) =
      .ok (.ok (ClientProtocol.parsed cmd)) :=
  ClientProtocol.decodeTLV_serialize (ClientProtocol.buildMessage_content _ _) hsize

theorem bankOfTwo_not_in_replies :
    ∃ s' t' replies,
      outputs reply ⟨Dispatcher.newDispatcher .atLeastOnce, ⟨bankOfTwo ℚ 5 1, Monitor.newManager⟩⟩
          [.datagram transferToA 0, .sweep 1, .datagram peekA 2] = .ok (s', replies) ∧
        outputs reply (setBalance
            ⟨Dispatcher.newDispatcher .atLeastOnce, ⟨bankOfTwo ℚ 5 1, Monitor.newManager⟩⟩ 10000 7)
          [.datagram transferToA 0, .sweep 1, .datagram peekA 2] = .ok (t', replies) := by
  apply balance_not_in_replies (.inl rfl) (bankOfTwo_first 5 1)
  intro d now hmem cmd hcmd hauth
  simp only [List.mem_cons, Event.datagram.injEq, reduceCtorEq, List.not_mem_nil, or_false,
    false_or] at hmem
  rcases hmem with ⟨rfl, -⟩ | ⟨rfl, -⟩
  · rw [transferToA, decodeTLV_tellerPacket (by decide +kernel)] at hcmd
    cases hcmd
    exact absurd hauth.accountNumber (by decide)
  · rw [peekA, decodeTLV_tellerPacket (by decide +kernel)] at hcmd
    cases hcmd
    exact absurd hauth.accountPassword (by decide)

end DistributedBanking.Server
