import DistributedBanking.Ledger
import DistributedBanking.RemoteBank

/-!
# Money across the network

On exact rationals the balances at the server are those of a ledger of distinct
calls, whatever was lost, delayed, duplicated or sent again on the way, and a
balance that a client is shown is the one that the ledger had after the call.
-/

namespace DistributedBanking.Network
open Runs Store Banking Handler Server
open ClientProtocol (decodeMessage)
open Threads (Serial ids)

section History
variable {ι : Type} {cfg : Config ι} {history : List (Call ι × Answer ℚ)} {s : MemoryStore ℚ}

def Call.atBank (cfg : Config ι) (call : Call ι) : Bool :=
  match (call.asks cfg : Option (Request ℚ)) with
  | some (.bank _ _) => true
  | _ => false

/-- The log of a history has its calls of the bank, with the stores that they found. -/
structure Kept (cfg : Config ι) (history : List (Call ι × Answer ℚ)) (s : MemoryStore ℚ)
    (log : List (Call ι × Entry)) : Prop where
  performed : runOps newMemoryStore (log.map fun x => x.2.op) = (s, log.map Prod.snd)
  asked : ∀ x ∈ log, ∃ txName, x.1.asks cfg = some (.bank x.2.op txName)
  results : (log.map fun x => (x.1, Answer.result x.2.res)) =
    history.filter fun h => h.1.atBank cfg
  others : ∀ h ∈ history, h.1.atBank cfg = false → ∀ res, h.2 ≠ .result res

theorem Kept.skip {log : List (Call ι × Entry)} (h : Kept cfg history s log) {call : Call ι}
    {a : Answer ℚ} (hcall : call.atBank cfg = false) (ha : ∀ res, a ≠ .result res) :
    Kept cfg (history ++ [(call, a)]) s log where
  performed := h.performed
  asked := h.asked
  results := by simp [h.results, hcall]
  others := List.forall_mem_append.mpr ⟨h.others, List.forall_mem_singleton.mpr fun _ => ha⟩

theorem Kept.perform {log : List (Call ι × Entry)} (h : Kept cfg history s log) {call : Call ι}
    {op : Op ℚ} {txName : Bytes} (hasks : call.asks cfg = some (.bank op txName)) :
    Kept cfg (history ++ [(call, .result (perform s op).2)]) (perform s op).1
      (log ++ [(call, ⟨s, op, (perform s op).2⟩)]) := by
  have hbank : call.atBank cfg = true := by rw [Call.atBank, hasks]
  refine ⟨?_, ?_, ?_, ?_⟩
  · simp [runOps_snoc, h.performed]
  · exact List.forall_mem_append.mpr ⟨h.asked, List.forall_mem_singleton.mpr ⟨txName, hasks⟩⟩
  · simp [h.results, hbank]
  · refine List.forall_mem_append.mpr ⟨h.others, List.forall_mem_singleton.mpr fun hother => ?_⟩
    rw [hbank] at hother
    cases hother

theorem kept_of_serial
    (h : Serial (fun call (s s' : MemoryStore ℚ) a => enact s (call.asks cfg) = (s', a))
      newMemoryStore history s) : ∃ log, Kept cfg history s log := by
  induction h with
  | nil => exact ⟨[], rfl, by simp, rfl, by simp⟩
  | @snoc history s s' call a _ hspec ih =>
    obtain ⟨log, hlog⟩ := ih
    rcases hasks : (call.asks cfg : Option (Request ℚ)) with _ | ⟨op, txName⟩ | timeoutSeconds
    · rw [hasks] at hspec
      cases hspec
      exact ⟨log, hlog.skip (by rw [Call.atBank, hasks]) fun res hres => by cases hres⟩
    · rw [hasks] at hspec
      cases hspec
      exact ⟨_, hlog.perform hasks⟩
    · rw [hasks] at hspec
      cases hspec
      exact ⟨log, hlog.skip (by rw [Call.atBank, hasks]) fun res hres => by cases hres⟩

theorem Kept.executed {net : Net ι ℚ} {log : List (Call ι × Entry)}
    (h : Kept cfg history net.backend.store log) (henacted : Enacted cfg net history) :
    List.Forall₂ (fun x e => e.1.1 = x.1 ∧ e.2 = x.1.replyWith cfg (.result x.2.res)) log
      (net.executions.filter fun e => e.1.1.atBank cfg) := by
  have hfilter : List.Forall₂ (fun h e => e.1.1 = h.1 ∧ e.2 = h.1.replyWith cfg h.2)
      (history.filter fun h => h.1.atBank cfg)
      (net.executions.filter fun e => e.1.1.atBank cfg) := by
    refine List.rel_filter (fun h e hentry => ?_) henacted.replies
    change h.1.atBank cfg = true ↔ e.1.1.atBank cfg = true
    rw [hentry.1]
  rw [← h.results, List.forall₂_map_left_iff] at hfilter
  exact hfilter

theorem Kept.cases {log : List (Call ι × Entry)} (h : Kept cfg history s log) {call : Call ι}
    {a : Answer ℚ} (hmem : (call, a) ∈ history) :
    (call.atBank cfg = true ∧ ∃ e, (call, e) ∈ log ∧ a = .result e.res) ∨
      (call.atBank cfg = false ∧ ∀ res, a ≠ .result res) := by
  cases hcall : call.atBank cfg with
  | true =>
    have hfiltered : (call, a) ∈ history.filter fun h => h.1.atBank cfg :=
      List.mem_filter.mpr ⟨hmem, hcall⟩
    rw [← h.results, List.mem_map] at hfiltered
    obtain ⟨x, hx, hsame⟩ := hfiltered
    cases hsame
    exact .inl ⟨rfl, x.2, hx, rfl⟩
  | false => exact .inr ⟨rfl, h.others _ hmem hcall⟩

end History

section Runs
variable {ι : Type} [DecidableEq ι] {cfg : Config ι} {acts : List (Action ι)}

def Action.isStart : Action ι → Bool
  | .start _ _ => true
  | _ => false

section Issued
variable {M : Type} [Money M] [Float64 M] {net net' : Net ι M} {a : Action ι}

theorem step_issued (hstep : Step cfg net a net') :
    (∀ i, (net'.clients i).issued ≤ (net.clients i).issued + a.isStart.toNat) ∧
      net'.calls.length ≤ net.calls.length + a.isStart.toNat := by
  have hkept : ∀ i, (net.clients i).issued ≤ (net.clients i).issued + a.isStart.toNat :=
    fun _ => Nat.le_add_right _ _
  have hset : ∀ {i : ι} {c : Client ι}, c.issued ≤ (net.clients i).issued + a.isStart.toNat →
      ∀ j, ((net.setClient i c).clients j).issued ≤ (net.clients j).issued + a.isStart.toNat :=
    fun {i c} hc => Net.setClient_forall (P := fun j c =>
      c.issued ≤ (net.clients j).issued + a.isStart.toNat) hkept hc
  cases hstep with
  | started hprepared call hcall => exact ⟨hset le_rfl, by simp [Action.isStart]⟩
  | moved hmoves => exact ⟨hset (hmoves.issued ▸ hkept _), Nat.le_add_right _ _⟩
  | restarted i => exact ⟨hset (Nat.zero_le _), Nat.le_add_right _ _⟩
  | sent hphase => exact ⟨hset (hkept _), Nat.le_add_right _ _⟩
  | returned hphase hinbox hreply hdecode => exact ⟨hset (hkept _), Nat.le_add_right _ _⟩
  | delivered i hreply => exact ⟨hset (hkept _), Nat.le_add_right _ _⟩
  | calledBack hsent => exact ⟨hset (hkept _), Nat.le_add_right _ _⟩
  | _ => exact ⟨hkept, Nat.le_add_right _ _⟩

theorem issued_le_starts (hacts : ∀ a ∈ acts, a.Admissible cfg)
    (hrun : run cfg (initial cfg) acts = .ok net) :
    (∀ i, (net.clients i).issued ≤ acts.countP Action.isStart) ∧
      net.calls.length ≤ acts.countP Action.isStart := by
  refine (run_induction
    (P := fun acts net => (∀ a ∈ acts, a.Admissible cfg) → Inv cfg net ∧
      (∀ i, (net.clients i).issued ≤ acts.countP Action.isStart) ∧
        net.calls.length ≤ acts.countP Action.isStart) ?_ ?_ hrun hacts).2
  · exact fun _ => ⟨initial_inv cfg, fun _ => le_rfl, le_rfl⟩
  · intro acts net a net' _ ih hnet' hadmissible
    obtain ⟨hinv, hissued, hcalls⟩ := ih fun b hb => hadmissible b (List.mem_append_left _ hb)
    obtain ⟨net'', hnet'', hstep, hinv'⟩ := hinv.total a
    rw [hnet'] at hnet''
    cases hnet''
    have hcount : (acts ++ [a]).countP Action.isStart =
        acts.countP Action.isStart + a.isStart.toNat := by
      rw [List.countP_append, List.countP_singleton]
      cases a.isStart <;> rfl
    obtain ⟨hnext, hlength⟩ := step_issued hstep
    rw [hcount]
    exact ⟨hinv', fun i => (hnext i).trans (Nat.add_le_add_right (hissued i) _),
      hlength.trans (Nat.add_le_add_right hcalls _)⟩

end Issued

/-- The ledger of the executed calls of the bank, and what clients were told of it. -/
structure Accounted (cfg : Config ι) (net : Net ι ℚ) (log : List (Call ι × Entry)) : Prop where
  -- The server has executed these calls of the bank in this order, and replied their results.
  executed : List.Forall₂ (fun x e => e.1.1 = x.1 ∧ e.2 = x.1.replyWith cfg (.result x.2.res)) log
    (net.executions.filter fun e => e.1.1.atBank cfg)
  once : (log.map Prod.fst).Nodup
  issued : ∀ x ∈ log, x.1 ∈ net.calls ∧ ∃ txName, x.1.asks cfg = some (.bank x.2.op txName)
  -- Every call has found the store that those before it had left.
  performed : runOps newMemoryStore (log.map fun x => x.2.op) =
    (net.backend.store, log.map Prod.snd)
  balances : ∀ id acc, net.backend.store.accounts.get id = some acc → ∀ bal,
    LedgerBalance (log.map Prod.snd) id bal ↔ bal = acc.balance
  total : storeTotal net.backend.store = (log.map fun x => x.2.opened).sum +
    (log.map fun x => x.2.deposited).sum - (log.map fun x => x.2.withdrawn).sum -
    (log.map fun x => x.2.removed).sum
  told : ∀ r ∈ net.returned, ∃ call, r.answers = some call ∧ call.client = r.call.client ∧
    call.number ≤ r.call.number ∧
    if call.atBank cfg then ∃ past e later, log = past ++ (call, e) :: later ∧
      (Answer.result e.res).Told (cfg.host r.call.client) r.message.payload.content ∧
      Truthful (past.map Prod.snd ++ [e]) e
    else r.message.payload.content = []

omit [DecidableEq ι] in
theorem Reached.accounted {net : Net ι ℚ} {log : List (Call ι × Entry)}
    {history : List (Call ι × Answer ℚ)} (hinj : Function.Injective cfg.addr)
    (hsmall : ∀ i, (net.clients i).issued < 2 ^ 32)
    (hroom : 10000 + opens (log.map fun x => x.2.op) < 2 ^ 32) (h : Reached cfg net)
    (henacted : Enacted cfg net history) (hlog : Kept cfg history net.backend.store log) :
    Accounted cfg net log := by
  have hcalls : (log.map Prod.fst).Sublist (ids history) := by
    have hsub := (List.filter_sublist (l := history) (p := fun h => h.1.atBank cfg)).map Prod.fst
    rw [← hlog.results, List.map_map] at hsub
    exact hsub
  have hstart : (newMemoryStore : MemoryStore ℚ).nextID.toNat = 10000 := rfl
  have hledger := runOps_ledger Ledger.initial (log.map fun x => x.2.op) (by omega)
  rw [hlog.performed, List.nil_append] at hledger
  refine ⟨hlog.executed henacted, hcalls.nodup (h.once henacted),
    fun x hx => ⟨?_, hlog.asked x hx⟩, hlog.performed, fun id acc hget bal => ?_, ?_,
    fun r hr => ?_⟩
  · exact h.issued henacted _ (hcalls.subset (List.mem_map_of_mem hx))
  · have hbalance := hledger.balances id acc hget
    exact ⟨fun hbal => hbal.unique hbalance, fun hbal => hbal ▸ hbalance⟩
  · simpa [Function.comp_def] using hledger.total
  · obtain ⟨call, a, hanswers, hclient, hnumber, hmem, htold⟩ := h.told hinj hsmall henacted hr
    refine ⟨call, hanswers, hclient, hnumber, ?_⟩
    rcases hlog.cases hmem with ⟨hbank, e, he, rfl⟩ | ⟨hbank, hother⟩
    · rw [if_pos hbank]
      obtain ⟨past, later, hsplit⟩ := List.append_of_mem he
      refine ⟨past, e, later, hsplit, htold, hledger.replies _ e (later.map Prod.snd) ?_⟩
      rw [hsplit, List.map_append, List.map_cons]
    · rw [if_neg (by simp [hbank])]
      rcases a with res | _ | _
      · exact absurd rfl (hother res)
      · exact htold
      · exact htold.elim

/-- Money does not get lost or doubled on the network: every balance is the opening balance with
what distinct executed calls have paid in and out since, and clients are told the balances that the
ledger had right after their calls. -/
theorem network_accounts (hinj : Function.Injective cfg.addr)
    (hacts : ∀ a ∈ acts, a.Admissible cfg)
    (hroom : 10000 + acts.countP Action.isStart < 2 ^ 32) :
    ∃ net : Net ι ℚ, run cfg (initial cfg) acts = .ok net ∧ ∃ log, Accounted cfg net log := by
  obtain ⟨net, hrun, hreached, -⟩ := (initial_reached : Reached cfg (initial cfg : Net ι ℚ)).run
    hacts
  obtain ⟨history, henacted⟩ := hreached.enacted
  obtain ⟨log, hlog⟩ := kept_of_serial henacted.serial
  obtain ⟨hissued, hcalls⟩ := issued_le_starts hacts hrun
  have hhistory : history.length ≤ net.calls.length := by
    have hsubset := (hreached.once henacted).subperm (hreached.issued henacted)
    simpa [ids] using hsubset.length_le
  have hlength : log.length ≤ history.length := by
    have hfiltered := congrArg List.length hlog.results
    rw [List.length_map] at hfiltered
    exact hfiltered ▸ List.length_filter_le ..
  have hopens : opens (log.map fun x => x.2.op) ≤ log.length := by
    simpa [opens] using List.countP_le_length (l := log.map fun x => x.2.op) (p := Op.isOpen)
  refine ⟨net, hrun, log, hreached.accounted hinj (fun i => ?_) (by omega) henacted hlog⟩
  have hi := hissued i
  omega

end Runs

def openHalves : ClientProtocol.Command :=
  { openCommand 65 with monetaryValue := some 0x3FF8000000000000 }

def depositHalves : ClientProtocol.Command :=
  { openHalves with service := some serviceDeposit, accountNumber := some 10000 }

/-- A client opens an account and pays in; the request of the deposit arrives twice, and its reply
gets back. -/
def openAndDeposit : List (Action Bool) :=
  [.start true openHalves, .send true, .toServer 0 0, .toClient 0 true, .receive true,
    .start true depositHalves, .send true, .toServer 1 1, .toServer 1 2, .toClient 2 true,
    .receive true]

theorem fits_openHalves : Fits .little openHalves := by
  rw [Fits]
  decide +kernel

theorem openAndDeposit_admissible : ∀ a ∈ openAndDeposit, a.Admissible twoClients := by
  have hdeposit : Fits .little depositHalves := by
    rw [Fits]
    decide +kernel
  simp [openAndDeposit, Action.Admissible, twoClients, fits_openHalves, hdeposit]

-- 0x4008000000000000 is the pattern of 3.
theorem openAndDeposit_accounted :
    ∃ net : Net Bool ℚ, run twoClients (initial twoClients) openAndDeposit = .ok net ∧
      storeTotal net.backend.store = 3 ∧
      (net.returned.map fun r => decodeMessage .little 64 r.message.payload.content) =
        [.ok (.ok { accountNumber := some 10000 }),
          .ok (.ok { monetaryValue := some 0x4008000000000000 })] ∧
      ∃ log, Accounted twoClients net log := by
  obtain ⟨net, hrun, log, hlog⟩ := network_accounts twoClients_distinct openAndDeposit_admissible
    (by decide)
  have htold := eq_of_check (f := fun net => (storeTotal net.backend.store,
      net.returned.map fun r => decodeMessage .little 64 r.message.payload.content))
    (b := (3, [.ok (.ok { accountNumber := some 10000 }),
      .ok (.ok { monetaryValue := some 0x4008000000000000 })])) hrun (by decide +kernel)
  obtain ⟨htotal, hreturned⟩ := Prod.mk.inj htold
  exact ⟨net, hrun, htotal, hreturned, log, hlog⟩

end DistributedBanking.Network
