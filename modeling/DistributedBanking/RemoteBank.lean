import DistributedBanking.CommandRoundTrip
import DistributedBanking.Decisions
import DistributedBanking.EndToEnd
import DistributedBanking.Linearization
import DistributedBanking.ReplyDirection
import DistributedBanking.StaleReplies

/-!
# The network as one bank

From the outside the clients, the server and the network between them are a bank
that performs some of the issued commands, each at most once and one after the
other. A call has its effect after its start and before a message answers it,
and the message tells what the bank has answered. The call that it answers may be
an earlier one of the client than the one that returns it.
-/

namespace DistributedBanking.Network
open Runs Store Banking Marshalling Monitor Semantics Handler Server
open ClientProtocol hiding statusSuccess
open Threads (Serial ids)

/-- What a call comes to at the bank. -/
inductive Answer (M : Type)
  | result (res : Result M)
  | registered
  | refused

section Bank
variable {M : Type} [Money M] [Float64 M]

def enact (s : MemoryStore M) : Option (Request M) → MemoryStore M × Answer M
  | some (.bank op _) =>
    let (s, res) := perform s op
    (s, .result res)
  | some (.monitor _) => (s, .registered)
  | none => (s, .refused)

namespace Answer

omit [Money M] in
def status : Answer M → UInt8
  | result res => statusOf res
  | registered => statusSuccess
  | refused => statusErrInternal

omit [Money M] in
def content : Answer M → Bytes
  | result res => contentOf res
  | registered => []
  | refused => []

omit [Money M] in
/-- What a message tells a client on host `e`; a refusal is no message. -/
def Told (e : Endian) : Answer M → Bytes → Prop
  | result (.opened accNo), content =>
    decodeMessage e 64 content = .ok (.ok { accountNumber := some accNo })
  | result (.balance b), content => e = .little →
    decodeMessage e 64 content = .ok (.ok { monetaryValue := some (Float64.bits b) })
  | result (.balances b _), content => e = .little →
    decodeMessage e 64 content = .ok (.ok { monetaryValue := some (Float64.bits b) })
  | result .closed, content => content = []
  | registered, content => content = []
  | result (.failed _), _ => False
  | refused, _ => False

end Answer

theorem answer_enact (s : MemoryStore M) (req : Option (Request M)) :
    answer s req = ((enact s req).1, (enact s req).2.status, (enact s req).2.content) := by
  rcases req with _ | ⟨op, txName⟩ | timeoutSeconds
  · rfl
  · rfl
  · rfl

omit [Money M] in
theorem Answer.told {a : Answer M} (e : Endian) (h : a.status = statusSuccess) :
    a.Told e a.content := by
  rcases a with res | _ | _
  · cases res with
    | opened accNo => exact decodeMessage_accountNumber (by decide) accNo
    | closed => rfl
    | balance b =>
      rintro rfl
      exact decodeMessage_monetaryValue (by decide) b
    | balances f t =>
      rintro rfl
      exact decodeMessage_monetaryValue (by decide) f
    | failed err => exact absurd h (mapBankingError_ne_success err)
  · rfl
  · simp [Answer.status, statusErrInternal, statusSuccess] at h

omit [Money M] in
theorem Answer.length_content (a : Answer M) : a.content.length < 2 ^ 16 := by
  rcases a with res | _ | _
  · exact length_contentOf res
  · exact Nat.two_pow_pos 16
  · exact Nat.two_pow_pos 16

end Bank

section Calls
variable {ι : Type} (cfg : Config ι)

def Fits (e : Endian) (cmd : Command) : Prop :=
  headerSize + (encodeTLVFields (fieldsOf (onHost e cmd))).length ≤ maxPacketSize

def Call.asks {M : Type} [Float64 M] (call : Call ι) : Option (Request M) :=
  requestOf (parsed (onHost (cfg.host call.client) call.command))

def Call.replyWith {M : Type} [Float64 M] (call : Call ι) (a : Answer M) : Bytes :=
  buildReply call.message.id.requestId (cfg.addr call.client) a.status a.content

variable {cfg} {call : Call ι}

theorem Call.WellFormed.content (h : call.WellFormed cfg) :
    call.message.payload.content =
      encodeTLVFields (fieldsOf (onHost (cfg.host call.client) call.command)) := by
  obtain ⟨bank, hprepared⟩ := h.prepared
  have hset : call.command ≠ {} := by
    intro hempty
    rw [hempty] at hprepared
    cases hhost : cfg.host call.client <;> rw [hhost] at hprepared <;> cases hprepared
  rw [prepareMessage, encodeMessage_onHost _ _ (fieldsOf_onHost_ne_nil _ hset)] at hprepared
  obtain ⟨-, hmessage⟩ := Prod.mk.inj (Except.ok.inj (Except.ok.inj hprepared))
  rw [← hmessage]

theorem Call.WellFormed.arrived (h : call.WellFormed cfg)
    (hfits : Fits (cfg.host call.client) call.command) :
    (call.arrived cfg).data = call.request cfg ∧ (call.request cfg).length ≤ maxPacketSize := by
  have hlen : (call.request cfg).length ≤ maxPacketSize := by
    rw [Call.request, serialize_header, List.length_append, length_headerBytes, h.content]
    exact hfits
  exact ⟨List.take_of_length_le hlen, hlen⟩

theorem Call.WellFormed.parseRequest {M : Type} [Float64 M] (h : call.WellFormed cfg)
    (hfits : Fits (cfg.host call.client) call.command) :
    Handler.parseRequest (M := M) (call.arrived cfg).data = call.asks cfg := by
  obtain ⟨harrived, hlen⟩ := h.arrived hfits
  rw [harrived]
  exact parseRequest_serialize h.content hlen

theorem Call.WellFormed.requestIDOf (h : call.WellFormed cfg) :
    Handler.requestIDOf (call.arrived cfg).data = call.message.id.requestId := by
  rw [requestIDOf_of_le h.accepts.1, Call.headerOf_arrived]

variable {M : Type} [Money M] [Float64 M]

theorem Call.WellFormed.respond (h : call.WellFormed cfg)
    (hfits : Fits (cfg.host call.client) call.command) (now : ℕ) (b : Backend M) :
    (respond now b (call.arrived cfg).data (call.arrived cfg).addr).1.store =
        (enact b.store (call.asks cfg)).1 ∧
      (respond now b (call.arrived cfg).data (call.arrived cfg).addr).2 =
        call.replyWith cfg (enact b.store (call.asks cfg)).2 := by
  rw [respond_store, respond_reply, h.parseRequest hfits, h.requestIDOf, answer_enact]
  exact ⟨rfl, rfl⟩

omit [Money M] in
theorem told_of_decodeReply {e : Endian} {a : Answer M} {message : Message}
    (h : decodeReply e 64 (call.replyWith cfg a) = .ok (.ok message)) :
    a.Told e message.payload.content := by
  rw [decodeReply, Call.replyWith, deserialize_buildReply e (by decide) a.length_content,
    ok_bind] at h
  dsimp only [decodeStatusCode] at h
  split_ifs at h with hstatus
  · cases h
  · cases h
    exact Answer.told e (UInt8.toUInt16_inj.mp (not_not.mp hstatus))

end Calls

section Clients
variable {ι M : Type} [DecidableEq ι] [Money M] [Float64 M] {cfg : Config ι} {net net' : Net ι M}
  {a : Action ι}

/-- The client works on its newest call, and what it has received was sent to its address. -/
structure Addressed (cfg : Config ι) (i : ι) (c : Client ι) : Prop where
  phase : ∀ call, c.phase.call = some call →
    call.client = i ∧ call.session = c.session ∧ call.number = c.issued
  inbox : ∀ e ∈ c.inbox, ∀ call, e.1 = some call → cfg.addr i = cfg.addr call.client

omit [DecidableEq ι] in
theorem Addressed.moves {i : ι} {c c' : Client ι} (h : Addressed cfg i c) (hmoves : c.Moves c') :
    Addressed cfg i c' where
  phase call hcall := by
    rw [hmoves.session, hmoves.issued]
    exact h.phase call (hmoves.phase call hcall)
  inbox e he := h.inbox e (hmoves.inbox e he)

omit [DecidableEq ι] in
theorem Addressed.push {i : ι} {c : Client ι} (h : Addressed cfg i c)
    {e : Option (Call ι) × Bytes}
    (he : ∀ call, e.1 = some call → cfg.addr i = cfg.addr call.client) :
    Addressed cfg i { c with inbox := c.inbox ++ [e] } where
  phase := h.phase
  inbox := List.forall_mem_append.mpr ⟨h.inbox, List.forall_mem_singleton.mpr he⟩

omit [DecidableEq ι] [Money M] [Float64 M] in
theorem initial_addressed (i : ι) : Addressed cfg i ((initial cfg : Net ι M).clients i) where
  phase call h := by cases h
  inbox e h := by cases h

omit [DecidableEq ι] in
theorem toServer_clients (h : Inv cfg net) {n now : ℕ} (hnet' : toServer cfg net n now = .ok net') :
    net'.clients = net.clients := by
  rcases hn : net.up[n]? with _ | call
  · rw [toServer, hn] at hnet'
    cases hnet'
    rfl
  · have hcall := h.wellFormed call (h.up call (List.mem_of_getElem? hn))
    obtain ⟨dispatcher, backend, executions, reply, hserver, -⟩ :=
      toServer_served cfg h.mode hn hcall now
    rw [hserver] at hnet'
    cases hnet'
    rfl

theorem step_addressed (hinv : Inv cfg net) (h : ∀ i, Addressed cfg i (net.clients i))
    (hnet' : step cfg net a = .ok net') : ∀ i, Addressed cfg i (net'.clients i) := by
  cases a with
  | start i cmd =>
    cases hnet'
    rw [start]
    dsimp only
    split
    · refine Net.setClient_forall (P := Addressed cfg) h ⟨fun call hcall => ?_, (h i).inbox⟩
      cases hcall
      exact ⟨rfl, rfl, rfl⟩
    · exact h
  | send i =>
    cases hnet'
    rw [send]
    dsimp only
    split
    · rename_i call attempt hphase
      split_ifs
      · refine Net.setClient_forall (P := Addressed cfg) h ⟨fun call' hcall => ?_, (h i).inbox⟩
        exact (h i).phase call' (by rw [hphase]; exact hcall)
      · exact Net.setClient_forall h ((h i).moves (.retry (by rw [hphase]; rfl) attempt))
    · exact h
  | sendFails i =>
    cases hnet'
    rw [sendFails]
    split
    · rename_i call attempt hphase
      exact Net.setClient_forall h ((h i).moves (.retry (by rw [hphase]; rfl) attempt))
    · exact h
  | receive i =>
    cases hnet'
    rw [receive]
    dsimp only
    split
    · rename_i call attempt answers raw inbox hphase hinbox
      have htail : ∀ e ∈ inbox, e ∈ (net.clients i).inbox := by
        intro e he
        rw [hinbox]
        exact List.mem_cons_of_mem _ he
      split_ifs
      · exact Net.setClient_forall h ((h i).moves
          ⟨rfl, rfl, rfl, fun call hcall => hcall, htail⟩)
      · split
        · refine Net.setClient_forall (P := Addressed cfg) h ⟨fun call' hcall' => ?_,
            fun e he => (h i).inbox e (htail e he)⟩
          rw [afterReply_call] at hcall'
          cases hcall'
        · exact Net.setClient_forall h ((h i).moves
            ⟨rfl, rfl, rfl, fun call hcall => (by cases hcall), htail⟩)
    · exact h
  | receiveFails i =>
    cases hnet'
    rw [receiveFails]
    split
    · rename_i call attempt hphase
      exact Net.setClient_forall h ((h i).moves (.retry (by rw [hphase]; rfl) attempt))
    · exact h
  | listen i =>
    cases hnet'
    rw [listen]
    split
    · exact Net.setClient_forall h ((h i).moves
        ⟨rfl, rfl, rfl, fun call hcall => hcall, fun e he => List.mem_of_mem_tail he⟩)
    · exact h
  | stopListening i =>
    cases hnet'
    rw [stopListening]
    split
    · exact Net.setClient_forall h ((h i).moves
        ⟨rfl, rfl, rfl, fun call hcall => (by cases hcall), fun e he => he⟩)
    · exact h
  | restart i =>
    cases hnet'
    refine Net.setClient_forall h ⟨fun call hcall => ?_, fun e he => ?_⟩
    · cases hcall
    · cases he
  | toServer n now =>
    rw [toServer_clients hinv hnet']
    exact h
  | toClient n i =>
    cases hnet'
    rw [toClient]
    split
    · split_ifs with haddr
      · refine Net.setClient_forall h ((h i).push fun call hcall => ?_)
        cases hcall
        exact haddr
      · exact h
    · exact h
  | callback i payload =>
    cases hnet'
    rw [callback]
    split_ifs
    · refine Net.setClient_forall h ((h i).push fun call hcall => ?_)
      cases hcall
    · exact h
  | sweep now =>
    cases hnet'
    exact h

/-- A returned message was read from a reply that the server sent to the client, in answer to the
call or to an earlier one. -/
def Answered (cfg : Config ι) (net : Net ι M) : Prop :=
  ∀ r ∈ net.returned, r.call ∈ net.calls ∧ ∃ call, r.answers = some call ∧
    ⟨call, r.raw⟩ ∈ net.down ∧ cfg.addr r.call.client = cfg.addr call.client ∧
    (call.client = r.call.client → call.session = r.call.session → call.number ≤ r.call.number) ∧
    decodeReply (cfg.host r.call.client) 64 r.raw = .ok (.ok r.message)

theorem step_answered (hinv : Inv cfg net) (haddressed : ∀ i, Addressed cfg i (net.clients i))
    (h : Answered cfg net) (hstep : Step cfg net a net') : Answered cfg net' := by
  cases hstep with
  | @returned i call attempt answers raw inbox message hphase hinbox hreply hdecode =>
    intro r hr
    rcases List.mem_append.mp hr with hr | hr
    · exact h r hr
    rw [List.mem_singleton.mp hr]
    have hhead : (answers, raw) ∈ (net.clients i).inbox := by
      rw [hinbox]
      exact List.mem_cons_self
    obtain ⟨other, rfl⟩ : ∃ other, answers = some other := by
      rcases answers with _ | other
      · have hcallback := (hinv.clients i).callbacks _ hhead rfl
        rw [hreply] at hcallback
        cases hcallback
      · exact ⟨other, rfl⟩
    have hcurrent : (net.clients i).phase.call = some call := by
      rw [hphase]
      rfl
    obtain ⟨hclient, hsession, hnumber⟩ := (haddressed i).phase call hcurrent
    have hsent := (hinv.clients i).answers _ hhead other rfl
    refine ⟨(hinv.clients i).phase call hcurrent, other, rfl, hsent, ?_,
      fun hsame hsessions => ?_, ?_⟩
    · rw [hclient]
      exact (haddressed i).inbox _ hhead other rfl
    · have hplaced := hinv.placed other (hinv.down _ hsent).1
      rw [Placed, hsame, hclient, hsessions, hsession] at hplaced
      rw [hnumber]
      omega
    · rw [hclient]
      exact hdecode
  | started hprepared call hcall =>
    intro r hr
    obtain ⟨hmem, hrest⟩ := h r hr
    exact ⟨List.mem_append_left _ hmem, hrest⟩
  | served hn hmode hlog hreply =>
    intro r hr
    obtain ⟨hmem, other, hanswers, hdown, hrest⟩ := h r hr
    exact ⟨hmem, other, hanswers, List.mem_append_left _ hdown, hrest⟩
  | _ => exact h

end Clients

section History
variable {ι M : Type} [Money M] [Float64 M] {cfg : Config ι} {net net' : Net ι M} {a : Action ι}
  {history : List (Call ι × Answer M)}

/-- The history of a network: the executed calls and what they came to. -/
structure Enacted (cfg : Config ι) (net : Net ι M) (history : List (Call ι × Answer M)) :
    Prop where
  serial : Serial (fun call s s' a => enact s (call.asks cfg) = (s', a)) newMemoryStore history
    net.backend.store
  replies : List.Forall₂ (fun h e => e.1.1 = h.1 ∧ e.2 = h.1.replyWith cfg h.2) history
    net.executions

theorem Enacted.ids (h : Enacted cfg net history) :
    ids history = net.executions.map fun e => e.1.1 := by
  have hreplies := h.replies
  clear h
  generalize net.executions = executions at hreplies
  induction hreplies with
  | nil => rfl
  | cons hentry _ ih => exact List.cons_eq_cons.mpr ⟨hentry.1.symm, ih⟩

theorem Enacted.answer (h : Enacted cfg net history) {e : (Call ι × ℕ) × Bytes}
    (he : e ∈ net.executions) :
    ∃ a, (e.1.1, a) ∈ history ∧ e.2 = e.1.1.replyWith cfg a := by
  have hreplies := h.replies
  clear h
  generalize net.executions = executions at hreplies he
  induction hreplies with
  | nil => cases he
  | @cons entry _ _ _ hentry _ ih =>
    rcases List.mem_cons.mp he with rfl | he
    · rw [hentry.1]
      exact ⟨entry.2, List.mem_cons_self, hentry.2⟩
    · obtain ⟨a, hmem, hreply⟩ := ih he
      exact ⟨a, List.mem_cons_of_mem _ hmem, hreply⟩

/-- A request that reaches the server is executed at the end, or leaves the bank alone. -/
theorem served_cases {call : Call ι} {now : ℕ} {dispatcher : Dispatcher} {backend : Backend M}
    {executions : List ((Call ι × ℕ) × Bytes)}
    (hlog : ⟨(backend, executions), cacheOf dispatcher.history⟩ =
      ((netMachine cfg).logged.step net.log (call, now)).1) :
    (backend = net.backend ∧ executions = net.executions) ∨
      (backend = (respond now net.backend (call.arrived cfg).data (call.arrived cfg).addr).1 ∧
        executions = net.executions ++ [((call, now),
          (respond now net.backend (call.arrived cfg).data (call.arrived cfg).addr).2)]) := by
  rcases (netMachine cfg).logged.step_cases net.log (call, now) with hsame | ⟨k, -, -, hexec⟩
  · rw [hsame] at hlog
    exact .inl (Prod.mk.inj (congrArg Dedup.State.inner hlog))
  · rw [hexec] at hlog
    exact .inr (Prod.mk.inj (congrArg Dedup.State.inner hlog))

def CallsFit (cfg : Config ι) (net : Net ι M) : Prop :=
  ∀ call ∈ net.calls, Fits (cfg.host call.client) call.command

theorem Enacted.step [DecidableEq ι] (hinv : Inv cfg net) (hfits : CallsFit cfg net)
    (h : Enacted cfg net history) (hstep : Step cfg net a net') :
    ∃ history', Enacted cfg net' history' := by
  cases hstep with
  | @served n now call dispatcher backend executions reply hn hmode hlog hreply =>
    have hcall := hinv.up call (List.mem_of_getElem? hn)
    obtain ⟨hstore, hdata⟩ := (hinv.wellFormed call hcall).respond (hfits call hcall) now
      net.backend
    rcases served_cases hlog with ⟨rfl, rfl⟩ | ⟨rfl, rfl⟩
    · exact ⟨history, h.serial, h.replies⟩
    · refine ⟨history ++ [(call, (enact net.backend.store (call.asks cfg)).2)], ?_, ?_⟩
      · rw [hstore]
        exact .snoc h.serial rfl
      · exact List.rel_append h.replies (.cons ⟨rfl, hdata⟩ .nil)
  | _ => exact ⟨history, h.serial, h.replies⟩

structure Evolves (net net' : Net ι M) : Prop where
  executions : net.executions <+: net'.executions
  calls : net.calls ⊆ net'.calls

omit [Money M] [Float64 M] in
theorem Evolves.refl (net : Net ι M) : Evolves net net := ⟨List.prefix_rfl, fun _ h => h⟩

omit [Money M] [Float64 M] in
theorem Evolves.trans {net'' : Net ι M} (h : Evolves net net') (h' : Evolves net' net'') :
    Evolves net net'' :=
  ⟨h.executions.trans h'.executions, fun _ hcall => h'.calls (h.calls hcall)⟩

theorem Evolves.step [DecidableEq ι] (hstep : Step cfg net a net') : Evolves net net' := by
  cases hstep with
  | started hprepared call hcall => exact ⟨List.prefix_rfl, List.subset_append_left _ _⟩
  | served hn hmode hlog hreply =>
    rcases served_cases hlog with ⟨-, rfl⟩ | ⟨-, rfl⟩
    · exact ⟨List.prefix_rfl, fun _ h => h⟩
    · exact ⟨List.prefix_append _ _, fun _ h => h⟩
  | _ => exact ⟨List.prefix_rfl, fun _ h => h⟩

end History

section Runs
variable {ι M : Type} [DecidableEq ι] [Money M] [Float64 M] {cfg : Config ι} {net net' : Net ι M}
  {a : Action ι} {acts : List (Action ι)}

/-- What holds in a network that single sessions of fitting requests have reached. -/
structure Reached (cfg : Config ι) (net : Net ι M) : Prop where
  inv : Inv cfg net
  single : SingleSession net
  addressed : ∀ i, Addressed cfg i (net.clients i)
  answered : Answered cfg net
  fits : CallsFit cfg net
  enacted : ∃ history, Enacted cfg net history

omit [DecidableEq ι] in
theorem initial_reached : Reached cfg (initial cfg : Net ι M) where
  inv := initial_inv cfg
  single := initial_singleSession
  addressed := initial_addressed
  answered := by simp [Answered, initial]
  fits := by simp [CallsFit, initial]
  enacted := ⟨[], .nil, .nil⟩

def Action.Admissible (cfg : Config ι) : Action ι → Prop
  | .start i cmd => Fits (cfg.host i) cmd
  | .restart _ => False
  | _ => True

theorem Reached.step (h : Reached cfg net) (ha : a.Admissible cfg) :
    ∃ net', Network.step cfg net a = .ok net' ∧ Reached cfg net' ∧ Evolves net net' := by
  obtain ⟨net', hnet', hstep, hinv'⟩ := h.inv.total a
  obtain ⟨history, henacted⟩ := h.enacted
  refine ⟨net', hnet', ⟨hinv', h.single.step ?_ hstep, step_addressed h.inv h.addressed hnet',
    step_answered h.inv h.addressed h.answered hstep, ?_, henacted.step h.inv h.fits hstep⟩,
    .step hstep⟩
  · cases a with
    | restart i => exact ha.elim
    | _ => rfl
  · cases hstep with
    | started hprepared call hcall =>
      refine List.forall_mem_append.mpr ⟨h.fits, List.forall_mem_singleton.mpr ?_⟩
      rw [hcall]
      exact ha
    | _ => exact h.fits

theorem Reached.run (h : Reached cfg net) (hacts : ∀ a ∈ acts, a.Admissible cfg) :
    ∃ net', Network.run cfg net acts = .ok net' ∧ Reached cfg net' ∧ Evolves net net' := by
  have hstep : ∀ (s : Net ι M) (a : Action ι) (rest : List (Action ι)),
      (Reached cfg s ∧ Evolves net s) ∧ (∀ b ∈ a :: rest, b.Admissible cfg) →
        ∃ s', Network.step cfg s a = .ok s' ∧
          (Reached cfg s' ∧ Evolves net s') ∧ ∀ b ∈ rest, b.Admissible cfg := by
    intro s a rest hs
    obtain ⟨⟨hreached, hevolves⟩, hadmissible⟩ := hs
    obtain ⟨ha, hrest⟩ := List.forall_mem_cons.mp hadmissible
    obtain ⟨s', hs', hreached', hevolves'⟩ := hreached.step ha
    exact ⟨s', hs', ⟨hreached', hevolves.trans hevolves'⟩, hrest⟩
  obtain ⟨net', hnet', hboth, -⟩ := foldlM_invariant_rest
    (I := fun s (rest : List (Action ι)) =>
      (Reached cfg s ∧ Evolves net s) ∧ ∀ b ∈ rest, b.Admissible cfg)
    hstep ⟨⟨h, .refl net⟩, hacts⟩
  exact ⟨net', hnet', hboth⟩

theorem reached_split {acts₁ acts₂ : List (Action ι)} {net₁ : Net ι M}
    (hacts : ∀ a ∈ acts₁ ++ acts₂, a.Admissible cfg)
    (hrun : Network.run cfg (initial cfg) (acts₁ ++ acts₂) = .ok net)
    (hrun₁ : Network.run cfg (initial cfg) acts₁ = .ok net₁) :
    Reached cfg net₁ ∧ Evolves net₁ net := by
  have hinitial : Reached cfg (initial cfg : Net ι M) := initial_reached
  obtain ⟨s₁, hs₁, hreached, -⟩ := hinitial.run fun a ha => hacts a (List.mem_append_left _ ha)
  rw [hrun₁] at hs₁
  cases hs₁
  obtain ⟨s, hs, -, hevolves⟩ := hreached.run fun a ha => hacts a (List.mem_append_right _ ha)
  rw [Network.run, List.foldlM_append] at hrun
  rw [Network.run] at hrun₁ hs
  rw [hrun₁, ok_bind, hs] at hrun
  cases hrun
  exact ⟨hreached, hevolves⟩

section Keys
variable (hinj : Function.Injective cfg.addr) (hroom : ∀ i, (net.clients i).issued < 2 ^ 32)
include hinj hroom

omit [DecidableEq ι] in
theorem Reached.key_inj (h : Reached cfg net) {x y : Call ι} (hx : x ∈ net.calls)
    (hy : y ∈ net.calls) (hkey : x.key cfg = y.key cfg) : x = y := by
  obtain ⟨haddr, hid⟩ := Inv.key_eq_iff.mp hkey
  apply h.inv.unique hx hy
  refine ⟨hinj haddr, by rw [h.single.calls x hx, h.single.calls y hy], ?_⟩
  rw [number_of_requestId h.inv h.single hx (hroom _),
    number_of_requestId h.inv h.single hy (hroom _), hid]

omit [DecidableEq ι] in
theorem Reached.execution (h : Reached cfg net) {net₁ : Net ι M} (h₁ : Reached cfg net₁)
    (hevolves : Evolves net₁ net) {r : Reply ι} (hr : r ∈ net₁.down) :
    ∃ e ∈ net₁.executions, e.1.1 = r.call ∧ e.2 = r.data := by
  obtain ⟨e, he, hdata, hkey⟩ := h₁.inv.execution hr
  refine ⟨e, he, ?_, hdata⟩
  exact h.key_inj hinj hroom (hevolves.calls (h₁.inv.executed e he))
    (hevolves.calls (h₁.inv.down r hr).1) hkey

end Keys

/-- What clients may conclude from the messages that their calls return. -/
structure Observed (cfg : Config ι) (acts : List (Action ι)) (net : Net ι M)
    (history : List (Call ι × Answer M)) : Prop where
  -- A call that some returned message answers comes before every call that starts afterwards.
  realTime : ∀ acts₁ acts₂ (net₁ : Net ι M), acts = acts₁ ++ acts₂ →
    Network.run cfg (initial cfg) acts₁ = .ok net₁ →
    ∀ r ∈ net₁.returned, ∀ call, r.answers = some call →
      ∀ other ∈ ids history, other ∉ net₁.calls → [call, other].Sublist (ids history)
  -- A message tells what the client's own call came to, or an earlier one of its calls.
  told : ∀ r ∈ net.returned, ∃ call a, r.answers = some call ∧ call.client = r.call.client ∧
    call.number ≤ r.call.number ∧ (call, a) ∈ history ∧
    a.Told (cfg.host r.call.client) r.message.payload.content

section Consequences
variable {history : List (Call ι × Answer M)}

omit [DecidableEq ι] in
theorem Reached.once (h : Reached cfg net) (henacted : Enacted cfg net history) :
    (ids history).Nodup := by
  rw [henacted.ids]
  refine List.pairwise_map.mpr (h.inv.recorded.once.imp fun hne hsame => hne ?_)
  exact congrArg (fun call => requestKey (call.arrived cfg)) hsame

omit [DecidableEq ι] in
theorem Reached.issued (h : Reached cfg net) (henacted : Enacted cfg net history) :
    ∀ call ∈ ids history, call ∈ net.calls := by
  intro call hcall
  rw [henacted.ids, List.mem_map] at hcall
  obtain ⟨e, he, rfl⟩ := hcall
  exact h.inv.executed e he

omit [DecidableEq ι] in
/-- A call whose reply has come back was executed, and what is issued later is executed later. -/
theorem Reached.realTime (hinj : Function.Injective cfg.addr)
    (hroom : ∀ i, (net.clients i).issued < 2 ^ 32) (h : Reached cfg net)
    (henacted : Enacted cfg net history) {net₁ : Net ι M} (h₁ : Reached cfg net₁)
    (hevolves : Evolves net₁ net) {r : Returned ι} (hr : r ∈ net₁.returned) {call other : Call ι}
    (hanswers : r.answers = some call) (hother : other ∈ ids history) (hnew : other ∉ net₁.calls) :
    [call, other].Sublist (ids history) := by
  obtain ⟨-, call', hanswers', hdown, -⟩ := h₁.answered r hr
  rw [hanswers] at hanswers'
  cases hanswers'
  obtain ⟨e, he, hexecuted, -⟩ := h.execution hinj hroom h₁ hevolves hdown
  obtain ⟨later, hlater⟩ := hevolves.executions
  rw [henacted.ids, ← hlater, List.map_append] at hother ⊢
  have hfirst : call ∈ net₁.executions.map fun e => e.1.1 := by
    rw [← show e.1.1 = call from hexecuted]
    exact List.mem_map_of_mem he
  have hlast : other ∈ later.map fun e => e.1.1 := by
    refine (List.mem_append.mp hother).resolve_left fun hmem => ?_
    obtain ⟨e', he', rfl⟩ := List.mem_map.mp hmem
    exact hnew (h₁.inv.executed e' he')
  exact (List.singleton_sublist.mpr hfirst).append (List.singleton_sublist.mpr hlast)

omit [DecidableEq ι] in
theorem Reached.told (hinj : Function.Injective cfg.addr)
    (hroom : ∀ i, (net.clients i).issued < 2 ^ 32) (h : Reached cfg net)
    (henacted : Enacted cfg net history) {r : Returned ι} (hr : r ∈ net.returned) :
    ∃ call a, r.answers = some call ∧ call.client = r.call.client ∧ call.number ≤ r.call.number ∧
      (call, a) ∈ history ∧ a.Told (cfg.host r.call.client) r.message.payload.content := by
  obtain ⟨hissued, call, hanswers, hdown, haddr, hnumber, hdecode⟩ := h.answered r hr
  obtain ⟨e, he, hexecuted, hdata⟩ := h.execution hinj hroom h (.refl net) hdown
  obtain ⟨a, hmem, hreply⟩ := henacted.answer he
  simp only at hexecuted hdata
  rw [hexecuted] at hmem hreply
  rw [← hdata, hreply] at hdecode
  have hclient : call.client = r.call.client := hinj haddr.symm
  have hsession : call.session = r.call.session := by
    rw [h.single.calls call (h.inv.down _ hdown).1, h.single.calls r.call hissued]
  exact ⟨call, a, hanswers, hclient, hnumber hclient hsession, hmem, told_of_decodeReply hdecode⟩

end Consequences

/-- The calls that a network of single sessions has executed are the calls of one bank, each at
most once and one after the other, and it has replied what they came to. As long as no client has
issued 2^32 requests, the messages that the clients get agree with that, and with the order in
which calls are answered and start. -/
theorem network_linearizable (hinj : Function.Injective cfg.addr)
    (hacts : ∀ a ∈ acts, a.Admissible cfg) :
    ∃ net : Net ι M, Network.run cfg (initial cfg) acts = .ok net ∧ ∃ history,
      Enacted cfg net history ∧ (ids history).Nodup ∧ (∀ call ∈ ids history, call ∈ net.calls) ∧
      ((∀ i, (net.clients i).issued < 2 ^ 32) → Observed cfg acts net history) := by
  obtain ⟨net, hrun, hreached, -⟩ := (initial_reached : Reached cfg (initial cfg : Net ι M)).run
    hacts
  obtain ⟨history, henacted⟩ := hreached.enacted
  refine ⟨net, hrun, history, henacted, hreached.once henacted, hreached.issued henacted,
    fun hroom => ⟨?_, fun r hr => hreached.told hinj hroom henacted hr⟩⟩
  intro acts₁ acts₂ net₁ hsplit hrun₁ r hr call hanswers other hother hnew
  rw [hsplit] at hacts hrun
  obtain ⟨hreached₁, hevolves⟩ := reached_split hacts hrun hrun₁
  exact hreached.realTime hinj hroom henacted hreached₁ hevolves hr hanswers hother hnew

end Runs

theorem twoOpenings_admissible : ∀ a ∈ twoOpenings, a.Admissible twoClients := by
  have hfits : ∀ name : UInt8, Fits .little (openCommand name) := fun _ => by
    simp [Fits, onHost, openCommand, fieldsOf, fieldOrder, fieldOf, encodeTLVFields_eq,
      length_fieldBytes, headerSize, maxPacketSize, tlvUint8, tlvString, tlvFloat64]
  simp [twoOpenings, Action.Admissible, twoClients, hfits]

theorem two_openings_linearize :
    ∃ net : Net Bool Binary64, Network.run twoClients (initial twoClients) twoOpenings = .ok net ∧
      net.executions.length = 2 ∧ net.returned.length = 1 ∧ ∃ history,
        Enacted twoClients net history ∧ Observed twoClients twoOpenings net history := by
  obtain ⟨net, hrun, history, henacted, -, -, hobserved⟩ := network_linearizable (M := Binary64)
    twoClients_distinct twoOpenings_admissible
  have hcounts := eq_of_check (f := fun net => ((net.clients true).issued,
    (net.clients false).issued, net.executions.length, net.returned.length)) (b := (1, 1, 2, 1))
    hrun (by decide +kernel)
  simp only [Prod.mk.injEq] at hcounts
  obtain ⟨htrue, hfalse, hexecuted, hreturned⟩ := hcounts
  refine ⟨net, hrun, hexecuted, hreturned, history, henacted, hobserved fun i => ?_⟩
  cases i <;> omega

end DistributedBanking.Network
