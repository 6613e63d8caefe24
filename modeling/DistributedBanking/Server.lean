import DistributedBanking.HandlerSpec

/-!
# The sequential server

A server is a dispatcher and the backend its handler works on. It receives
datagrams one at a time; the monitor's sweeper may run between two of them.
`Answered` lists what `Dispatch` can answer around any handler, and
`dispatch_answered` says that it always answers one of these.
-/

namespace DistributedBanking
open Store Banking Marshalling Monitor Semantics Handler

/-- A UDP packet with its source address; its length field has 16 bits. -/
structure Datagram where
  data : Bytes
  addr : UDPAddr
  small : data.length < 2 ^ 16
  deriving DecidableEq

theorem Datagram.bounded (d : Datagram) : d.data.length < 2 ^ 62 :=
  d.small.trans (by decide)

structure Server (M : Type) where
  dispatcher : Dispatcher
  backend : Backend M

namespace Server
variable {M : Type}

abbrev Arrival := Datagram × ℕ

/-- Dispatch lets a packet through when its header is whole and its flag is the mode. -/
def Accepts (mode : Mode) (d : Datagram) : Prop :=
  headerSize ≤ d.data.length ∧ (headerOf d.data).flag = mode.toUint8

instance (mode : Mode) (d : Datagram) : Decidable (Accepts mode d) :=
  inferInstanceAs (Decidable (_ ∧ _))

def newServer (mode : Mode) : Server M :=
  ⟨Dispatcher.newDispatcher mode, ⟨newMemoryStore, newManager⟩⟩

inductive Event
  | datagram (d : Datagram) (now : ℕ)
  | sweep (now : ℕ)

def cachedReply (s : Server M) (d : Datagram) : Option Bytes :=
  match s.dispatcher.history with
  | none => none
  | some history => history.lookup d.addr.string (headerOf d.data).requestID

def Executes (s : Server M) (d : Datagram) : Prop :=
  Accepts s.dispatcher.mode d ∧ (s.dispatcher.mode = .atLeastOnce ∨ s.cachedReply d = none)

instance (s : Server M) (d : Datagram) : Decidable (Executes s d) :=
  inferInstanceAs (Decidable (_ ∧ _))

def opensAccount (M : Type) [Float64 M] (data : Bytes) : Bool :=
  match (parseRequest data : Option (Request M)) with
  | some (.bank op _) => op.isOpen
  | _ => false

theorem opensAccount_of_bank [Float64 M] {data : Bytes} {op : Op M} {txName : Bytes}
    (h : parseRequest data = some (.bank op txName)) : opensAccount M data = op.isOpen := by
  simp only [opensAccount, h]

section Steps
variable [Money M] [Float64 M]

def handle (b : Backend M) (x : Arrival) : Go (Backend M) := do
  return (← buildHandler 64 x.2 b x.1.data x.1.addr).1

theorem handle_effect (b : Backend M) (x : Arrival) :
    ∃ b', handle b x = .ok b' ∧
      ((∃ op txName, parseRequest x.1.data = some (.bank op txName) ∧
          b'.store = (perform b.store op).1) ∨
        (∀ op txName, parseRequest (M := M) x.1.data ≠ some (.bank op txName)) ∧
          b'.store = b.store) := by
  have heq := buildHandler_eq x.2 x.1.addr b x.1.bounded
  refine ⟨(respond x.2 b x.1.data x.1.addr).1, ?_, respond_effect x.2 x.1.addr b x.1.data⟩
  rw [handle, heq]
  rfl

def receive (s : Server M) (d : Datagram) (now : ℕ) :
    Go (Server M × Except DispatchError Bytes) := do
  let (dispatcher, backend, result) ←
    s.dispatcher.dispatch (buildHandler 64 now) s.backend d.data d.addr
  return (⟨dispatcher, backend⟩, result)

omit [Money M] [Float64 M] in
def sweep (s : Server M) (now : ℕ) : Server M :=
  { s with backend := { s.backend with mon := s.backend.mon.evictExpired now } }

def step (s : Server M) : Event → Go (Server M)
  | .datagram d now => do return (← receive s d now).1
  | .sweep now => return sweep s now

def run (s : Server M) (es : List Event) : Go (Server M) := es.foldlM step s

def Running (d : Dispatcher) : Prop := d.mode = .atLeastOnce ∨ d.mode = .atMostOnce

section Dispatch
variable {σ : Type}

/-- The outcomes of `Dispatch` when the handler would return `out`: the datagram is turned away,
executed, executed and recorded, or its recorded reply is replayed. -/
inductive Answered (d : Dispatcher) (s : σ) (x : Datagram) (out : σ × Bytes) :
    Dispatcher → σ → Except DispatchError Bytes → Prop
  | rejected {err : DispatchError} (haccept : ¬ Accepts d.mode x) :
      Answered d s x out d s (.error err)
  | executed (haccept : Accepts d.mode x) (hmode : d.mode = .atLeastOnce) :
      Answered d s x out d out.1 (.ok out.2)
  | recorded {history : ReplyHistory} (haccept : Accepts d.mode x) (hmode : d.mode ≠ .atLeastOnce)
      (hhistory : d.history = some history)
      (hfresh : history.lookup x.addr.string (headerOf x.data).requestID = none) :
      Answered d s x out
        (d.setHistory (history.store x.addr.string (headerOf x.data).requestID out.2)) out.1
        (.ok out.2)
  | replayed {history : ReplyHistory} {reply : Bytes} (haccept : Accepts d.mode x)
      (hmode : d.mode ≠ .atLeastOnce) (hhistory : d.history = some history)
      (hcached : history.lookup x.addr.string (headerOf x.data).requestID = some reply) :
      Answered d s x out d s (.ok reply)

theorem dispatch_answered {handler : RequestHandler σ} {d : Dispatcher} (hrun : Running d) {s : σ}
    {x : Datagram} {out : σ × Bytes} (hhandler : handler s x.data x.addr = .ok out) :
    ∃ d' s' res, d.dispatch handler s x.data x.addr = .ok (d', s', res) ∧
      Answered d s x out d' s' res := by
  by_cases hshort : x.data.length < headerSize
  · refine ⟨d, s, .error (.header .errPacketTooShort), ?_, .rejected ?_⟩
    · rw [Dispatcher.dispatch, parseHeader_short hshort]
      rfl
    · intro haccept
      exact absurd haccept.1 (not_le.mpr hshort)
  have hlen : headerSize ≤ x.data.length := not_lt.mp hshort
  by_cases hflag : (headerOf x.data).flag = d.mode.toUint8
  swap
  · refine ⟨d, s, .error (.flagMismatch (headerOf x.data).flag d.mode), ?_,
      .rejected fun haccept => hflag haccept.2⟩
    rw [Dispatcher.dispatch, parseHeader_ok hlen, ok_bind]
    simp only [hflag, ne_eq, not_false_eq_true, if_true]
    rfl
  have haccept : Accepts d.mode x := ⟨hlen, hflag⟩
  by_cases hmode : d.mode = .atLeastOnce
  · refine ⟨_, _, _, ?_, .executed haccept hmode⟩
    rw [Dispatcher.dispatch, parseHeader_ok hlen, ok_bind]
    simp only [hflag, ne_eq, not_true_eq_false, if_false, hmode, if_true, hhandler, ok_bind]
    rfl
  have hatMostOnce : d.mode = .atMostOnce := hrun.resolve_left hmode
  obtain ⟨history, hhistory⟩ := Option.isSome_iff_exists.mp (d.wf hatMostOnce)
  rcases hlookup : history.lookup x.addr.string (headerOf x.data).requestID with _ | reply
  · refine ⟨_, _, _, ?_, .recorded haccept hmode hhistory hlookup⟩
    rw [Dispatcher.dispatch, parseHeader_ok hlen, ok_bind]
    simp only [hflag, ne_eq, not_true_eq_false, if_false, hmode, hhistory, deref_some, ok_bind,
      hlookup, hhandler]
    rfl
  · refine ⟨_, _, _, ?_, .replayed haccept hmode hhistory hlookup⟩
    rw [Dispatcher.dispatch, parseHeader_ok hlen, ok_bind]
    simp only [hflag, ne_eq, not_true_eq_false, if_false, hmode, hhistory, deref_some, ok_bind,
      hlookup]
    rfl

end Dispatch

def Dispatched (s : Server M) (d : Datagram) (now : ℕ) (s' : Server M)
    (res : Except DispatchError Bytes) : Prop :=
  Answered s.dispatcher s.backend d (respond now s.backend d.data d.addr) s'.dispatcher s'.backend
    res

theorem receive_dispatched {s : Server M} (hrun : Running s.dispatcher) (d : Datagram)
    (now : ℕ) : ∃ out, receive s d now = .ok out ∧ Dispatched s d now out.1 out.2 := by
  have hhandler := buildHandler_eq (M := M) now d.addr s.backend d.bounded
  obtain ⟨dispatcher, backend, res, hdispatch, hanswered⟩ := dispatch_answered hrun hhandler
  refine ⟨(⟨dispatcher, backend⟩, res), ?_, hanswered⟩
  rw [receive, hdispatch]
  rfl

theorem Dispatched.mode {s s' : Server M} {d : Datagram} {now : ℕ}
    {res : Except DispatchError Bytes} (h : Dispatched s d now s' res) :
    s'.dispatcher.mode = s.dispatcher.mode := by
  obtain ⟨dispatcher, backend⟩ := s'
  cases h <;> rfl

theorem Dispatched.running {s s' : Server M} {d : Datagram} {now : ℕ}
    {res : Except DispatchError Bytes} (h : Dispatched s d now s' res)
    (hrun : Running s.dispatcher) : Running s'.dispatcher := by
  rw [Running, h.mode]
  exact hrun

theorem step_datagram {s : Server M} (hrun : Running s.dispatcher) (d : Datagram) (now : ℕ) :
    ∃ s' res, step s (.datagram d now) = .ok s' ∧ Dispatched s d now s' res := by
  obtain ⟨out, hout, hdisp⟩ := receive_dispatched hrun d now
  refine ⟨out.1, out.2, ?_, hdisp⟩
  rw [step, hout]
  rfl

theorem step_dispatched {s s' : Server M} (hrun : Running s.dispatcher) {d : Datagram} {now : ℕ}
    (hstep : step s (.datagram d now) = .ok s') : ∃ res, Dispatched s d now s' res := by
  obtain ⟨t, res, ht, hdisp⟩ := step_datagram hrun d now
  cases ht.symm.trans hstep
  exact ⟨res, hdisp⟩

theorem step_running {s s' : Server M} (hrun : Running s.dispatcher) {e : Event}
    (hstep : step s e = .ok s') : Running s'.dispatcher := by
  cases e with
  | datagram d now =>
    obtain ⟨res, hdisp⟩ := step_dispatched hrun hstep
    exact hdisp.running hrun
  | sweep now =>
    cases hstep
    exact hrun

theorem Dispatched.reply {s s' : Server M} {d : Datagram} {now : ℕ}
    {res : Except DispatchError Bytes} (h : Dispatched s d now s' res)
    (haccept : Accepts s.dispatcher.mode d) : ∃ reply, res = .ok reply := by
  obtain ⟨dispatcher, backend⟩ := s'
  cases h with
  | rejected hreject => exact absurd haccept hreject
  | executed => exact ⟨_, rfl⟩
  | recorded => exact ⟨_, rfl⟩
  | replayed => exact ⟨_, rfl⟩

theorem Dispatched.backend {s s' : Server M} {d : Datagram} {now : ℕ}
    {res : Except DispatchError Bytes} (h : Dispatched s d now s' res) :
    (Executes s d ∧ s'.backend = (respond now s.backend d.data d.addr).1 ∧
        res = .ok (respond now s.backend d.data d.addr).2) ∨
      ¬ Executes s d ∧ s'.backend = s.backend := by
  obtain ⟨dispatcher, backend⟩ := s'
  cases h with
  | rejected haccept => exact .inr ⟨fun hexec => haccept hexec.1, rfl⟩
  | executed haccept hmode => exact .inl ⟨⟨haccept, .inl hmode⟩, rfl, rfl⟩
  | recorded haccept hmode hhistory hfresh =>
    have hcached : s.cachedReply d = none := by
      simp only [cachedReply, hhistory, hfresh]
    exact .inl ⟨⟨haccept, .inr hcached⟩, rfl, rfl⟩
  | replayed haccept hmode hhistory hcached =>
    refine .inr ⟨?_, rfl⟩
    intro hexec
    rcases hexec with ⟨-, hleast | hfresh⟩
    · exact hmode hleast
    · simp [cachedReply, hhistory, hcached] at hfresh

theorem Dispatched.store {s s' : Server M} {d : Datagram} {now : ℕ}
    {res : Except DispatchError Bytes} (h : Dispatched s d now s' res) :
    (Executes s d ∧ ∃ op txName, parseRequest d.data = some (.bank op txName) ∧
        s'.backend.store = (perform s.backend.store op).1) ∨
      (¬ Executes s d ∨ ∀ op txName, parseRequest (M := M) d.data ≠ some (.bank op txName)) ∧
        s'.backend.store = s.backend.store := by
  rcases h.backend with ⟨hexec, hbackend, -⟩ | ⟨hexec, hbackend⟩
  · rw [hbackend]
    rcases respond_effect now d.addr s.backend d.data with
      ⟨op, txName, hreq, hstore⟩ | ⟨hnone, hstore⟩
    · exact .inl ⟨hexec, op, txName, hreq, hstore⟩
    · exact .inr ⟨.inr hnone, hstore⟩
  · rw [hbackend]
    exact .inr ⟨.inl hexec, rfl⟩

theorem Dispatched.store_executed {s s' : Server M} {d : Datagram} {now : ℕ}
    {res : Except DispatchError Bytes} (h : Dispatched s d now s' res) (hexec : Executes s d)
    {op : Op M} {txName : Bytes} (hreq : parseRequest d.data = some (.bank op txName)) :
    s'.backend.store = (perform s.backend.store op).1 := by
  rcases h.store with ⟨-, op', txName', hreq', hstore⟩ | ⟨hidle | hnone, -⟩
  · rw [hreq] at hreq'
    cases hreq'
    exact hstore
  · exact absurd hexec hidle
  · exact absurd hreq (hnone op txName)

def opensAlong (s : Server M) : List Event → ℕ
  | [] => 0
  | e :: es =>
    let opened :=
      match e with
      | .datagram d _ => if Executes s d ∧ opensAccount M d.data then 1 else 0
      | .sweep _ => 0
    match step s e with
    | .ok s' => opened + opensAlong s' es
    | .error _ => opened

omit [Money M] [Float64 M] in
theorem running_newServer {mode : Mode} (h : mode = .atLeastOnce ∨ mode = .atMostOnce) :
    Running (newServer (M := M) mode).dispatcher := h

theorem run_invariant {P : Server M → Prop} {s : Server M} (hs : P s)
    (hrun : Running s.dispatcher)
    (hreceive : ∀ s d now s' res, P s → Dispatched s d now s' res → P s')
    (hsweep : ∀ s now, P s → P (sweep s now)) (es : List Event) :
    ∃ s', run s es = .ok s' ∧ s'.dispatcher.mode = s.dispatcher.mode ∧ P s' := by
  have hstep : ∀ t e, t.dispatcher.mode = s.dispatcher.mode ∧ P t →
      ∃ t', step t e = .ok t' ∧ t'.dispatcher.mode = s.dispatcher.mode ∧ P t' := by
    intro t e ht
    cases e with
    | datagram d now =>
      have hrun' : Running t.dispatcher := by rw [Running, ht.1]; exact hrun
      obtain ⟨t', res, hstep, hdisp⟩ := step_datagram hrun' d now
      exact ⟨t', hstep, hdisp.mode.trans ht.1, hreceive _ _ _ _ _ ht.2 hdisp⟩
    | sweep now => exact ⟨sweep t now, rfl, ht.1, hsweep t now ht.2⟩
  exact foldlM_invariant hstep es ⟨rfl, hs⟩

end Steps
end Server
end DistributedBanking
