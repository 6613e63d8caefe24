import DistributedBanking.Network

/-!
# The server program

`main` takes the mode and a loss rate from its arguments and then serves one
datagram after the other. The loss simulator may keep back the answer to a
datagram, after the request has been executed. `strconv.ParseFloat` and the
generator behind a seed are parameters; a generator returns numbers in [0, 1).
-/

namespace DistributedBanking.Server
open Store Banking Monitor Semantics Handler

inductive ModeError
  | unknownMode (s : String)
  deriving DecidableEq, Repr

def parseMode (s : String) : Except ModeError Mode :=
  match s with
  | "at-least-once" => .ok .atLeastOnce
  | "at-most-once" => .ok .atMostOnce
  | _ => .error (.unknownMode s)

/-- A `rand.Rand`, by what `Float64` is going to return. -/
structure Rand where
  draws : ℕ → ℚ
  nonneg : ∀ n, 0 ≤ draws n
  lt_one : ∀ n, draws n < 1

def Rand.float64 (rng : Rand) : Binary64 × Rand :=
  (.finite (rng.draws 0), ⟨fun n => rng.draws (n + 1), fun n => rng.nonneg (n + 1),
    fun n => rng.lt_one (n + 1)⟩)

structure LossSimulator where
  rate : Binary64
  rng : Rand

namespace LossSimulator

def newLossSimulator (newSource : ℤ → Rand) (rate : Binary64) (seed : ℤ) : LossSimulator :=
  let rate := if rate < 0 then 0 else rate
  let rate := if .finite 1 < rate then .finite 1 else rate
  ⟨rate, newSource seed⟩

def shouldDrop (ls : LossSimulator) : Bool × LossSimulator :=
  if ls.rate = 0 then (false, ls)
  else
    let (r, rng) := ls.rng.float64
    (r < ls.rate, { ls with rng })

def isEnabled (ls : LossSimulator) : Bool := 0 < ls.rate

def drops (ls : LossSimulator) (n : ℕ) : Bool := .finite (ls.rng.draws n) < ls.rate

theorem drops_eq_false {ls : LossSimulator} (h : ls.isEnabled = false) (n : ℕ) :
    ls.drops n = false := by
  obtain ⟨rate, rng⟩ := ls
  have hpos : ¬ 0 < rate := of_decide_eq_false h
  refine decide_eq_false fun hlt => hpos ?_
  rw [Binary64.lt_def] at hlt ⊢
  cases rate with
  | nan => exact absurd hlt Bool.false_ne_true
  | posInf => rfl
  | negInf => exact absurd hlt Bool.false_ne_true
  | finite q =>
    have hq : rng.draws n < q := of_decide_eq_true hlt
    exact decide_eq_true ((rng.nonneg n).trans_lt hq)

theorem drops_eq_true {ls : LossSimulator} (h : .finite 1 ≤ ls.rate) (n : ℕ) :
    ls.drops n = true := by
  obtain ⟨rate, rng⟩ := ls
  apply decide_eq_true
  rw [Binary64.le_def] at h
  rw [Binary64.lt_def]
  cases rate with
  | nan => exact absurd h Bool.false_ne_true
  | posInf => rfl
  | negInf => exact absurd h Bool.false_ne_true
  | finite q =>
    have hq : 1 ≤ q := of_decide_eq_true h
    exact decide_eq_true ((rng.lt_one n).trans_le hq)

@[simp] theorem shouldDrop_fst (ls : LossSimulator) : ls.shouldDrop.1 = ls.drops 0 := by
  rw [shouldDrop]
  split_ifs with hzero
  · refine (drops_eq_false ?_ 0).symm
    rw [isEnabled, hzero]
    rfl
  · rfl

/-- Without a rate nothing is drawn, but then every answer has the same fate. -/
theorem shouldDrop_snd (ls : LossSimulator) :
    ls.shouldDrop.2.rate = ls.rate ∧ ∀ n, ls.shouldDrop.2.drops n = ls.drops (n + 1) := by
  rw [shouldDrop]
  split_ifs with hzero
  · have hdisabled : ls.isEnabled = false := by
      rw [isEnabled, hzero]
      rfl
    exact ⟨rfl, fun n => by rw [drops_eq_false hdisabled, drops_eq_false hdisabled]⟩
  · exact ⟨rfl, fun n => rfl⟩

def passed {α : Type} (ls : LossSimulator) (answers : List α) : List α :=
  (answers.zipIdx.filter fun a => !ls.drops a.2).map Prod.fst

section Passed
variable {α : Type} {ls : LossSimulator}

theorem passed_cons (a : α) (answers : List α) : ls.passed (a :: answers) =
    (if ls.drops 0 then [] else [a]) ++ ls.shouldDrop.2.passed answers := by
  have hrest : (answers.zipIdx 1).filter (fun a => !ls.drops a.2) =
      (answers.zipIdx.filter fun a => !ls.shouldDrop.2.drops a.2).map
        fun a => (a.1, a.2 + 1) := by
    rw [List.zipIdx_succ, List.filter_map]
    simp only [ls.shouldDrop_snd.2]
    rfl
  rw [passed, passed, List.zipIdx_cons, List.filter_cons, zero_add, hrest]
  cases ls.drops 0 <;> simp [Function.comp_def]

theorem passed_of_disabled (h : ls.isEnabled = false) (answers : List α) :
    ls.passed answers = answers := by
  simp [passed, drops_eq_false h]

theorem passed_of_full (h : .finite 1 ≤ ls.rate) (answers : List α) : ls.passed answers = [] := by
  simp [passed, drops_eq_true h]

end Passed

end LossSimulator

def parseLossRate (parseFloat : String → Option Binary64) (args : List String) : Binary64 :=
  match args with
  | _ :: _ :: arg :: _ =>
    match parseFloat arg with
    | none => 0
    | some rate =>
      if rate < 0 ∨ .finite 1 < rate then
        let rate := if rate < 0 then 0 else rate
        if .finite 1 < rate then .finite 1 else rate
      else rate
  | _ => 0

theorem rate_newLossSimulator (newSource : ℤ → Rand) (parseFloat : String → Option Binary64)
    (args : List String) (seed : ℤ) :
    (LossSimulator.newLossSimulator newSource (parseLossRate parseFloat args) seed).rate =
      parseLossRate parseFloat args := by
  have hcut : ∀ rate : Binary64, ¬ rate < 0 → ¬ .finite 1 < rate →
      (LossSimulator.newLossSimulator newSource rate seed).rate = rate := by
    intro rate hneg hbig
    simp only [LossSimulator.newLossSimulator, if_neg hneg, if_neg hbig]
  have hzero : ¬ (.finite 1 : Binary64) < 0 := by decide
  have hone : ¬ (.finite 1 : Binary64) < .finite 1 := by decide
  unfold parseLossRate
  split
  · split
    · exact hcut 0 (by decide) hzero
    · rename_i rate _
      dsimp only
      split_ifs with hrange hneg hbig
      · exact hcut 0 (by decide) hzero
      · exact hcut _ hzero hone
      · exact hcut _ hneg hbig
      · exact hcut _ (fun h => hrange (.inl h)) fun h => hrange (.inr h)
  · exact hcut 0 (by decide) hzero

def lossSeed : ℤ := 42

/-- The main loop's variables, for a handler that works on `σ`. -/
structure Process (σ : Type) where
  dispatcher : Dispatcher
  state : σ
  replyLoss : LossSimulator

/-- One round of the loop from the datagram to what is handed to `WriteToUDP`. -/
def Process.round {σ : Type} (handler : RequestHandler σ) (p : Process σ) (d : Datagram) :
    Go (Process σ × Option Bytes) := do
  let (dispatcher, state, result) ← p.dispatcher.dispatch handler p.state d.data d.addr
  match result with
  | .error _ => return (⟨dispatcher, state, p.replyLoss⟩, none)
  | .ok reply =>
    let (drop, replyLoss) := p.replyLoss.shouldDrop
    return (⟨dispatcher, state, replyLoss⟩, if drop then none else some reply)

section Round
variable {σ : Type} {handler : RequestHandler σ} {p : Process σ} {d : Datagram}
  {dispatcher : Dispatcher} {state : σ}

theorem Process.round_error {err : DispatchError}
    (h : p.dispatcher.dispatch handler p.state d.data d.addr =
      .ok (dispatcher, state, .error err)) :
    p.round handler d = .ok (⟨dispatcher, state, p.replyLoss⟩, none) := by
  rw [Process.round, h]
  rfl

theorem Process.round_ok {reply : Bytes}
    (h : p.dispatcher.dispatch handler p.state d.data d.addr = .ok (dispatcher, state, .ok reply)) :
    p.round handler d = .ok (⟨dispatcher, state, p.replyLoss.shouldDrop.2⟩,
      if p.replyLoss.drops 0 then none else some reply) := by
  rw [Process.round, h, ← p.replyLoss.shouldDrop_fst]
  rfl

end Round

variable {M : Type} [Money M] [Float64 M]

structure Program (M : Type) where
  process : Process (Backend M)
  written : List (UDPAddr × Bytes)

/-- What happens to the server: `ReadFromUDP` fails or returns a datagram, whose answer can then
be written or not, or the sweeper runs. -/
inductive Input
  | readFails
  | datagram (d : Datagram) (now : ℕ) (writes : Bool)
  | sweep (now : ℕ)

/-- The datagram as it fits into the receive buffer. -/
def received (d : Datagram) : Datagram where
  data := d.data.take Network.maxPacketSize
  addr := d.addr
  small := (List.length_take_le' _ _).trans_lt d.small

def Program.new (newSource : ℤ → Rand) (parseFloat : String → Option Binary64) :
    List String → Option (Program M)
  | args@(_ :: mode :: _) =>
    match parseMode mode with
    | .error _ => none
    | .ok mode => some {
        process := {
          dispatcher := Dispatcher.newDispatcher mode
          state := ⟨newMemoryStore, newManager⟩
          replyLoss := .newLossSimulator newSource (parseLossRate parseFloat args) lossSeed }
        written := [] }
  | _ => none

def Program.step (p : Program M) : Input → Go (Program M)
  | .readFails => return p
  | .datagram d now writes => do
    let (process, reply) ← p.process.round (buildHandler 64 now) (received d)
    match reply with
    | some reply =>
      return ⟨process, if writes then p.written ++ [(d.addr, reply)] else p.written⟩
    | none => return { p with process }
  | .sweep now =>
    let backend := p.process.state
    let process := { p.process with state := { backend with mon := backend.mon.evictExpired now } }
    return { p with process }

def Program.run (p : Program M) (inputs : List Input) : Go (Program M) :=
  inputs.foldlM Program.step p

structure Outgoing where
  addr : UDPAddr
  reply : Bytes
  writes : Bool

def answering (s : Server M) : Input → Go (Server M × Option Outgoing)
  | .readFails => return (s, none)
  | .datagram d now writes => do
    let (s, result) ← receive s (received d) now
    return (s, result.toOption.map fun reply => ⟨d.addr, reply, writes⟩)
  | .sweep now => return (sweep s now, none)

def Input.event : Input → Option Event
  | .readFails => none
  | .datagram d now _ => some (.datagram (received d) now)
  | .sweep now => some (.sweep now)

def Program.server (p : Program M) : Server M := ⟨p.process.dispatcher, p.process.state⟩

def packetsOf (answers : List Outgoing) : List (UDPAddr × Bytes) :=
  (answers.filter Outgoing.writes).map fun a => (a.addr, a.reply)

theorem packetsOf_append (as bs : List Outgoing) :
    packetsOf (as ++ bs) = packetsOf as ++ packetsOf bs := by
  simp [packetsOf]

/-- The loop does what the server without loss does, and writes the answers that pass. -/
theorem Program.step_serve {p : Program M} (hrun : Running p.process.dispatcher) (i : Input) :
    ∃ p' answer, p.step i = .ok p' ∧ answering p.server i = .ok (p'.server, answer) ∧
      Server.run p.server i.event.toList = .ok p'.server ∧ Running p'.process.dispatcher ∧
      ∃ out, p'.written = p.written ++ packetsOf out ∧ ∀ answers,
        p.process.replyLoss.passed (answer.toList ++ answers) =
          out ++ p'.process.replyLoss.passed answers := by
  cases i with
  | readFails => exact ⟨p, none, rfl, rfl, rfl, hrun, [], by simp [packetsOf], fun _ => rfl⟩
  | sweep now => exact ⟨_, none, rfl, rfl, rfl, hrun, [], by simp [packetsOf], fun _ => rfl⟩
  | datagram d now writes =>
    have hhandler := buildHandler_eq (M := M) now (received d).addr p.process.state
      (received d).bounded
    obtain ⟨dispatcher, backend, result, hdispatch, hanswered⟩ := dispatch_answered hrun hhandler
    have hreceive : receive p.server (received d) now = .ok (⟨dispatcher, backend⟩, result) := by
      rw [receive, Program.server, hdispatch]
      rfl
    have hserve : answering p.server (.datagram d now writes) =
        .ok (⟨dispatcher, backend⟩, result.toOption.map fun reply => ⟨d.addr, reply, writes⟩) := by
      rw [answering, hreceive]
      rfl
    have hevent : Server.run p.server (Input.event (.datagram d now writes)).toList =
        .ok ⟨dispatcher, backend⟩ := by
      change (receive p.server (received d) now >>= fun out => pure out.1) >>= pure = _
      rw [hreceive]
      rfl
    have hdispatched : Dispatched p.server (received d) now ⟨dispatcher, backend⟩ result :=
      hanswered
    have hrunning : Running dispatcher := hdispatched.running hrun
    cases result with
    | error err =>
      refine ⟨⟨⟨dispatcher, backend, p.process.replyLoss⟩, p.written⟩, none, ?_, hserve, hevent,
        hrunning, [], by simp [packetsOf], fun _ => rfl⟩
      rw [Program.step, Process.round_error hdispatch]
      rfl
    | ok reply =>
      have hround := Process.round_ok hdispatch
      cases hdrop : p.process.replyLoss.drops 0 with
      | true =>
        rw [hdrop] at hround
        refine ⟨⟨⟨dispatcher, backend, p.process.replyLoss.shouldDrop.2⟩, p.written⟩, _, ?_,
          hserve, hevent, hrunning, [], by simp [packetsOf], fun answers => ?_⟩
        · rw [Program.step, hround]
          rfl
        · refine (LossSimulator.passed_cons _ _).trans ?_
          rw [hdrop]
          rfl
      | false =>
        rw [hdrop] at hround
        refine ⟨⟨⟨dispatcher, backend, p.process.replyLoss.shouldDrop.2⟩,
          if writes then p.written ++ [(d.addr, reply)] else p.written⟩, _, ?_,
          hserve, hevent, hrunning, [⟨d.addr, reply, writes⟩], ?_, fun answers => ?_⟩
        · rw [Program.step, hround]
          rfl
        · cases writes <;> simp [packetsOf]
        · refine (LossSimulator.passed_cons _ _).trans ?_
          rw [hdrop]
          rfl

theorem Program.run_serve {p : Program M} (hrun : Running p.process.dispatcher)
    (inputs : List Input) :
    ∃ p' answers, p.run inputs = .ok p' ∧
      Runs.outputs answering p.server inputs = .ok (p'.server, answers) ∧
      Server.run p.server (inputs.filterMap Input.event) = .ok p'.server ∧
      p'.written = p.written ++ packetsOf (p.process.replyLoss.passed (answers.filterMap id)) := by
  induction inputs generalizing p with
  | nil => exact ⟨p, [], rfl, rfl, rfl, by simp [packetsOf, LossSimulator.passed]⟩
  | cons i inputs ih =>
    obtain ⟨q, answer, hstep, hserve, hevent, hrun', out, hwritten, hpassed⟩ := p.step_serve hrun i
    obtain ⟨p', answers, hrest, hserves, hevents, hwritten'⟩ := ih hrun'
    refine ⟨p', answer :: answers, ?_, ?_, ?_, ?_⟩
    · rw [Program.run, List.foldlM_cons, hstep, ok_bind]
      exact hrest
    · rw [Runs.outputs, hserve, ok_bind]
      simp only [hserves, ok_bind]
      rfl
    · have hcons : (i :: inputs).filterMap Input.event =
          i.event.toList ++ inputs.filterMap Input.event := by
        rw [List.filterMap_cons]
        cases i.event <;> rfl
      rw [hcons, Server.run, List.foldlM_append]
      rw [Server.run] at hevent
      rw [hevent, ok_bind]
      exact hevents
    · have hcons : (answer :: answers).filterMap id = answer.toList ++ answers.filterMap id := by
        cases answer <;> rfl
      rw [hwritten', hwritten, hcons, hpassed, packetsOf_append, List.append_assoc]

section Main
variable {newSource : ℤ → Rand} {parseFloat : String → Option Binary64} {args : List String}
  {p : Program M}

omit [Money M] [Float64 M] in
theorem Program.new_spec (hnew : Program.new newSource parseFloat args = some p) :
    Running p.process.dispatcher ∧ p.written = [] ∧
      p.process.replyLoss.rate = parseLossRate parseFloat args := by
  have hparsed : ∀ s mode, parseMode s = .ok mode → mode = .atLeastOnce ∨ mode = .atMostOnce := by
    intro s mode hmode
    unfold parseMode at hmode
    split at hmode <;> simp_all
  unfold Program.new at hnew
  split at hnew
  · split at hnew
    · cases hnew
    · rename_i mode hmode
      cases hnew
      exact ⟨hparsed _ mode hmode, rfl, rate_newLossSimulator _ _ _ _⟩
  · cases hnew

/-- Whatever the arguments and the datagrams, the program goes on. Its bank, monitor and history
are those of the server without loss, and it has written the answers of that server except those
whose numbers were drawn below the rate: all of them at rate 0, none at rate 1. -/
theorem program_served (hnew : Program.new newSource parseFloat args = some p)
    (inputs : List Input) :
    ∃ p' answers, p.run inputs = .ok p' ∧
      Runs.outputs answering p.server inputs = .ok (p'.server, answers) ∧
      Server.run p.server (inputs.filterMap Input.event) = .ok p'.server ∧
      p'.written = packetsOf (p.process.replyLoss.passed (answers.filterMap id)) ∧
      (¬ 0 < parseLossRate parseFloat args → p'.written = packetsOf (answers.filterMap id)) ∧
      (.finite 1 ≤ parseLossRate parseFloat args → p'.written = []) := by
  obtain ⟨hrun, hempty, hrate⟩ := Program.new_spec hnew
  obtain ⟨p', answers, hrun', hserves, hevents, hwritten⟩ := p.run_serve hrun inputs
  rw [hempty, List.nil_append] at hwritten
  refine ⟨p', answers, hrun', hserves, hevents, hwritten, fun hzero => ?_, fun hfull => ?_⟩
  · rw [hwritten, LossSimulator.passed_of_disabled]
    exact decide_eq_false (hrate ▸ hzero)
  · rw [hwritten, LossSimulator.passed_of_full (hrate ▸ hfull)]
    rfl

end Main

def firstSmall : Rand where
  draws n := if n = 0 then 0 else 1 / 2
  nonneg n := by split <;> norm_num
  lt_one n := by split <;> norm_num

def oneLoss : Option (Program Binary64) :=
  Program.new (fun _ => firstSmall)
    (fun arg => if arg = "0.3" then some (.finite (3 / 10)) else none)
    ["server", "at-most-once", "0.3"]

def emptyRequest : Datagram where
  data := [1, 2] ++ List.replicate 16 0
  addr := .loopback 5000
  small := by decide

def twoRequests : List Input :=
  [.datagram emptyRequest 0 true, .readFails, .datagram emptyRequest 0 true]

theorem one_answer_lost : ∃ p : Program Binary64, oneLoss = some p ∧ ∃ p' answers,
    p.run twoRequests = .ok p' ∧ p'.written.length = 1 ∧
      Runs.outputs answering p.server twoRequests = .ok (p'.server, answers) ∧
      p'.written = packetsOf (p.process.replyLoss.passed (answers.filterMap id)) := by
  obtain ⟨p, hp⟩ := Option.isSome_iff_exists.mp (rfl : oneLoss.isSome = true)
  obtain ⟨p', answers, hrun, hserves, -, hwritten, -⟩ := program_served hp twoRequests
  have hlength : (oneLoss.bind fun p => (p.run twoRequests).toOption).map
      (fun p' => p'.written.length) = some 1 := by
    decide +kernel
  rw [hp, Option.bind_some, hrun] at hlength
  exact ⟨p, hp, p', answers, hrun, Option.some.inj hlength, hserves, hwritten⟩

end DistributedBanking.Server
