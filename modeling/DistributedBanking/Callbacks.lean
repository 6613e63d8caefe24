import DistributedBanking.ReplyDirection

/-!
# Who is notified

`registrations` keeps the latest registration of every client in a run. The
subscriber map may have lost expired entries, in `NotifyAll` or in a sweep, but
holds every one that has not run out: `Tracks` says so, and every event keeps
it. So the recipients of a callback are those whose latest registration has not
run out, and sweeps make no difference.
-/

namespace DistributedBanking
open Store Banking Marshalling Monitor Semantics Handler
open ClientProtocol hiding statusSuccess

abbrev Registrations := UDPAddr → Option (ℕ × ℕ)

def Live (reg : Registrations) (now : ℕ) (a : UDPAddr) : Prop :=
  ∃ t interval, reg a = some (t, interval) ∧ now ≤ t + interval

namespace Monitor

def Manager.audience (m : Manager) (now : ℕ) : Multiset UDPAddr :=
  (m.subscribers.filter fun _ sub => !expired now sub).entries.map fun e => e.2.addr

/-- At any time from `clock` on, the map agrees with the registrations on who has not run out. -/
structure Tracks (clock : ℕ) (m : Manager) (reg : Registrations) : Prop where
  registered : ∀ key sub, m.subscribers.get key = some sub → key = sub.addr.string ∧
    ∃ t interval, reg sub.addr = some (t, interval) ∧ sub.expiresAt = t + interval
  kept : ∀ a t interval, reg a = some (t, interval) → clock ≤ t + interval →
    m.subscribers.get a.string = some ⟨a, t + interval⟩

namespace Tracks
variable {clock now : ℕ} {m : Manager} {reg : Registrations}

theorem later (h : Tracks clock m reg) (hclock : clock ≤ now) : Tracks now m reg :=
  ⟨h.registered, fun a t interval hreg hle => h.kept a t interval hreg (hclock.trans hle)⟩

theorem evict (h : Tracks clock m reg) (hclock : clock ≤ now) {m' : Manager}
    (hm' : m'.subscribers = m.subscribers.filter fun _ sub => !expired now sub) :
    Tracks now m' reg := by
  refine ⟨fun key sub hget => ?_, fun a t interval hreg hle => ?_⟩
  · rw [hm', FiniteMap.get_filter, Option.filter_eq_some_iff] at hget
    exact h.registered key sub hget.1
  · rw [hm', FiniteMap.get_filter, h.kept a t interval hreg (hclock.trans hle)]
    simp [expired, Option.filter, hle]

theorem register (h : Tracks clock m reg) (a : UDPAddr) (interval : ℕ) :
    Tracks clock (m.register now a interval) (Function.update reg a (some (now, interval))) := by
  refine ⟨fun key sub hget => ?_, fun b t i hreg hle => ?_⟩
  · rw [Manager.register, FiniteMap.get_set] at hget
    split_ifs at hget with hkey
    · cases hget
      exact ⟨hkey, now, interval, by simp, rfl⟩
    · obtain ⟨hstring, t, i, hreg, hexp⟩ := h.registered key sub hget
      have hne : sub.addr ≠ a := fun heq => hkey (by rw [hstring, heq])
      exact ⟨hstring, t, i, by rw [Function.update_of_ne hne, hreg], hexp⟩
  · rw [Manager.register, FiniteMap.get_set]
    by_cases hb : b = a
    · subst hb
      rw [Function.update_self, Option.some.injEq, Prod.mk.injEq] at hreg
      obtain ⟨rfl, rfl⟩ := hreg
      rw [if_pos rfl]
    · rw [Function.update_of_ne hb] at hreg
      rw [if_neg fun hstring => hb (UDPAddr.string_injective hstring)]
      exact h.kept b t i hreg hle

theorem mem_audience (h : Tracks clock m reg) (hclock : clock ≤ now) (a : UDPAddr) :
    a ∈ m.audience now ↔ Live reg now a := by
  simp only [Manager.audience, Multiset.mem_map, Prod.exists, FiniteMap.mem_entries,
    FiniteMap.get_filter, Option.filter_eq_some_iff]
  constructor
  · intro hmem
    obtain ⟨key, sub, ⟨hget, hlive⟩, rfl⟩ := hmem
    obtain ⟨-, t, interval, hreg, hexp⟩ := h.registered key sub hget
    refine ⟨t, interval, hreg, ?_⟩
    simpa [expired, hexp] using hlive
  · intro hlive
    obtain ⟨t, interval, hreg, hle⟩ := hlive
    refine ⟨_, _, ⟨h.kept a t interval hreg (hclock.trans hle), ?_⟩, rfl⟩
    simpa [expired] using hle

theorem nodup_audience (h : Tracks clock m reg) : (m.audience now).Nodup := by
  have hkeys := (m.subscribers.filter fun _ sub => !expired now sub).nodup_keys
  have hstring : (m.audience now).map UDPAddr.string =
      (m.subscribers.filter fun _ sub => !expired now sub).entries.map Prod.fst := by
    rw [Manager.audience, Multiset.map_map]
    refine Multiset.map_congr rfl fun e he => ?_
    rw [FiniteMap.mem_entries, FiniteMap.get_filter, Option.filter_eq_some_iff] at he
    exact (h.registered e.1 e.2 he.1).1.symm
  rw [← hstring] at hkeys
  exact Multiset.Nodup.of_map _ hkeys

end Tracks
section Notify
variable {M : Type} [Float64 M] (m : Manager) (now : ℕ)

def sent (m m' : Manager) : Multiset (UDPAddr × Bytes) := (m'.conn.drop m.conn.length).sum

theorem sent_of_append {m m' : Manager} {batches : List (Multiset (UDPAddr × Bytes))}
    (h : m'.conn = m.conn ++ batches) : sent m m' = batches.sum := by
  rw [sent, h, List.drop_left]

theorem sent_of_quiet {m m' : Manager} (h : m'.conn = m.conn) : sent m m' = 0 := by
  rw [sent, h, List.drop_length, List.sum_nil]

theorem subscribers_notifyAll (u : AccountUpdate M) :
    (m.notifyAll now u).subscribers = m.subscribers.filter fun _ sub => !expired now sub := by
  rw [Manager.notifyAll]
  split_ifs with hempty
  · ext1 key
    rw [FiniteMap.get_filter]
    rcases hget : m.subscribers.get key with _ | sub
    · rfl
    · have hmem := FiniteMap.mem_entries.mpr hget
      rw [Multiset.card_eq_zero.mp hempty] at hmem
      exact absurd hmem (Multiset.notMem_zero _)
  · rfl

theorem conn_notifyAll (u : AccountUpdate M) :
    ∃ batches, (m.notifyAll now u).conn = m.conn ++ batches ∧
      batches.sum = (m.audience now).map fun a => (a, marshalCallbackUpdate u) := by
  rw [Manager.notifyAll]
  split_ifs with hempty
  · refine ⟨[], by simp, ?_⟩
    have hnone : m.audience now = 0 := by
      rw [Multiset.eq_zero_iff_forall_notMem]
      intro a ha
      simp only [Manager.audience, Multiset.mem_map, Prod.exists, FiniteMap.mem_entries,
        FiniteMap.get_filter, Option.filter_eq_some_iff] at ha
      obtain ⟨key, sub, ⟨hget, -⟩, -⟩ := ha
      have hmem := FiniteMap.mem_entries.mpr hget
      rw [Multiset.card_eq_zero.mp hempty] at hmem
      exact absurd hmem (Multiset.notMem_zero _)
    rw [hnone]
    rfl
  · refine ⟨_, rfl, ?_⟩
    rw [List.sum_singleton, Manager.audience, Multiset.map_map]
    rfl

theorem audience_notifyAll (u : AccountUpdate M) :
    (m.notifyAll now u).audience now = m.audience now := by
  have htwice : (m.subscribers.filter fun _ sub => !expired now sub).filter
      (fun _ sub => !expired now sub) = m.subscribers.filter fun _ sub => !expired now sub := by
    ext1 key
    rw [FiniteMap.get_filter, FiniteMap.get_filter]
    rcases m.subscribers.get key with _ | sub
    · rfl
    · by_cases hlive : expired now sub = true
      · simp [hlive, Option.filter]
      · simp [hlive, Option.filter]
  rw [Manager.audience, subscribers_notifyAll, htwice, Manager.audience]

theorem notifyEach (us : List (AccountUpdate M)) :
    ∃ batches, (us.foldl (fun m u => m.notifyAll now u) m).conn = m.conn ++ batches ∧
      batches.sum = (us.map fun u =>
        (m.audience now).map fun a => (a, marshalCallbackUpdate u)).sum := by
  induction us generalizing m with
  | nil => exact ⟨[], by simp, rfl⟩
  | cons u us ih =>
    obtain ⟨first, hfirst, hfirstSum⟩ := conn_notifyAll m now u
    obtain ⟨rest, hrest, hrestSum⟩ := ih (m.notifyAll now u)
    rw [audience_notifyAll] at hrestSum
    refine ⟨first ++ rest, ?_, ?_⟩
    · rw [List.foldl_cons, hrest, hfirst, List.append_assoc]
    · rw [List.sum_append, hfirstSum, hrestSum, List.map_cons, List.sum_cons]

theorem Tracks.notifyEach {clock now : ℕ} {m : Manager} {reg : Registrations}
    (h : Tracks clock m reg) (hclock : clock ≤ now) (us : List (AccountUpdate M)) :
    Tracks now (us.foldl (fun m u => m.notifyAll now u) m) reg := by
  induction us generalizing m clock with
  | nil => exact h.later hclock
  | cons u us ih => exact ih (h.evict hclock (subscribers_notifyAll m now u)) le_rfl

end Notify

theorem audience_congr {clock clock' now : ℕ} {m m' : Manager} {reg : Registrations}
    (h : Tracks clock m reg) (h' : Tracks clock' m' reg) (hclock : clock ≤ now)
    (hclock' : clock' ≤ now) : m.audience now = m'.audience now := by
  refine Multiset.Nodup.ext h.nodup_audience h'.nodup_audience |>.mpr fun a => ?_
  rw [h.mem_audience hclock, h'.mem_audience hclock']

end Monitor

namespace Server
variable {M : Type} [Money M] [Float64 M]

def Event.clock : Event → ℕ
  | .datagram _ now => now
  | .sweep now => now

def Chronological (es : List Event) : Prop := es.Pairwise fun e e' => e.clock ≤ e'.clock

def requests : List Event → List Arrival
  | [] => []
  | .datagram d now :: es => (d, now) :: requests es
  | .sweep _ :: es => requests es

def intervalOf (M : Type) [Float64 M] (data : Bytes) : Option ℕ :=
  match (parseRequest data : Option (Request M)) with
  | some (.monitor timeoutSeconds) => some (timeoutSeconds.toNat * second)
  | _ => none

def note (s : Server M) (reg : Registrations) : Event → Registrations
  | .datagram d now =>
    match intervalOf M d.data with
    | some interval =>
      if Executes s d then Function.update reg d.addr (some (now, interval)) else reg
    | none => reg
  | .sweep _ => reg

def registrations (s : Server M) (reg : Registrations) : List Event → Registrations
  | [] => reg
  | e :: es =>
    match step s e with
    | .ok s' => registrations s' (note s reg e) es
    | .error _ => reg

/-- The service and the account of each callback that a successful call causes. -/
def notifications : Op M → Result M → List (UInt8 × UInt32)
  | .openAccount _ _ _ _, .opened accNo => [(serviceOpenAccount, accNo)]
  | .closeAccount _ accNo _, .closed => [(serviceCloseAccount, accNo)]
  | .deposit _ accNo _ _ _, .balance _ => [(serviceDeposit, accNo)]
  | .withdraw _ accNo _ _ _, .balance _ => [(serviceWithdraw, accNo)]
  | .transfer _ accNo _ toAccNo _ _, .balances _ _ =>
    [(serviceTransferFunds, accNo), (serviceTransferFunds, toAccNo)]
  | _, _ => []

/-- The callbacks that a datagram has to cause: none unless it is executed. -/
def notified (s : Server M) (d : Datagram) : List (UInt8 × UInt32) :=
  match parseRequest d.data with
  | some (.bank op _) =>
    if Executes s d then notifications op (perform s.backend.store op).2 else []
  | _ => []

omit [Float64 M] in
theorem updatesOf_notifications (op : Op M) (txName : Bytes) (res : Result M) :
    (updatesOf op txName res).map (fun u => (u.serviceID, u.accountNumber)) =
      notifications op res := by
  cases op <;> cases res <;> rfl

theorem respond_mon (now : ℕ) (b : Backend M) (data : Bytes) (addr : UDPAddr) :
    (∃ interval, intervalOf M data = some interval ∧
        (∀ op txName, parseRequest (M := M) data ≠ some (.bank op txName)) ∧
        (respond now b data addr).1.mon = b.mon.register now addr interval) ∨
      (∃ op txName, intervalOf M data = none ∧
        parseRequest (M := M) data = some (.bank op txName) ∧
        (respond now b data addr).1.mon = (updatesOf op txName (perform b.store op).2).foldl
          (fun mon u => mon.notifyAll now u) b.mon) ∨
      (intervalOf M data = none ∧ parseRequest (M := M) data = none ∧
        (respond now b data addr).1.mon = b.mon) := by
  rcases hreq : (parseRequest data : Option (Request M)) with _ | ⟨op, txName⟩ | timeoutSeconds
  · refine .inr (.inr ⟨by simp only [intervalOf, hreq], rfl, ?_⟩)
    simp only [respond, hreq, outcome, refusal, Outcome.reply]
  · refine .inr (.inl ⟨op, txName, by simp only [intervalOf, hreq], rfl, ?_⟩)
    simp only [respond, hreq, outcome, serve, Outcome.reply]
  · refine .inl ⟨timeoutSeconds.toNat * second, by simp only [intervalOf, hreq], by simp, ?_⟩
    simp only [respond, hreq, outcome, serve, Outcome.reply]

theorem Dispatched.tracks {s s' : Server M} {d : Datagram} {now clock : ℕ}
    {res : Except DispatchError Bytes} {reg : Registrations} (hdisp : Dispatched s d now s' res)
    (h : Tracks clock s.backend.mon reg) (hclock : clock ≤ now) :
    Tracks now s'.backend.mon (note s reg (.datagram d now)) := by
  rw [note]
  rcases hdisp.backend with ⟨hexec, hbackend, -⟩ | ⟨hexec, hbackend⟩
  · rw [hbackend]
    rcases respond_mon now s.backend d.data d.addr with
      ⟨interval, hinterval, -, hmon⟩ | ⟨op, txName, hinterval, -, hmon⟩ | ⟨hinterval, -, hmon⟩
    · simp only [hmon, hinterval, if_pos hexec]
      exact (h.register d.addr interval).later hclock
    · simp only [hmon, hinterval]
      exact h.notifyEach hclock _
    · simp only [hmon, hinterval]
      exact h.later hclock
  · rw [hbackend]
    cases intervalOf M d.data with
    | none => exact h.later hclock
    | some interval =>
      simp only [if_neg hexec]
      exact h.later hclock

def callbackUpdates (s : Server M) (d : Datagram) : List (AccountUpdate M) :=
  match parseRequest d.data with
  | some (.bank op txName) =>
    if Executes s d then updatesOf op txName (perform s.backend.store op).2 else []
  | _ => []

theorem callbackUpdates_notified (s : Server M) (d : Datagram) :
    (callbackUpdates s d).map (fun u => (u.serviceID, u.accountNumber)) = notified s d := by
  rw [callbackUpdates, notified]
  rcases hreq : (parseRequest d.data : Option (Request M)) with _ | ⟨op, txName⟩ | timeout
  · rfl
  · by_cases hexec : Executes s d
    · simp only [if_pos hexec, updatesOf_notifications]
    · simp only [if_neg hexec, List.map_nil]
  · rfl

theorem Dispatched.sent {s s' : Server M} {d : Datagram} {now : ℕ}
    {res : Except DispatchError Bytes} (hdisp : Dispatched s d now s' res) :
    Monitor.sent s.backend.mon s'.backend.mon = ((callbackUpdates s d).map fun u =>
      (s.backend.mon.audience now).map fun a => (a, marshalCallbackUpdate u)).sum := by
  have hquiet : s'.backend.mon.conn = s.backend.mon.conn →
      Monitor.sent s.backend.mon s'.backend.mon = 0 := sent_of_quiet
  rcases hdisp.backend with ⟨hexec, hbackend, -⟩ | ⟨hexec, hbackend⟩
  · rcases respond_mon now s.backend d.data d.addr with
      ⟨interval, -, hbank, hmon⟩ | ⟨op, txName, -, hreq, hmon⟩ | ⟨-, hreq, hmon⟩
    · have hnone : callbackUpdates s d = [] := by
        rw [callbackUpdates]
        split
        · exact absurd ‹_› (hbank _ _)
        · rfl
      rw [hnone]
      exact hquiet (by rw [hbackend, hmon]; rfl)
    · obtain ⟨batches, hconn, hsum⟩ := notifyEach s.backend.mon now
        (updatesOf op txName (perform s.backend.store op).2)
      rw [← hmon, ← hbackend] at hconn
      simp only [callbackUpdates, hreq, if_pos hexec]
      rw [sent_of_append hconn, hsum]
    · simp only [callbackUpdates, hreq]
      exact hquiet (by rw [hbackend, hmon])
  · have hnone : callbackUpdates s d = [] := by
      rw [callbackUpdates]
      split
      · rw [if_neg hexec]
      · rfl
    rw [hnone]
    exact hquiet (by rw [hbackend])

theorem run_tracks {s : Server M} (hrun : Running s.dispatcher) {reg : Registrations}
    {clock now : ℕ}
    (h : Tracks clock s.backend.mon reg) {es : List Event} (hes : Chronological es)
    (hafter : ∀ e ∈ es, clock ≤ e.clock) (hbefore : ∀ e ∈ es, e.clock ≤ now)
    (hclock : clock ≤ now) :
    ∃ s', run s es = .ok s' ∧ s'.dispatcher.mode = s.dispatcher.mode ∧
      Tracks now s'.backend.mon (registrations s reg es) := by
  induction es generalizing s reg clock with
  | nil => exact ⟨s, rfl, rfl, h.later hclock⟩
  | cons e es ih =>
    obtain ⟨hfirst, hrest⟩ := List.pairwise_cons.mp hes
    have hnow : e.clock ≤ now := hbefore e List.mem_cons_self
    have hstart : clock ≤ e.clock := hafter e List.mem_cons_self
    obtain ⟨t, hstep, hmode, htracks⟩ : ∃ t, step s e = .ok t ∧
        t.dispatcher.mode = s.dispatcher.mode ∧ Tracks e.clock t.backend.mon (note s reg e) := by
      cases e with
      | datagram d time =>
        obtain ⟨t, res, hstep, hdisp⟩ := step_datagram hrun d time
        exact ⟨t, hstep, hdisp.mode, hdisp.tracks h hstart⟩
      | sweep time => exact ⟨sweep s time, rfl, rfl, h.evict hstart rfl⟩
    have hrunning : Running t.dispatcher := by
      rw [Running, hmode]
      exact hrun
    obtain ⟨s', hrun', hmode', htracks'⟩ := ih hrunning htracks hrest hfirst
      (fun e' he' => hbefore e' (List.mem_cons_of_mem e he')) hnow
    refine ⟨s', ?_, hmode'.trans hmode, ?_⟩
    · rw [run, List.foldlM_cons, hstep, ok_bind]
      exact hrun'
    · rw [registrations, hstep]
      exact htracks'

structure SameBank (s t : Server M) : Prop where
  dispatcher : s.dispatcher = t.dispatcher
  store : s.backend.store = t.backend.store

omit [Money M] [Float64 M] in
theorem SameBank.executes {s t : Server M} (h : SameBank s t) (d : Datagram) :
    Executes s d ↔ Executes t d := by
  rw [Executes, Executes, cachedReply, cachedReply, h.dispatcher]

theorem respond_sameBank (now : ℕ) {b c : Backend M} (h : b.store = c.store) (data : Bytes)
    (addr : UDPAddr) : (respond now b data addr).1.store = (respond now c data addr).1.store ∧
      (respond now b data addr).2 = (respond now c data addr).2 := by
  rcases hreq : (parseRequest data : Option (Request M)) with _ | ⟨op, txName⟩ | timeoutSeconds
  · simp [respond, hreq, outcome, refusal, Outcome.reply, h]
  · simp [respond, hreq, outcome, serve, Outcome.reply, h]
  · simp [respond, hreq, outcome, serve, Outcome.reply, h]

theorem answered_dispatcher {σ : Type} {d d₁ d₂ : Dispatcher} {s t s' t' : σ} {x : Datagram}
    {out out' : σ × Bytes} {r r' : Except DispatchError Bytes} (hreply : out.2 = out'.2)
    (h : Answered d s x out d₁ s' r) (h' : Answered d t x out' d₂ t' r') : d₁ = d₂ := by
  cases h <;> cases h' <;> simp_all

theorem Dispatched.sameBank {s t s' t' : Server M} {d : Datagram} {now : ℕ}
    {res res' : Except DispatchError Bytes} (h : SameBank s t) (hs : Dispatched s d now s' res)
    (ht : Dispatched t d now t' res') : SameBank s' t' := by
  obtain ⟨hstore, hreply⟩ := respond_sameBank now h.store d.data d.addr
  refine ⟨?_, ?_⟩
  · rw [Dispatched, h.dispatcher] at hs
    exact answered_dispatcher hreply hs ht
  · rcases hs.backend with ⟨hexec, hbackend, -⟩ | ⟨hexec, hbackend⟩
    · rcases ht.backend with ⟨-, hbackend', -⟩ | ⟨hexec', -⟩
      · rw [hbackend, hbackend', hstore]
      · exact absurd ((h.executes d).mp hexec) hexec'
    · rcases ht.backend with ⟨hexec', -, -⟩ | ⟨-, hbackend'⟩
      · exact absurd ((h.executes d).mpr hexec') hexec
      · rw [hbackend, hbackend', h.store]

/-- A run with its sweeps left out ends in the same bank with the same registrations. -/
theorem run_requests {s t : Server M} (h : SameBank s t) (hrun : Running s.dispatcher)
    (reg : Registrations) {es : List Event} {s' : Server M} (hes : run s es = .ok s') :
    ∃ t', run t ((requests es).map fun x => .datagram x.1 x.2) = .ok t' ∧ SameBank s' t' ∧
      registrations s reg es =
        registrations t reg ((requests es).map fun x => .datagram x.1 x.2) := by
  induction es generalizing s t reg with
  | nil =>
    cases hes
    exact ⟨t, rfl, h, rfl⟩
  | cons e es ih =>
    cases e with
    | datagram d now =>
      obtain ⟨s₁, res, hstep, hdisp⟩ := step_datagram hrun d now
      have hrun' : Running t.dispatcher := by rwa [← h.dispatcher]
      obtain ⟨t₁, res', hstep', hdisp'⟩ := step_datagram hrun' d now
      have hnote : note s reg (.datagram d now) = note t reg (.datagram d now) := by
        simp only [note, h.executes d]
      rw [run, List.foldlM_cons, hstep, ok_bind] at hes
      obtain ⟨t', ht', hsame, hreg⟩ := ih (Dispatched.sameBank h hdisp hdisp')
        (hdisp.running hrun) (note s reg (.datagram d now)) hes
      refine ⟨t', ?_, hsame, ?_⟩
      · rw [requests, List.map_cons, run, List.foldlM_cons, hstep', ok_bind]
        exact ht'
      · simp only [requests, List.map_cons, registrations, hstep, hstep']
        rw [← hnote]
        exact hreg
    | sweep now =>
      rw [run, List.foldlM_cons, step, pure_bind] at hes
      obtain ⟨t', ht', hsame, hreg⟩ := ih (s := sweep s now) ⟨h.dispatcher, h.store⟩ hrun reg hes
      exact ⟨t', ht', hsame, hreg⟩

theorem callbackUpdates_sameBank {s t : Server M} (h : SameBank s t) (d : Datagram) :
    callbackUpdates s d = callbackUpdates t d := by
  simp only [callbackUpdates, h.executes d, h.store]

omit [Money M] [Float64 M] in
theorem tracks_newServer (mode : Mode) :
    Tracks 0 (newServer (M := M) mode).backend.mon fun _ => none := by
  refine ⟨fun key sub hget => ?_, fun a t interval hreg => ?_⟩
  · simp [newServer, newManager] at hget
  · cases hreg

theorem reach_request {mode : Mode} (hmode : mode = .atLeastOnce ∨ mode = .atMostOnce)
    {es : List Event} {d : Datagram} {now : ℕ} (hes : Chronological (es ++ [.datagram d now])) :
    ∃ (s s' : Server M) (res : Except DispatchError Bytes), run (newServer mode) es = .ok s ∧
      receive s d now = .ok (s', res) ∧ Dispatched s d now s' res ∧
      Tracks now s.backend.mon (registrations (newServer (M := M) mode) (fun _ => none) es) := by
  obtain ⟨hsorted, -, hlast⟩ := List.pairwise_append.mp hes
  obtain ⟨s, hrun, hsmode, htracks⟩ := run_tracks (M := M) (running_newServer hmode)
    (tracks_newServer mode) hsorted (fun _ _ => Nat.zero_le _)
    (fun e he => hlast e he _ (List.mem_singleton_self _)) (Nat.zero_le now)
  have hrunning : Running s.dispatcher := by
    rw [Running, hsmode]
    exact hmode
  obtain ⟨⟨s', res⟩, hreceive, hdisp⟩ := receive_dispatched hrunning d now
  exact ⟨s, s', res, hrun, hreceive, hdisp, htracks⟩

/-- A request writes one packet per update to each client whose latest registration has not run
out, and a run with the sweeps placed otherwise sends the same packets. -/
theorem callbacks_exact {mode : Mode} (hmode : mode = .atLeastOnce ∨ mode = .atMostOnce)
    {es : List Event} {d : Datagram} {now : ℕ} (hes : Chronological (es ++ [.datagram d now])) :
    ∃ (s s' : Server M) (res : Except DispatchError Bytes) (recipients : Finset UDPAddr)
        (updates : List (AccountUpdate M)),
      run (newServer mode) es = .ok s ∧ receive s d now = .ok (s', res) ∧
        (∀ a, a ∈ recipients ↔
          Live (registrations (newServer (M := M) mode) (fun _ => none) es) now a) ∧
        updates.map (fun u => (u.serviceID, u.accountNumber)) = notified s d ∧
        sent s.backend.mon s'.backend.mon =
          (updates.map fun u => recipients.val.map fun a => (a, marshalCallbackUpdate u)).sum ∧
        ∀ es', Chronological (es' ++ [.datagram d now]) → requests es' = requests es →
          ∃ (t t' : Server M) (res' : Except DispatchError Bytes),
            run (newServer mode) es' = .ok t ∧ receive t d now = .ok (t', res') ∧
            sent t.backend.mon t'.backend.mon = sent s.backend.mon s'.backend.mon := by
  have hrunning : Running (newServer (M := M) mode).dispatcher := running_newServer hmode
  obtain ⟨s, s', res, hrun, hreceive, hdisp, htracks⟩ := reach_request (M := M) hmode hes
  refine ⟨s, s', res, ⟨_, htracks.nodup_audience⟩, callbackUpdates s d, hrun, hreceive,
    htracks.mem_audience le_rfl, callbackUpdates_notified s d, hdisp.sent, ?_⟩
  intro es' hes' hrequests
  obtain ⟨t, t', res', hrun', hreceive', hdisp', htracks'⟩ := reach_request (M := M) hmode hes'
  -- Both runs lead to the bank of the run without any sweep.
  obtain ⟨u, hu, hsame, hreg⟩ := run_requests ⟨rfl, rfl⟩ hrunning (fun _ => none) hrun
  obtain ⟨u', hu', hsame', hreg'⟩ := run_requests ⟨rfl, rfl⟩ hrunning (fun _ => none) hrun'
  rw [hrequests] at hu' hreg'
  obtain rfl : u = u' := Except.ok.inj (hu.symm.trans hu')
  have hbank : SameBank t s := ⟨hsame'.dispatcher.trans hsame.dispatcher.symm,
    hsame'.store.trans hsame.store.symm⟩
  have haudience : t.backend.mon.audience now = s.backend.mon.audience now := by
    rw [hreg'.trans hreg.symm] at htracks'
    exact audience_congr htracks' htracks le_rfl le_rfl
  refine ⟨t, t', res', hrun', hreceive', ?_⟩
  rw [hdisp'.sent, hdisp.sent, haudience, callbackUpdates_sameBank hbank]

def watchPacket : Datagram where
  data := packetOf ⟨2, 0, (0x7F000001, 4001)⟩
    { service := some 5, monitorTimeoutSeconds := some 10 }
  addr := .loopback 4001
  small := by decide +kernel

/-- A subscriber, swept at half its interval, is told of an opening at the end of it. -/
theorem opening_announced :
    ∃ (s s' : Server Binary64) (res : Except DispatchError Bytes) (recipients : Finset UDPAddr)
        (u : AccountUpdate Binary64),
      run (newServer .atMostOnce) [.datagram watchPacket 0, .sweep (5 * second)] = .ok s ∧
        receive s openingPacket (10 * second) = .ok (s', res) ∧
        (u.serviceID, u.accountNumber) = (serviceOpenAccount, 10000) ∧
        .loopback 4001 ∈ recipients ∧
        sent s.backend.mon s'.backend.mon =
          recipients.val.map fun a => (a, marshalCallbackUpdate u) := by
  have hsorted : Chronological ([.datagram watchPacket 0, .sweep (5 * second)] ++
      [.datagram openingPacket (10 * second)]) := by
    simp [Chronological, Event.clock, second]
  have hregistered : registrations (newServer (M := Binary64) .atMostOnce) (fun _ => none)
      [.datagram watchPacket 0, .sweep (5 * second)] (.loopback 4001) =
        some (0, 10 * second) := by
    decide +kernel
  have hnotified : (run (newServer (M := Binary64) .atMostOnce)
      [.datagram watchPacket 0, .sweep (5 * second)]).toOption.map
        (fun s => notified s openingPacket) = some [(serviceOpenAccount, 10000)] := by
    decide +kernel
  obtain ⟨s, s', res, recipients, updates, hrun, hreceive, hmem, hupdates, hsent, -⟩ :=
    callbacks_exact (M := Binary64) (.inr rfl) hsorted
  rw [hrun] at hnotified
  obtain ⟨u, rfl, hu⟩ := List.map_eq_singleton_iff.mp (hupdates.trans (Option.some.inj hnotified))
  refine ⟨s, s', res, recipients, u, hrun, hreceive, hu, ?_, ?_⟩
  · exact (hmem _).mpr ⟨0, 10 * second, hregistered, by simp⟩
  · rw [hsent, List.map_singleton, List.sum_singleton]

end Server
end DistributedBanking
