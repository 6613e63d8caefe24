import DistributedBanking.ConcurrentMonitor

/-!
# The sweeper cannot be noticed

Sweeps may come between any two registrations and notifications, also between
the two notifications of one transfer. They free memory only: as the clock does
not go back, the packets on the socket are those of a monitor that is never
swept, and every call has the time at which it read the clock.
-/

namespace DistributedBanking.Monitor.Concurrent
open Threads Marshalling

/-- What a call does at once, after `n` readings of the clock, in a monitor whose sweeps do nothing
else but read it. A notification does not, if everybody's time was over at an earlier reading, and
a count may leave out subscribers of whom that is true. -/
inductive Unswept {M : Type} [Float64 M] (clock : ℕ → ℕ) (m : Manager) (n : ℕ) :
    Call M → Manager × ℕ → Answer → Prop
  | registered {clientAddr : UDPAddr} {interval : ℕ} :
      Unswept clock m n (.register clientAddr interval)
        (m.register (clock n) clientAddr interval, n + 1) (.done (some (clock n)))
  | notified {update : AccountUpdate M} :
      Unswept clock m n (.notifyAll update) (m.notifyAll (clock n) update, n + 1)
        (.done (some (clock n)))
  | unheard {update : AccountUpdate M}
      (hover : ∀ key sub, m.subscribers.get key = some sub → ∃ k < n, expired (clock k) sub) :
      Unswept clock m n (.notifyAll update) (m, n) (.done none)
  | swept : Unswept clock m n .evictExpired (m, n + 1) (.done (some (clock n)))
  | counted {active : ℕ} (hmost : active ≤ m.subscribers.size)
      (hleast :
        (m.subscribers.filter fun _ sub => ∀ k < n, ¬ expired (clock k) sub).size ≤ active) :
      Unswept clock m n .activeCount (m, n) (.count active)

/-- A monitor that has been swept, and one that has not: they differ in subscribers whose time was
over at an earlier reading of the clock. -/
structure Alike (clock : ℕ → ℕ) (n : ℕ) (swept m : Manager) : Prop where
  kept : ∀ key sub, swept.subscribers.get key = some sub → m.subscribers.get key = some sub
  gone : ∀ key sub, m.subscribers.get key = some sub →
    swept.subscribers.get key = some sub ∨ ∃ k < n, expired (clock k) sub
  conn : swept.conn = m.conn

section Steps
variable {clock : ℕ → ℕ} {n now : ℕ} {swept m : Manager}

theorem Alike.refl (clock : ℕ → ℕ) (n : ℕ) (m : Manager) : Alike clock n m m :=
  ⟨fun _ _ h => h, fun _ _ h => .inl h, rfl⟩

theorem Alike.register (h : Alike clock n swept m) (clientAddr : UDPAddr) (interval : ℕ) :
    Alike clock (n + 1) (swept.register now clientAddr interval)
      (m.register now clientAddr interval) where
  kept key sub hget := by
    rw [Manager.register, FiniteMap.get_set] at hget ⊢
    split_ifs at hget ⊢
    · exact hget
    · exact h.kept key sub hget
  gone key sub hget := by
    rw [Manager.register, FiniteMap.get_set] at hget ⊢
    split_ifs at hget ⊢
    · exact .inl hget
    · refine (h.gone key sub hget).imp_right fun hover => ?_
      obtain ⟨k, hk, hexpired⟩ := hover
      exact ⟨k, by omega, hexpired⟩
  conn := h.conn

theorem Alike.sweep (h : Alike clock n swept m) :
    Alike clock (n + 1) (swept.evictExpired (clock n)) m where
  kept key sub hget := by
    rw [Manager.evictExpired, FiniteMap.get_filter, Option.filter_eq_some_iff] at hget
    exact h.kept key sub hget.1
  gone key sub hget := by
    rw [Manager.evictExpired, FiniteMap.get_filter]
    rcases h.gone key sub hget with hswept | ⟨k, hk, hexpired⟩
    · rw [hswept]
      cases hexpired : expired (clock n) sub with
      | false => simp [Option.filter, hexpired]
      | true => exact .inr ⟨n, by omega, hexpired⟩
    · exact .inr ⟨k, by omega, hexpired⟩
  conn := h.conn

theorem Alike.size_le (h : Alike clock n swept m) :
    swept.subscribers.size ≤ m.subscribers.size :=
  FiniteMap.size_le_of_submap h.kept

theorem Alike.le_size (h : Alike clock n swept m) :
    (m.subscribers.filter fun _ sub => ∀ k < n, ¬ expired (clock k) sub).size ≤
      swept.subscribers.size := by
  refine FiniteMap.size_le_of_submap fun key sub hget => ?_
  rw [FiniteMap.get_filter, Option.filter_eq_some_iff, decide_eq_true_iff] at hget
  refine (h.gone key sub hget.1).resolve_right fun hover => ?_
  obtain ⟨k, hk, hexpired⟩ := hover
  exact hget.2 k hk hexpired

variable (hclock : Monotone clock)
include hclock

theorem Alike.live (h : Alike clock n swept m) :
    (swept.subscribers.filter fun _ sub => !expired (clock n) sub) =
      m.subscribers.filter fun _ sub => !expired (clock n) sub := by
  refine FiniteMap.ext fun key => Option.ext fun sub => ?_
  simp only [FiniteMap.get_filter, Option.filter_eq_some_iff]
  refine and_congr_left fun hlive => ⟨h.kept key sub, fun hget => ?_⟩
  refine (h.gone key sub hget).resolve_right fun hover => ?_
  obtain ⟨k, hk, hexpired⟩ := hover
  have hle : clock k ≤ clock n := hclock hk.le
  simp only [expired, Bool.not_eq_eq_eq_not, Bool.not_true, decide_eq_false_iff_not,
    decide_eq_true_eq] at hlive hexpired
  omega

theorem Alike.notifyAll {M : Type} [Float64 M] (h : Alike clock n swept m)
    (hactive : swept.subscribers.size ≠ 0) (update : AccountUpdate M) :
    swept.notifyAll (clock n) update = m.notifyAll (clock n) update := by
  have hbusy : m.subscribers.size ≠ 0 := by
    intro hempty
    refine hactive (FiniteMap.size_eq_zero.mpr fun key => ?_)
    cases hget : swept.subscribers.get key with
    | none => rfl
    | some sub =>
      have hkept := h.kept key sub hget
      rw [FiniteMap.size_eq_zero.mp hempty key] at hkept
      cases hkept
  rw [notifyAll_busy update _ hactive, notifyAll_busy update _ hbusy, h.live hclock, h.conn]

theorem Alike.perform {M : Type} [Float64 M] (h : Alike clock n swept m) (call : Call M)
    {a : Manager × ℕ} {r : Answer} (hspec : perform clock (swept, n) call = (a, r)) :
    ∃ m', Unswept clock m n call (m', a.2) r ∧ Alike clock a.2 a.1 m' := by
  cases call with
  | register clientAddr interval =>
    cases hspec
    exact ⟨_, .registered, h.register clientAddr interval⟩
  | notifyAll update =>
    rw [Concurrent.perform] at hspec
    split_ifs at hspec with hactive
    · cases hspec
      refine ⟨m, .unheard fun key sub hget => (h.gone key sub hget).resolve_left ?_, h⟩
      rw [FiniteMap.size_eq_zero.mp hactive key]
      exact fun hsome => by cases hsome
    · cases hspec
      refine ⟨_, .notified, ?_⟩
      rw [h.notifyAll hclock hactive]
      exact .refl clock _ _
  | evictExpired =>
    cases hspec
    exact ⟨m, .swept, h.sweep⟩
  | activeCount =>
    cases hspec
    exact ⟨m, .counted h.size_le h.le_size, h⟩

theorem serial_unswept {ι M : Type} [Float64 M] {calls : ι → Call M} {history : List (ι × Answer)}
    {a : Manager × ℕ} (h : Serial (performed clock calls) (m, n) history a) :
    ∃ m', Serial (fun i a a' r => Unswept clock a.1 a.2 (calls i) a' r) (m, n) history (m', a.2) ∧
      Alike clock a.2 a.1 m' := by
  induction h with
  | nil => exact ⟨m, .nil, .refl clock n m⟩
  | @snoc history a a' i r _ hspec ih =>
    obtain ⟨m', hserial, halike⟩ := ih
    obtain ⟨m'', hunswept, halike'⟩ := halike.perform hclock (calls i) hspec
    exact ⟨m'', .snoc hserial hunswept, halike'⟩

end Steps

section Runs
variable {ι M : Type} [DecidableEq ι] [Float64 M] {calls : ι → Call M}
  {ranges : ι → MapRange Bytes Subscriber} {sched : List ι} {clock : ℕ → ℕ} {s : Memory}
  {m : Manager} {n : ℕ} {c : Config ι Unit Memory Answer}

/-- When registrations and notifications have run at once with sweeps, the socket has the packets
that they send one after the other, each at the time that it read, in a monitor that is not
swept. -/
theorem sweeper_invisible (hclock : Monotone clock) (hs : Represents clock s (m, n))
    (hrun : sched.foldlM step (start s ranges calls) = .ok c) :
    ∃ history b, Chronicle (fun i a a' r => Unswept clock a.1 a.2 (calls i) a' r)
        (start s ranges calls) sched (m, n) history b ∧
      (∀ i r, c.threads i = .done r → (i, r) ∈ history) ∧
      ((∀ i, ∃ r, c.threads i = .done r) → b.2 = c.mem.ticks ∧
        ∃ blocks : List (List (UDPAddr × Bytes)), c.mem.sent = blocks.flatten ∧
          b.1.conn = blocks.map Multiset.ofList) := by
  have hbusy : ∀ i r, method (ranges i) (calls i) ≠ .done r := by
    intro i r
    cases calls i <;> exact fun hdone => by cases hdone
  obtain ⟨history, a, hchronicle, hresults, hend⟩ :=
    guarded_run hs (fun i => verified_method (ranges i)) hbusy hrun
  obtain ⟨m', hserial, halike⟩ := serial_unswept hclock hchronicle.serial
  refine ⟨history, (m', a.2), ⟨hserial, hchronicle.once, hchronicle.began, hchronicle.realTime⟩,
    hresults, fun hdone => ?_⟩
  have hmem := hend hdone
  obtain ⟨blocks, hsent, hblocks⟩ := hmem.sent
  exact ⟨hmem.ticks.symm, blocks, hsent, halike.conn.symm.trans hblocks⟩

end Runs

inductive Watcher
  | leaves
  | stays
  | first
  | sweeps
  | counts
  | second
  deriving DecidableEq

def watching : Watcher → Call UInt64
  | .leaves => .register (UDPAddr.loopback 1) 2
  | .stays => .register (UDPAddr.loopback 2) 100
  | .first => .notifyAll ⟨1, 10000, [65], 1, 0⟩
  | .sweeps => .evictExpired
  | .counts => .activeCount
  | .second => .notifyAll ⟨1, 10000, [65], 1, 0⟩

def sortedAddresses (_ : Watcher) : MapRange Bytes Subscriber := .sorted MapRange.bytes_injective

def watchSchedule : List Watcher :=
  .replicate 4 .leaves ++ .replicate 4 .stays ++ .replicate 7 .first ++ .replicate 5 .sweeps ++
    .replicate 3 .counts ++ .replicate 6 .second

theorem watching_unswept :
    ∃ c, watchSchedule.foldlM step (start (newMemory id) sortedAddresses watching) = .ok c ∧
      c.mem.subscribers.size = 1 ∧
      c.mem.sent.map Prod.fst =
        [UDPAddr.loopback 1, UDPAddr.loopback 2, UDPAddr.loopback 2] ∧
      ∃ history b, Serial (fun i a a' r => Unswept id a.1 a.2 (watching i) a' r) (newManager, 0)
          history b ∧
        (.first, .done (some 2)) ∈ history ∧ (.counts, .count 1) ∈ history ∧
        (.second, .done (some 4)) ∈ history ∧
        b.2 = c.mem.ticks ∧ ∃ blocks : List (List (UDPAddr × Bytes)),
          c.mem.sent = blocks.flatten ∧ b.1.conn = blocks.map Multiset.ofList := by
  obtain ⟨c, hrun, hdone⟩ := Runs.exists_of_check
    (x := watchSchedule.foldlM step (start (newMemory id) sortedAddresses watching))
    (p := fun c => decide (c.mem.subscribers.size = 1 ∧
      c.mem.sent.map Prod.fst =
        [UDPAddr.loopback 1, UDPAddr.loopback 2, UDPAddr.loopback 2] ∧
      (c.threads .leaves).result = some (.done (some 0)) ∧
      (c.threads .stays).result = some (.done (some 1)) ∧
      (c.threads .first).result = some (.done (some 2)) ∧
      (c.threads .sweeps).result = some (.done (some 3)) ∧
      (c.threads .counts).result = some (.count 1) ∧
      (c.threads .second).result = some (.done (some 4))))
    (by decide +kernel)
  obtain ⟨hsize, hsent, hleaves, hstays, hfirst, hsweeps, hcounts, hsecond⟩ :=
    of_decide_eq_true hdone
  obtain ⟨history, b, hchronicle, hresults, hend⟩ :=
    sweeper_invisible monotone_id (newMemory_represents id) hrun
  have hall : ∀ i, ∃ r, c.threads i = .done r := by
    intro i
    cases i with
    | leaves => exact ⟨_, Prog.result_eq_some.mp hleaves⟩
    | stays => exact ⟨_, Prog.result_eq_some.mp hstays⟩
    | first => exact ⟨_, Prog.result_eq_some.mp hfirst⟩
    | sweeps => exact ⟨_, Prog.result_eq_some.mp hsweeps⟩
    | counts => exact ⟨_, Prog.result_eq_some.mp hcounts⟩
    | second => exact ⟨_, Prog.result_eq_some.mp hsecond⟩
  obtain ⟨hticks, hblocks⟩ := hend hall
  exact ⟨c, hrun, hsize, hsent, history, b, hchronicle.serial,
    hresults _ _ (Prog.result_eq_some.mp hfirst), hresults _ _ (Prog.result_eq_some.mp hcounts),
    hresults _ _ (Prog.result_eq_some.mp hsecond), hticks, hblocks⟩

end DistributedBanking.Monitor.Concurrent
