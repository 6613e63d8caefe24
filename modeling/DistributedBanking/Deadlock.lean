import DistributedBanking.LockOrder
import DistributedBanking.SoloCalls
import Mathlib.Order.WithBot
import Mathlib.Data.Fintype.Option

/-!
# No deadlock among the calls of the bank

Account mutexes rank by account number and the store's lock ranks above them
all: a transfer takes its two mutexes in that order, and the store is only
locked for one access to the map. Every call is ordered, so whatever calls run
side by side, one that has not finished never leaves all of them stuck.
-/

namespace DistributedBanking.Concurrent
open Store Banking Threads

def rank : Lock → WithTop (Fin UInt32.size)
  | .account acc => (acc.accountNumber.toFin : Fin UInt32.size)
  | .store => ⊤

variable {M : Type} {held : Lock → Option Access}

def AccountsOnly (held : Lock → Option Access) : Prop := held .store = none

theorem AccountsOnly.below (h : AccountsOnly held) : Below rank held .store := by
  intro l hl
  cases l with
  | account acc => exact WithTop.coe_lt_top _
  | store => exact absurd h hl

theorem accountsOnly_none : AccountsOnly fun _ => none := rfl

theorem below_of_none (l : Lock) : Below rank (fun _ => none) l := fun _ h => absurd rfl h

theorem balanced_getAccount (h : AccountsOnly held) (id : UInt32) :
    Balanced rank held (fun res => ∀ acc, res = .ok acc → acc.accountNumber = id)
      (getAccount id : Prog Lock (Memory M) _) := by
  refine Balanced.reading h.below (Balanced.read_bind fun s => ?_)
  cases hget : s.accounts.get id with
  | none => exact Balanced.done (by simp)
  | some acc =>
    refine Balanced.done fun acc' hacc' => ?_
    cases hacc'
    exact s.keyed id acc hget

theorem balanced_updateAccount (h : AccountsOnly held) (acc : Ref) :
    Balanced rank held (fun _ => True) (updateAccount acc : Prog Lock (Memory M) _) := by
  refine Balanced.writing h.below (Balanced.read_bind fun s => ?_)
  cases s.accounts.get (s.objects acc).accountNumber with
  | none => exact Balanced.done trivial
  | some _ => exact Balanced.write_bind (Balanced.done trivial)

theorem balanced_deleteAccount (h : AccountsOnly held) (id : UInt32) :
    Balanced rank held (fun _ => True) (deleteAccount id : Prog Lock (Memory M) _) := by
  refine Balanced.writing h.below (Balanced.read_bind fun s => ?_)
  cases s.accounts.get id with
  | none => exact Balanced.done trivial
  | some _ => exact Balanced.write_bind (Balanced.done trivial)

theorem balanced_createAccount (h : AccountsOnly held) (acc : Account M) :
    Balanced rank held (fun _ => True) (createAccount acc : Prog Lock (Memory M) _) :=
  Balanced.writing h.below (Balanced.read_bind fun _ _ =>
    Balanced.write_bind (Balanced.write_bind (Balanced.done trivial)))

theorem balanced_adjust (acc : Ref) (f : M → M) :
    Balanced rank held (fun _ => True) (adjust acc f : Prog Lock (Memory M) _) :=
  Balanced.read_bind fun _ => Balanced.write _

theorem balanced_settle (h : AccountsOnly held) (acc : Ref) :
    Balanced rank held (fun _ => True) (settle acc : Prog Lock (Memory M) _) := by
  refine (balanced_updateAccount h acc).bind fun res _ => ?_
  cases res with
  | error err => exact Balanced.done trivial
  | ok _ => exact Balanced.read_bind fun _ => Balanced.done trivial

theorem balanced_authorised {α : Type} {name : Bytes} {accNo : UInt32} {pw : Vector UInt8 8}
    {body : Ref → Prog Lock (Memory M) (Except BankingError α)}
    (hbody : ∀ acc held, AccountsOnly held → Balanced rank held (fun _ => True) (body acc)) :
    Balanced rank (fun _ => none) (fun _ => True) (do
      match ← getAccount accNo with
      | .error _ => return .error .errInvalidCredentials
      | .ok acc =>
        match ← .read fun s => checkAuth (s.objects acc) name pw with
        | .error err => return .error err
        | .ok () => .locked (.account acc) (body acc)) := by
  refine (balanced_getAccount accountsOnly_none accNo).bind fun res _ => ?_
  cases res with
  | error err => exact Balanced.done trivial
  | ok acc =>
    refine Balanced.read_bind fun s => ?_
    cases checkAuth (s.objects acc) name pw with
    | error err => exact Balanced.done trivial
    | ok _ => exact Balanced.locked (below_of_none _) (hbody acc _ rfl)

theorem balanced_closeAccount (name : Bytes) (accNo : UInt32) (pw : Vector UInt8 8) :
    Balanced rank (fun _ => none) (fun _ => True)
      (closeAccount name accNo pw : Prog Lock (Memory M) _) :=
  balanced_authorised fun acc held h => by
    refine (balanced_deleteAccount h accNo).bind fun res _ => ?_
    cases res <;> exact Balanced.done trivial

theorem balanced_checkBalance (name : Bytes) (accNo : UInt32) (pw : Vector UInt8 8) :
    Balanced rank (fun _ => none) (fun _ => True)
      (checkBalance name accNo pw : Prog Lock (Memory M) _) :=
  balanced_authorised fun _ _ _ => Balanced.read_bind fun _ => Balanced.done trivial

theorem balanced_ite {α : Type} {c : Prop} [Decidable c] {p q : Prog Lock (Memory M) α}
    {Q : α → Prop} (hp : Balanced rank held Q p) (hq : Balanced rank held Q q) :
    Balanced rank held Q (if c then p else q) := by
  split_ifs
  · exact hp
  · exact hq

section Movements
variable [Money M]

theorem balanced_deposit (name : Bytes) (accNo : UInt32) (pw : Vector UInt8 8) (curr : UInt8)
    (amount : M) :
    Balanced rank (fun _ => none) (fun _ => True) (deposit name accNo pw curr amount) := by
  refine balanced_ite (Balanced.done trivial) (balanced_authorised fun acc held h => ?_)
  refine Balanced.read_bind fun _ => balanced_ite (Balanced.done trivial) ?_
  exact (balanced_adjust acc _).bind fun _ _ => balanced_settle h acc

theorem balanced_withdraw (name : Bytes) (accNo : UInt32) (pw : Vector UInt8 8) (curr : UInt8)
    (amount : M) :
    Balanced rank (fun _ => none) (fun _ => True) (withdraw name accNo pw curr amount) := by
  refine balanced_ite (Balanced.done trivial) (balanced_authorised fun acc held h => ?_)
  refine Balanced.read_bind fun _ => balanced_ite (Balanced.done trivial) ?_
  refine Balanced.read_bind fun _ => balanced_ite (Balanced.done trivial) ?_
  exact (balanced_adjust acc _).bind fun _ _ => balanced_settle h acc

theorem balanced_move (h : AccountsOnly held) (fromAcc toAcc : Ref) (amount : M) :
    Balanced rank held (fun _ => True) (move fromAcc toAcc amount) := by
  refine Balanced.read_bind fun _ => balanced_ite (Balanced.done trivial) ?_
  refine (balanced_adjust fromAcc _).bind fun _ _ => (balanced_adjust toAcc _).bind fun _ _ => ?_
  refine (balanced_updateAccount h fromAcc).bind fun _ _ => ?_
  refine (balanced_updateAccount h toAcc).bind fun _ _ => ?_
  exact Balanced.read_bind fun _ => Balanced.read_bind fun _ => Balanced.done trivial

end Movements

theorem account_ne {acc acc' : Ref} (h : acc.accountNumber ≠ acc'.accountNumber) :
    Lock.account acc ≠ Lock.account acc' :=
  fun heq => h (congrArg Ref.accountNumber (Lock.account.inj heq))

def bothHeld (fromAcc toAcc : Ref) : Lock → Option Access :=
  Function.update (Function.update (fun _ => none) (.account fromAcc) (some .write))
    (.account toAcc) (some .write)

theorem below_second {first second : Ref} (h : first.accountNumber < second.accountNumber) :
    Below rank (Function.update (fun _ => none) (.account first) (some .write))
      (.account second) := by
  intro l hl
  have hfirst : l = .account first := by
    by_contra hne
    simp [hne] at hl
  subst hfirst
  exact WithTop.coe_lt_coe.mpr h

theorem ordered_lockInOrder {fromAcc toAcc : Ref}
    (hne : fromAcc.accountNumber ≠ toAcc.accountNumber) :
    Ordered rank (fun _ held => held = bothHeld fromAcc toAcc)
      (lockInOrder fromAcc toAcc : Prog Lock (Memory M) Unit) (fun _ => none) := by
  refine Ordered.read_bind fun s => Ordered.read_bind fun s' => ?_
  simp only [s.named, s'.named]
  split_ifs with hlt
  · exact ⟨below_of_none _, below_second hlt, rfl⟩
  · have hgt : toAcc.accountNumber < fromAcc.accountNumber := by
      have hnat : fromAcc.accountNumber.toNat ≠ toAcc.accountNumber.toNat :=
        fun h => hne (UInt32.toNat_inj.mp h)
      rw [UInt32.lt_iff_toNat_lt] at hlt ⊢
      omega
    exact ⟨below_of_none _, below_second hgt, Function.update_comm (account_ne hne).symm _ _ _⟩

theorem balanced_transfer [Money M] (fromName : Bytes) (fromAccNo : UInt32) (pw : Vector UInt8 8)
    (toAccNo : UInt32) (curr : UInt8) (amount : M) :
    Balanced rank (fun _ => none) (fun _ => True)
      (transfer fromName fromAccNo pw toAccNo curr amount) := by
  rw [transfer]
  by_cases hpos : amount ≤ 0
  · rw [if_pos hpos]
    exact Balanced.done trivial
  by_cases heq : fromAccNo = toAccNo
  · rw [if_neg hpos, if_pos heq]
    exact Balanced.done trivial
  rw [if_neg hpos, if_neg heq]
  refine (balanced_getAccount accountsOnly_none fromAccNo).bind fun res hfrom => ?_
  cases res with
  | error err => exact Balanced.done trivial
  | ok fromAcc =>
    refine (balanced_getAccount accountsOnly_none toAccNo).bind fun res hto => ?_
    cases res with
    | error err => exact Balanced.done trivial
    | ok toAcc =>
      refine Balanced.read_bind fun s => ?_
      cases checkAuth (s.objects fromAcc) fromName pw with
      | error err => exact Balanced.done trivial
      | ok _ =>
        refine Balanced.read_bind fun _ => Balanced.read_bind fun _ =>
          balanced_ite (Balanced.done trivial) ?_
        have hne : fromAcc.accountNumber ≠ toAcc.accountNumber := by
          rwa [hfrom fromAcc rfl, hto toAcc rfl]
        refine (ordered_lockInOrder hne).bind fun _ held hheld => ?_
        subst hheld
        have hmove := balanced_move (show AccountsOnly (bothHeld fromAcc toAcc) from rfl)
          fromAcc toAcc amount
        refine Ordered.bind hmove fun res held hheld => ?_
        rw [hheld.2]
        refine Ordered.op (o := .unlock) (by simp [bothHeld, LockOp.Allowed]) ?_
        refine Ordered.op (o := .unlock) ?_ ⟨trivial, ?_⟩
        · simp [bothHeld, LockOp.Allowed, LockOp.after, account_ne hne]
        · funext l
          by_cases hl : l = .account fromAcc <;> by_cases hl' : l = .account toAcc <;>
            simp [bothHeld, LockOp.after, hl, hl', (account_ne hne).symm]

theorem balanced_program [Money M] (op : Op M) :
    Balanced rank (fun _ => none) (fun _ => True) (program op) := by
  cases op with
  | openAccount name pw curr balance =>
    exact (balanced_createAccount accountsOnly_none _).bind fun _ _ => Balanced.done trivial
  | closeAccount name accNo pw =>
    refine (balanced_closeAccount name accNo pw).bind fun res _ => ?_
    cases res <;> exact Balanced.done trivial
  | checkBalance name accNo pw =>
    refine (balanced_checkBalance name accNo pw).bind fun res _ => ?_
    cases res <;> exact Balanced.done trivial
  | deposit name accNo pw curr amount =>
    refine (balanced_deposit name accNo pw curr amount).bind fun res _ => ?_
    cases res <;> exact Balanced.done trivial
  | withdraw name accNo pw curr amount =>
    refine (balanced_withdraw name accNo pw curr amount).bind fun res _ => ?_
    cases res <;> exact Balanced.done trivial
  | transfer fromName fromAccNo pw toAccNo curr amount =>
    refine (balanced_transfer fromName fromAccNo pw toAccNo curr amount).bind fun res _ => ?_
    cases res <;> exact Balanced.done trivial

variable {ι : Type} [DecidableEq ι] [Money M] {s : Memory M} {calls : ι → Op M}
  {sched : List ι} {c : Config ι Lock (Memory M) (Result M)}

theorem disciplined_run (hrun : sched.foldlM step (start s calls) = .ok c) : Disciplined rank c :=
  (Disciplined.start s fun i => balanced_program (calls i)).run hrun

/-- With nobody else in a lock, a call ends with the result and the store of `perform`. -/
theorem solo_call (s : Memory M) (calls : ι → Op M) (i : ι) :
    ∃ n c, (List.replicate n i).foldlM step (start s calls) = .ok c ∧
      c.threads i = .done (perform s.view (calls i)).2 ∧
      c.mem.view = (perform s.view (calls i)).1 := by
  have hstart : Disciplined rank (start s calls) :=
    Disciplined.start s fun i => balanced_program (calls i)
  obtain ⟨n, c, hrun, hdone, hmem⟩ := hstart.solo_run (i := i) fun _ _ _ => rfl
  obtain ⟨hres, hview⟩ := refines_program s (calls i)
  exact ⟨n, c, hrun, by rw [hdone, ← hres]; rfl, by rw [hmem, ← hview]; rfl⟩

/-- As long as a call has not finished, some unfinished call has a step. -/
theorem no_deadlock (hrun : sched.foldlM step (start s calls) = .ok c)
    (hunfinished : ∃ i, ∀ res, c.threads i ≠ .done res) :
    ∃ j c', (∀ res, c.threads j ≠ .done res) ∧ step c j = .ok c' := by
  obtain ⟨i, hi⟩ := hunfinished
  obtain ⟨j, c', hstep⟩ := (disciplined_run hrun).deadlock_free hi
  refine ⟨j, c', fun res hdone => ?_, hstep⟩
  simp [step, hdone] at hstep

def opposite : Fin 2 → Op ℚ
  | 0 => .transfer [65] 10000 (.replicate 8 0) 10001 1 30
  | 1 => .transfer [66] 10001 (.replicate 8 0) 10000 1 20

def halfway : List (Fin 2) := .replicate 12 0 ++ .replicate 11 1

theorem opposite_goes_on :
    ∃ c, halfway.foldlM step (start twoAccounts opposite) = .ok c ∧
      ∃ j c', (∀ res, c.threads j ≠ .done res) ∧ step c j = .ok c' := by
  obtain ⟨c, hrun, hcheck⟩ := Runs.exists_of_check
    (x := halfway.foldlM step (start twoAccounts opposite))
    (p := fun c => decide ((c.threads 1).result = none)) (by decide +kernel)
  have hunfinished := Prog.result_eq_none.mp (of_decide_eq_true hcheck)
  exact ⟨c, hrun, no_deadlock hrun ⟨1, hunfinished⟩⟩

end DistributedBanking.Concurrent
