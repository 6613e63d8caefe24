import DistributedBanking.ConcurrentBank
import DistributedBanking.LockOrder

/-!
# A call with nobody else running

The step model of a call and the sequential model agree: run alone, a call ends
with the result of `perform` and leaves the store, as the pointers show it, the
way `perform` leaves it.
-/

namespace DistributedBanking.Concurrent
open Store Banking Threads Prog

variable {M : Type}

theorem view_setBalance {s : Memory M} {acc : Ref}
    (h : s.accounts.get acc.accountNumber = some acc) (balance : M) :
    (s.setBalance acc balance).view = setBalance s.view acc.accountNumber balance := by
  have hview : s.view.accounts.get acc.accountNumber = some (s.objects acc) := by simp [h]
  refine MemoryStore.ext (FiniteMap.ext fun id => ?_) (by simp [Memory.view, Memory.setBalance])
  rw [setBalance_accounts hview, FiniteMap.get_set, Memory.view_get, Memory.view_get,
    Memory.setBalance_accounts]
  by_cases hid : id = acc.accountNumber
  · simp [hid, h]
  · rw [if_neg hid]
    refine Option.map_congr fun acc' hacc' => ?_
    simp [Memory.ref_ne hacc' h hid]

theorem alone_getAccount (id : UInt32) (s : Memory M) :
    (getAccount id).alone s = (match s.accounts.get id with
      | none => .error .errAccountNotFound
      | some acc => .ok acc, s) := by
  simp only [getAccount, alone_reading, alone_bind, alone_read]
  cases s.accounts.get id <;> rfl

theorem alone_updateAccount {s : Memory M} {acc : Ref}
    (h : s.accounts.get acc.accountNumber = some acc) :
    (updateAccount acc).alone s = (.ok (), s) := by
  simp only [updateAccount, alone_writing, alone_bind, alone_read, s.named, h, alone_write,
    Memory.setEntry_self h]
  rfl

theorem alone_adjust (acc : Ref) (f : M → M) (s : Memory M) :
    (adjust acc f).alone s = ((), s.setBalance acc (f (s.objects acc).balance)) := rfl

theorem getAccount_view (s : Memory M) (id : UInt32) :
    Store.getAccount s.view id = match s.accounts.get id with
      | none => .error .errAccountNotFound
      | some acc => .ok (s.objects acc) := by
  cases h : s.accounts.get id <;> simp [Store.getAccount, h]

/-- Run alone, the program does to the view of the memory what `r` says. -/
def Refines {α : Type} (p : Prog Lock (Memory M) α) (s : Memory M) (r : MemoryStore M × α) :
    Prop :=
  (p.alone s).1 = r.2 ∧ (p.alone s).2.view = r.1

theorem Refines.finish {α β : Type} {p : Prog Lock (Memory M) α} {s : Memory M}
    {r : MemoryStore M × α} (h : Refines p s r) {next : α → Prog Lock (Memory M) β}
    {r' : MemoryStore M × β}
    (hnext : ∀ t a, r = (t, a) → ∃ b, next a = .done b ∧ r' = (t, b)) :
    Refines (p >>= next) s r' := by
  obtain ⟨t, a⟩ := r
  obtain ⟨hres, hview⟩ := h
  dsimp only at hres hview
  obtain ⟨b, hb, rfl⟩ := hnext t a rfl
  simp only [Refines, alone_bind, hres, hb, alone]
  exact ⟨trivial, hview⟩

theorem refines_checkBalance (s : Memory M) (name : Bytes) (accNo : UInt32)
    (pw : Vector UInt8 8) :
    Refines (checkBalance name accNo pw) s (s.view, Banking.checkBalance s.view name accNo pw) := by
  simp only [Refines, checkBalance, Banking.checkBalance, alone_bind, alone_getAccount,
    getAccount_view]
  cases s.accounts.get accNo with
  | none => exact ⟨rfl, rfl⟩
  | some acc =>
    simp only [alone_read_bind]
    cases checkAuth (s.objects acc) name pw with
    | error err => exact ⟨rfl, rfl⟩
    | ok _ => exact ⟨rfl, rfl⟩

theorem refines_authorised {α : Type} {s : Memory M} {name : Bytes} {accNo : UInt32}
    {pw : Vector UInt8 8} {body : Ref → Prog Lock (Memory M) (Except BankingError α)}
    {spec : Account M → MemoryStore M × Except BankingError α}
    (hbody : ∀ acc, s.accounts.get accNo = some acc →
      Refines (body acc) s (spec (s.objects acc))) :
    Refines (do
      match ← getAccount accNo with
      | .error _ => return .error .errInvalidCredentials
      | .ok acc =>
        match ← .read fun s => checkAuth (s.objects acc) name pw with
        | .error err => return .error err
        | .ok () => .locked (.account acc) (body acc)) s
      (match Store.getAccount s.view accNo with
      | .error _ => (s.view, .error .errInvalidCredentials)
      | .ok acc =>
        match checkAuth acc name pw with
        | .error err => (s.view, .error err)
        | .ok () => spec acc) := by
  simp only [Refines, alone_bind, alone_getAccount, getAccount_view]
  cases hget : s.accounts.get accNo with
  | none => exact ⟨rfl, rfl⟩
  | some acc =>
    simp only [alone_read_bind]
    cases checkAuth (s.objects acc) name pw with
    | error err => exact ⟨rfl, rfl⟩
    | ok _ =>
      simp only [alone_locked]
      exact hbody acc hget

theorem refines_closeAccount (s : Memory M) (name : Bytes) (accNo : UInt32)
    (pw : Vector UInt8 8) :
    Refines (closeAccount name accNo pw) s (Banking.closeAccount s.view name accNo pw) := by
  refine refines_authorised fun acc hget => ?_
  have hview : s.view.accounts.get accNo = some (s.objects acc) := by simp [hget]
  simp only [Refines, alone_bind, deleteAccount, alone_writing, alone_read, hget, alone_write,
    deleteAccount_some hview]
  refine ⟨rfl, MemoryStore.ext (FiniteMap.ext fun id => ?_) rfl⟩
  by_cases hid : id = accNo <;> simp [alone, Memory.deleteEntry, FiniteMap.get_delete, hid]

theorem refines_openAccount (s : Memory M) (name : Bytes) (pw : Vector UInt8 8) (curr : UInt8)
    (balance : M) :
    Refines (openAccount name pw curr balance) s
      (Banking.openAccount s.view name pw curr balance) := by
  refine ⟨rfl, MemoryStore.ext (FiniteMap.ext fun id => ?_) rfl⟩
  let acc : Account M := ⟨s.nextID, name, pw, curr, balance⟩
  have hentry : ((openAccount name pw curr balance).alone s).2.accounts =
      s.accounts.set s.nextID (s.fresh acc) := by
    simp [openAccount, createAccount, alone_bind, alone, Memory.setEntry, Memory.allocate, acc]
  have hobjects : ((openAccount name pw curr balance).alone s).2.objects =
      Function.update s.objects (s.fresh acc) acc := rfl
  rw [Memory.view_get, hentry, hobjects, Banking.openAccount, createAccount_accounts,
    FiniteMap.get_set, FiniteMap.get_set, Memory.view_nextID]
  by_cases hid : id = s.nextID
  · simp [hid, acc]
  · rw [if_neg hid, if_neg hid, Memory.view_get]
    refine Option.map_congr fun acc' hacc' => ?_
    have hne : acc' ≠ s.fresh acc := by
      intro hsame
      subst hsame
      exact hid (s.keyed id _ hacc').symm
    simp [hne]

theorem refines_adjust_settle {s : Memory M} {accNo : UInt32} {acc : Ref}
    (hget : s.accounts.get accNo = some acc) (f : M → M) :
    Refines (do adjust acc f; settle acc) s
      (setBalance s.view accNo (f (s.objects acc).balance), .ok (f (s.objects acc).balance)) := by
  have hkey := s.keyed accNo acc hget
  subst hkey
  have hstored : (s.setBalance acc (f (s.objects acc).balance)).accounts.get acc.accountNumber =
      some acc := hget
  simp only [Refines, alone_bind, alone_adjust, settle, alone_updateAccount hstored]
  simp [alone, view_setBalance hget]

section Movements
variable [Money M]

theorem refines_deposit (s : Memory M) (name : Bytes) (accNo : UInt32) (pw : Vector UInt8 8)
    (curr : UInt8) (amount : M) :
    Refines (deposit name accNo pw curr amount) s
      (Banking.deposit s.view name accNo pw curr amount) := by
  rw [deposit, Banking.deposit]
  by_cases hpos : amount ≤ 0
  · rw [if_pos hpos, if_pos hpos]
    exact ⟨rfl, rfl⟩
  rw [if_neg hpos, if_neg hpos]
  refine refines_authorised fun acc hget => ?_
  have hview : s.view.accounts.get accNo = some (s.objects acc) := by simp [hget]
  have hadjust := refines_adjust_settle hget (· + amount)
  simp only [Refines, alone_read_bind] at hadjust ⊢
  by_cases hcurr : (s.objects acc).currencyType ≠ curr
  · rw [if_pos hcurr, if_pos hcurr]
    exact ⟨rfl, rfl⟩
  rw [if_neg hcurr, if_neg hcurr]
  simp only [updateAccount_setBalance hview]
  exact hadjust

theorem refines_withdraw (s : Memory M) (name : Bytes) (accNo : UInt32) (pw : Vector UInt8 8)
    (curr : UInt8) (amount : M) :
    Refines (withdraw name accNo pw curr amount) s
      (Banking.withdraw s.view name accNo pw curr amount) := by
  rw [withdraw, Banking.withdraw]
  by_cases hpos : amount ≤ 0
  · rw [if_pos hpos, if_pos hpos]
    exact ⟨rfl, rfl⟩
  rw [if_neg hpos, if_neg hpos]
  refine refines_authorised fun acc hget => ?_
  have hview : s.view.accounts.get accNo = some (s.objects acc) := by simp [hget]
  have hadjust := refines_adjust_settle hget (· - amount)
  simp only [Refines, alone_read_bind] at hadjust ⊢
  by_cases hcurr : (s.objects acc).currencyType ≠ curr
  · rw [if_pos hcurr, if_pos hcurr]
    exact ⟨rfl, rfl⟩
  rw [if_neg hcurr, if_neg hcurr, alone_read_bind]
  by_cases hfunds : (s.objects acc).balance < amount
  · rw [if_pos hfunds, if_pos hfunds]
    exact ⟨rfl, rfl⟩
  rw [if_neg hfunds, if_neg hfunds]
  simp only [updateAccount_setBalance hview]
  exact hadjust

omit [Money M] in
theorem alone_lockInOrder (fromAcc toAcc : Ref) (s : Memory M) :
    (lockInOrder fromAcc toAcc).alone s = ((), s) := by
  simp only [lockInOrder, alone_read_bind]
  split_ifs <;> rfl

theorem alone_move {s : Memory M} {fromAcc toAcc : Ref}
    (hfrom : s.accounts.get fromAcc.accountNumber = some fromAcc)
    (hto : s.accounts.get toAcc.accountNumber = some toAcc) (hne : toAcc ≠ fromAcc) {amount : M}
    (hfunds : ¬ (s.objects fromAcc).balance < amount) :
    (move fromAcc toAcc amount).alone s =
      (.ok ((s.objects fromAcc).balance - amount, (s.objects toAcc).balance + amount),
        (s.setBalance fromAcc ((s.objects fromAcc).balance - amount)).setBalance toAcc
          ((s.objects toAcc).balance + amount)) := by
  have hobject : ((s.setBalance fromAcc ((s.objects fromAcc).balance - amount)).objects toAcc) =
      s.objects toAcc := by simp [hne]
  rw [move, alone_read_bind, if_neg hfunds]
  simp only [alone_bind, alone_adjust, hobject]
  generalize hs' : (s.setBalance fromAcc ((s.objects fromAcc).balance - amount)).setBalance toAcc
    ((s.objects toAcc).balance + amount) = s'
  have haccounts : s'.accounts = s.accounts := by simp [← hs']
  rw [← haccounts] at hfrom hto
  simp only [alone_updateAccount hfrom, alone_updateAccount hto]
  simp [alone, ← hs', Ne.symm hne]

theorem refines_transfer (s : Memory M) (fromName : Bytes) (fromAccNo : UInt32)
    (pw : Vector UInt8 8) (toAccNo : UInt32) (curr : UInt8) (amount : M) :
    Refines (transfer fromName fromAccNo pw toAccNo curr amount) s
      (Banking.transfer s.view fromName fromAccNo pw toAccNo curr amount) := by
  simp only [Refines, transfer, Banking.transfer]
  by_cases hpos : amount ≤ 0
  · simp only [if_pos hpos]
    exact ⟨rfl, rfl⟩
  by_cases heq : fromAccNo = toAccNo
  · simp only [if_neg hpos, if_pos heq]
    exact ⟨rfl, rfl⟩
  simp only [if_neg hpos, if_neg heq, alone_bind, alone_getAccount, getAccount_view]
  cases hget : s.accounts.get fromAccNo with
  | none => exact ⟨rfl, rfl⟩
  | some fromAcc =>
    simp only [alone_bind, alone_getAccount]
    cases hgetTo : s.accounts.get toAccNo with
    | none => exact ⟨rfl, rfl⟩
    | some toAcc =>
      simp only [alone_read_bind]
      cases checkAuth (s.objects fromAcc) fromName pw with
      | error err => exact ⟨rfl, rfl⟩
      | ok _ =>
        simp only [alone_read_bind]
        by_cases hcurr : (s.objects fromAcc).currencyType ≠ curr ∨
            (s.objects fromAcc).currencyType ≠ (s.objects toAcc).currencyType
        · simp only [if_pos hcurr]
          exact ⟨rfl, rfl⟩
        simp only [if_neg hcurr, alone_bind, alone_lockInOrder]
        by_cases hfunds : (s.objects fromAcc).balance < amount
        · simp only [move, alone_read_bind, if_pos hfunds]
          exact ⟨rfl, rfl⟩
        have hkey := s.keyed fromAccNo fromAcc hget
        have hkeyTo := s.keyed toAccNo toAcc hgetTo
        have hstored : s.accounts.get fromAcc.accountNumber = some fromAcc := by rw [hkey, hget]
        have hstoredTo : s.accounts.get toAcc.accountNumber = some toAcc := by rw [hkeyTo, hgetTo]
        have hne : toAcc ≠ fromAcc := Memory.ref_ne hgetTo hget (Ne.symm heq)
        have hfrom : s.view.accounts.get fromAccNo = some (s.objects fromAcc) := by simp [hget]
        have hto : s.view.accounts.get toAccNo = some (s.objects toAcc) := by simp [hgetTo]
        obtain ⟨-, -, hup, hup'⟩ := transfer_writes hfrom hto heq
          ((s.objects fromAcc).balance - amount) ((s.objects toAcc).balance + amount)
        simp only [alone_move hstored hstoredTo hne hfunds, if_neg hfunds, hup, hup']
        refine ⟨rfl, ?_⟩
        change ((s.setBalance fromAcc _).setBalance toAcc _).view = _
        rw [view_setBalance (s := s.setBalance _ _) hstoredTo, view_setBalance hstored, hkey,
          hkeyTo]

theorem refines_program (s : Memory M) (op : Op M) :
    Refines (program op) s (perform s.view op) := by
  cases op with
  | openAccount name pw curr balance =>
    exact (refines_openAccount s name pw curr balance).finish fun t accNo hr =>
      ⟨_, rfl, by simp only [perform, hr]⟩
  | closeAccount name accNo pw =>
    refine (refines_closeAccount s name accNo pw).finish fun t res hr => ?_
    cases res <;> exact ⟨_, rfl, by simp only [perform, hr]⟩
  | checkBalance name accNo pw =>
    refine (refines_checkBalance s name accNo pw).finish fun t res hr => ?_
    cases hr
    simp only [perform]
    cases Banking.checkBalance s.view name accNo pw <;> exact ⟨_, rfl, rfl⟩
  | deposit name accNo pw curr amount =>
    refine (refines_deposit s name accNo pw curr amount).finish fun t res hr => ?_
    cases res <;> exact ⟨_, rfl, by simp only [perform, hr]⟩
  | withdraw name accNo pw curr amount =>
    refine (refines_withdraw s name accNo pw curr amount).finish fun t res hr => ?_
    cases res <;> exact ⟨_, rfl, by simp only [perform, hr]⟩
  | transfer fromName fromAccNo pw toAccNo curr amount =>
    refine (refines_transfer s fromName fromAccNo pw toAccNo curr amount).finish
      fun t res hr => ?_
    rcases res with err | ⟨f, b⟩ <;> exact ⟨_, rfl, by simp only [perform, hr]⟩

end Movements

end DistributedBanking.Concurrent
