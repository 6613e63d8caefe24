import DistributedBanking.Banking

/-!
# What a banking call does to the store

`perform` runs one call of the service. `Effect` says once what a call can do:
a rule for each operation that succeeds, with all its guards, and one for a
refusal, which leaves the store alone. Invariants are proved by cases on it.
-/

namespace DistributedBanking.Banking
open Store

inductive Op (M : Type)
  | openAccount (name : Bytes) (pw : Vector UInt8 8) (curr : UInt8) (balance : M)
  | closeAccount (name : Bytes) (accNo : UInt32) (pw : Vector UInt8 8)
  | checkBalance (name : Bytes) (accNo : UInt32) (pw : Vector UInt8 8)
  | deposit (name : Bytes) (accNo : UInt32) (pw : Vector UInt8 8) (curr : UInt8) (amount : M)
  | withdraw (name : Bytes) (accNo : UInt32) (pw : Vector UInt8 8) (curr : UInt8) (amount : M)
  | transfer (fromName : Bytes) (fromAccNo : UInt32) (pw : Vector UInt8 8) (toAccNo : UInt32)
      (curr : UInt8) (amount : M)

inductive Result (M : Type)
  | opened (accNo : UInt32)
  | closed
  | balance (b : M)
  | balances (fromBalance toBalance : M)
  | failed (err : BankingError)
  deriving DecidableEq

def Result.Succeeds {M : Type} : Result M → Prop
  | failed _ => False
  | _ => True

instance {M : Type} (r : Result M) : Decidable r.Succeeds :=
  match r with
  | .failed _ => isFalse id
  | .opened _ => isTrue trivial
  | .closed => isTrue trivial
  | .balance _ => isTrue trivial
  | .balances _ _ => isTrue trivial

structure Authorised {M : Type} (s : MemoryStore M) (name : Bytes) (accNo : UInt32)
    (pw : Vector UInt8 8) (acc : Account M) : Prop where
  stored : s.accounts.get accNo = some acc
  password : acc.password = pw
  holderName : acc.holderName = name

variable {M : Type}

theorem checkAuth_ok {acc : Account M} {name : Bytes} {pw : Vector UInt8 8} :
    checkAuth acc name pw = .ok () ↔ acc.password = pw ∧ acc.holderName = name := by
  rw [checkAuth]
  split_ifs <;> simp_all

theorem Authorised.checkAuth {s : MemoryStore M} {name : Bytes} {accNo : UInt32}
    {pw : Vector UInt8 8} {acc : Account M} (h : Authorised s name accNo pw acc) :
    checkAuth acc name pw = .ok () :=
  checkAuth_ok.mpr ⟨h.password, h.holderName⟩

theorem authorised_iff {s : MemoryStore M} {name : Bytes} {accNo : UInt32} {pw : Vector UInt8 8}
    {acc : Account M} :
    Authorised s name accNo pw acc ↔
      getAccount s accNo = .ok acc ∧ Banking.checkAuth acc name pw = .ok () := by
  rw [getAccount_ok, checkAuth_ok]
  exact ⟨fun h => ⟨h.stored, h.password, h.holderName⟩, fun h => ⟨h.1, h.2.1, h.2.2⟩⟩

variable [Money M]

def perform (s : MemoryStore M) : Op M → MemoryStore M × Result M
  | .openAccount name pw curr balance =>
    let (s, accNo) := openAccount s name pw curr balance
    (s, .opened accNo)
  | .closeAccount name accNo pw =>
    match closeAccount s name accNo pw with
    | (s, .ok ()) => (s, .closed)
    | (s, .error err) => (s, .failed err)
  | .checkBalance name accNo pw =>
    match checkBalance s name accNo pw with
    | .ok b => (s, .balance b)
    | .error err => (s, .failed err)
  | .deposit name accNo pw curr amount =>
    match deposit s name accNo pw curr amount with
    | (s, .ok b) => (s, .balance b)
    | (s, .error err) => (s, .failed err)
  | .withdraw name accNo pw curr amount =>
    match withdraw s name accNo pw curr amount with
    | (s, .ok b) => (s, .balance b)
    | (s, .error err) => (s, .failed err)
  | .transfer fromName fromAccNo pw toAccNo curr amount =>
    match transfer s fromName fromAccNo pw toAccNo curr amount with
    | (s, .ok (f, t)) => (s, .balances f t)
    | (s, .error err) => (s, .failed err)

inductive Effect (s : MemoryStore M) : Op M → MemoryStore M → Result M → Prop
  | opened {name : Bytes} {pw : Vector UInt8 8} {curr : UInt8} {balance : M} {s' : MemoryStore M}
      (haccounts : s'.accounts = s.accounts.set s.nextID ⟨s.nextID, name, pw, curr, balance⟩)
      (hnext : s'.nextID = s.nextID + 1) :
      Effect s (.openAccount name pw curr balance) s' (.opened s.nextID)
  | closed {name : Bytes} {accNo : UInt32} {pw : Vector UInt8 8} {acc : Account M}
      {s' : MemoryStore M} (hauth : Authorised s name accNo pw acc)
      (haccounts : s'.accounts = s.accounts.delete accNo) (hnext : s'.nextID = s.nextID) :
      Effect s (.closeAccount name accNo pw) s' .closed
  | checked {name : Bytes} {accNo : UInt32} {pw : Vector UInt8 8} {acc : Account M}
      (hauth : Authorised s name accNo pw acc) :
      Effect s (.checkBalance name accNo pw) s (.balance acc.balance)
  | deposited {name : Bytes} {accNo : UInt32} {pw : Vector UInt8 8} {curr : UInt8} {amount : M}
      {acc : Account M} {s' : MemoryStore M} (hpos : ¬ amount ≤ 0)
      (hauth : Authorised s name accNo pw acc) (hcurr : acc.currencyType = curr)
      (haccounts : s'.accounts =
        s.accounts.set accNo { acc with balance := acc.balance + amount })
      (hnext : s'.nextID = s.nextID) :
      Effect s (.deposit name accNo pw curr amount) s' (.balance (acc.balance + amount))
  | withdrawn {name : Bytes} {accNo : UInt32} {pw : Vector UInt8 8} {curr : UInt8} {amount : M}
      {acc : Account M} {s' : MemoryStore M} (hpos : ¬ amount ≤ 0)
      (hauth : Authorised s name accNo pw acc) (hcurr : acc.currencyType = curr)
      (hfunds : ¬ acc.balance < amount)
      (haccounts : s'.accounts =
        s.accounts.set accNo { acc with balance := acc.balance - amount })
      (hnext : s'.nextID = s.nextID) :
      Effect s (.withdraw name accNo pw curr amount) s' (.balance (acc.balance - amount))
  | transferred {name : Bytes} {accNo : UInt32} {pw : Vector UInt8 8} {toAccNo : UInt32}
      {curr : UInt8} {amount : M} {acc toAcc : Account M} {s' : MemoryStore M}
      (hpos : ¬ amount ≤ 0) (hne : accNo ≠ toAccNo) (hauth : Authorised s name accNo pw acc)
      (hto : s.accounts.get toAccNo = some toAcc) (hcurr : acc.currencyType = curr)
      (hsame : acc.currencyType = toAcc.currencyType) (hfunds : ¬ acc.balance < amount)
      (haccounts : s'.accounts =
        (s.accounts.set accNo { acc with balance := acc.balance - amount }).set toAccNo
          { toAcc with balance := toAcc.balance + amount })
      (hnext : s'.nextID = s.nextID) :
      Effect s (.transfer name accNo pw toAccNo curr amount) s'
        (.balances (acc.balance - amount) (toAcc.balance + amount))
  | refused {op : Op M} {err : BankingError} : Effect s op s (.failed err)

omit [Money M] in
theorem credentials_cases (s : MemoryStore M) (name : Bytes) (accNo : UInt32)
    (pw : Vector UInt8 8) :
    (∃ acc, Authorised s name accNo pw acc ∧ getAccount s accNo = .ok acc ∧
        checkAuth acc name pw = .ok ()) ∨
      (∃ err, getAccount s accNo = .error err) ∨
      ∃ acc err, getAccount s accNo = .ok acc ∧ checkAuth acc name pw = .error err := by
  rcases hget : getAccount s accNo with err | acc
  · exact .inr (.inl ⟨err, rfl⟩)
  · rcases hcheck : checkAuth acc name pw with err | u
    · exact .inr (.inr ⟨acc, err, rfl, hcheck⟩)
    · exact .inl ⟨acc, authorised_iff.mpr ⟨hget, hcheck⟩, rfl, hcheck⟩

theorem effect_open (s : MemoryStore M) (name : Bytes) (pw : Vector UInt8 8) (curr : UInt8)
    (balance : M) :
    Effect s (.openAccount name pw curr balance) (openAccount s name pw curr balance).1
      (.opened s.nextID) :=
  .opened rfl rfl

omit [Money M] in
theorem closeAccount_cases (s : MemoryStore M) (name : Bytes) (accNo : UInt32)
    (pw : Vector UInt8 8) :
    (∃ acc s', Authorised s name accNo pw acc ∧ s'.accounts = s.accounts.delete accNo ∧
        s'.nextID = s.nextID ∧ closeAccount s name accNo pw = (s', .ok ())) ∨
      ∃ err, closeAccount s name accNo pw = (s, .error err) := by
  rcases credentials_cases s name accNo pw with
    ⟨acc, hauth, hget, hcheck⟩ | ⟨err, hget⟩ | ⟨acc, err, hget, hcheck⟩
  · refine .inl ⟨acc, ⟨_, _, keyed_delete s.keyed accNo⟩, hauth, rfl, rfl, ?_⟩
    simp only [closeAccount, hget, hcheck, deleteAccount_some hauth.stored]
  · exact .inr ⟨_, by simp only [closeAccount, hget]; rfl⟩
  · exact .inr ⟨err, by simp only [closeAccount, hget, hcheck]⟩

omit [Money M] in
theorem checkBalance_cases (s : MemoryStore M) (name : Bytes) (accNo : UInt32)
    (pw : Vector UInt8 8) :
    (∃ acc, Authorised s name accNo pw acc ∧
        checkBalance s name accNo pw = .ok acc.balance) ∨
      ∃ err, checkBalance s name accNo pw = .error err := by
  rcases credentials_cases s name accNo pw with
    ⟨acc, hauth, hget, hcheck⟩ | ⟨err, hget⟩ | ⟨acc, err, hget, hcheck⟩
  · exact .inl ⟨acc, hauth, by simp only [checkBalance, hget, hcheck]⟩
  · exact .inr ⟨_, by simp only [checkBalance, hget]; rfl⟩
  · exact .inr ⟨err, by simp only [checkBalance, hget, hcheck]⟩

theorem deposit_cases (s : MemoryStore M) (name : Bytes) (accNo : UInt32) (pw : Vector UInt8 8)
    (curr : UInt8) (amount : M) :
    (∃ acc, ¬ amount ≤ 0 ∧ Authorised s name accNo pw acc ∧ acc.currencyType = curr ∧
        deposit s name accNo pw curr amount =
          (setBalance s accNo (acc.balance + amount), .ok (acc.balance + amount))) ∨
      ∃ err, deposit s name accNo pw curr amount = (s, .error err) := by
  by_cases hpos : amount ≤ 0
  · exact .inr ⟨_, by simp only [deposit, if_pos hpos]; rfl⟩
  rcases credentials_cases s name accNo pw with
    ⟨acc, hauth, hget, hcheck⟩ | ⟨err, hget⟩ | ⟨acc, err, hget, hcheck⟩
  · simp only [deposit, if_neg hpos, hget, hcheck, updateAccount_setBalance hauth.stored]
    split_ifs with hcurr
    · exact .inr ⟨_, rfl⟩
    · exact .inl ⟨acc, hpos, hauth, not_not.mp hcurr, rfl⟩
  · exact .inr ⟨_, by simp only [deposit, if_neg hpos, hget]; rfl⟩
  · exact .inr ⟨err, by simp only [deposit, if_neg hpos, hget, hcheck]⟩

theorem withdraw_cases (s : MemoryStore M) (name : Bytes) (accNo : UInt32) (pw : Vector UInt8 8)
    (curr : UInt8) (amount : M) :
    (∃ acc, ¬ amount ≤ 0 ∧ Authorised s name accNo pw acc ∧ acc.currencyType = curr ∧
        ¬ acc.balance < amount ∧
        withdraw s name accNo pw curr amount =
          (setBalance s accNo (acc.balance - amount), .ok (acc.balance - amount))) ∨
      ∃ err, withdraw s name accNo pw curr amount = (s, .error err) := by
  by_cases hpos : amount ≤ 0
  · exact .inr ⟨_, by simp only [withdraw, if_pos hpos]; rfl⟩
  rcases credentials_cases s name accNo pw with
    ⟨acc, hauth, hget, hcheck⟩ | ⟨err, hget⟩ | ⟨acc, err, hget, hcheck⟩
  · simp only [withdraw, if_neg hpos, hget, hcheck, updateAccount_setBalance hauth.stored]
    split_ifs with hcurr hfunds
    · exact .inr ⟨_, rfl⟩
    · exact .inr ⟨_, rfl⟩
    · exact .inl ⟨acc, hpos, hauth, not_not.mp hcurr, hfunds, rfl⟩
  · exact .inr ⟨_, by simp only [withdraw, if_neg hpos, hget]; rfl⟩
  · exact .inr ⟨err, by simp only [withdraw, if_neg hpos, hget, hcheck]⟩

omit [Money M] in
/-- Both accounts are written through their pointers; storing the two objects again adds nothing. -/
theorem transfer_writes {s : MemoryStore M} {accNo toAccNo : UInt32} {acc toAcc : Account M}
    (hfrom : s.accounts.get accNo = some acc) (hto : s.accounts.get toAccNo = some toAcc)
    (hne : accNo ≠ toAccNo) (b c : M) :
    let s' := setBalance (setBalance s accNo b) toAccNo c
    s'.accounts = (s.accounts.set accNo { acc with balance := b }).set toAccNo
        { toAcc with balance := c } ∧
      s'.nextID = s.nextID ∧
      updateAccount s' { acc with balance := b } = (s', .ok ()) ∧
      updateAccount s' { toAcc with balance := c } = (s', .ok ()) := by
  have hfirst := setBalance_accounts hfrom b
  have hto' : (setBalance s accNo b).accounts.get toAccNo = some toAcc := by
    rw [hfirst, FiniteMap.get_set_of_ne _ _ (Ne.symm hne), hto]
  have hsecond := setBalance_accounts hto' c
  rw [hfirst] at hsecond
  have hidFrom : acc.accountNumber = accNo := s.keyed accNo acc hfrom
  have hidTo : toAcc.accountNumber = toAccNo := s.keyed toAccNo toAcc hto
  refine ⟨hsecond, by simp, updateAccount_self ?_, updateAccount_self ?_⟩
  · rw [hsecond, hidFrom, FiniteMap.get_set_of_ne _ _ hne, FiniteMap.get_set_self]
  · rw [hsecond, hidTo, FiniteMap.get_set_self]

theorem transfer_cases (s : MemoryStore M) (fromName : Bytes) (fromAccNo : UInt32)
    (pw : Vector UInt8 8) (toAccNo : UInt32) (curr : UInt8) (amount : M) :
    (∃ acc toAcc, ¬ amount ≤ 0 ∧ fromAccNo ≠ toAccNo ∧
        Authorised s fromName fromAccNo pw acc ∧ s.accounts.get toAccNo = some toAcc ∧
        acc.currencyType = curr ∧ acc.currencyType = toAcc.currencyType ∧
        ¬ acc.balance < amount ∧
        transfer s fromName fromAccNo pw toAccNo curr amount =
          (setBalance (setBalance s fromAccNo (acc.balance - amount)) toAccNo
            (toAcc.balance + amount), .ok (acc.balance - amount, toAcc.balance + amount))) ∨
      ∃ err, transfer s fromName fromAccNo pw toAccNo curr amount = (s, .error err) := by
  by_cases hpos : amount ≤ 0
  · exact .inr ⟨_, by simp only [transfer, if_pos hpos]; rfl⟩
  by_cases heq : fromAccNo = toAccNo
  · exact .inr ⟨_, by simp only [transfer, if_neg hpos, if_pos heq]; rfl⟩
  -- The destination is looked up before the credentials are checked.
  rcases hto : getAccount s toAccNo with err | toAcc
  · rcases hget : getAccount s fromAccNo with err' | acc
    · exact .inr ⟨_, by simp only [transfer, if_neg hpos, if_neg heq, hget]; rfl⟩
    · exact .inr ⟨_, by simp only [transfer, if_neg hpos, if_neg heq, hget, hto]; rfl⟩
  rcases credentials_cases s fromName fromAccNo pw with
    ⟨acc, hauth, hget, hcheck⟩ | ⟨err, hget⟩ | ⟨acc, err, hget, hcheck⟩
  · have hdest := getAccount_ok.mp hto
    obtain ⟨-, -, hup, hup'⟩ := transfer_writes hauth.stored hdest heq
      (acc.balance - amount) (toAcc.balance + amount)
    simp only [transfer, if_neg hpos, if_neg heq, hget, hto, hcheck, hup, hup']
    split_ifs with hcurr hfunds
    · exact .inr ⟨_, rfl⟩
    · exact .inr ⟨_, rfl⟩
    · obtain ⟨hsame, hboth⟩ := not_or.mp hcurr
      exact .inl ⟨acc, toAcc, hpos, heq, hauth, hdest, not_not.mp hsame, not_not.mp hboth,
        hfunds, rfl⟩
  · exact .inr ⟨_, by simp only [transfer, if_neg hpos, if_neg heq, hget]; rfl⟩
  · exact .inr ⟨err, by simp only [transfer, if_neg hpos, if_neg heq, hget, hto, hcheck]⟩

theorem perform_effect (s : MemoryStore M) (op : Op M) :
    Effect s op (perform s op).1 (perform s op).2 := by
  cases op with
  | openAccount name pw curr balance => exact effect_open s name pw curr balance
  | closeAccount name accNo pw =>
    rcases closeAccount_cases s name accNo pw with ⟨acc, s', hauth, hacc, hnext, h⟩ | ⟨err, h⟩
    · simp only [perform, h]
      exact .closed hauth hacc hnext
    · simp only [perform, h]
      exact .refused
  | checkBalance name accNo pw =>
    rcases checkBalance_cases s name accNo pw with ⟨acc, hauth, h⟩ | ⟨err, h⟩
    · simp only [perform, h]
      exact .checked hauth
    · simp only [perform, h]
      exact .refused
  | deposit name accNo pw curr amount =>
    rcases deposit_cases s name accNo pw curr amount with
      ⟨acc, hpos, hauth, hcurr, h⟩ | ⟨err, h⟩
    · simp only [perform, h]
      exact .deposited hpos hauth hcurr (setBalance_accounts hauth.stored _) (by simp)
    · simp only [perform, h]
      exact .refused
  | withdraw name accNo pw curr amount =>
    rcases withdraw_cases s name accNo pw curr amount with
      ⟨acc, hpos, hauth, hcurr, hfunds, h⟩ | ⟨err, h⟩
    · simp only [perform, h]
      exact .withdrawn hpos hauth hcurr hfunds (setBalance_accounts hauth.stored _) (by simp)
    · simp only [perform, h]
      exact .refused
  | transfer fromName fromAccNo pw toAccNo curr amount =>
    rcases transfer_cases s fromName fromAccNo pw toAccNo curr amount with
      ⟨acc, toAcc, hpos, hne, hauth, hto, hcurr, hsame, hfunds, h⟩ | ⟨err, h⟩
    · obtain ⟨hacc, hnext, -, -⟩ := transfer_writes hauth.stored hto hne
        (acc.balance - amount) (toAcc.balance + amount)
      simp only [perform, h]
      exact .transferred hpos hne hauth hto hcurr hsame hfunds hacc hnext
    · simp only [perform, h]
      exact .refused

/-! A call whose guards all pass succeeds. -/
section Guards
variable {s : MemoryStore M} {name : Bytes} {accNo toAccNo : UInt32} {pw : Vector UInt8 8}
  {curr : UInt8} {amount : M} {acc toAcc : Account M}

theorem perform_deposit (hpos : ¬ amount ≤ 0) (hauth : Authorised s name accNo pw acc)
    (hcurr : acc.currencyType = curr) :
    perform s (.deposit name accNo pw curr amount) =
      (setBalance s accNo (acc.balance + amount), .balance (acc.balance + amount)) := by
  have hget := getAccount_ok.mpr hauth.stored
  have hcheck := hauth.checkAuth
  have hcurr' : ¬ acc.currencyType ≠ curr := not_not.mpr hcurr
  have hstored := updateAccount_setBalance hauth.stored (acc.balance + amount)
  simp only [perform, deposit, if_neg hpos, hget, hcheck, if_neg hcurr', hstored]

theorem perform_withdraw (hpos : ¬ amount ≤ 0) (hauth : Authorised s name accNo pw acc)
    (hcurr : acc.currencyType = curr) (hfunds : ¬ acc.balance < amount) :
    perform s (.withdraw name accNo pw curr amount) =
      (setBalance s accNo (acc.balance - amount), .balance (acc.balance - amount)) := by
  have hget := getAccount_ok.mpr hauth.stored
  have hcheck := hauth.checkAuth
  have hcurr' : ¬ acc.currencyType ≠ curr := not_not.mpr hcurr
  have hstored := updateAccount_setBalance hauth.stored (acc.balance - amount)
  simp only [perform, withdraw, if_neg hpos, hget, hcheck, if_neg hcurr', if_neg hfunds, hstored]

theorem perform_transfer (hpos : ¬ amount ≤ 0) (hne : accNo ≠ toAccNo)
    (hauth : Authorised s name accNo pw acc) (hto : s.accounts.get toAccNo = some toAcc)
    (hcurr : acc.currencyType = curr) (hsame : acc.currencyType = toAcc.currencyType)
    (hfunds : ¬ acc.balance < amount) :
    perform s (.transfer name accNo pw toAccNo curr amount) =
      (setBalance (setBalance s accNo (acc.balance - amount)) toAccNo (toAcc.balance + amount),
        .balances (acc.balance - amount) (toAcc.balance + amount)) := by
  have hget := getAccount_ok.mpr hauth.stored
  have hgetTo := getAccount_ok.mpr hto
  have hcheck := hauth.checkAuth
  have hcurrencies : ¬ (acc.currencyType ≠ curr ∨ acc.currencyType ≠ toAcc.currencyType) := by
    simp [hcurr, ← hsame]
  obtain ⟨-, -, hup, hup'⟩ := transfer_writes hauth.stored hto hne (acc.balance - amount)
    (toAcc.balance + amount)
  simp only [perform, transfer, if_neg hpos, if_neg hne, hget, hgetTo, hcheck,
    if_neg hcurrencies, if_neg hfunds, hup, hup']

end Guards

def SameIdentity (acc acc' : Account M) : Prop := acc' = { acc with balance := acc'.balance }

omit [Money M] in
theorem SameIdentity.refl (acc : Account M) : SameIdentity acc acc := rfl

theorem Effect.origin {s s' : MemoryStore M} {op : Op M} {res : Result M}
    (heff : Effect s op s' res) {id : UInt32} {acc' : Account M}
    (hget : s'.accounts.get id = some acc') :
    (∃ acc, s.accounts.get id = some acc ∧ SameIdentity acc acc') ∨
      ∃ name pw curr balance, op = .openAccount name pw curr balance ∧ res = .opened id ∧
        id = s.nextID ∧ acc' = ⟨id, name, pw, curr, balance⟩ := by
  cases heff with
  | opened haccounts hnext =>
    rw [haccounts, FiniteMap.get_set] at hget
    by_cases hid : id = s.nextID
    · rw [if_pos hid] at hget
      subst hid
      exact .inr ⟨_, _, _, _, rfl, rfl, rfl, (Option.some.inj hget).symm⟩
    · rw [if_neg hid] at hget
      exact .inl ⟨acc', hget, .refl acc'⟩
  | closed hauth haccounts hnext =>
    rw [haccounts, FiniteMap.get_delete] at hget
    split_ifs at hget
    exact .inl ⟨acc', hget, .refl acc'⟩
  | checked => exact .inl ⟨acc', hget, .refl acc'⟩
  | deposited hpos hauth hcurr haccounts hnext =>
    rw [haccounts, FiniteMap.get_set] at hget
    split_ifs at hget with hid
    · subst hid
      exact .inl ⟨_, hauth.stored, by rw [← Option.some.inj hget]; rfl⟩
    · exact .inl ⟨acc', hget, .refl acc'⟩
  | withdrawn hpos hauth hcurr hfunds haccounts hnext =>
    rw [haccounts, FiniteMap.get_set] at hget
    split_ifs at hget with hid
    · subst hid
      exact .inl ⟨_, hauth.stored, by rw [← Option.some.inj hget]; rfl⟩
    · exact .inl ⟨acc', hget, .refl acc'⟩
  | transferred hpos hne hauth hto hcurr hsame hfunds haccounts hnext =>
    rw [haccounts, FiniteMap.get_set, FiniteMap.get_set] at hget
    split_ifs at hget with hidTo hid
    · subst hidTo
      exact .inl ⟨_, hto, by rw [← Option.some.inj hget]; rfl⟩
    · subst hid
      exact .inl ⟨_, hauth.stored, by rw [← Option.some.inj hget]; rfl⟩
    · exact .inl ⟨acc', hget, .refl acc'⟩
  | refused => exact .inl ⟨acc', hget, .refl acc'⟩

def Op.isOpen : Op M → Bool
  | .openAccount _ _ _ _ => true
  | _ => false

theorem Effect.nextID {s s' : MemoryStore M} {op : Op M} {res : Result M}
    (heff : Effect s op s' res) :
    s'.nextID = s.nextID ∨ op.isOpen = true ∧ s'.nextID = s.nextID + 1 := by
  cases heff with
  | opened haccounts hnext => exact .inr ⟨rfl, hnext⟩
  | closed hauth haccounts hnext => exact .inl hnext
  | checked => exact .inl rfl
  | deposited hpos hauth hcurr haccounts hnext => exact .inl hnext
  | withdrawn hpos hauth hcurr hfunds haccounts hnext => exact .inl hnext
  | transferred hpos hne hauth hto hcurr hsame hfunds haccounts hnext => exact .inl hnext
  | refused => exact .inl rfl

theorem perform_nextID (s : MemoryStore M) (op : Op M) :
    (perform s op).1.nextID = s.nextID + UInt32.ofNat op.isOpen.toNat := by
  rcases (perform_effect s op).nextID with hsame | ⟨hopen, hnext⟩
  · cases op with
    | openAccount => rfl
    | _ => simpa [Op.isOpen] using hsame
  · rw [hnext, hopen]
    rfl

theorem toNat_succ {n : UInt32} (h : n.toNat + 1 < 2 ^ 32) : (n + 1).toNat = n.toNat + 1 := by
  rw [UInt32.toNat_add]
  exact Nat.mod_eq_of_lt h

theorem Effect.nextID_le {s s' : MemoryStore M} {op : Op M} {res : Result M}
    (heff : Effect s op s' res) : s'.nextID.toNat ≤ s.nextID.toNat + op.isOpen.toNat := by
  rcases heff.nextID with hnext | ⟨hopen, hnext⟩
  · rw [hnext]
    omega
  · rw [hnext, hopen, UInt32.toNat_add]
    exact Nat.mod_le _ _

def Below (s : MemoryStore M) : Prop :=
  ∀ id acc, s.accounts.get id = some acc → id.toNat < s.nextID.toNat

omit [Money M] in
theorem Below.fresh {s : MemoryStore M} (h : Below s) : s.accounts.get s.nextID = none := by
  rcases hget : s.accounts.get s.nextID with _ | acc
  · rfl
  · exact absurd (h _ _ hget) (lt_irrefl _)

theorem Below.effect {s s' : MemoryStore M} {op : Op M} {res : Result M} (h : Below s)
    (heff : Effect s op s' res) (hwrap : op.isOpen = true → s.nextID.toNat + 1 < 2 ^ 32) :
    Below s' := by
  intro id acc hget
  have hmono : s.nextID.toNat ≤ s'.nextID.toNat := by
    rcases heff.nextID with hnext | ⟨hopen, hnext⟩
    · rw [hnext]
    · rw [hnext, toNat_succ (hwrap hopen)]
      omega
  rcases heff.origin hget with ⟨acc₀, hold, -⟩ | ⟨name, pw, curr, balance, hop, -, hid, -⟩
  · have hlt := h id acc₀ hold
    omega
  · have hlt := hwrap (by rw [hop]; rfl)
    have hnext : s'.nextID = s.nextID + 1 := by
      subst hop
      cases heff with
      | opened haccounts hnext => exact hnext
      | refused => exact absurd (h id acc hget) (by rw [hid]; exact lt_irrefl _)
    rw [hid, hnext, toNat_succ hlt]
    exact Nat.lt_succ_self _

theorem perform_of_not_succeeds {s : MemoryStore M} {op : Op M}
    (h : ¬ (perform s op).2.Succeeds) : (perform s op).1 = s := by
  generalize hs : (perform s op).1 = s' at *
  generalize hr : (perform s op).2 = r at *
  have heff := perform_effect s op
  rw [hs, hr] at heff
  cases heff with
  | refused => rfl
  | checked => rfl
  | opened => exact absurd trivial h
  | closed => exact absurd trivial h
  | deposited => exact absurd trivial h
  | withdrawn => exact absurd trivial h
  | transferred => exact absurd trivial h

end DistributedBanking.Banking
