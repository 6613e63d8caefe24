import DistributedBanking.BankRules
import DistributedBanking.LinearRuns

/-!
# Concurrent calls take effect one at a time

Without closings, however the steps of concurrent calls are interleaved, the
calls return what the sequential bank returns when it performs them in some
order, and leave its store. A call that had returned before another began comes
first in that order. The balances may be of any type, rounded doubles included.
-/

namespace DistributedBanking.Concurrent
open Store Banking Threads

namespace Linearized

section Calls
variable {ι M : Type} [Money M] {calls : ι → Op M} {first : ℕ} {i : ι} {H : Holds Lock}
  {x : BankView ι M} {com : Option (Result M)} {α β : Type}

def Finishes (wrap : α → Result M) (r : α) (H : Holds Lock) (com : Option (Result M))
    (_ : BankView ι M) : Prop :=
  H = .none ∧ com = some (wrap r)

abbrev holds (acc : Ref) : Holds Lock :=
  Function.update Holds.none (.account acc) (some .sole)

theorem holds_release (acc : Ref) :
    Function.update (holds acc) (.account acc) none = Holds.none := by
  simp [Holds.none]

theorem wp_authorised {name : Bytes} {accNo : UInt32} {pw : Vector UInt8 8}
    {body : Ref → Prog Lock (Memory M) (Except BankingError α)}
    {wrap : Except BankingError α → Result M} (hopen : (calls i).isOpen = false)
    (hlookup : ∀ s : MemoryStore M, s.accounts.get accNo = none →
      perform s (calls i) = (s, wrap (.error .errInvalidCredentials)))
    (hauth : ∀ (s : MemoryStore M) account err, s.accounts.get accNo = some account →
      checkAuth account name pw = .error err → perform s (calls i) = (s, wrap (.error err)))
    (hbody : ∀ acc account y, acc.accountNumber = accNo → checkAuth account name pw = .ok () →
      Owned (holds acc) y acc account account.balance →
      (bank calls first).wp i (Object.Ends (bank calls first) i (.account acc) (Finishes wrap))
        (body acc) (holds acc) none y) :
    (bank calls first).wp i (Finishes wrap) (do
      match ← getAccount accNo with
      | .error _ => return .error .errInvalidCredentials
      | .ok acc =>
        match ← .read fun s => checkAuth (s.objects acc) name pw with
        | .error err => return .error err
        | .ok () => .locked (.account acc) (body acc)) .none none x := by
  refine wp_getAccount hopen rfl (r := wrap (.error .errInvalidCredentials))
    (fun y _ hy hget => hlookup y.abs (hy.unknown accNo hget)) (fun _ => ⟨rfl, rfl⟩) ?_
  intro acc y _ hget
  have hkey := y.mem.keyed accNo acc hget
  have hstored : Stored y.mem acc := by rwa [Stored, hkey]
  refine wp_read_effect hopen fun z hyz hz => ?_
  obtain ⟨account, haccount, hterms⟩ := hz.inv.known accNo acc (hyz.entries _ _ hget)
  cases hcheck : checkAuth (z.mem.objects acc) name pw with
  | error err =>
    refine .inr ⟨_, hauth z.abs account err haccount ?_, fun _ _ _ => ⟨rfl, rfl⟩⟩
    rw [hterms.checkAuth, hcheck]
  | ok _ =>
    refine .inl (Object.wp_locked rfl rfl fun w hzw _ hfree => ?_)
    have hstored' : Stored w.mem acc := hzw.stored (hyz.stored hstored)
    refine hbody acc (w.mem.objects acc) w hkey ?_
      ⟨Function.update_self .., hstored', rfl, hfree hstored'⟩
    rw [(hzw.terms acc (hyz.stored hstored)).checkAuth, hcheck]

theorem ends_of_owned (wrap : α → Result M) {acc : Ref} {account : Account M} {r : α}
    (hown : Owned (holds acc) x acc account account.balance) :
    Object.Ends (bank calls first) i (.account acc) (Finishes wrap) r (holds acc)
      (some (wrap r)) x :=
  ⟨hown.held, fun _ hrely _ => ⟨(hown.kept hrely).inStep, holds_release acc, rfl⟩⟩

theorem wp_settle {Q : Except BankingError M → Holds Lock → Option (Result M) → BankView ι M → Prop}
    {acc : Ref} (account : Account M) (hstore : H .store = none)
    (hown : Owned H x acc account account.balance)
    (h : ∀ y, Owned H y acc account account.balance → Q (.ok account.balance) H com y) :
    (bank calls first).wp i Q (settle acc) H com x := by
  refine wp_updateAccount hstore hown.stored fun y hxy => ?_
  refine Object.wp_read fun z hyz _ => ?_
  have hz := hown.kept (hxy.trans hyz)
  rw [hz.object]
  exact h z hz

theorem wp_guard (wrap : Except BankingError α → Result M) {err : BankingError}
    {get : Memory M → β} {v : β} {t : β → Prop} [DecidablePred t]
    {rest : β → Prog Lock (Memory M) (Except BankingError α)}
    {Q : Except BankingError α → Holds Lock → Option (Result M) → BankView ι M → Prop}
    (hopen : (calls i).isOpen = false) (hread : ∀ y, Undisturbed H x y → get y.mem = v)
    (hrefuse : t v → ∀ y, Undisturbed H x y → perform y.abs (calls i) = (y.abs, wrap (.error err)))
    (hends : t v → ∀ y, Undisturbed H x y → Q (.error err) H (some (wrap (.error err))) y)
    (hrest : ¬ t v → ∀ y, Undisturbed H x y → (bank calls first).wp i Q (rest v) H none y) :
    (bank calls first).wp i Q (do
      let a ← .read get
      if t a then return .error err else rest a) H none x := by
  refine wp_read_effect hopen fun y hxy hvalid => ?_
  rw [hread y hxy]
  by_cases ht : t v
  · refine .inr ⟨_, hrefuse ht y hxy, fun z hmem habs => ?_⟩
    rw [if_pos ht]
    have hyz : Undisturbed H y z := by
      obtain ⟨mem, abs, history⟩ := z
      dsimp only at hmem habs
      subst hmem habs
      exact ⟨fun _ _ h => h, fun _ _ => .refl _, fun _ _ _ => ⟨rfl, rfl⟩, fun _ => rfl,
        fun _ => ⟨rfl, rfl, rfl⟩, fun _ _ _ => rfl⟩
    exact hends ht z (hxy.trans hyz)
  · refine .inl ?_
    rw [if_neg ht]
    exact hrest ht y hxy

theorem wp_pay {wrap : Except BankingError M → Result M} {acc : Ref} {account : Account M}
    (hopen : (calls i).isOpen = false) {f : M → M}
    (hspec : ∀ s : MemoryStore M, s.accounts.get acc.accountNumber = some account →
      perform s (calls i) = (setBalance s acc.accountNumber (f account.balance),
        wrap (.ok (f account.balance))))
    (hown : Owned (holds acc) x acc account account.balance) :
    (bank calls first).wp i (Object.Ends (bank calls first) i (.account acc) (Finishes wrap))
      (do adjust acc f; settle acc) (holds acc) none x := by
  refine wp_adjust hown fun y hxy _ => ?_
  have hy := hown.kept hxy
  have hrespec := (Respecified.refl (holds acc) y).setBalance hy.held hy.stored
    (f account.balance)
  refine ⟨some (wrap (.ok (f account.balance))), _,
    y.history ++ [(i, wrap (.ok (f account.balance)))], .commits (hspec y.abs hy.entry) rfl,
    hrespec, by rw [opened_snoc, hopen]; rfl, ?_⟩
  refine wp_settle { account with balance := f account.balance } rfl
    ⟨hy.held, hy.stored, ?_, ?_⟩ fun z hz => ends_of_owned _ hz
  · rw [Memory.setBalance_objects, Function.update_self, hy.object]
  · change (setBalance y.abs _ _).accounts.get _ = _
    rw [setBalance_get, if_pos rfl, hy.entry]
    rfl

def balanceResult : Except BankingError M → Result M
  | .ok b => .balance b
  | .error err => .failed err

def balancesResult : Except BankingError (M × M) → Result M
  | .ok (f, t) => .balances f t
  | .error err => .failed err

variable {name : Bytes} {accNo : UInt32} {pw : Vector UInt8 8} {curr : UInt8} {amount : M}

theorem wp_checkBalance (hi : calls i = .checkBalance name accNo pw) :
    (bank calls first).wp i (Finishes balanceResult) (checkBalance name accNo pw) .none none x := by
  have hopen : (calls i).isOpen = false := by rw [hi]; rfl
  refine wp_authorised hopen (fun s hget => ?_) (fun s account err hget hcheck => ?_) ?_
  · simp only [hi, perform, Banking.checkBalance, Store.getAccount, hget]
    rfl
  · simp only [hi, perform, Banking.checkBalance, Store.getAccount, hget, hcheck]
    rfl
  · intro acc account y hkey hcheck hown
    subst hkey
    refine wp_read_effect hopen fun z hyz _ => .inr ⟨.balance account.balance, ?_, ?_⟩
    · have hget := (hown.kept hyz).entry
      simp only [hi, perform, Banking.checkBalance, Store.getAccount, hget, hcheck]
    · intro w hmem habs
      have hz := hown.kept hyz
      rw [hz.object]
      have hw : Owned (holds acc) w acc account account.balance :=
        ⟨hz.held, by rw [hmem]; exact hz.stored, by rw [hmem, hz.object], by rw [habs, hz.entry]⟩
      exact ends_of_owned balanceResult (r := .ok account.balance) hw

theorem wp_deposit (hi : calls i = .deposit name accNo pw curr amount) (hpos : ¬ amount ≤ 0) :
    (bank calls first).wp i (Finishes balanceResult) (deposit name accNo pw curr amount)
      .none none x := by
  have hopen : (calls i).isOpen = false := by rw [hi]; rfl
  rw [deposit, if_neg hpos]
  refine wp_authorised hopen (fun s hget => ?_) (fun s account err hget hcheck => ?_) ?_
  · simp only [hi, perform, Banking.deposit, if_neg hpos, Store.getAccount, hget]
    rfl
  · simp only [hi, perform, Banking.deposit, if_neg hpos, Store.getAccount, hget, hcheck]
    rfl
  · intro acc account y hkey hcheck hown
    subst hkey
    have hget : ∀ z, Undisturbed (holds acc) y z →
        z.abs.accounts.get acc.accountNumber = some account := fun z hyz => (hown.kept hyz).entry
    refine wp_guard balanceResult (v := account.currencyType) hopen
      (fun z hyz => by rw [(hown.kept hyz).object]) (fun hcurr z hyz => ?_)
      (fun _ z hyz => ends_of_owned _ (hown.kept hyz)) fun hcurr z hyz => ?_
    · simp only [hi, perform, Banking.deposit, if_neg hpos, Store.getAccount, hget z hyz, hcheck,
        if_pos hcurr]
      rfl
    · refine wp_pay hopen (fun s hs => ?_) (hown.kept hyz)
      simp only [hi, perform, Banking.deposit, if_neg hpos, Store.getAccount, hs, hcheck,
        if_neg hcurr, updateAccount_setBalance hs]
      rfl

theorem wp_withdraw (hi : calls i = .withdraw name accNo pw curr amount) (hpos : ¬ amount ≤ 0) :
    (bank calls first).wp i (Finishes balanceResult) (withdraw name accNo pw curr amount)
      .none none x := by
  have hopen : (calls i).isOpen = false := by rw [hi]; rfl
  rw [withdraw, if_neg hpos]
  refine wp_authorised hopen (fun s hget => ?_) (fun s account err hget hcheck => ?_) ?_
  · simp only [hi, perform, Banking.withdraw, if_neg hpos, Store.getAccount, hget]
    rfl
  · simp only [hi, perform, Banking.withdraw, if_neg hpos, Store.getAccount, hget, hcheck]
    rfl
  · intro acc account y hkey hcheck hown
    subst hkey
    have hget : ∀ z, Undisturbed (holds acc) y z →
        z.abs.accounts.get acc.accountNumber = some account := fun z hyz => (hown.kept hyz).entry
    refine wp_guard balanceResult (v := account.currencyType) hopen
      (fun z hyz => by rw [(hown.kept hyz).object]) (fun hcurr z hyz => ?_)
      (fun _ z hyz => ends_of_owned _ (hown.kept hyz)) fun hcurr z hyz => ?_
    · simp only [hi, perform, Banking.withdraw, if_neg hpos, Store.getAccount, hget z hyz, hcheck,
        if_pos hcurr]
      rfl
    · refine wp_guard balanceResult (v := account.balance) hopen
        (fun w hzw => by rw [(hown.kept (hyz.trans hzw)).object]) (fun hfunds w hzw => ?_)
        (fun _ w hzw => ends_of_owned _ (hown.kept (hyz.trans hzw))) fun hfunds w hzw => ?_
      · simp only [hi, perform, Banking.withdraw, if_neg hpos, Store.getAccount,
          hget w (hyz.trans hzw), hcheck, if_neg hcurr, if_pos hfunds]
        rfl
      · refine wp_pay hopen (fun s hs => ?_) (hown.kept (hyz.trans hzw))
        simp only [hi, perform, Banking.withdraw, if_neg hpos, Store.getAccount, hs, hcheck,
          if_neg hcurr, if_neg hfunds, updateAccount_setBalance hs]
        rfl

omit [Money M] in
theorem Owned.also {H' : Holds Lock} {acc : Ref} {account : Account M} {b : M}
    (h : Owned H x acc account b) (hle : ∀ l h, H l = some h → H' l = some h) :
    Owned H' x acc account b :=
  ⟨hle _ _ h.held, h.stored, h.object, h.entry⟩

theorem wp_lockAccount {acc : Ref} (hl : H (.account acc) = none) (hacc : Stored x.mem acc)
    {Q : β → Holds Lock → Option (Result M) → BankView ι M → Prop}
    {next : Unit → Prog Lock (Memory M) β}
    (h : ∀ y, Undisturbed H x y →
      Owned (Function.update H (.account acc) (some .sole)) y acc (y.mem.objects acc)
        (y.mem.objects acc).balance →
      (bank calls first).wp i Q (next ()) (Function.update H (.account acc) (some .sole)) com y) :
    (bank calls first).wp i Q (.op .lock (.account acc) >>= next) H com x :=
  Object.wp_lock hl rfl fun y hxy _ hfree =>
    h y hxy ⟨Function.update_self .., hxy.stored hacc, rfl, hfree (hxy.stored hacc)⟩

section Transfers
variable {fromAcc toAcc : Ref}

abbrev holdsBoth (fromAcc toAcc : Ref) : Holds Lock :=
  Function.update (holds fromAcc) (.account toAcc) (some .sole)

theorem holdsBoth_comm (hne : fromAcc ≠ toAcc) :
    holdsBoth fromAcc toAcc = holdsBoth toAcc fromAcc :=
  Function.update_comm (fun h => hne (Lock.account.inj h)) _ _ _

theorem holdsBoth_release (hne : fromAcc ≠ toAcc) :
    Function.update (holdsBoth fromAcc toAcc) (.account toAcc) none = holds fromAcc := by
  have hfree : holds fromAcc (.account toAcc) = none :=
    Function.update_of_ne (fun h => hne (Lock.account.inj h).symm) ..
  rw [Function.update_idem, ← hfree, Function.update_eq_self]

theorem wp_lockTwo {first' second : Ref} (hne : first' ≠ second) (hfirst : Stored x.mem first')
    (hsecond : Stored x.mem second)
    {Q : β → Holds Lock → Option (Result M) → BankView ι M → Prop}
    (next : Unit → Prog Lock (Memory M) β)
    (h : ∀ y acc acc', Undisturbed .none x y →
      Owned (holdsBoth first' second) y first' acc acc.balance →
      Owned (holdsBoth first' second) y second acc' acc'.balance →
      (bank calls first).wp i Q (next ()) (holdsBoth first' second) none y) :
    (bank calls first).wp i Q (do
      .op .lock (.account first')
      .op .lock (.account second)
      next ()) .none none x := by
  have hfree : (holds first') (.account second) = none :=
    Function.update_of_ne (fun h => hne (Lock.account.inj h).symm) ..
  refine wp_lockAccount rfl hfirst fun y hxy hown => ?_
  refine wp_lockAccount hfree (hxy.stored hsecond) fun z hyz hown' => ?_
  have hback := Object.hold_update (H := Holds.none) (l := Lock.account first') rfl Hold.sole
  exact h z _ _ (hxy.trans (hyz.mono hback))
    ((hown.kept hyz).also (Object.hold_update hfree .sole)) hown'

theorem wp_lockInOrder (hne : fromAcc ≠ toAcc) (hfrom : Stored x.mem fromAcc)
    (hto : Stored x.mem toAcc)
    {Q : β → Holds Lock → Option (Result M) → BankView ι M → Prop}
    {next : Unit → Prog Lock (Memory M) β}
    (h : ∀ y acc acc', Undisturbed .none x y →
      Owned (holdsBoth fromAcc toAcc) y fromAcc acc acc.balance →
      Owned (holdsBoth fromAcc toAcc) y toAcc acc' acc'.balance →
      (bank calls first).wp i Q (next ()) (holdsBoth fromAcc toAcc) none y) :
    (bank calls first).wp i Q (lockInOrder fromAcc toAcc >>= next) .none none x := by
  refine Object.wp_bind (Object.wp_read fun y hxy _ => Object.wp_read fun z hyz _ => ?_)
  have hxz := hxy.trans hyz
  split_ifs with hlt
  · refine wp_lockTwo hne (hxz.stored hfrom) (hxz.stored hto) (fun _ => .done ())
      fun w acc acc' hzw hown hown' => ?_
    exact h w acc acc' (hxz.trans hzw) hown hown'
  · refine wp_lockTwo hne.symm (hxz.stored hto) (hxz.stored hfrom) (fun _ => .done ())
      fun w acc acc' hzw hown hown' => ?_
    rw [← holdsBoth_comm hne] at hown hown' ⊢
    exact h w acc' acc (hxz.trans hzw) hown' hown

def Moved (fromAcc toAcc : Ref) (res : Except BankingError (M × M)) (H : Holds Lock)
    (com : Option (Result M)) (y : BankView ι M) : Prop :=
  H = holdsBoth fromAcc toAcc ∧ com = some (balancesResult res) ∧
    (∃ acc, Owned H y fromAcc acc acc.balance) ∧ ∃ acc, Owned H y toAcc acc acc.balance

/-- The effect is at the first of the two writes; until the second one the destination lags
behind. -/
theorem wp_move (hopen : (calls i).isOpen = false)
    (hne : fromAcc.accountNumber ≠ toAcc.accountNumber) {acc acc' : Account M}
    (hspec : ∀ s : MemoryStore M, s.accounts.get fromAcc.accountNumber = some acc →
      s.accounts.get toAcc.accountNumber = some acc' →
      perform s (calls i) = if acc.balance < amount then (s, .failed .errInsufficientFunds)
        else (setBalance (setBalance s fromAcc.accountNumber (acc.balance - amount))
            toAcc.accountNumber (acc'.balance + amount),
          .balances (acc.balance - amount) (acc'.balance + amount)))
    (hown : Owned (holdsBoth fromAcc toAcc) x fromAcc acc acc.balance)
    (hown' : Owned (holdsBoth fromAcc toAcc) x toAcc acc' acc'.balance) :
    (bank calls first).wp i (Moved fromAcc toAcc) (move fromAcc toAcc amount)
      (holdsBoth fromAcc toAcc) none x := by
  have hrefs : toAcc ≠ fromAcc := fun h => hne (congrArg Ref.accountNumber h.symm)
  refine wp_guard balancesResult (v := acc.balance) hopen
    (fun y hxy => by rw [(hown.kept hxy).object]) (fun hfunds y hxy => ?_)
    (fun _ y hxy => ⟨rfl, rfl, ⟨_, hown.kept hxy⟩, ⟨_, hown'.kept hxy⟩⟩) fun hfunds y hxy => ?_
  · rw [hspec _ (hown.kept hxy).entry (hown'.kept hxy).entry, if_pos hfunds]
    rfl
  refine wp_adjust (hown.kept hxy) fun z hyz _ => ?_
  have hz := (hown.kept hxy).kept hyz
  have hz' := (hown'.kept hxy).kept hyz
  have hrespec := ((Respecified.refl (holdsBoth fromAcc toAcc) z).setBalance hz.held hz.stored
    (acc.balance - amount)).setBalance hz'.held hz'.stored (acc'.balance + amount)
  refine ⟨some (.balances (acc.balance - amount) (acc'.balance + amount)), _,
    z.history ++ [(i, .balances (acc.balance - amount) (acc'.balance + amount))],
    .commits ((hspec _ hz.entry hz'.entry).trans (if_neg hfunds)) rfl, hrespec,
    by rw [opened_snoc, hopen]; rfl, ?_⟩
  have hpaid : Owned (holdsBoth fromAcc toAcc) (⟨z.mem.setBalance fromAcc (acc.balance - amount),
      setBalance (setBalance z.abs fromAcc.accountNumber (acc.balance - amount))
        toAcc.accountNumber (acc'.balance + amount),
      z.history ++ [(i, .balances (acc.balance - amount) (acc'.balance + amount))]⟩ :
        BankView ι M) fromAcc { acc with balance := acc.balance - amount }
      (acc.balance - amount) := by
    refine ⟨hz.held, hz.stored, ?_, ?_⟩
    · rw [Memory.setBalance_objects, Function.update_self, hz.object]
    · rw [setBalance_get, if_neg hne, setBalance_get, if_pos rfl, hz.entry]
      rfl
  have hlags : Owned (holdsBoth fromAcc toAcc) (⟨z.mem.setBalance fromAcc (acc.balance - amount),
      setBalance (setBalance z.abs fromAcc.accountNumber (acc.balance - amount))
        toAcc.accountNumber (acc'.balance + amount),
      z.history ++ [(i, .balances (acc.balance - amount) (acc'.balance + amount))]⟩ :
        BankView ι M) toAcc acc' (acc'.balance + amount) := by
    refine ⟨hz'.held, hz'.stored, ?_, ?_⟩
    · rw [Memory.setBalance_objects, Function.update_of_ne hrefs, hz'.object]
    · rw [setBalance_get, if_pos rfl, setBalance_get, if_neg (Ne.symm hne), hz'.entry]
      rfl
  refine wp_adjust hlags fun w hzw _ => ⟨_, w.abs, w.history, .stays rfl rfl, .refl _ w, rfl, ?_⟩
  have hw := hpaid.kept hzw
  have hw' := hlags.kept hzw
  have hpaid' : Owned (holdsBoth fromAcc toAcc)
      (⟨w.mem.setBalance toAcc (acc'.balance + amount), w.abs, w.history⟩ : BankView ι M) fromAcc
      { acc with balance := acc.balance - amount } (acc.balance - amount) := by
    refine ⟨hw.held, hw.stored, ?_, hw.entry⟩
    rw [Memory.setBalance_objects, Function.update_of_ne hrefs.symm, hw.object]
  have harrived : Owned (holdsBoth fromAcc toAcc)
      (⟨w.mem.setBalance toAcc (acc'.balance + amount), w.abs, w.history⟩ : BankView ι M) toAcc
      { acc' with balance := acc'.balance + amount } (acc'.balance + amount) := by
    refine ⟨hw'.held, hw'.stored, ?_, hw'.entry⟩
    rw [Memory.setBalance_objects, Function.update_self, hw'.object]
  refine wp_updateAccount rfl hpaid'.stored fun v hwv => ?_
  refine wp_updateAccount rfl (harrived.kept hwv).stored fun u hvu => ?_
  refine Object.wp_read fun t hut _ => Object.wp_read fun t' htt' _ => ?_
  have hrely := (hwv.trans hvu).trans hut
  rw [(hpaid'.kept hrely).object, (harrived.kept (hrely.trans htt')).object]
  exact ⟨rfl, rfl, ⟨_, hpaid'.kept (hrely.trans htt')⟩, ⟨_, harrived.kept (hrely.trans htt')⟩⟩

theorem perform_transfer {s : MemoryStore M} {toAccNo : UInt32} {acc acc' : Account M}
    (hpos : ¬ amount ≤ 0) (hne : accNo ≠ toAccNo) (hfrom : s.accounts.get accNo = some acc)
    (hto : s.accounts.get toAccNo = some acc') :
    perform s (.transfer name accNo pw toAccNo curr amount) =
      match checkAuth acc name pw with
      | .error err => (s, .failed err)
      | .ok () =>
        if acc.currencyType ≠ curr ∨ acc.currencyType ≠ acc'.currencyType then
          (s, .failed .errCurrencyMismatch)
        else if acc.balance < amount then (s, .failed .errInsufficientFunds)
        else (setBalance (setBalance s accNo (acc.balance - amount)) toAccNo
            (acc'.balance + amount),
          .balances (acc.balance - amount) (acc'.balance + amount)) := by
  obtain ⟨-, -, hup, hup'⟩ := transfer_writes hfrom hto hne (acc.balance - amount)
    (acc'.balance + amount)
  simp only [perform, Banking.transfer, if_neg hpos, if_neg hne, Store.getAccount, hfrom, hto]
  cases checkAuth acc name pw with
  | error err => rfl
  | ok _ =>
    simp only [hup, hup']
    split_ifs <;> rfl

theorem wp_transfer {toAccNo : UInt32} (hi : calls i = .transfer name accNo pw toAccNo curr amount)
    (hpos : ¬ amount ≤ 0) (hne : accNo ≠ toAccNo) :
    (bank calls first).wp i (Finishes balancesResult)
      (transfer name accNo pw toAccNo curr amount) .none none x := by
  have hopen : (calls i).isOpen = false := by rw [hi]; rfl
  rw [transfer, if_neg hpos, if_neg hne]
  refine wp_getAccount hopen rfl (r := .failed .errInvalidCredentials)
    (fun y _ hy hget => ?_) (fun _ => ⟨rfl, rfl⟩) fun fromAcc y hxy hfrom => ?_
  · simp only [hi, perform, Banking.transfer, if_neg hpos, if_neg hne, Store.getAccount,
      hy.unknown accNo hget]
  refine wp_getAccount hopen rfl (r := .failed .errAccountNotFound)
    (fun z hyz hz hget => ?_) (fun _ => ⟨rfl, rfl⟩) fun toAcc z hyz hto => ?_
  · obtain ⟨account, haccount, -⟩ := hz.known accNo fromAcc (hyz.entries _ _ hfrom)
    simp only [hi, perform, Banking.transfer, if_neg hpos, if_neg hne, Store.getAccount, haccount,
      hz.unknown toAccNo hget]
  replace hfrom := hyz.entries _ _ hfrom
  refine wp_read_effect hopen fun w hzw hw => ?_
  obtain ⟨f, hf, hfterms⟩ := hw.inv.known accNo fromAcc (hzw.entries _ _ hfrom)
  obtain ⟨t, ht, -⟩ := hw.inv.known toAccNo toAcc (hzw.entries _ _ hto)
  have hkey := z.mem.keyed accNo fromAcc hfrom
  have hkey' := z.mem.keyed toAccNo toAcc hto
  have hstored : Stored w.mem fromAcc := by rw [Stored, hkey]; exact hzw.entries _ _ hfrom
  have hstored' : Stored w.mem toAcc := by rw [Stored, hkey']; exact hzw.entries _ _ hto
  cases hcheck : checkAuth (w.mem.objects fromAcc) name pw with
  | error err =>
    refine .inr ⟨.failed err, ?_, fun _ _ _ => ⟨rfl, rfl⟩⟩
    rw [hi, perform_transfer hpos hne hf ht, hfterms.checkAuth, hcheck]
  | ok _ =>
    refine .inl (Object.wp_read fun v hwv _ => wp_read_effect hopen fun u hvu hu => ?_)
    obtain ⟨f', hf', hfterms'⟩ := hu.inv.known accNo fromAcc
      ((hwv.trans hvu).entries _ _ (hzw.entries _ _ hfrom))
    obtain ⟨t', ht', htterms'⟩ := hu.inv.known toAccNo toAcc
      ((hwv.trans hvu).entries _ _ (hzw.entries _ _ hto))
    have hcheck' : checkAuth f' name pw = .ok () := by
      rw [hfterms'.checkAuth, ((hwv.trans hvu).terms fromAcc hstored).checkAuth, hcheck]
    have hcurrency : (v.mem.objects fromAcc).currencyType = f'.currencyType := by
      rw [hfterms'.currencyType, (hvu.terms fromAcc (hwv.stored hstored)).currencyType]
    rw [hcurrency, ← htterms'.currencyType]
    by_cases hcurr : f'.currencyType ≠ curr ∨ f'.currencyType ≠ t'.currencyType
    · refine .inr ⟨.failed .errCurrencyMismatch, ?_, fun _ _ _ => ?_⟩
      · rw [hi, perform_transfer hpos hne hf' ht', hcheck']
        exact if_pos hcurr
      · rw [if_pos hcurr]
        exact ⟨rfl, rfl⟩
    · rw [if_neg hcurr]
      refine .inl ?_
      have hwu := hwv.trans hvu
      have hrefs : fromAcc ≠ toAcc := Memory.ref_ne hfrom hto hne
      refine wp_lockInOrder hrefs (hwu.stored hstored) (hwu.stored hstored')
        fun r acc acc' hur hown hown' => ?_
      subst hkey hkey'
      have hterms := hur.terms fromAcc (hwu.stored hstored)
      have hterms' := hur.terms toAcc (hwu.stored hstored')
      rw [hown.object] at hterms
      rw [hown'.object] at hterms'
      refine Object.wp_bind (Object.wp_mono (wp_move hopen hne (fun s hs hs' => ?_) hown
        hown') ?_)
      · have hauth : checkAuth acc name pw = .ok () := by
          rw [hterms.checkAuth, ← hfterms'.checkAuth, hcheck']
        have hboth : ¬ (acc.currencyType ≠ curr ∨ acc.currencyType ≠ acc'.currencyType) := by
          rwa [hterms.currencyType, hterms'.currencyType, ← hfterms'.currencyType,
            ← htterms'.currencyType]
        rw [hi, perform_transfer hpos hne hs hs', hauth]
        exact if_neg hboth
      · intro res H com q hmoved
        obtain ⟨rfl, rfl, ⟨b, hb⟩, ⟨d, hd⟩⟩ := hmoved
        refine Object.wp_unlock hd.held fun q' hqq' _ => ⟨(hd.kept hqq').inStep, ?_⟩
        rw [holdsBoth_release hrefs]
        have hq' := hb.kept hqq'
        have hrest : Owned (holds fromAcc) q' fromAcc b b.balance :=
          ⟨Function.update_self .., hq'.stored, hq'.object, hq'.entry⟩
        exact Object.wp_unlock hrest.held fun _ hrely _ =>
          ⟨(hrest.kept hrely).inStep, holds_release fromAcc, rfl⟩

end Transfers

theorem wp_openAccount {balance : M} (hi : calls i = .openAccount name pw curr balance)
    (hroom : ∀ history : List (ι × Result M), (ids history).Nodup → i ∉ ids history →
      first + opened calls history + 1 < 2 ^ 32) :
    (bank calls first).wp i (Finishes Result.opened) (openAccount name pw curr balance)
      .none none x := by
  have hcreate : (bank calls first).wp i (Finishes Result.opened)
      (createAccount ⟨0, name, pw, curr, balance⟩ >>= fun id => .done id) .none none x :=
    wp_createAccount (r := Result.opened) (by rw [hi]; rfl) rfl hroom (fun s => by rw [hi]; rfl)
      fun id y => ⟨rfl, rfl⟩
  exact hcreate

variable [Fintype ι]

omit [Money M] in
theorem room_of_card (hroom : first + (Finset.univ.filter fun i => (calls i).isOpen).card < 2 ^ 32)
    (hopen : (calls i).isOpen = true) (history : List (ι × Result M))
    (hnodup : (ids history).Nodup) (hi : i ∉ ids history) :
    first + opened calls history + 1 < 2 ^ 32 := by
  classical
  have hopened : opened calls history = ((ids history).filter fun i => (calls i).isOpen).length :=
    List.countP_eq_length_filter
  have hsub : insert i ((ids history).filter fun i => (calls i).isOpen).toFinset ⊆
      Finset.univ.filter fun i => (calls i).isOpen := by
    intro j hj
    rw [Finset.mem_filter]
    refine ⟨Finset.mem_univ j, ?_⟩
    rcases Finset.mem_insert.mp hj with rfl | hj
    · exact hopen
    · exact (List.mem_filter.mp (List.mem_toFinset.mp hj)).2
  have hcard := Finset.card_le_card hsub
  rw [Finset.card_insert_of_notMem (by simp [hi]),
    List.toFinset_card_of_nodup (hnodup.filter _), ← hopened] at hcard
  omega

theorem verified_program (hclose : closes (calls i) = false)
    (hroom : first + (Finset.univ.filter fun i => (calls i).isOpen).card < 2 ^ 32) :
    Verified (bank calls first) i (program (calls i)) x := by
  cases hi : calls i with
  | openAccount name pw curr balance =>
    refine .inl (Object.wp_bind (Object.wp_mono (wp_openAccount hi
      (room_of_card hroom (by rw [hi]; rfl))) fun r H com y h => h))
  | closeAccount name accNo pw => simp [hi, closes] at hclose
  | checkBalance name accNo pw =>
    refine .inl (Object.wp_bind (Object.wp_mono (wp_checkBalance hi) fun res H com y h => ?_))
    cases res <;> exact h
  | deposit name accNo pw curr amount =>
    by_cases hpos : amount ≤ 0
    · refine .inr ⟨.failed .errNonPositiveAmount, ?_, fun s => ?_⟩
      · simp only [program, deposit, if_pos hpos]
        rfl
      · change perform s (calls i) = _
        simp only [hi, perform, Banking.deposit, if_pos hpos]
    · refine .inl (Object.wp_bind (Object.wp_mono (wp_deposit hi hpos) fun res H com y h => ?_))
      cases res <;> exact h
  | withdraw name accNo pw curr amount =>
    by_cases hpos : amount ≤ 0
    · refine .inr ⟨.failed .errNonPositiveAmount, ?_, fun s => ?_⟩
      · simp only [program, withdraw, if_pos hpos]
        rfl
      · change perform s (calls i) = _
        simp only [hi, perform, Banking.withdraw, if_pos hpos]
    · refine .inl (Object.wp_bind (Object.wp_mono (wp_withdraw hi hpos) fun res H com y h => ?_))
      cases res <;> exact h
  | transfer fromName fromAccNo pw toAccNo curr amount =>
    by_cases hpos : amount ≤ 0
    · refine .inr ⟨.failed .errNonPositiveAmount, ?_, fun s => ?_⟩
      · simp only [program, transfer, if_pos hpos]
        rfl
      · change perform s (calls i) = _
        simp only [hi, perform, Banking.transfer, if_pos hpos]
    by_cases hne : fromAccNo = toAccNo
    · refine .inr ⟨.failed .errTransferSameAccount, ?_, fun s => ?_⟩
      · simp only [program, transfer, if_neg hpos, if_pos hne]
        rfl
      · change perform s (calls i) = _
        simp only [hi, perform, Banking.transfer, if_neg hpos, if_pos hne]
    refine .inl (Object.wp_bind (Object.wp_mono (wp_transfer hi hpos hne) fun res H com y h => ?_))
    rcases res with err | ⟨f, t⟩ <;> exact h

end Calls

end Linearized

open Linearized

/-- Pointers are given out once, and the numbers in use lie below the next one. -/
structure Numbered {M : Type} (s : Memory M) : Prop where
  allocated : ∀ id acc, s.accounts.get id = some acc → acc.serial < s.allocated
  below : ∀ id acc, s.accounts.get id = some acc → id.toNat < s.nextID.toNat

theorem numbered_newMemory {M : Type} [Zero M] : Numbered (newMemory : Memory M) where
  allocated id acc h := by simp [newMemory] at h
  below id acc h := by simp [newMemory] at h

theorem Numbered.openAccount {M : Type} {s : Memory M} (h : Numbered s) (name : Bytes)
    (pw : Vector UInt8 8) (curr : UInt8) (balance : M) (hroom : s.nextID.toNat + 1 < 2 ^ 32) :
    Numbered ((openAccount name pw curr balance).alone s).2 := by
  let acc : Account M := ⟨s.nextID, name, pw, curr, balance⟩
  have hentry : ((Concurrent.openAccount name pw curr balance).alone s).2.accounts =
      s.accounts.set s.nextID (s.fresh acc) := by
    simp [Concurrent.openAccount, createAccount, Prog.alone_bind, Prog.alone, Memory.setEntry,
      Memory.allocate, acc]
  have hnext : (s.nextID + 1).toNat = s.nextID.toNat + 1 := by
    rw [UInt32.toNat_add]
    exact Nat.mod_eq_of_lt hroom
  refine ⟨fun id ref hget => ?_, fun id ref hget => ?_⟩
  · change ref.serial < s.allocated + 1
    rw [hentry, FiniteMap.get_set] at hget
    split_ifs at hget with hid
    · cases hget
      exact Nat.lt_succ_self _
    · exact (h.allocated id ref hget).trans (Nat.lt_succ_self _)
  · change id.toNat < (s.nextID + 1).toNat
    rw [hnext]
    rw [hentry, FiniteMap.get_set] at hget
    split_ifs at hget with hid
    · rw [hid]
      exact Nat.lt_succ_self _
    · exact (h.below id ref hget).trans (Nat.lt_succ_self _)

section Runs
variable {ι M : Type} [DecidableEq ι] [Fintype ι] [Money M] {s₀ : Memory M} {calls : ι → Op M}
  {sched : List ι} {c : Config ι Lock (Memory M) (Result M)}

omit [DecidableEq ι] [Fintype ι] [Money M] in
theorem Numbered.tracks (h : Numbered s₀) (calls : ι → Op M) :
    Tracks calls s₀.nextID.toNat ⟨s₀, s₀.view, []⟩ where
  known id acc hget := ⟨s₀.objects acc, by simp [hget], .refl _⟩
  unknown id hget := by simp [hget]
  allocated := h.allocated
  numbered := h.below
  counted := rfl

omit [DecidableEq ι] [Fintype ι] [Money M] in
theorem inStep_view (s : Memory M) (l : Lock) : InStep l (⟨s, s.view, []⟩ : BankView ι M) := by
  cases l with
  | account acc =>
    intro hacc
    change s.accounts.get acc.accountNumber = some acc at hacc
    simp [hacc]
  | store => rfl

omit [DecidableEq ι] [Fintype ι] [Money M] in
theorem view_of_inStep {first : ℕ} {y : BankView ι M} (h : Tracks calls first y)
    (hfree : ∀ l, InStep l y) : y.mem.view = y.abs := by
  refine MemoryStore.ext (FiniteMap.ext fun id => ?_) (hfree .store).symm
  rw [Memory.view_get]
  cases hget : y.mem.accounts.get id with
  | none => rw [h.unknown id hget, Option.map_none]
  | some acc =>
    have hkey := y.mem.keyed id acc hget
    have hentry := hfree (.account acc) (by rwa [Stored, hkey])
    rw [hkey] at hentry
    rw [hentry, Option.map_some]

/-- Without closings every run of concurrent calls has a history: the calls that have taken effect,
one after the other, as the sequential bank performs them, with a call before all those that began
after it had returned. When all calls have returned, the store is the one that the history
leaves. -/
theorem bank_linearizable (hclose : ∀ i, closes (calls i) = false) (hnumbered : Numbered s₀)
    (hroom : s₀.nextID.toNat + (Finset.univ.filter fun i => (calls i).isOpen).card < 2 ^ 32)
    (hrun : sched.foldlM step (start s₀ calls) = .ok c) :
    ∃ history s, Chronicle (fun i s s' r => perform s (calls i) = (s', r)) (start s₀ calls) sched
        s₀.view history s ∧
      (∀ i r, c.threads i = .done r →
        (i, r) ∈ history ∨ (i ∉ sched ∧ ∀ s, perform s (calls i) = (s, r))) ∧
      ((∀ i, ∃ r, c.threads i = .done r) → c.mem.view = s ∧ Numbered c.mem) := by
  obtain ⟨y, held, com, hlinear⟩ := linear_run (P := bank calls s₀.nextID.toNat)
    (hnumbered.tracks calls) (inStep_view s₀)
    (fun i => verified_program (hclose i) hroom) hrun
  refine ⟨y.history, y.abs, hlinear.chronicle, fun i r hdone => hlinear.results hdone,
    fun hdone => ?_⟩
  have hfree := hlinear.quiescent hdone
  rw [← hlinear.mem]
  refine ⟨view_of_inStep hlinear.inv hfree, hlinear.inv.allocated, fun id acc hget => ?_⟩
  rw [← (hfree .store : y.abs.nextID = y.mem.nextID)]
  exact hlinear.inv.numbered id acc hget

end Runs

inductive Teller
  | deposits
  | opens
  | transfers
  deriving DecidableEq

instance : Fintype Teller := ⟨{.deposits, .opens, .transfers}, fun i => by cases i <;> decide⟩

def mixedCalls : Teller → Op ℚ
  | .deposits => .deposit [65] 10000 (.replicate 8 0) 1 20
  | .opens => .openAccount [67] (.replicate 8 0) 1 5
  | .transfers => .transfer [65] 10000 (.replicate 8 0) 10001 1 50

/-- The transfer and the deposit have both found account 10000 before either locks it. -/
def mixedSchedule : List Teller :=
  .replicate 4 .deposits ++ .replicate 9 .transfers ++ .replicate 7 .opens ++
    .replicate 11 .deposits ++ .replicate 23 .transfers

theorem numbered_twoAccounts : Numbered twoAccounts :=
  (numbered_newMemory.openAccount _ _ _ _ (by decide)).openAccount _ _ _ _ (by decide +kernel)

theorem mixedCalls_linearize :
    ∃ c, mixedSchedule.foldlM step (start twoAccounts mixedCalls) = .ok c ∧
      ∃ history s, Chronicle (fun i s s' r => perform s (mixedCalls i) = (s', r))
          (start twoAccounts mixedCalls) mixedSchedule twoAccounts.view history s ∧
        c.mem.view = s ∧ ∃ b, (.deposits, .balance b) ∈ history := by
  obtain ⟨c, hrun, hdone⟩ := Runs.exists_of_check
    (x := mixedSchedule.foldlM step (start twoAccounts mixedCalls))
    (p := fun c => decide ((c.threads .deposits).result = some (.balance 120) ∧
      (c.threads .opens).result = some (.opened 10002) ∧
      (c.threads .transfers).result = some (.balances 70 100)))
    (by decide +kernel)
  obtain ⟨hdeposit, hopen, htransfer⟩ := of_decide_eq_true hdone
  have hthreads : ∀ i, ∃ r, c.threads i = .done r := by
    intro i
    cases i with
    | deposits => exact ⟨_, Prog.result_eq_some.mp hdeposit⟩
    | opens => exact ⟨_, Prog.result_eq_some.mp hopen⟩
    | transfers => exact ⟨_, Prog.result_eq_some.mp htransfer⟩
  obtain ⟨history, s, hchronicle, hresults, hend⟩ := bank_linearizable
    (fun i => by decide +revert) numbered_twoAccounts (by decide +kernel) hrun
  refine ⟨c, hrun, history, s, hchronicle, (hend hthreads).1, 120, ?_⟩
  rcases hresults .deposits _ (Prog.result_eq_some.mp hdeposit) with hmem | ⟨hnew, -⟩
  · exact hmem
  · exact absurd (by decide : Teller.deposits ∈ mixedSchedule) hnew

end DistributedBanking.Concurrent
