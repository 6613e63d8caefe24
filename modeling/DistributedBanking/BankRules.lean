import DistributedBanking.Linearization
import DistributedBanking.Settlement

/-!
# The bank as a linearizable object

The specification is the sequential bank. A concurrent run follows it as long as
no account is closed: an account mutex keeps the stored balance equal to the
specified one, and the store's lock keeps the next number equal. Only an owner
of the lock may see them differ.
-/

namespace DistributedBanking.Concurrent.Linearized
open Store Banking Threads

variable {ι M : Type}

structure SameTerms (acc acc' : Account M) : Prop where
  accountNumber : acc'.accountNumber = acc.accountNumber
  holderName : acc'.holderName = acc.holderName
  password : acc'.password = acc.password
  currencyType : acc'.currencyType = acc.currencyType

theorem SameTerms.refl (acc : Account M) : SameTerms acc acc := ⟨rfl, rfl, rfl, rfl⟩

theorem SameTerms.trans {a b c : Account M} (h : SameTerms a b) (h' : SameTerms b c) :
    SameTerms a c where
  accountNumber := h'.accountNumber.trans h.accountNumber
  holderName := h'.holderName.trans h.holderName
  password := h'.password.trans h.password
  currencyType := h'.currencyType.trans h.currencyType

theorem SameTerms.balance (acc : Account M) (balance : M) :
    SameTerms acc { acc with balance } := ⟨rfl, rfl, rfl, rfl⟩

theorem SameTerms.checkAuth {a b : Account M} (h : SameTerms a b) (name : Bytes)
    (pw : Vector UInt8 8) : checkAuth b name pw = checkAuth a name pw := by
  rw [Banking.checkAuth, Banking.checkAuth, h.password, h.holderName]

abbrev BankView (ι M : Type) : Type := Snapshot ι (Memory M) (MemoryStore M) (Result M)

def opened (calls : ι → Op M) (history : List (ι × Result M)) : ℕ :=
  (ids history).countP fun i => (calls i).isOpen

/-- The pointers of the memory show the accounts of the specification, up to the balances; `first`
is the first number that the calls hand out. -/
structure Tracks (calls : ι → Op M) (first : ℕ) (y : BankView ι M) : Prop where
  known : ∀ id acc, y.mem.accounts.get id = some acc →
    ∃ account, y.abs.accounts.get id = some account ∧ SameTerms (y.mem.objects acc) account
  unknown : ∀ id, y.mem.accounts.get id = none → y.abs.accounts.get id = none
  allocated : ∀ id acc, y.mem.accounts.get id = some acc → acc.serial < y.mem.allocated
  numbered : ∀ id acc, y.mem.accounts.get id = some acc → id.toNat < y.abs.nextID.toNat
  counted : y.abs.nextID.toNat = first + opened calls y.history

/-- What the locks guarantee while nobody has them alone. -/
def InStep : Lock → BankView ι M → Prop
  | .account acc, y => Stored y.mem acc →
      y.abs.accounts.get acc.accountNumber = some (y.mem.objects acc)
  | .store, y => y.abs.nextID = y.mem.nextID

/-- What may happen around a call: accounts come in, and balances change whose mutex it does not
have. -/
structure Undisturbed (H : Holds Lock) (x y : BankView ι M) : Prop where
  entries : ∀ id acc, x.mem.accounts.get id = some acc → y.mem.accounts.get id = some acc
  terms : ∀ acc, Stored x.mem acc → SameTerms (x.mem.objects acc) (y.mem.objects acc)
  account : ∀ acc, H (.account acc) = some .sole → Stored x.mem acc →
    y.mem.objects acc = x.mem.objects acc ∧
      y.abs.accounts.get acc.accountNumber = x.abs.accounts.get acc.accountNumber
  accounts : H .store = some .sole → y.mem.accounts = x.mem.accounts
  nextID : H .store = some .sole →
    y.mem.nextID = x.mem.nextID ∧ y.abs.nextID = x.abs.nextID ∧
      y.mem.allocated = x.mem.allocated
  unshared : H .store = some .sole → ∀ acc, ¬ Stored x.mem acc →
    y.mem.objects acc = x.mem.objects acc

theorem Undisturbed.refl (H : Holds Lock) (y : BankView ι M) : Undisturbed H y y where
  entries _ _ h := h
  terms _ _ := .refl _
  account _ _ _ := ⟨rfl, rfl⟩
  accounts _ := rfl
  nextID _ := ⟨rfl, rfl, rfl⟩
  unshared _ _ _ := rfl

theorem Undisturbed.stored {H : Holds Lock} {x y : BankView ι M} (h : Undisturbed H x y)
    {acc : Ref} (hacc : Stored x.mem acc) : Stored y.mem acc := h.entries _ _ hacc

theorem Undisturbed.trans {H : Holds Lock} {x y z : BankView ι M} (h : Undisturbed H x y)
    (h' : Undisturbed H y z) : Undisturbed H x z where
  entries id acc hget := h'.entries id acc (h.entries id acc hget)
  terms acc hacc := (h.terms acc hacc).trans (h'.terms acc (h.stored hacc))
  account acc hheld hacc := by
    obtain ⟨hobject, hget⟩ := h.account acc hheld hacc
    obtain ⟨hobject', hget'⟩ := h'.account acc hheld (h.stored hacc)
    exact ⟨hobject'.trans hobject, hget'.trans hget⟩
  accounts hheld := (h'.accounts hheld).trans (h.accounts hheld)
  nextID hheld := by
    obtain ⟨hmem, habs, hall⟩ := h.nextID hheld
    obtain ⟨hmem', habs', hall'⟩ := h'.nextID hheld
    exact ⟨hmem'.trans hmem, habs'.trans habs, hall'.trans hall⟩
  unshared hheld acc hacc := by
    have hacc' : ¬ Stored y.mem acc := by
      rwa [Stored, h.accounts hheld]
    exact (h'.unshared hheld acc hacc').trans (h.unshared hheld acc hacc)

theorem Undisturbed.mono {H H' : Holds Lock} {x y : BankView ι M}
    (hle : ∀ l h, H l = some h → H' l = some h) (h : Undisturbed H' x y) : Undisturbed H x y where
  entries := h.entries
  terms := h.terms
  account acc hheld := h.account acc (hle _ _ hheld)
  accounts hheld := h.accounts (hle _ _ hheld)
  nextID hheld := h.nextID (hle _ _ hheld)
  unshared hheld := h.unshared (hle _ _ hheld)

def bank [Money M] (calls : ι → Op M) (first : ℕ) :
    Object ι Lock (Memory M) (MemoryStore M) (Result M) where
  spec i s s' r := perform s (calls i) = (s', r)
  rw
    | .account _ => false
    | .store => true
  inv := Tracks calls first
  free := InStep
  rely := Undisturbed
  rely_refl := Undisturbed.refl
  rely_trans _ _ _ _ := Undisturbed.trans
  rely_mono _ _ _ _ := Undisturbed.mono

section Guarantees
variable [Money M] {calls : ι → Op M} {first : ℕ} {i : ι} {H : Holds Lock} {y y' : BankView ι M}

omit [Money M] in
theorem opened_snoc (calls : ι → Op M) (history : List (ι × Result M)) (i : ι) (r : Result M) :
    opened calls (history ++ [(i, r)]) =
      opened calls history + if (calls i).isOpen then 1 else 0 := by
  simp [opened, ids, List.countP_append, List.countP_singleton]

theorem not_sole_of_compatible {H' : Holds Lock} (h : H.Compatible H') {l : Lock}
    (hl : H l = some .sole) : H' l ≠ some .sole := by
  intro hl'
  exact h l _ _ hl hl'

structure Respecified (H : Holds Lock) (y : BankView ι M) (s : MemoryStore M) : Prop where
  nextID : s.nextID = y.abs.nextID
  specified : ∀ id account, y.abs.accounts.get id = some account →
    ∃ account', s.accounts.get id = some account' ∧ SameTerms account account'
  unspecified : ∀ id, y.abs.accounts.get id = none → s.accounts.get id = none
  beside : ∀ acc, Stored y.mem acc → H (.account acc) ≠ some .sole →
    s.accounts.get acc.accountNumber = y.abs.accounts.get acc.accountNumber

omit [Money M] in
theorem Respecified.refl (H : Holds Lock) (y : BankView ι M) : Respecified H y y.abs where
  nextID := rfl
  specified _ account h := ⟨account, h, .refl account⟩
  unspecified _ h := h
  beside _ _ _ := rfl

omit [Money M] in
theorem setBalance_get (s : MemoryStore M) (k id : UInt32) (balance : M) :
    (setBalance s k balance).accounts.get id =
      if id = k then (s.accounts.get k).map fun acc => { acc with balance }
      else s.accounts.get id := by
  cases hget : s.accounts.get k with
  | none =>
    have hsame : setBalance s k balance = s := by
      rw [setBalance]
      split <;> simp_all
    rw [hsame]
    split_ifs with hid
    · rw [hid, hget]
      rfl
    · rfl
  | some acc =>
    rw [setBalance_accounts hget, FiniteMap.get_set]
    rfl

omit [Money M] in
theorem Respecified.setBalance {s : MemoryStore M} (h : Respecified H y s) {acc : Ref}
    (hheld : H (.account acc) = some .sole) (hacc : Stored y.mem acc) (balance : M) :
    Respecified H y (setBalance s acc.accountNumber balance) where
  nextID := (setBalance_nextID s _ balance).trans h.nextID
  specified id account hget := by
    obtain ⟨account', haccount', hterms⟩ := h.specified id account hget
    rw [setBalance_get]
    split_ifs with hid
    · rw [hid] at haccount'
      exact ⟨{ account' with balance }, by rw [haccount']; rfl,
        hterms.trans (.balance account' balance)⟩
    · exact ⟨account', haccount', hterms⟩
  unspecified id hget := by
    have hnone := h.unspecified id hget
    rw [setBalance_get]
    split_ifs with hid
    · rw [hid] at hnone
      rw [hnone]
      rfl
    · exact hnone
  beside acc' hacc' hfree := by
    have hne : acc'.accountNumber ≠ acc.accountNumber := by
      intro hsame
      rw [Stored, hsame, hacc] at hacc'
      cases hacc'
      exact hfree hheld
    rw [setBalance_get, if_neg hne]
    exact h.beside acc' hacc' hfree

structure Rewrites (H : Holds Lock) (y y' : BankView ι M) : Prop where
  accounts : y'.mem.accounts = y.mem.accounts
  nextID : y'.mem.nextID = y.mem.nextID
  allocated : y'.mem.allocated = y.mem.allocated
  terms : ∀ acc, SameTerms (y.mem.objects acc) (y'.mem.objects acc)
  outside : ∀ acc, H (.account acc) ≠ some .sole ∨ ¬ Stored y.mem acc →
    y'.mem.objects acc = y.mem.objects acc
  abs : Respecified H y y'.abs

omit [Money M] in
theorem Rewrites.kept {s : MemoryStore M} {history : List (ι × Result M)}
    (h : Respecified H y s) : Rewrites H y ⟨y.mem, s, history⟩ where
  accounts := rfl
  nextID := rfl
  allocated := rfl
  terms _ := .refl _
  outside _ _ := rfl
  abs := h

omit [Money M] in
theorem Rewrites.setBalance {s : MemoryStore M} {history : List (ι × Result M)}
    (h : Respecified H y s) {acc : Ref} (hheld : H (.account acc) = some .sole)
    (hacc : Stored y.mem acc) (balance : M) :
    Rewrites H y ⟨y.mem.setBalance acc balance, s, history⟩ where
  accounts := rfl
  nextID := rfl
  allocated := rfl
  terms acc' := by
    by_cases hsame : acc' = acc
    · subst hsame
      simp only [Memory.setBalance_objects, Function.update_self]
      exact .balance _ balance
    · simp only [Memory.setBalance_objects, Function.update_of_ne hsame]
      exact .refl _
  outside acc' hacc' := by
    have hne : acc' ≠ acc := by
      intro hsame
      subst hsame
      rcases hacc' with hfree | hdetached
      · exact hfree hheld
      · exact hdetached hacc
    simp only [Memory.setBalance_objects, Function.update_of_ne hne]
  abs := h

theorem Rewrites.guarantees (h : Rewrites H y y') (hy : Tracks calls first y)
    (hcount : opened calls y'.history = opened calls y.history) :
    (bank calls first).Guarantees H y y' where
  inv :=
    { known := by
        intro id acc hget
        rw [h.accounts] at hget
        obtain ⟨account, haccount, hterms⟩ := hy.known id acc hget
        obtain ⟨account', haccount', hterms'⟩ := h.abs.specified id account haccount
        refine ⟨account', haccount', ?_⟩
        have hobject := h.terms acc
        exact ⟨hterms'.accountNumber.trans
            (hterms.accountNumber.trans hobject.accountNumber.symm),
          hterms'.holderName.trans (hterms.holderName.trans hobject.holderName.symm),
          hterms'.password.trans (hterms.password.trans hobject.password.symm),
          hterms'.currencyType.trans (hterms.currencyType.trans hobject.currencyType.symm)⟩
      unknown := by
        intro id hget
        rw [h.accounts] at hget
        exact h.abs.unspecified id (hy.unknown id hget)
      allocated := by
        intro id acc hget
        rw [h.accounts] at hget
        rw [h.allocated]
        exact hy.allocated id acc hget
      numbered := by
        intro id acc hget
        rw [h.accounts] at hget
        rw [h.abs.nextID]
        exact hy.numbered id acc hget
      counted := by
        rw [h.abs.nextID, hcount]
        exact hy.counted }
  free l hl hfree := by
    cases l with
    | account acc =>
      intro hacc
      have hacc' : Stored y.mem acc := by rwa [Stored, h.accounts] at hacc
      rw [h.abs.beside acc hacc' hl, h.outside acc (.inl hl)]
      exact hfree hacc'
    | store =>
      change y'.abs.nextID = y'.mem.nextID
      rw [h.nextID, h.abs.nextID]
      exact hfree
  rely H' hcompatible :=
    { entries := fun id acc hget => by rwa [h.accounts]
      terms := fun acc _ => h.terms acc
      account := by
        intro acc hheld hacc
        have hne : H (.account acc) ≠ some .sole := fun hsole =>
          not_sole_of_compatible hcompatible hsole hheld
        exact ⟨h.outside acc (.inl hne), h.abs.beside acc hacc hne⟩
      accounts := fun _ => h.accounts
      nextID := fun _ => ⟨h.nextID, h.abs.nextID, h.allocated⟩
      unshared := fun _ acc hacc => h.outside acc (.inr hacc) }

theorem guarantees_noted (hy : Tracks calls first y) (hopen : (calls i).isOpen = false)
    (r : Result M) :
    (bank calls first).Guarantees H y ⟨y.mem, y.abs, y.history ++ [(i, r)]⟩ := by
  refine (Rewrites.kept (.refl H y)).guarantees hy ?_
  rw [opened_snoc, hopen]
  rfl

theorem guarantees_allocate (hy : Tracks calls first y) (hheld : H .store = some .sole)
    (acc : Account M) :
    (bank calls first).Guarantees H y ⟨y.mem.allocate acc, y.abs, y.history⟩ := by
  have hne : ∀ acc', Stored y.mem acc' → acc' ≠ y.mem.fresh acc := by
    intro acc' hacc' hsame
    have hlt := hy.allocated _ acc' hacc'
    rw [hsame] at hlt
    exact absurd hlt (lt_irrefl _)
  have hobject : ∀ acc', Stored y.mem acc' →
      (y.mem.allocate acc).objects acc' = y.mem.objects acc' := fun acc' hacc' =>
    Function.update_of_ne (hne acc' hacc') ..
  refine ⟨?_, ?_, ?_⟩
  · refine ⟨fun id acc' hget => ?_, hy.unknown, fun id acc' hget => ?_, hy.numbered, hy.counted⟩
    · have hkey := y.mem.keyed id acc' hget
      have hstored : Stored y.mem acc' := by rwa [Stored, hkey]
      rw [hobject acc' hstored]
      exact hy.known id acc' hget
    · exact (hy.allocated id acc' hget).trans (Nat.lt_succ_self _)
  · intro l hl hfree
    cases l with
    | account acc' =>
      intro hacc'
      rw [hobject acc' hacc']
      exact hfree hacc'
    | store => exact absurd hheld hl
  · intro H' hcompatible
    have hfree := not_sole_of_compatible hcompatible hheld
    refine ⟨fun _ _ hget => hget, fun acc' hacc' => ?_,
      fun acc' _ hacc' => ⟨hobject acc' hacc', rfl⟩, fun hsole => absurd hsole hfree,
      fun hsole => absurd hsole hfree, fun hsole => absurd hsole hfree⟩
    rw [hobject acc' hacc']
    exact .refl _

theorem guarantees_setEntry (hy : Tracks calls first y) (hheld : H .store = some .sole)
    {acc : Account M} {ref : Ref} (hnumber : acc.accountNumber = y.abs.nextID)
    (hobject : y.mem.objects ref = acc) (hserial : ref.serial < y.mem.allocated)
    (hnew : y.mem.accounts.get y.abs.nextID = none) (hopen : (calls i).isOpen = true)
    (hroom : first + opened calls y.history + 1 < 2 ^ 32) (r : Result M) :
    (bank calls first).Guarantees H y
      ⟨y.mem.setEntry ref, (Store.createAccount y.abs acc).1, y.history ++ [(i, r)]⟩ := by
  have hnext : (y.abs.nextID + 1).toNat = y.abs.nextID.toNat + 1 := by
    have hcount := hy.counted
    rw [UInt32.toNat_add]
    exact Nat.mod_eq_of_lt (by rw [hcount]; exact hroom)
  have hget : ∀ id, (y.mem.setEntry ref).accounts.get id =
      if id = y.abs.nextID then some ref else y.mem.accounts.get id := by
    intro id
    rw [Memory.setEntry, FiniteMap.get_set, hobject, hnumber]
  have habs : ∀ id, (Store.createAccount y.abs acc).1.accounts.get id =
      if id = y.abs.nextID then some acc else y.abs.accounts.get id := by
    intro id
    rw [createAccount_accounts, FiniteMap.get_set, ← hnumber]
  have hkept : ∀ id acc', y.mem.accounts.get id = some acc' → id ≠ y.abs.nextID := by
    intro id acc' hid hsame
    rw [hsame, hnew] at hid
    cases hid
  refine ⟨⟨fun id acc' hid => ?_, fun id hid => ?_, fun id acc' hid => ?_,
    fun id acc' hid => ?_, ?_⟩, ?_, ?_⟩
  · rw [hget] at hid
    rw [habs]
    split_ifs at hid ⊢ with hsame
    · cases hid
      exact ⟨acc, rfl, hobject ▸ .refl _⟩
    · exact hy.known id acc' hid
  · rw [hget] at hid
    rw [habs]
    split_ifs at hid ⊢ with hsame
    exact hy.unknown id hid
  · rw [hget] at hid
    split_ifs at hid with hsame
    · cases hid
      exact hserial
    · exact hy.allocated id acc' hid
  · change id.toNat < (y.abs.nextID + 1).toNat
    rw [hget] at hid
    rw [hnext]
    split_ifs at hid with hsame
    · rw [hsame]
      exact Nat.lt_succ_self _
    · exact (hy.numbered id acc' hid).trans (Nat.lt_succ_self _)
  · change (y.abs.nextID + 1).toNat = _
    rw [hnext, hy.counted, opened_snoc, hopen]
    rfl
  · intro l hl hfree
    cases l with
    | account acc' =>
      intro hacc'
      rw [Stored, hget] at hacc'
      rw [habs]
      split_ifs at hacc' ⊢ with hsame
      · cases hacc'
        exact congrArg some hobject.symm
      · exact hfree hacc'
    | store => exact absurd hheld hl
  · intro H' hcompatible
    have hfree := not_sole_of_compatible hcompatible hheld
    refine ⟨fun id acc' hid => ?_, fun _ _ => .refl _, fun acc' _ hacc' => ⟨rfl, ?_⟩,
      fun hsole => absurd hsole hfree, fun hsole => absurd hsole hfree,
      fun hsole => absurd hsole hfree⟩
    · rw [hget, if_neg (hkept id acc' hid)]
      exact hid
    · rw [habs, if_neg (hkept _ acc' hacc')]

theorem guarantees_nextID (hy : Tracks calls first y) (hheld : H .store = some .sole) :
    (bank calls first).Guarantees H y
      ⟨{ y.mem with nextID := y.mem.nextID + 1 }, y.abs, y.history⟩ := by
  refine ⟨⟨hy.known, hy.unknown, hy.allocated, hy.numbered, hy.counted⟩, ?_, ?_⟩
  · intro l hl hfree
    cases l with
    | account acc => exact hfree
    | store => exact absurd hheld hl
  · intro H' hcompatible
    have hfree := not_sole_of_compatible hcompatible hheld
    exact ⟨fun _ _ hget => hget, fun _ _ => .refl _, fun _ _ _ => ⟨rfl, rfl⟩,
      fun hsole => absurd hsole hfree, fun hsole => absurd hsole hfree,
      fun hsole => absurd hsole hfree⟩

end Guarantees

section Rules
variable [Money M] {calls : ι → Op M} {first : ℕ} {i : ι} {H : Holds Lock}
  {x : BankView ι M} {com : Option (Result M)} {β : Type}
  {Q : β → Holds Lock → Option (Result M) → BankView ι M → Prop}

theorem wp_read_effect {α : Type} (hopen : (calls i).isOpen = false) {get : Memory M → α}
    {next : α → Prog Lock (Memory M) β}
    (h : ∀ y, Undisturbed H x y → (bank calls first).Valid i H none y →
      (bank calls first).wp i Q (next (get y.mem)) H none y ∨
        ∃ r, perform y.abs (calls i) = (y.abs, r) ∧
          ∀ z, z.mem = y.mem → z.abs = y.abs →
            (bank calls first).wp i Q (next (get y.mem)) H (some r) z) :
    (bank calls first).wp i Q (.read get >>= next) H none x := by
  intro y hrely hvalid
  rcases h y hrely hvalid with hstay | ⟨r, hspec, hnext⟩
  · exact ⟨none, y, rfl, .stays rfl rfl, .refl hvalid.inv, hstay⟩
  · exact ⟨some r, ⟨y.mem, y.abs, y.history ++ [(i, r)]⟩, rfl, .commits hspec rfl,
      guarantees_noted hvalid.inv hopen r, hnext _ rfl rfl⟩

theorem store_restore {h : Hold} (hstore : H .store = none) :
    Function.update (Function.update H .store (some h)) .store none = H := by
  simp [← hstore]

theorem wp_getAccount (hopen : (calls i).isOpen = false) (hstore : H .store = none)
    {accNo : UInt32} {next : Except StoreError Ref → Prog Lock (Memory M) β} {r : Result M}
    (hmissing : ∀ y, Undisturbed H x y → Tracks calls first y →
      y.mem.accounts.get accNo = none → perform y.abs (calls i) = (y.abs, r))
    (hgone : ∀ y, (bank calls first).wp i Q (next (.error .errAccountNotFound)) H (some r) y)
    (hfound : ∀ acc y, Undisturbed H x y → y.mem.accounts.get accNo = some acc →
      (bank calls first).wp i Q (next (.ok acc)) H none y) :
    (bank calls first).wp i Q (getAccount accNo >>= next) H none x := by
  refine Object.wp_bind (Object.wp_reading hstore rfl fun y hxy _ _ => ?_)
  refine wp_read_effect hopen fun z hyz hvalid => ?_
  have hxz := hxy.trans (hyz.mono (Object.hold_update hstore .shared))
  cases hget : z.mem.accounts.get accNo with
  | none =>
    refine .inr ⟨r, hmissing z hxz hvalid.inv hget, fun w _ _ => ?_⟩
    refine ⟨Function.update_self .., fun v _ _ => ?_⟩
    rw [store_restore hstore]
    exact hgone v
  | some acc =>
    refine .inl ⟨Function.update_self .., fun w hzw _ => ?_⟩
    rw [store_restore hstore]
    exact hfound acc w (hxz.trans (hzw.mono (Object.hold_update hstore .shared)))
      (hzw.entries accNo acc hget)

/-- `UpdateAccount` writes the entry that is already there. -/
theorem wp_updateAccount (hstore : H .store = none) {acc : Ref} (hacc : Stored x.mem acc)
    {next : Except StoreError Unit → Prog Lock (Memory M) β}
    (h : ∀ y, Undisturbed H x y → (bank calls first).wp i Q (next (.ok ())) H com y) :
    (bank calls first).wp i Q (updateAccount acc >>= next) H com x := by
  refine Object.wp_bind (Object.wp_writing hstore rfl fun y hxy _ hfree => ?_)
  refine Object.wp_read fun z hyz hvalid => ?_
  have hback := Object.hold_update hstore .sole
  have hxz := hxy.trans (hyz.mono hback)
  have hentry : z.mem.accounts.get acc.accountNumber = some acc := hxz.stored hacc
  simp only [z.mem.named, hentry]
  intro w hzw hvalid'
  have hsame : w.mem.setEntry acc = w.mem := Memory.setEntry_self (hzw.stored hentry)
  refine ⟨com, w, hsame.symm, .stays rfl rfl, .refl hvalid'.inv, Function.update_self ..,
    fun v hwv _ => ⟨?_, ?_⟩⟩
  · obtain ⟨hmem, habs, -⟩ := ((hyz.trans hzw).trans hwv).nextID (Function.update_self ..)
    change v.abs.nextID = v.mem.nextID
    rw [hmem, habs]
    exact hfree
  · rw [store_restore hstore]
    exact h v (hxz.trans ((hzw.trans hwv).mono hback))

/-- What is known of an account whose mutex the call has: it is in the store, and the balances. -/
structure Owned (H : Holds Lock) (y : BankView ι M) (acc : Ref) (account : Account M)
    (specified : M) : Prop where
  held : H (.account acc) = some .sole
  stored : Stored y.mem acc
  object : y.mem.objects acc = account
  entry : y.abs.accounts.get acc.accountNumber = some { account with balance := specified }

omit [Money M] in
theorem Owned.kept {y : BankView ι M} {acc : Ref} {account : Account M} {b : M}
    (h : Owned H x acc account b) (hrely : Undisturbed H x y) : Owned H y acc account b := by
  obtain ⟨hobject, hentry⟩ := hrely.account acc h.held h.stored
  exact ⟨h.held, hrely.stored h.stored, hobject.trans h.object, hentry.trans h.entry⟩

omit [Money M] in
theorem Owned.inStep {acc : Ref} {account : Account M} (h : Owned H x acc account account.balance) :
    InStep (.account acc) x := by
  intro _
  rw [h.entry, h.object]

theorem wp_adjust {acc : Ref} {account : Account M} {b : M} (hown : Owned H x acc account b)
    {f : M → M} {next : Unit → Prog Lock (Memory M) β}
    (h : ∀ y, Undisturbed H x y → (bank calls first).Valid i H com y → ∃ com' s history,
      (bank calls first).Effect i com y com' ⟨y.mem, s, history⟩ ∧ Respecified H y s ∧
        opened calls history = opened calls y.history ∧
        (bank calls first).wp i Q (next ()) H com'
          ⟨y.mem.setBalance acc (f account.balance), s, history⟩) :
    (bank calls first).wp i Q (adjust acc f >>= next) H com x := by
  refine Object.wp_bind (Object.wp_read fun y hxy hvalid => ?_)
  intro z hyz hvalid'
  have hy := hown.kept hxy
  have hz := hy.kept hyz
  obtain ⟨com', s, history, heffect, habs, hcount, hnext⟩ := h z (hxy.trans hyz) hvalid'
  simp only [hy.object]
  refine ⟨com', ⟨z.mem.setBalance acc (f account.balance), s, history⟩, rfl, ?_,
    (Rewrites.setBalance habs hz.held hz.stored _).guarantees hvalid'.inv hcount, hnext⟩
  cases heffect with
  | stays hs hhistory => exact .stays hs hhistory
  | commits hspec hhistory => exact .commits hspec hhistory

theorem wp_createAccount (hopen : (calls i).isOpen = true) (hstore : H .store = none)
    (hroom : ∀ history : List (ι × Result M), (ids history).Nodup → i ∉ ids history →
      first + opened calls history + 1 < 2 ^ 32)
    {acc : Account M} {next : UInt32 → Prog Lock (Memory M) β} {r : UInt32 → Result M}
    (hspec : ∀ s, perform s (calls i) = ((Store.createAccount s acc).1, r s.nextID))
    (h : ∀ id y, (bank calls first).wp i Q (next id) H (some (r id)) y) :
    (bank calls first).wp i Q (createAccount acc >>= next) H none x := by
  refine Object.wp_bind (Object.wp_writing hstore rfl fun y _ _ hfree => ?_)
  have hheld : Function.update H .store (some Hold.sole) .store = some .sole :=
    Function.update_self ..
  refine Object.wp_read fun z hyz _ => ?_
  have hid : z.mem.nextID = z.abs.nextID := by
    obtain ⟨hmem, habs, -⟩ := hyz.nextID hheld
    rw [hmem, habs]
    exact hfree.symm
  -- The object is allocated and gets its entry; nobody else writes to the store meanwhile.
  intro v hzv hv
  refine ⟨none, ⟨v.mem.allocate { acc with accountNumber := z.mem.nextID }, v.abs, v.history⟩, rfl,
    .stays rfl rfl, guarantees_allocate hv.inv hheld _, ?_⟩
  intro w hvw hw
  obtain ⟨hnextv, habsv, -⟩ := hzv.nextID hheld
  obtain ⟨hnextw, habsw, hallw⟩ := hvw.nextID hheld
  have hserial : ∀ id, v.mem.accounts.get id ≠ some (v.mem.fresh { acc with
      accountNumber := z.mem.nextID }) := fun id hget => absurd (hv.inv.allocated id _ hget)
    (lt_irrefl _)
  have hobject : w.mem.objects (v.mem.fresh { acc with accountNumber := z.mem.nextID }) =
      { acc with accountNumber := z.mem.nextID } := by
    rw [hvw.unshared hheld _ (hserial _)]
    exact Function.update_self ..
  have hnumber : z.mem.nextID = w.abs.nextID := by rw [hid, habsw, habsv]
  have hnew : w.mem.accounts.get w.abs.nextID = none := by
    by_contra hsome
    obtain ⟨ref, href⟩ := Option.ne_none_iff_exists'.mp hsome
    exact absurd (hw.inv.numbered _ ref href) (lt_irrefl _)
  refine ⟨some (r z.mem.nextID), ⟨w.mem.setEntry _, (Store.createAccount w.abs
      { acc with accountNumber := z.mem.nextID }).1, w.history ++ [(i, r z.mem.nextID)]⟩, rfl,
    .commits ?_ rfl, guarantees_setEntry hw.inv hheld hnumber hobject ?_ hnew hopen
      (hroom _ hw.once (hw.noted.pending rfl)) _, ?_⟩
  · change perform w.abs (calls i) = _
    rw [hspec, hnumber]
    rfl
  · rw [hallw]
    exact Nat.lt_succ_self _
  intro u hwu hu
  obtain ⟨hnextu, habsu, -⟩ := hwu.nextID hheld
  refine ⟨_, ⟨{ u.mem with nextID := u.mem.nextID + 1 }, u.abs, u.history⟩, rfl, .stays rfl rfl,
    guarantees_nextID hu.inv hheld, hheld, fun t hut _ => ⟨?_, ?_⟩⟩
  · obtain ⟨hnextt, habst, -⟩ := hut.nextID hheld
    change t.abs.nextID = t.mem.nextID
    rw [hnextt, habst, habsu]
    change w.abs.nextID + 1 = u.mem.nextID + 1
    rw [hnextu, ← hnumber]
    change z.mem.nextID + 1 = w.mem.nextID + 1
    rw [hnextw]
    change z.mem.nextID + 1 = v.mem.nextID + 1
    rw [hnextv]
  · rw [store_restore hstore]
    exact h _ t

end Rules

end DistributedBanking.Concurrent.Linearized
