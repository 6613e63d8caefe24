import DistributedBanking.ConcurrentBank
import DistributedBanking.Ownership

/-!
# What a call settles among concurrent calls

The mutex of an account object owns two things: the object's balance and whether
the store still has the object. Each call but OpenAccount is verified by itself
under these rules: which changes it makes, and what balance it leaves at its
unlock.

A transfer does not look whether its accounts are still in the store when it has
locked them, so what it settles rests on an assumption about that moment.
-/

namespace DistributedBanking.Concurrent
open Store Banking Threads

section Cells
variable {M : Type}

def Stored (s : Memory M) (acc : Ref) : Prop := s.accounts.get acc.accountNumber = some acc

instance (s : Memory M) (acc : Ref) : Decidable (Stored s acc) :=
  inferInstanceAs (Decidable (_ = _))

@[simp] theorem stored_setBalance {s : Memory M} {acc acc' : Ref} {balance : M} :
    Stored (s.setBalance acc balance) acc' ↔ Stored s acc' := Iff.rfl

def contents (s : Memory M) (acc : Ref) : M × Bool :=
  ((s.objects acc).balance, decide (Stored s acc))

theorem contents_stored {s : Memory M} {acc : Ref} :
    (contents s acc).2 = true ↔ Stored s acc := decide_eq_true_iff

def funds [Zero M] (v : M × Bool) : M := if v.2 then v.1 else 0

theorem funds_of_stored [Zero M] {s : Memory M} {acc : Ref} (h : Stored s acc) :
    funds (contents s acc) = (s.objects acc).balance := by
  simp [funds, contents, h]

def closes : Op M → Bool
  | .closeAccount _ _ _ => true
  | _ => false

def transfers : Op M → Bool
  | .transfer _ _ _ _ _ _ => true
  | _ => false

/-- What an action of a call may do to the map: entries only disappear, and only through a Close. -/
structure Permitted (op : Op M) (s s' : Memory M) : Prop where
  shrinks : ∀ id acc, s'.accounts.get id = some acc → s.accounts.get id = some acc
  keeps : closes op = false → s'.accounts = s.accounts

theorem Permitted.refl (op : Op M) (s : Memory M) : Permitted op s s where
  shrinks _ _ h := h
  keeps _ := rfl

/-- When a transfer has both mutexes, with the one it is about to take, both of its accounts are
in the store, or the source has too little. -/
def Covered [LT M] (s₀ : Memory M) (op : Op M) (held : Ref → Prop) (acc : Ref) (s : Memory M) :
    Prop :=
  match op with
  | .transfer _ fromAccNo _ toAccNo _ amount =>
    ∀ fromAcc ∈ s₀.accounts.get fromAccNo, ∀ toAcc ∈ s₀.accounts.get toAccNo,
      (held fromAcc ∨ fromAcc = acc) → (held toAcc ∨ toAcc = acc) →
      (Stored s fromAcc ∧ Stored s toAcc) ∨ (s.objects fromAcc).balance < amount
  | _ => True

instance [LT M] [DecidableLT M] (s₀ : Memory M) (op : Op M) (held : Ref → Prop)
    [DecidablePred held] (acc : Ref) (s : Memory M) : Decidable (Covered s₀ op held acc s) :=
  match op with
  | .transfer _ fromAccNo _ toAccNo _ amount => inferInstanceAs (Decidable
      (∀ fromAcc ∈ s₀.accounts.get fromAccNo, ∀ toAcc ∈ s₀.accounts.get toAccNo,
        (held fromAcc ∨ fromAcc = acc) → (held toAcc ∨ toAcc = acc) →
        (Stored s fromAcc ∧ Stored s toAcc) ∨ (s.objects fromAcc).balance < amount))
  | .openAccount _ _ _ _ => inferInstanceAs (Decidable True)
  | .closeAccount _ _ _ => inferInstanceAs (Decidable True)
  | .checkBalance _ _ _ => inferInstanceAs (Decidable True)
  | .deposit _ _ _ _ _ => inferInstanceAs (Decidable True)
  | .withdraw _ _ _ _ _ => inferInstanceAs (Decidable True)

end Cells

variable {ι : Type} {s₀ : Memory ℚ} {calls : ι → Op ℚ}

abbrev Cell : Type := ℚ × Bool

structure Since (s₀ : Memory ℚ) (calls : ι → Op ℚ) (s : Memory ℚ) : Prop where
  shrunk : ∀ id acc, s.accounts.get id = some acc → s₀.accounts.get id = some acc
  same : (∀ i, closes (calls i) = false) → s.accounts = s₀.accounts

def bankRules (s₀ : Memory ℚ) (calls : ι → Op ℚ) :
    Rules ι Lock Ref (Memory ℚ) Cell where
  mutex := .account
  guards
    | .account acc => some acc
    | .store => none
  guards_iff l acc := by
    cases l <;> simp
  cell := contents
  inv := Since s₀ calls
  free acc v := 0 ≤ (s₀.objects acc).balance → 0 ≤ v.1
  guar i s s' := Permitted (calls i) s s'
  grant i held acc s := (∀ j, closes (calls j) = false) ∨ Covered s₀ (calls i) held acc s
  guar_self i s _ := .refl _ s
  inv_guar i s s' hs hstep :=
    { shrunk := fun id acc h => hs.shrunk id acc (hstep.shrinks id acc h)
      same := fun hcalls => (hstep.keeps (hcalls i)).trans (hs.same hcalls) }

section Steps
variable {i : ι} {g : Share Ref Cell} {β : Type} {Q : β → Share Ref Cell → Prop}

theorem Since.found {s : Memory ℚ} (h : Since s₀ calls s) {acc acc' : Ref}
    (hacc : s₀.accounts.get acc.accountNumber = some acc)
    (hget : s.accounts.get acc.accountNumber = some acc') : acc' = acc := by
  have h' := h.shrunk _ _ hget
  rw [hacc] at h'
  exact (Option.some.inj h').symm

theorem wp_getAccount {accNo : UInt32} {next : Except StoreError Ref → Prog Lock (Memory ℚ) β}
    (h : ∀ res, (∀ acc, res = .ok acc → s₀.accounts.get accNo = some acc) →
      (bankRules s₀ calls).wp i Q (next res) g) :
    (bankRules s₀ calls).wp i Q (getAccount accNo >>= next) g := by
  refine Rules.wp_bind (Rules.wp_reading rfl (Rules.wp_read fun s hs _ => ?_))
  cases hget : s.accounts.get accNo with
  | none => exact h _ (by simp)
  | some acc =>
    refine h _ fun acc' hacc' => ?_
    cases hacc'
    exact hs.shrunk accNo acc hget

theorem wp_updateAccount {acc : Ref} {v : Cell} (hown : g.own acc = some v)
    (hacc : s₀.accounts.get acc.accountNumber = some acc)
    {next : Except StoreError Unit → Prog Lock (Memory ℚ) β}
    (h : (bankRules s₀ calls).wp i Q
      (next (if v.2 then .ok () else .error .errAccountNotFound)) g) :
    (bankRules s₀ calls).wp i Q (updateAccount acc >>= next) g := by
  refine Rules.wp_bind (Rules.wp_writing rfl (Rules.wp_read fun s hs hg => ?_))
  have hcell : contents s acc = v := hg acc v hown
  rw [s.named]
  cases hget : s.accounts.get acc.accountNumber with
  | none =>
    have hv : v.2 = false := by simp [← hcell, contents, Stored, hget]
    rw [hv] at h
    exact h
  | some acc' =>
    have hv : v.2 = true := by simp [← hcell, contents, Stored, hget, hs.found hacc hget]
    rw [hv] at h
    refine Rules.wp_write_self (fun t ht hgt => ?_) h
    have hcell' : contents t acc = v := hgt acc v hown
    rw [← hcell'] at hv
    exact Memory.setEntry_self (contents_stored.mp hv)

theorem wp_balance {acc : Ref} {v : Cell} (hown : g.own acc = some v)
    {next : ℚ → Prog Lock (Memory ℚ) β} (h : (bankRules s₀ calls).wp i Q (next v.1) g) :
    (bankRules s₀ calls).wp i Q (.read (fun s => (s.objects acc).balance) >>= next) g := by
  refine Rules.wp_read fun s _ hg => ?_
  have hcell : contents s acc = v := hg acc v hown
  rw [← hcell] at h
  exact h

theorem contents_setBalance (s : Memory ℚ) (acc : Ref) (balance : ℚ) :
    contents (s.setBalance acc balance) =
      Function.update (contents s) acc (balance, (contents s acc).2) := by
  funext acc'
  by_cases h : acc' = acc
  · subst h
    simp [contents]
  · simp [contents, h]

theorem wp_adjust {acc : Ref} {v : Cell} {f : ℚ → ℚ} (hown : g.own acc = some v)
    {next : Unit → Prog Lock (Memory ℚ) β}
    (h : (bankRules s₀ calls).wp i Q (next ()) (g.put acc v (f v.1, v.2))) :
    (bankRules s₀ calls).wp i Q (adjust acc f >>= next) g := by
  refine Rules.wp_bind (wp_balance hown ?_)
  refine Rules.wp_write hown (fun s _ hg => ⟨⟨fun _ _ hget => hget, fun _ => rfl⟩, ?_⟩) h
  have hcell : contents s acc = v := hg acc v hown
  rw [← hcell]
  exact contents_setBalance s acc _

theorem contents_deleteEntry {s : Memory ℚ} {acc : Ref} (h : Stored s acc) :
    contents (s.deleteEntry acc.accountNumber) =
      Function.update (contents s) acc ((contents s acc).1, false) := by
  funext acc'
  by_cases hacc : acc' = acc
  · subst hacc
    simp [contents, Stored, Memory.deleteEntry]
  · have hsame : Stored (s.deleteEntry acc.accountNumber) acc' ↔ Stored s acc' := by
      rw [Stored, Stored, Memory.deleteEntry, FiniteMap.get_delete]
      by_cases hkey : acc'.accountNumber = acc.accountNumber
      · rw [Stored] at h
        simp [hkey, h, Ne.symm hacc]
      · rw [if_neg hkey]
    simp only [contents, hsame, Function.update_of_ne hacc]
    rfl

theorem wp_deleteAccount (hi : closes (calls i) = true) {acc : Ref} {v : Cell}
    (hown : g.own acc = some v) (hacc : s₀.accounts.get acc.accountNumber = some acc)
    {next : Except StoreError Unit → Prog Lock (Memory ℚ) β}
    (hmissing : (bankRules s₀ calls).wp i Q (next (.error .errAccountNotFound)) g)
    (hgone : v.2 = true → (bankRules s₀ calls).wp i Q (next (.ok ()))
      (g.put acc v (v.1, false))) :
    (bankRules s₀ calls).wp i Q (deleteAccount acc.accountNumber >>= next) g := by
  refine Rules.wp_bind (Rules.wp_writing rfl (Rules.wp_read fun s hs hg => ?_))
  have hcell : contents s acc = v := hg acc v hown
  cases hget : s.accounts.get acc.accountNumber with
  | none => exact hmissing
  | some acc' =>
    have hfound := hs.found hacc hget
    subst hfound
    have hv : v.2 = true := by
      rw [← hcell]
      exact contents_stored.mpr hget
    refine Rules.wp_write hown (fun t _ hgt => ?_) (hgone hv)
    have hcell' : contents t acc' = v := hgt acc' v hown
    have hstored : Stored t acc' := contents_stored.mp (by rw [hcell', hv])
    refine ⟨⟨fun id a ha => ?_, fun hkeep => ?_⟩, ?_⟩
    · simp only [Memory.deleteEntry, FiniteMap.get_delete] at ha
      split_ifs at ha
      exact ha
    · rw [hi] at hkeep
      cases hkeep
    · rw [← hcell']
      exact contents_deleteEntry hstored

theorem wp_settle {acc : Ref} {v : Cell} {Q : Except BankingError ℚ → _ → Prop}
    (hown : g.own acc = some v) (hacc : s₀.accounts.get acc.accountNumber = some acc)
    (h : Q (if v.2 then .ok v.1 else .error (.store .errAccountNotFound)) g) :
    (bankRules s₀ calls).wp i Q (settle acc) g := by
  refine wp_updateAccount hown hacc ?_
  cases hv : v.2 with
  | false =>
    rw [hv] at h
    exact h
  | true =>
    rw [hv] at h
    exact wp_balance hown h

end Steps

/-- A call in its critical section: it has the mutex of `acc`, has found or left `v` there and has
made the changes `log` to it. -/
def holding (acc : Ref) (v : Cell) (log : List (Cell × Cell)) :
    Share Ref Cell where
  own := Function.update (fun _ => none) acc (some v)
  changes := Function.update (fun _ => []) acc log
  released _ := []

@[simp] theorem holding_own (acc : Ref) (v : Cell) (log : List (Cell × Cell)) :
    (holding acc v log).own acc = some v := by
  simp [holding]

theorem holding_acquire (acc : Ref) (v : Cell) :
    Share.empty.acquire acc v = holding acc v [] := by
  refine Share.ext rfl ?_ rfl
  simp [holding, Share.acquire, Share.empty]

theorem holding_put (acc : Ref) (v w : Cell) (log : List (Cell × Cell)) :
    (holding acc v log).put acc v w = holding acc w (log ++ change v w) := by
  refine Share.ext ?_ ?_ rfl <;> simp [holding, Share.put]

structure Leaves (acc : Ref) (v : Cell) (log : List (Cell × Cell))
    (g : Share Ref Cell) : Prop where
  changes : g.changes = Function.update (fun _ => []) acc log
  released : g.released acc = [v]

theorem leaves_release (acc : Ref) (v : Cell) (log : List (Cell × Cell)) :
    Leaves acc v log ((holding acc v log).release acc v) where
  changes := rfl
  released := by simp [holding, Share.release]

theorem Leaves.unchanged {acc : Ref} {v : Cell} {g : Share Ref Cell}
    (h : Leaves acc v [] g) : g.changes = fun _ => [] := by
  rw [h.changes]
  exact Function.update_eq_self acc _

section Calls
variable {i : ι}

def Ends {α : Type} (s₀ : Memory ℚ) (acc : Ref) (Q : α → Share Ref Cell → Prop) (r : α)
    (g : Share Ref Cell) : Prop :=
  ∃ v log, g = holding acc v log ∧ (0 ≤ (s₀.objects acc).balance → 0 ≤ v.1) ∧
    ∀ g', Leaves acc v log g' → Q r g'

theorem wp_authorised {α : Type} {Q : Except BankingError α → Share Ref Cell → Prop}
    {name : Bytes} {accNo : UInt32} {pw : Vector UInt8 8}
    {body : Ref → Prog Lock (Memory ℚ) (Except BankingError α)}
    (herr : ∀ err g, (g.changes = fun _ => []) → Q (.error err) g)
    (hbody : ∀ acc v, s₀.accounts.get acc.accountNumber = some acc → acc.accountNumber = accNo →
      (0 ≤ (s₀.objects acc).balance → 0 ≤ v.1) →
      (bankRules s₀ calls).wp i (Ends s₀ acc Q) (body acc) (holding acc v [])) :
    (bankRules s₀ calls).wp i Q (do
      match ← getAccount accNo with
      | .error _ => return .error .errInvalidCredentials
      | .ok acc =>
        match ← .read fun s => checkAuth (s.objects acc) name pw with
        | .error err => return .error err
        | .ok () => .locked (.account acc) (body acc)) .empty := by
  refine wp_getAccount fun res hres => ?_
  cases res with
  | error err => exact herr _ _ rfl
  | ok acc =>
    refine Rules.wp_read fun s _ _ => ?_
    cases checkAuth (s.objects acc) name pw with
    | error err => exact herr err _ rfl
    | ok _ =>
      have hget := hres acc rfl
      have hkey := s₀.keyed accNo acc hget
      refine Rules.wp_locked fun s _ _ hfree _ => ?_
      rw [holding_acquire]
      refine Rules.wp_mono (hbody acc _ (by rwa [hkey]) hkey hfree) fun r g hg => ?_
      obtain ⟨v', log, rfl, hfree', hQ⟩ := hg
      exact ⟨v', holding_own acc v' log, hfree', hQ _ (leaves_release acc v' log)⟩

theorem wp_checkBalance {Q : Except BankingError ℚ → Share Ref Cell → Prop}
    {name : Bytes} {accNo : UInt32} {pw : Vector UInt8 8}
    (herr : ∀ err g, (g.changes = fun _ => []) → Q (.error err) g)
    (hok : ∀ acc v g, s₀.accounts.get accNo = some acc → Leaves acc v [] g → Q (.ok v.1) g) :
    (bankRules s₀ calls).wp i Q (checkBalance name accNo pw) .empty := by
  refine wp_authorised herr fun acc v hacc hkey hfree => ?_
  rw [hkey] at hacc
  exact wp_balance (holding_own acc v []) ⟨v, [], rfl, hfree, fun g hg => hok acc v g hacc hg⟩

theorem wp_closeAccount (hi : closes (calls i) = true)
    {Q : Except BankingError Unit → Share Ref Cell → Prop}
    {name : Bytes} {accNo : UInt32} {pw : Vector UInt8 8}
    (herr : ∀ err g, (g.changes = fun _ => []) → Q (.error err) g)
    (hok : ∀ acc b g, s₀.accounts.get accNo = some acc →
      Leaves acc (b, false) (change (b, true) (b, false)) g → Q (.ok ()) g) :
    (bankRules s₀ calls).wp i Q (closeAccount name accNo pw) .empty := by
  refine wp_authorised herr fun acc v hacc hkey hfree => ?_
  subst hkey
  refine wp_deleteAccount hi (holding_own acc v []) hacc ?_ fun hv => ?_
  · exact ⟨v, [], rfl, hfree, fun g hg => herr _ g hg.unchanged⟩
  · obtain ⟨b, stored⟩ := v
    cases hv
    rw [holding_put]
    exact ⟨(b, false), _, rfl, hfree, fun g hg => hok acc b g hacc hg⟩

/-- Deposit and Withdraw write first; on an object that has left the store, UpdateAccount then
fails. -/
theorem wp_adjust_settle {Q : Except BankingError ℚ → Share Ref Cell → Prop} {acc : Ref} {v : Cell}
    {f : ℚ → ℚ} (hacc : s₀.accounts.get acc.accountNumber = some acc)
    (hfree : 0 ≤ (s₀.objects acc).balance → 0 ≤ f v.1)
    (hgone : ∀ g, Leaves acc (f v.1, false) (change (v.1, false) (f v.1, false)) g →
      Q (.error (.store .errAccountNotFound)) g)
    (hok : ∀ g, Leaves acc (f v.1, true) (change (v.1, true) (f v.1, true)) g →
      Q (.ok (f v.1)) g) :
    (bankRules s₀ calls).wp i (Ends s₀ acc Q) (do adjust acc f; settle acc)
      (holding acc v []) := by
  obtain ⟨b, stored⟩ := v
  refine wp_adjust (holding_own acc _ []) ?_
  rw [holding_put]
  refine wp_settle (holding_own ..) hacc ⟨_, _, rfl, hfree, fun g hg => ?_⟩
  cases stored with
  | false => exact hgone g hg
  | true => exact hok g hg

theorem wp_deposit {Q : Except BankingError ℚ → Share Ref Cell → Prop}
    {name : Bytes} {accNo : UInt32} {pw : Vector UInt8 8} {curr : UInt8} {amount : ℚ}
    (herr : ∀ err g, (g.changes = fun _ => []) → Q (.error err) g)
    (hgone : ∀ acc b g, Leaves acc (b + amount, false) (change (b, false) (b + amount, false)) g →
      Q (.error (.store .errAccountNotFound)) g)
    (hok : ∀ acc b g, s₀.accounts.get accNo = some acc →
      Leaves acc (b + amount, true) (change (b, true) (b + amount, true)) g →
      Q (.ok (b + amount)) g) :
    (bankRules s₀ calls).wp i Q (deposit name accNo pw curr amount) .empty := by
  rw [deposit]
  by_cases hpos : amount ≤ 0
  · rw [if_pos hpos]
    exact herr _ _ rfl
  rw [if_neg hpos]
  refine wp_authorised herr fun acc v hacc hkey hfree => ?_
  refine Rules.wp_read fun s _ _ => ?_
  split_ifs with hcurr
  · exact ⟨v, [], rfl, hfree, fun g hg => herr _ g hg.unchanged⟩
  exact wp_adjust_settle hacc (fun h => by linarith [hfree h]) (fun g hg => hgone acc _ g hg)
    fun g hg => hok acc _ g (by rwa [← hkey]) hg

theorem wp_withdraw {Q : Except BankingError ℚ → Share Ref Cell → Prop}
    {name : Bytes} {accNo : UInt32} {pw : Vector UInt8 8} {curr : UInt8} {amount : ℚ}
    (herr : ∀ err g, (g.changes = fun _ => []) → Q (.error err) g)
    (hgone : ∀ acc b g, Leaves acc (b - amount, false) (change (b, false) (b - amount, false)) g →
      Q (.error (.store .errAccountNotFound)) g)
    (hok : ∀ acc b g, s₀.accounts.get accNo = some acc →
      Leaves acc (b - amount, true) (change (b, true) (b - amount, true)) g →
      Q (.ok (b - amount)) g) :
    (bankRules s₀ calls).wp i Q (withdraw name accNo pw curr amount) .empty := by
  rw [withdraw]
  by_cases hpos : amount ≤ 0
  · rw [if_pos hpos]
    exact herr _ _ rfl
  rw [if_neg hpos]
  refine wp_authorised herr fun acc v hacc hkey hfree => ?_
  refine Rules.wp_read fun s _ _ => ?_
  split_ifs with hcurr
  · exact ⟨v, [], rfl, hfree, fun g hg => herr _ g hg.unchanged⟩
  refine wp_balance (holding_own acc v []) ?_
  split_ifs with hfunds
  · exact ⟨v, [], rfl, hfree, fun g hg => herr _ g hg.unchanged⟩
  exact wp_adjust_settle hacc (fun _ => by linarith) (fun g hg => hgone acc _ g hg)
    fun g hg => hok acc _ g (by rwa [← hkey]) hg

end Calls

section Transfers
variable {i : ι} {fromAcc toAcc : Ref}

def holdingBoth (fromAcc toAcc : Ref) (v w : Cell) (log log' : List (Cell × Cell)) :
    Share Ref Cell where
  own := Function.update (Function.update (fun _ => none) fromAcc (some v)) toAcc (some w)
  changes := Function.update (Function.update (fun _ => []) fromAcc log) toAcc log'
  released _ := []

theorem holdingBoth_from (hne : fromAcc ≠ toAcc) (v w : Cell) (log log' : List (Cell × Cell)) :
    (holdingBoth fromAcc toAcc v w log log').own fromAcc = some v := by
  simp [holdingBoth, hne]

theorem holdingBoth_to (v w : Cell) (log log' : List (Cell × Cell)) :
    (holdingBoth fromAcc toAcc v w log log').own toAcc = some w := by
  simp [holdingBoth]

theorem holdingBoth_acquire (v w : Cell) :
    (Share.empty.acquire fromAcc v).acquire toAcc w = holdingBoth fromAcc toAcc v w [] [] := by
  refine Share.ext rfl ?_ rfl
  simp [holdingBoth, Share.acquire, Share.empty]

theorem holdingBoth_acquire' (hne : fromAcc ≠ toAcc) (v w : Cell) :
    (Share.empty.acquire toAcc w).acquire fromAcc v = holdingBoth fromAcc toAcc v w [] [] := by
  rw [← holdingBoth_acquire]
  exact Share.ext (Function.update_comm hne.symm _ _ _) rfl rfl

theorem holdingBoth_put_from (hne : fromAcc ≠ toAcc) (v v' w : Cell)
    (log log' : List (Cell × Cell)) :
    (holdingBoth fromAcc toAcc v w log log').put fromAcc v v' =
      holdingBoth fromAcc toAcc v' w (log ++ change v v') log' := by
  refine Share.ext ?_ ?_ rfl
  · simp [holdingBoth, Share.put, Function.update_comm hne.symm]
  · simp [holdingBoth, Share.put, Function.update_comm hne.symm, hne]

theorem holdingBoth_put_to (v w w' : Cell) (log log' : List (Cell × Cell)) :
    (holdingBoth fromAcc toAcc v w log log').put toAcc w w' =
      holdingBoth fromAcc toAcc v w' log (log' ++ change w w') := by
  refine Share.ext ?_ ?_ rfl <;> simp [holdingBoth, Share.put]

structure LeavesBoth (fromAcc toAcc : Ref) (v w : Cell) (log log' : List (Cell × Cell))
    (g : Share Ref Cell) : Prop where
  changes : g.changes = Function.update (Function.update (fun _ => []) fromAcc log) toAcc log'
  releasedFrom : g.released fromAcc = [v]
  releasedTo : g.released toAcc = [w]

theorem leavesBoth_release (hne : fromAcc ≠ toAcc) (v w : Cell) (log log' : List (Cell × Cell)) :
    LeavesBoth fromAcc toAcc v w log log'
      (((holdingBoth fromAcc toAcc v w log log').release toAcc w).release fromAcc v) where
  changes := rfl
  releasedFrom := by simp [holdingBoth, Share.release, hne]
  releasedTo := by simp [holdingBoth, Share.release, hne.symm]

theorem LeavesBoth.unchanged {v w : Cell} {g : Share Ref Cell}
    (h : LeavesBoth fromAcc toAcc v w [] [] g) : g.changes = fun _ => [] := by
  rw [h.changes, Function.update_eq_self fromAcc, Function.update_eq_self toAcc]

def Ready (amount : ℚ) (v w : Cell) : Prop := (v.2 = true ∧ w.2 = true) ∨ v.1 < amount

theorem ready_of_grant {name : Bytes} {fromAccNo toAccNo : UInt32} {pw : Vector UInt8 8}
    {curr : UInt8} {amount : ℚ} (hi : calls i = .transfer name fromAccNo pw toAccNo curr amount)
    (hfrom : s₀.accounts.get fromAccNo = some fromAcc) (hto : s₀.accounts.get toAccNo = some toAcc)
    {s : Memory ℚ} (hs : Since s₀ calls s) {held : Ref → Prop} {acc : Ref}
    (hheld : (held fromAcc ∨ fromAcc = acc) ∧ (held toAcc ∨ toAcc = acc))
    (hgrant : (∀ j, closes (calls j) = false) ∨ Covered s₀ (calls i) held acc s) :
    Ready amount (contents s fromAcc) (contents s toAcc) := by
  rcases hgrant with hcalls | hcovered
  · refine .inl ⟨contents_stored.mpr ?_, contents_stored.mpr ?_⟩
    · rw [Stored, hs.same hcalls, s₀.keyed fromAccNo fromAcc hfrom, hfrom]
    · rw [Stored, hs.same hcalls, s₀.keyed toAccNo toAcc hto, hto]
  · rw [hi] at hcovered
    rcases hcovered fromAcc hfrom toAcc hto hheld.1 hheld.2 with hboth | hfunds
    · exact .inl ⟨contents_stored.mpr hboth.1, contents_stored.mpr hboth.2⟩
    · exact .inr hfunds

theorem wp_lockInOrder {α : Type} {Q : α → Share Ref (Cell) → Prop} {name : Bytes}
    {fromAccNo toAccNo : UInt32} {pw : Vector UInt8 8} {curr : UInt8} {amount : ℚ}
    (hi : calls i = .transfer name fromAccNo pw toAccNo curr amount)
    (hfrom : s₀.accounts.get fromAccNo = some fromAcc) (hto : s₀.accounts.get toAccNo = some toAcc)
    (hne : fromAcc ≠ toAcc) {next : Unit → Prog Lock (Memory ℚ) α}
    (h : ∀ v w, (0 ≤ (s₀.objects fromAcc).balance → 0 ≤ v.1) →
      (0 ≤ (s₀.objects toAcc).balance → 0 ≤ w.1) → Ready amount v w →
      (bankRules s₀ calls).wp i Q (next ()) (holdingBoth fromAcc toAcc v w [] [])) :
    (bankRules s₀ calls).wp i Q (lockInOrder fromAcc toAcc >>= next) .empty := by
  refine Rules.wp_bind (Rules.wp_read fun s _ _ => Rules.wp_read fun s' _ _ => ?_)
  split_ifs with hlt
  · refine Rules.wp_lock fun t _ _ hfree _ => ?_
    refine Rules.wp_lock fun t' ht' hgt' hfree' hgrant => ?_
    have hkept : contents t' fromAcc = contents t fromAcc :=
      hgt' fromAcc _ (Function.update_self ..)
    have hready := ready_of_grant hi hfrom hto ht'
      ⟨.inl (by simp [Share.acquire]), .inr rfl⟩ hgrant
    rw [hkept] at hready
    have hnext := h _ _ hfree hfree' hready
    rw [← holdingBoth_acquire] at hnext
    exact hnext
  · refine Rules.wp_lock fun t _ _ hfree _ => ?_
    refine Rules.wp_lock fun t' ht' hgt' hfree' hgrant => ?_
    have hkept : contents t' toAcc = contents t toAcc := hgt' toAcc _ (Function.update_self ..)
    have hready := ready_of_grant hi hfrom hto ht'
      ⟨.inr rfl, .inl (by simp [Share.acquire])⟩ hgrant
    rw [hkept] at hready
    have hnext := h _ _ hfree' hfree hready
    rw [← holdingBoth_acquire' hne] at hnext
    exact hnext

theorem wp_move {amount : ℚ} (hpos : 0 < amount)
    (hfrom : s₀.accounts.get fromAcc.accountNumber = some fromAcc)
    (hto : s₀.accounts.get toAcc.accountNumber = some toAcc) (hne : fromAcc ≠ toAcc)
    {v w : Cell} (hfree : 0 ≤ (s₀.objects fromAcc).balance → 0 ≤ v.1)
    (hfree' : 0 ≤ (s₀.objects toAcc).balance → 0 ≤ w.1) (hready : Ready amount v w)
    {Q : Except BankingError (ℚ × ℚ) → Share Ref Cell → Prop}
    (herr : ∀ err g, (g.changes = fun _ => []) → Q (.error err) g)
    (hok : ∀ b d g, LeavesBoth fromAcc toAcc (b - amount, true) (d + amount, true)
        (change (b, true) (b - amount, true)) (change (d, true) (d + amount, true)) g →
      Q (.ok (b - amount, d + amount)) g) :
    (bankRules s₀ calls).wp i (fun r g => ∃ v w log log',
        g = holdingBoth fromAcc toAcc v w log log' ∧
        (0 ≤ (s₀.objects fromAcc).balance → 0 ≤ v.1) ∧
        (0 ≤ (s₀.objects toAcc).balance → 0 ≤ w.1) ∧
        ∀ g', LeavesBoth fromAcc toAcc v w log log' g' → Q r g')
      (move fromAcc toAcc amount) (holdingBoth fromAcc toAcc v w [] []) := by
  refine wp_balance (holdingBoth_from hne v w [] []) ?_
  split_ifs with hfunds
  · exact ⟨v, w, [], [], rfl, hfree, hfree', fun g hg => herr _ g hg.unchanged⟩
  obtain ⟨b, stored⟩ := v
  obtain ⟨d, stored'⟩ := w
  obtain ⟨rfl, rfl⟩ : stored = true ∧ stored' = true := hready.resolve_right hfunds
  dsimp only at hfunds hfree hfree'
  refine wp_adjust (holdingBoth_from hne ..) ?_
  rw [holdingBoth_put_from hne]
  refine wp_adjust (holdingBoth_to ..) ?_
  rw [holdingBoth_put_to]
  refine wp_updateAccount (holdingBoth_from hne ..) hfrom ?_
  refine wp_updateAccount (holdingBoth_to ..) hto ?_
  refine wp_balance (holdingBoth_from hne ..) (wp_balance (holdingBoth_to ..) ?_)
  exact ⟨_, _, _, _, rfl, fun _ => by linarith, fun h => by linarith [hfree' h],
    fun g hg => hok b d g hg⟩

theorem wp_transfer {name : Bytes} {fromAccNo toAccNo : UInt32} {pw : Vector UInt8 8}
    {curr : UInt8} {amount : ℚ} (hi : calls i = .transfer name fromAccNo pw toAccNo curr amount)
    {Q : Except BankingError (ℚ × ℚ) → Share Ref Cell → Prop}
    (herr : ∀ err g, (g.changes = fun _ => []) → Q (.error err) g)
    (hok : ∀ fromAcc toAcc b d g, 0 < amount → s₀.accounts.get fromAccNo = some fromAcc →
      s₀.accounts.get toAccNo = some toAcc → fromAcc ≠ toAcc →
      LeavesBoth fromAcc toAcc (b - amount, true) (d + amount, true)
        (change (b, true) (b - amount, true)) (change (d, true) (d + amount, true)) g →
      Q (.ok (b - amount, d + amount)) g) :
    (bankRules s₀ calls).wp i Q (transfer name fromAccNo pw toAccNo curr amount) .empty := by
  rw [transfer]
  by_cases hpos : amount ≤ 0
  · rw [if_pos hpos]
    exact herr _ _ rfl
  by_cases heq : fromAccNo = toAccNo
  · rw [if_neg hpos, if_pos heq]
    exact herr _ _ rfl
  rw [if_neg hpos, if_neg heq]
  refine wp_getAccount fun res hres => ?_
  cases res with
  | error err => exact herr _ _ rfl
  | ok fromAcc =>
    refine wp_getAccount fun res hres' => ?_
    cases res with
    | error err => exact herr _ _ rfl
    | ok toAcc =>
      have hfrom := hres fromAcc rfl
      have hto := hres' toAcc rfl
      have hkey := s₀.keyed fromAccNo fromAcc hfrom
      have hkeyTo := s₀.keyed toAccNo toAcc hto
      have hne : fromAcc ≠ toAcc := Memory.ref_ne hfrom hto heq
      refine Rules.wp_read fun s _ _ => ?_
      cases checkAuth (s.objects fromAcc) name pw with
      | error err => exact herr err _ rfl
      | ok _ =>
        refine Rules.wp_read fun _ _ _ => Rules.wp_read fun _ _ _ => ?_
        split_ifs with hcurr
        · exact herr _ _ rfl
        refine wp_lockInOrder hi hfrom hto hne fun v w hfree hfree' hready => ?_
        refine Rules.wp_bind (Rules.wp_mono (wp_move (lt_of_not_ge hpos) (by rwa [hkey])
          (by rwa [hkeyTo]) hne hfree hfree' hready herr fun b d g hg =>
            hok fromAcc toAcc b d g (lt_of_not_ge hpos) hfrom hto hne hg) fun r g hg => ?_)
        obtain ⟨v', w', log, log', rfl, hv, hw, hQ⟩ := hg
        refine Rules.wp_unlock (holdingBoth_to ..) hw (Rules.wp_unlock (v := v') ?_ hv ?_)
        · simp [Share.release, holdingBoth_from hne, hne]
        · exact hQ _ (leavesBoth_release hne v' w' log log')

end Transfers

/-- What a finished call has done, by its result: the changes it made, and the balance it left at
each unlock. -/
inductive Settled (s₀ : Memory ℚ) (g : Share Ref Cell) : Op ℚ → Result ℚ → Prop
  | deposited {name : Bytes} {accNo : UInt32} {pw : Vector UInt8 8} {curr : UInt8} {amount b : ℚ}
      {acc : Ref} (hacc : s₀.accounts.get accNo = some acc)
      (hleaves : Leaves acc (b + amount, true) (change (b, true) (b + amount, true)) g) :
      Settled s₀ g (.deposit name accNo pw curr amount) (.balance (b + amount))
  | withdrawn {name : Bytes} {accNo : UInt32} {pw : Vector UInt8 8} {curr : UInt8} {amount b : ℚ}
      {acc : Ref} (hacc : s₀.accounts.get accNo = some acc)
      (hleaves : Leaves acc (b - amount, true) (change (b, true) (b - amount, true)) g) :
      Settled s₀ g (.withdraw name accNo pw curr amount) (.balance (b - amount))
  | checked {name : Bytes} {accNo : UInt32} {pw : Vector UInt8 8} {v : Cell} {acc : Ref}
      (hacc : s₀.accounts.get accNo = some acc) (hleaves : Leaves acc v [] g) :
      Settled s₀ g (.checkBalance name accNo pw) (.balance v.1)
  | closed {name : Bytes} {accNo : UInt32} {pw : Vector UInt8 8} {b : ℚ} {acc : Ref}
      (hacc : s₀.accounts.get accNo = some acc)
      (hleaves : Leaves acc (b, false) (change (b, true) (b, false)) g) :
      Settled s₀ g (.closeAccount name accNo pw) .closed
  | transferred {name : Bytes} {fromAccNo toAccNo : UInt32} {pw : Vector UInt8 8} {curr : UInt8}
      {amount b d : ℚ} {fromAcc toAcc : Ref} (hpos : 0 < amount)
      (hfrom : s₀.accounts.get fromAccNo = some fromAcc)
      (hto : s₀.accounts.get toAccNo = some toAcc) (hne : fromAcc ≠ toAcc)
      (hleaves : LeavesBoth fromAcc toAcc (b - amount, true) (d + amount, true)
        (change (b, true) (b - amount, true)) (change (d, true) (d + amount, true)) g) :
      Settled s₀ g (.transfer name fromAccNo pw toAccNo curr amount)
        (.balances (b - amount) (d + amount))
  | refused {op : Op ℚ} {err : BankingError} (hsame : g.changes = fun _ => []) :
      Settled s₀ g op (.failed err)
  /-- The object has left the store; only Deposit and Withdraw write to it then. -/
  | detached {op : Op ℚ} {b b' : ℚ} {acc : Ref} (hop : transfers op = false)
      (hleaves : Leaves acc (b', false) (change (b, false) (b', false)) g) :
      Settled s₀ g op (.failed (.store .errAccountNotFound))

theorem wp_program {i : ι} (hopen : (calls i).isOpen = false) :
    (bankRules s₀ calls).wp i (fun res g => Settled s₀ g (calls i) res) (program (calls i))
      .empty := by
  cases hi : calls i with
  | openAccount name pw curr balance => simp [hi, Op.isOpen] at hopen
  | closeAccount name accNo pw =>
    exact Rules.wp_bind (wp_closeAccount (by rw [hi]; rfl) (fun _ _ hg => .refused hg)
      fun _ _ _ hacc hg => .closed hacc hg)
  | checkBalance name accNo pw =>
    exact Rules.wp_bind (wp_checkBalance (fun _ _ hg => .refused hg)
      fun _ _ _ hacc hg => .checked hacc hg)
  | deposit name accNo pw curr amount =>
    exact Rules.wp_bind (wp_deposit (fun _ _ hg => .refused hg)
      (fun _ _ _ hg => .detached rfl hg) fun _ _ _ hacc hg => .deposited hacc hg)
  | withdraw name accNo pw curr amount =>
    exact Rules.wp_bind (wp_withdraw (fun _ _ hg => .refused hg)
      (fun _ _ _ hg => .detached rfl hg) fun _ _ _ hacc hg => .withdrawn hacc hg)
  | transfer name fromAccNo pw toAccNo curr amount =>
    exact Rules.wp_bind (wp_transfer hi (fun _ _ hg => .refused hg)
      fun _ _ _ _ _ hpos hfrom hto hne hg => .transferred hpos hfrom hto hne hg)

section Runs
variable [DecidableEq ι] {sched : List ι} {c : Config ι Lock (Memory ℚ) (Result ℚ)}

def acquires {M ρ : Type} : Prog Lock (Memory M) ρ → Option Ref
  | .sync .lock (.account acc) _ => some acc
  | _ => none

def CoveredRun (s₀ : Memory ℚ) (calls : ι → Op ℚ) (sched : List ι) : Prop :=
  ∀ i, ∀ t ∈ stepsOf i (start s₀ calls) sched, ∀ acc ∈ acquires (t.1.threads i),
    Covered s₀ (calls i) (fun acc' => t.1.locks.writer (.account acc') = some i) acc t.1.mem

instance [Fintype ι] : Decidable (CoveredRun s₀ calls sched) :=
  inferInstanceAs (Decidable (∀ _, _))

theorem settled_run (hopen : ∀ i, (calls i).isOpen = false)
    (hrun : sched.foldlM step (start s₀ calls) = .ok c)
    (hcovered : (∀ i, closes (calls i) = false) ∨ CoveredRun s₀ calls sched) :
    Respected (bankRules s₀ calls) (fun i res g => Settled s₀ g (calls i) res) (start s₀ calls)
      sched c := by
  refine respected_run ⟨fun _ _ h => h, fun _ => rfl⟩ (fun _ h => h)
    (fun i => wp_program (hopen i)) hrun fun i t ht acc k hlock => ?_
  rcases hcovered with hcalls | hrun
  · exact .inl hcalls
  · exact .inr (hrun i t ht acc (by rw [hlock]; rfl))

end Runs

end DistributedBanking.Concurrent
