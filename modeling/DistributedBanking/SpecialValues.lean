import DistributedBanking.Solvency

/-!
# Special values of a float64

The guards of the bank are negated comparisons, and a comparison with NaN is
false: a NaN amount passes them all. An infinite amount passes the overdraft
guard of an account that holds infinity and leaves NaN behind. These are the
only ways in which a balance goes bad or a payment is not covered.
-/

namespace DistributedBanking
open Runs Store Banking Monitor Handler Server

namespace Binary64

def Healthy (b : Binary64) : Prop := b ≠ nan ∧ ¬ b < 0

theorem healthy_posInf : Healthy posInf := by
  simp [Healthy, lt_def, less]

theorem healthy_finite {q : ℚ} : Healthy (finite q) ↔ 0 ≤ q := by
  simp [Healthy, lt_def, zero_def, less]

theorem not_healthy_nan : ¬ Healthy nan := fun h => h.1 rfl

theorem healthy_cases {b : Binary64} (h : Healthy b) : b = posInf ∨ ∃ q, b = finite q ∧ 0 ≤ q := by
  cases b with
  | nan => exact absurd rfl h.1
  | posInf => exact .inl rfl
  | negInf => exact absurd rfl h.2
  | finite q => exact .inr ⟨q, rfl, healthy_finite.mp h⟩

theorem positive_cases {b : Binary64} (h : ¬ b ≤ 0) :
    b = nan ∨ b = posInf ∨ ∃ q, b = finite q ∧ 0 < q := by
  cases b with
  | nan => exact .inl rfl
  | posInf => exact .inr (.inl rfl)
  | negInf => exact absurd rfl h
  | finite q =>
    refine .inr (.inr ⟨q, rfl, ?_⟩)
    simpa [le_def, zero_def, lessEq] using h

@[simp] theorem not_nan_le (b : Binary64) : ¬ nan ≤ b := by
  cases b <;> simp [le_def, lessEq]

@[simp] theorem not_lt_nan (b : Binary64) : ¬ b < nan := by
  cases b <;> simp [lt_def, less]

@[simp] theorem add_nan (b : Binary64) : b + nan = nan := by
  cases b <;> rfl

@[simp] theorem sub_nan (b : Binary64) : b - nan = nan := by
  cases b <;> rfl

theorem healthy_add {a b : Binary64} (ha : Healthy a) (hb : ¬ b ≤ 0) (hnan : b ≠ nan) :
    Healthy (a + b) := by
  rcases positive_cases hb with rfl | rfl | ⟨q, rfl, hq⟩
  · exact absurd rfl hnan
  · rcases healthy_cases ha with rfl | ⟨p, rfl, hp⟩
    · exact healthy_posInf
    · exact healthy_posInf
  · rcases healthy_cases ha with rfl | ⟨p, rfl, hp⟩
    · exact healthy_posInf
    · exact healthy_finite.mpr (by linarith)

theorem covered_sub {a b : Binary64} (ha : Healthy a) (hb : ¬ b ≤ 0) (hfunds : ¬ a < b)
    (hnan : b ≠ nan) (hinf : ¬ (b = posInf ∧ a = posInf)) : b ≤ a ∧ Healthy (a - b) := by
  rcases positive_cases hb with rfl | rfl | ⟨q, rfl, hq⟩
  · exact absurd rfl hnan
  · rcases healthy_cases ha with rfl | ⟨p, rfl, hp⟩
    · exact absurd ⟨rfl, rfl⟩ hinf
    · exact absurd rfl hfunds
  · rcases healthy_cases ha with rfl | ⟨p, rfl, hp⟩
    · exact ⟨rfl, healthy_posInf⟩
    · have hle : q ≤ p := by simpa [lt_def, less] using hfunds
      refine ⟨by simpa [le_def, lessEq] using hle, ?_⟩
      exact healthy_finite.mpr (by linarith)

end Binary64

namespace Server
open Binary64

def payment : Op Binary64 → Option (UInt32 × Binary64)
  | .withdraw _ accNo _ _ amount => some (accNo, amount)
  | .transfer _ accNo _ _ _ amount => some (accNo, amount)
  | _ => none

def Covered (s : MemoryStore Binary64) (op : Op Binary64) : Prop :=
  ∀ accNo amount, payment op = some (accNo, amount) → (perform s op).2.Succeeds →
    ∃ acc, s.accounts.get accNo = some acc ∧ amount ≤ acc.balance

def Slips (balance amount : Binary64) : Prop := amount = nan ∨ amount = posInf ∧ balance = posInf

/-- The call passes every check other than those on its amount, and the amount slips through. -/
def Poisons (s : MemoryStore Binary64) : Op Binary64 → Prop
  | .deposit name accNo pw curr amount => ∃ acc, Authorised s name accNo pw acc ∧
    acc.currencyType = curr ∧ amount = nan
  | .withdraw name accNo pw curr amount => ∃ acc, Authorised s name accNo pw acc ∧
    acc.currencyType = curr ∧ Slips acc.balance amount
  | .transfer name accNo pw toAccNo curr amount => accNo ≠ toAccNo ∧
    ∃ acc toAcc, Authorised s name accNo pw acc ∧ s.accounts.get toAccNo = some toAcc ∧
      acc.currencyType = curr ∧ acc.currencyType = toAcc.currencyType ∧ Slips acc.balance amount
  | _ => False

theorem slips_guards {balance amount : Binary64} (h : Slips balance amount) :
    ¬ amount ≤ 0 ∧ ¬ balance < amount ∧ balance - amount = nan := by
  rcases h with rfl | ⟨rfl, rfl⟩
  · exact ⟨not_nan_le 0, not_lt_nan balance, sub_nan balance⟩
  · exact ⟨by simp [le_def, zero_def, lessEq], by simp [lt_def, less], rfl⟩

theorem not_slips {balance amount : Binary64} (h : ¬ Slips balance amount) :
    amount ≠ nan ∧ ¬ (amount = posInf ∧ balance = posInf) :=
  ⟨fun hnan => h (.inl hnan), fun hinf => h (.inr hinf)⟩

theorem perform_healthy {s : MemoryStore Binary64} (h : Balances Healthy s.accounts)
    {op : Op Binary64} (hopen : op.isOpen = false) (hop : ¬ Poisons s op) :
    Balances Healthy (perform s op).1.accounts ∧ Covered s op := by
  have heff := perform_effect s op
  rw [Covered]
  generalize (perform s op).1 = s' at heff ⊢
  generalize (perform s op).2 = res at heff ⊢
  cases heff with
  | opened => exact absurd hopen (by simp [Op.isOpen])
  | closed hauth haccounts hnext =>
    rw [haccounts]
    exact ⟨h.delete _, by simp [payment]⟩
  | checked => exact ⟨h, by simp [payment]⟩
  | deposited hpos hauth hcurr haccounts hnext =>
    have hnan : _ ≠ nan := fun hnan => hop ⟨_, hauth, hcurr, hnan⟩
    rw [haccounts]
    refine ⟨h.set _ ?_, by simp [payment]⟩
    exact healthy_add (h _ _ hauth.stored) hpos hnan
  | withdrawn hpos hauth hcurr hfunds haccounts hnext =>
    obtain ⟨hnan, hinf⟩ := not_slips fun hslips => hop ⟨_, hauth, hcurr, hslips⟩
    obtain ⟨hcovered, hhealthy⟩ := covered_sub (h _ _ hauth.stored) hpos hfunds hnan hinf
    rw [haccounts]
    refine ⟨h.set _ hhealthy, ?_⟩
    intro accNo amount hpay _
    cases hpay
    exact ⟨_, hauth.stored, hcovered⟩
  | transferred hpos hne hauth hto hcurr hsame hfunds haccounts hnext =>
    obtain ⟨hnan, hinf⟩ := not_slips fun hslips =>
      hop ⟨hne, _, _, hauth, hto, hcurr, hsame, hslips⟩
    obtain ⟨hcovered, hhealthy⟩ := covered_sub (h _ _ hauth.stored) hpos hfunds hnan hinf
    rw [haccounts]
    refine ⟨(h.set _ hhealthy).set _ ?_, ?_⟩
    · exact healthy_add (h _ _ hto) hpos hnan
    · intro accNo amount hpay _
      cases hpay
      exact ⟨_, hauth.stored, hcovered⟩
  | refused =>
    refine ⟨h, ?_⟩
    intro accNo amount _ hnan
    cases hnan

theorem perform_poisons {s : MemoryStore Binary64} {op : Op Binary64} (hop : Poisons s op) :
    ¬ Balances Healthy (perform s op).1.accounts := by
  intro hhealthy
  cases op with
  | deposit name accNo pw curr amount =>
    obtain ⟨acc, hauth, hcurr, rfl⟩ := hop
    rw [perform_deposit (not_nan_le 0) hauth hcurr, setBalance_accounts hauth.stored] at hhealthy
    have hbad := hhealthy.of_set
    rw [add_nan] at hbad
    exact not_healthy_nan hbad
  | withdraw name accNo pw curr amount =>
    obtain ⟨acc, hauth, hcurr, hslips⟩ := hop
    obtain ⟨hpos, hfunds, hnan⟩ := slips_guards hslips
    rw [perform_withdraw hpos hauth hcurr hfunds, setBalance_accounts hauth.stored] at hhealthy
    have hbad := hhealthy.of_set
    rw [hnan] at hbad
    exact not_healthy_nan hbad
  | transfer name accNo pw toAccNo curr amount =>
    obtain ⟨hne, acc, toAcc, hauth, hto, hcurr, hsame, hslips⟩ := hop
    obtain ⟨hpos, hfunds, hnan⟩ := slips_guards hslips
    obtain ⟨haccounts, -, -, -⟩ := transfer_writes hauth.stored hto hne (acc.balance - amount)
      (toAcc.balance + amount)
    rw [perform_transfer hpos hne hauth hto hcurr hsame hfunds, haccounts] at hhealthy
    have hsource : ((s.accounts.set accNo { acc with balance := acc.balance - amount }).set toAccNo
        { toAcc with balance := toAcc.balance + amount }).get accNo =
          some { acc with balance := acc.balance - amount } := by
      rw [FiniteMap.get_set_of_ne _ _ hne, FiniteMap.get_set_self]
    have hbad := hhealthy accNo _ hsource
    rw [hnan] at hbad
    exact not_healthy_nan hbad
  | _ => exact hop

def Sound (b : Backend Binary64) (x : Arrival) (b' : Backend Binary64) : Prop :=
  Balances Healthy b'.store.accounts ∧
    ∀ op txName, parseRequest x.1.data = some (.bank op txName) → Covered b.store op

def Poisoned (b : Backend Binary64) (x : Arrival) : Prop :=
  ∃ op txName, parseRequest x.1.data = some (.bank op txName) ∧ Poisons b.store op

theorem handle_sound {b : Backend Binary64} (h : Balances Healthy b.store.accounts) {x : Arrival}
    (hx : opensAccount Binary64 x.1.data = false) :
    ∃ b', handle b x = .ok b' ∧ (Sound b x b' ↔ ¬ Poisoned b x) := by
  obtain ⟨b', hhandle, ⟨op, txName, hreq, hstore⟩ | ⟨hnone, hstore⟩⟩ := handle_effect b x
  · refine ⟨b', hhandle, ?_⟩
    rw [Sound]
    rw [hstore]
    constructor
    · intro hstays hpoisons
      obtain ⟨hhealthy, -⟩ := hstays
      obtain ⟨op', txName', hreq', hop'⟩ := hpoisons
      rw [hreq] at hreq'
      cases hreq'
      exact perform_poisons hop' hhealthy
    · intro hclean
      have hopen : op.isOpen = false := by
        rwa [opensAccount_of_bank hreq] at hx
      obtain ⟨hhealthy, hcovered⟩ :=
        perform_healthy h hopen fun hop => hclean ⟨op, txName, hreq, hop⟩
      refine ⟨hhealthy, ?_⟩
      intro op' txName' hreq'
      rw [hreq] at hreq'
      cases hreq'
      exact hcovered
  · refine ⟨b', hhandle, ?_⟩
    constructor
    · intro _ hpoisons
      obtain ⟨op, txName, hreq, -⟩ := hpoisons
      exact hnone op txName hreq
    · intro _
      refine ⟨by rw [hstore]; exact h, ?_⟩
      intro op txName hreq
      exact absurd hreq (hnone op txName)

/-- A run that opens no account stays sound exactly when no packet of it is poisoned where it
arrives. -/
theorem sound_run_iff {b : Backend Binary64}
    (hb : Balances (fun bal => ∃ q, bal = finite q ∧ 0 ≤ q) b.store.accounts) {xs : List Arrival}
    (hxs : ∀ x ∈ xs, opensAccount Binary64 x.1.data = false) :
    EveryStep handle Sound b xs ↔ EveryStep handle (fun b x _ => ¬ Poisoned b x) b xs := by
  have hhealthy : Balances Healthy b.store.accounts := by
    intro id acc hget
    obtain ⟨q, hq, hnonneg⟩ := hb id acc hget
    rw [hq]
    exact healthy_finite.mpr hnonneg
  apply everyStep_congr (I := fun b xs =>
    Balances Healthy b.store.accounts ∧ ∀ x ∈ xs, opensAccount Binary64 x.1.data = false)
  · intro b x xs hready
    obtain ⟨hhealthy, hxs⟩ := hready
    obtain ⟨b', hhandle, hiff⟩ := handle_sound hhealthy (hxs x (by simp))
    refine ⟨b', hhandle, hiff, ?_⟩
    intro hclean
    exact ⟨(hiff.mpr hclean).1, fun y hy => hxs y (List.mem_cons_of_mem x hy)⟩
  · exact ⟨hhealthy, hxs⟩

def oneAccount : Backend Binary64 :=
  ⟨(openAccount newMemoryStore [65] (Marshalling.passwordStringToFixed [80]) 1 (finite 5)).1,
    newManager⟩

def depositPacket (amount : UInt64) : Datagram where
  data := ClientProtocol.packetOf ⟨2, 0, (0x7F000001, 4000)⟩ ⟨some 3, some 10000, some [65],
    some [80], none, none, some amount, some 1, none, none⟩
  addr := .loopback 4000
  small := lt_of_eq_of_lt (b := 64) rfl (by decide)

theorem oneAccount_balances :
    Balances (fun bal => ∃ q, bal = finite q ∧ 0 ≤ q) oneAccount.store.accounts := by
  refine Balances.set balances_empty 10000 ?_
  exact ⟨5, rfl, by norm_num⟩

theorem parseRequest_depositPacket (amount : UInt64) :
    parseRequest (depositPacket amount).data = some (.bank (.deposit [65] 10000
      (Marshalling.passwordStringToFixed [80]) 1 (ofPattern amount)) []) :=
  ClientProtocol.parseRequest_packetOf (le_of_eq_of_le (b := 64) rfl (by decide))

theorem depositPacket_opens_nothing (amount : UInt64) :
    opensAccount Binary64 (depositPacket amount).data = false :=
  opensAccount_of_bank (parseRequest_depositPacket amount)

theorem deposit_sound_iff :
    EveryStep handle Sound oneAccount [(depositPacket 0x4049000000000000, 0)] ↔
      EveryStep handle (fun b x _ => ¬ Poisoned b x) oneAccount
        [(depositPacket 0x4049000000000000, 0)] :=
  sound_run_iff oneAccount_balances (by simp [depositPacket_opens_nothing])

theorem nan_deposit_unsound :
    ¬ EveryStep handle Sound oneAccount [(depositPacket 0x7FF8000000000001, 0)] := by
  intro hstep
  obtain ⟨b', hhandle, hsound, -⟩ := hstep
  have hhealthy : Balances Healthy oneAccount.store.accounts := by
    refine Balances.set balances_empty 10000 ?_
    exact healthy_finite.mpr (by norm_num)
  obtain ⟨t, ht, hiff⟩ := handle_sound hhealthy
    (x := (depositPacket 0x7FF8000000000001, 0)) (depositPacket_opens_nothing _)
  rw [hhandle] at ht
  cases ht
  apply hiff.mp hsound
  refine ⟨_, _, parseRequest_depositPacket _, ?_⟩
  refine ⟨⟨10000, [65], Marshalling.passwordStringToFixed [80], 1, finite 5⟩, ⟨?_, rfl, rfl⟩, rfl,
    ?_⟩
  · exact FiniteMap.get_set_self _ _ _
  · decide +kernel

end Server
end DistributedBanking
