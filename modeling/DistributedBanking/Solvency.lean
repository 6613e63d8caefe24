import DistributedBanking.Server
import DistributedBanking.WireRoundTrip

/-!
# Solvency

On exact rationals the handler keeps every balance at zero or above, with one
exception: opening an account stores the requested balance unchecked. A run of
packets stays solvent exactly when none of them opens an account with a
negative balance.
-/

namespace DistributedBanking.Server
open Runs Store Banking Monitor Handler

section Balances
variable {M : Type} {P : M → Prop} {accounts : FiniteMap UInt32 (Account M)}

def Balances (P : M → Prop) (accounts : FiniteMap UInt32 (Account M)) : Prop :=
  ∀ id acc, accounts.get id = some acc → P acc.balance

theorem balances_empty : Balances P (∅ : FiniteMap UInt32 (Account M)) := by
  intro id acc hget
  simp at hget

theorem Balances.set (h : Balances P accounts) (k : UInt32) {acc : Account M}
    (hacc : P acc.balance) : Balances P (accounts.set k acc) := by
  intro id a hget
  rw [FiniteMap.get_set] at hget
  split_ifs at hget
  · rw [← Option.some.inj hget]
    exact hacc
  · exact h id a hget

theorem Balances.delete (h : Balances P accounts) (k : UInt32) :
    Balances P (accounts.delete k) := by
  intro id a hget
  rw [FiniteMap.get_delete] at hget
  split_ifs at hget
  exact h id a hget

theorem Balances.of_set {k : UInt32} {acc : Account M} (h : Balances P (accounts.set k acc)) :
    P acc.balance :=
  h k acc (FiniteMap.get_set_self accounts k acc)

end Balances

def Solvent (s : MemoryStore ℚ) : Prop := Balances (0 ≤ ·) s.accounts

def opensNegative : Op ℚ → Prop
  | .openAccount _ _ _ balance => balance < 0
  | _ => False

theorem perform_solvent {s : MemoryStore ℚ} (h : Solvent s) {op : Op ℚ}
    (hop : ¬ opensNegative op) : Solvent (perform s op).1 := by
  have heff := perform_effect s op
  generalize (perform s op).1 = s' at heff ⊢
  generalize (perform s op).2 = res at heff
  rw [Solvent]
  cases heff with
  | opened haccounts hnext =>
    rw [haccounts]
    apply Balances.set h
    exact not_lt.mp hop
  | closed hauth haccounts hnext =>
    rw [haccounts]
    exact Balances.delete h _
  | checked => exact h
  | deposited hpos hauth hcurr haccounts hnext =>
    rw [haccounts]
    apply Balances.set h
    have hbal := h _ _ hauth.stored
    exact add_nonneg hbal (le_of_lt (not_le.mp hpos))
  | withdrawn hpos hauth hcurr hfunds haccounts hnext =>
    rw [haccounts]
    apply Balances.set h
    exact sub_nonneg.mpr (not_lt.mp hfunds)
  | transferred hpos hne hauth hto hcurr hsame hfunds haccounts hnext =>
    rw [haccounts]
    have hbal := h _ _ hto
    apply Balances.set (Balances.set h _ (sub_nonneg.mpr (not_lt.mp hfunds)))
    exact add_nonneg hbal (le_of_lt (not_le.mp hpos))
  | refused => exact h

theorem perform_opensNegative {s : MemoryStore ℚ} {op : Op ℚ} (hop : opensNegative op) :
    ¬ Solvent (perform s op).1 := by
  intro hsolvent
  cases op with
  | openAccount name pw curr balance =>
    have haccounts := createAccount_accounts s ⟨0, name, pw, curr, balance⟩
    simp only [Solvent, perform, openAccount, haccounts] at hsolvent
    exact absurd hsolvent.of_set (not_le.mpr hop)
  | _ => exact hop

section Run
variable [Float64 ℚ]

def OpensNegative (data : Bytes) : Prop :=
  ∃ op txName, parseRequest data = some (.bank op txName) ∧ opensNegative op

theorem handle_solvent {b : Backend ℚ} (h : Solvent b.store) (x : Arrival) :
    ∃ b', handle b x = .ok b' ∧ (Solvent b'.store ↔ ¬ OpensNegative x.1.data) := by
  obtain ⟨b', hhandle, ⟨op, txName, hreq, hstore⟩ | ⟨hnone, hstore⟩⟩ := handle_effect b x
  · refine ⟨b', hhandle, ?_⟩
    rw [hstore]
    constructor
    · intro hsolvent hpays
      obtain ⟨op', txName', hreq', hop'⟩ := hpays
      rw [hreq] at hreq'
      cases hreq'
      exact perform_opensNegative hop' hsolvent
    · intro hopens
      exact perform_solvent h fun hop => hopens ⟨op, txName, hreq, hop⟩
  · refine ⟨b', hhandle, ?_⟩
    rw [hstore]
    constructor
    · intro _ hpays
      obtain ⟨op, txName, hreq, -⟩ := hpays
      exact hnone op txName hreq
    · intro _
      exact h

/-- A run from an empty store stays solvent exactly when no packet opens a negative account. -/
theorem solvent_run_iff (mon : Manager) (xs : List Arrival) :
    EveryStep handle (fun _ _ b' => Solvent b'.store) ⟨newMemoryStore, mon⟩ xs ↔
      ∀ x ∈ xs, ¬ OpensNegative x.1.data := by
  have htotal : ∀ (b : Backend ℚ) (x : Arrival), ∃ b', handle b x = .ok b' := by
    intro b x
    obtain ⟨b', hhandle, -⟩ := handle_effect b x
    exact ⟨b', hhandle⟩
  rw [← everyStep_input (Q := fun x : Arrival => ¬ OpensNegative x.1.data) htotal]
  apply everyStep_congr (I := fun b _ => Solvent b.store)
  · intro b x xs hsolvent
    obtain ⟨b', hhandle, hiff⟩ := handle_solvent hsolvent x
    exact ⟨b', hhandle, hiff, hiff.mpr⟩
  · exact balances_empty

end Run

def negativeOpening : Datagram where
  data := ClientProtocol.packetOf ⟨2, 0, (0x7F000001, 4000)⟩ ⟨some 1, none, some [65], some [80],
    none, none, some 0xBFF0000000000000, some 1, none, none⟩
  addr := .loopback 4000
  small := by decide +kernel

theorem negativeOpening_opens : OpensNegative negativeOpening.data := by
  refine ⟨.openAccount [65] (Marshalling.passwordStringToFixed [80]) 1 (-1), [], ?_, ?_⟩
  swap
  · norm_num [opensNegative]
  have hvalue : (Float64.frombits 0xBFF0000000000000 : ℚ) = -1 := by
    decide +kernel
  rw [negativeOpening, ClientProtocol.parseRequest_packetOf (by decide +kernel), ← hvalue]
  rfl

theorem negativeOpening_insolvent :
    ¬ EveryStep handle (fun _ _ b' => Solvent b'.store) ⟨newMemoryStore, newManager⟩
      [(negativeOpening, 0)] := by
  intro hstep
  obtain ⟨b', hhandle, hsolvent, -⟩ := hstep
  obtain ⟨t, ht, hiff⟩ := handle_solvent (b := ⟨newMemoryStore, newManager⟩) balances_empty
    (negativeOpening, 0)
  rw [hhandle] at ht
  cases ht
  exact hiff.mp hsolvent negativeOpening_opens

end DistributedBanking.Server
