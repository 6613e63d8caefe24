import DistributedBanking.Prompts
import DistributedBanking.TruncatedRequests

/-!
# The menu

The number read from the menu is cast to an enumeration of one byte before the
switch looks at it, so the switch sees its remainder by 256. A number with the
remainder of an entry is taken for that entry.
-/

namespace DistributedBanking.ClientInput
open ClientProtocol

variable (stod : Bytes → Except NumberError UInt64)

/-- A menu entry makes the command of its service; any other number is an error, and nothing is
asked for. -/
structure MenuExact (userInput : ℤ) (c : Console) : Prop where
  entry : ∀ cmd c', (buildCommand stod userInput).run.run c = (.ok cmd, c') →
    1 ≤ userInput ∧ userInput ≤ 7 ∧ cmd.service = some (UInt8.ofNat userInput.toNat)
  refused : ¬ (1 ≤ userInput ∧ userInput ≤ 7) →
    ∃ err c' shown, (buildCommand stod userInput).run.run c = (.error err, c') ∧
      c'.output = c.output ++ shown ∧ ∀ fieldName, .prompt fieldName ∉ shown

section Fills

theorem asks_fillAuthDetails (req : Command) : Asks (fillAuthDetails req) := by
  refine (Asks.getValidated _ _ _ _).bind fun _ => ?_
  refine (Appends.getValidated _ _ _ _).bind fun _ => ?_
  exact (Appends.getValidated _ _ _ _).bind fun _ => .pure _

theorem asks_fillAccountCreationDetails (req : Command) :
    Asks (fillAccountCreationDetails stod req) := by
  refine (Asks.getValidated _ _ _ _).bind fun _ => ?_
  refine (Appends.getValidated _ _ _ _).bind fun _ => ?_
  refine (Appends.getValidated _ _ _ _).bind fun _ => ?_
  exact (Appends.getValidated _ _ _ _).bind fun _ => .pure _

theorem appends_fillCurrencyDetails (req : Command) : Appends (fillCurrencyDetails req) :=
  (Appends.getValidated _ _ _ _).bind fun _ => .pure _

theorem appends_fillAmountDetails (req : Command) : Appends (fillAmountDetails stod req) :=
  (Appends.getValidated _ _ _ _).bind fun _ => .pure _

theorem appends_fillTransferAccountDetails (req : Command) :
    Appends (fillTransferAccountDetails req) := by
  refine (Appends.getValidated _ _ _ _).bind fun _ => ?_
  exact (Appends.getValidated _ _ _ _).bind fun _ => .pure _

theorem appends_fillMonitorDetails (req : Command) : Appends (fillMonitorDetails req) :=
  (Appends.getValidated _ _ _ _).bind fun _ => .pure _

end Fills

def selected (userInput : ℤ) : UInt8 := UInt8.ofNat (userInput % 2 ^ 8).toNat

theorem selected_eq_iff {userInput : ℤ} {k : ℕ} (hk : k < 256) :
    selected userInput = UInt8.ofNat k ↔ userInput % 256 = k := by
  rw [selected, ← UInt8.toNat_inj, UInt8.toNat_ofNat', UInt8.toNat_ofNat']
  omega

theorem selected_entry {userInput : ℤ} (h : 1 ≤ userInput ∧ userInput ≤ 7) :
    selected userInput = UInt8.ofNat userInput.toNat := by
  rw [selected_eq_iff (by omega)]
  omega

theorem asks_buildCommand {userInput : ℤ} (h : 1 ≤ userInput % 256 ∧ userInput % 256 ≤ 7) :
    Asks (buildCommand stod userInput) := by
  rw [buildCommand, if_neg (by omega)]
  dsimp only
  have hservice : ∀ k : ℕ, k < 256 → (UInt8.ofNat (userInput % 2 ^ 8).toNat = UInt8.ofNat k ↔
      userInput % 256 = k) := fun k hk => selected_eq_iff hk
  split_ifs with hopen hauth hpayment htransfer hmonitor
  · exact asks_fillAccountCreationDetails stod _
  · exact asks_fillAuthDetails _
  · refine (asks_fillAuthDetails _).bind fun _ => ?_
    exact (appends_fillCurrencyDetails _).bind fun _ => appends_fillAmountDetails stod _
  · refine (asks_fillAuthDetails _).bind fun _ => ?_
    refine (appends_fillTransferAccountDetails _).bind fun _ => ?_
    exact (appends_fillCurrencyDetails _).bind fun _ => appends_fillAmountDetails stod _
  · exact (asks_fillAuthDetails _).bind fun _ => appends_fillMonitorDetails _
  · rw [not_or] at hauth hpayment
    have h1 := mt (hservice 1 (by omega)).mpr hopen
    have h2 := mt (hservice 2 (by omega)).mpr hauth.1
    have h6 := mt (hservice 6 (by omega)).mpr hauth.2
    have h3 := mt (hservice 3 (by omega)).mpr hpayment.1
    have h4 := mt (hservice 4 (by omega)).mpr hpayment.2
    have h7 := mt (hservice 7 (by omega)).mpr htransfer
    have h5 := mt (hservice 5 (by omega)).mpr hmonitor
    omega

theorem buildCommand_quit (c : Console) :
    (buildCommand stod 0).run.run c = (.error .userQuit, c) := rfl

theorem buildCommand_unknown {userInput : ℤ} (hzero : userInput ≠ 0)
    (h : ¬ (1 ≤ userInput % 256 ∧ userInput % 256 ≤ 7)) (c : Console) :
    (buildCommand stod userInput).run.run c =
      (.error .invalidService, { c with output := c.output ++ [.error "Invalid Selection"] }) := by
  have hservice : ∀ k : ℕ, 1 ≤ k → k ≤ 7 → selected userInput ≠ UInt8.ofNat k := by
    intro k h1 h7 heq
    have hk := (selected_eq_iff (by omega)).mp heq
    omega
  have hopen : selected userInput ≠ serviceOpen := hservice 1 (by omega) (by omega)
  have hclose : selected userInput ≠ serviceClose := hservice 2 (by omega) (by omega)
  have hdeposit : selected userInput ≠ serviceDeposit := hservice 3 (by omega) (by omega)
  have hwithdraw : selected userInput ≠ serviceWithdraw := hservice 4 (by omega) (by omega)
  have hmonitor : selected userInput ≠ serviceMonitor := hservice 5 (by omega) (by omega)
  have hbalance : selected userInput ≠ serviceGetBalance := hservice 6 (by omega) (by omega)
  have htransfer : selected userInput ≠ serviceTransferFunds := hservice 7 (by omega) (by omega)
  have hswitch : buildCommand stod userInput =
      (do printError "Invalid Selection"; throw .invalidService) := by
    rw [buildCommand, if_neg hzero]
    exact (if_neg hopen).trans ((if_neg (not_or.mpr ⟨hclose, hbalance⟩)).trans
      ((if_neg (not_or.mpr ⟨hdeposit, hwithdraw⟩)).trans
        ((if_neg htransfer).trans (if_neg hmonitor))))
  rw [hswitch, run_bind, run_printError]
  rfl

/-- The selection is exact unless the number only has the remainder of an entry. -/
theorem menuExact_iff (userInput : ℤ) (c : Console) :
    MenuExact stod userInput c ↔
      (1 ≤ userInput % 256 ∧ userInput % 256 ≤ 7 → 1 ≤ userInput ∧ userInput ≤ 7) := by
  constructor
  · intro hexact hremainder
    by_contra hentry
    obtain ⟨err, c', shown, hrun, hshown, hsilent⟩ := hexact.refused hentry
    obtain ⟨fieldName, more, hprompt⟩ := asks_buildCommand stod hremainder c
    rw [hrun, hshown] at hprompt
    apply hsilent fieldName
    rw [List.append_cancel_left hprompt]
    exact List.mem_cons_self
  · intro himp
    constructor
    · intro cmd c' hrun
      obtain ⟨-, hservice⟩ := yields_buildCommand ⟨c, c', hrun⟩
      have hentry : 1 ≤ userInput ∧ userInput ≤ 7 := by
        by_contra hentry
        by_cases hzero : userInput = 0
        · rw [hzero, buildCommand_quit] at hrun
          cases hrun
        · rw [buildCommand_unknown stod hzero (mt himp hentry)] at hrun
          cases hrun
      exact ⟨hentry.1, hentry.2, hservice.trans (congrArg some (selected_entry hentry))⟩
    · intro hentry
      by_cases hzero : userInput = 0
      · subst hzero
        exact ⟨_, _, [], buildCommand_quit stod c, (List.append_nil _).symm,
          fun _ => List.not_mem_nil⟩
      · refine ⟨_, _, _, buildCommand_unknown stod hzero (mt himp hentry) c, rfl, ?_⟩
        intro fieldName hmem
        rw [List.mem_singleton] at hmem
        cases hmem

/-- 257 opens an account. -/
theorem selection_257 :
    ((buildCommand Handler.stodFifty 257).run.run Handler.openingLines).1 =
        .ok Handler.openingCommand ∧
      ¬ MenuExact Handler.stodFifty 257 Handler.openingLines := by
  refine ⟨by decide +kernel, ?_⟩
  intro hexact
  obtain ⟨err, c', shown, hrun, -, -⟩ := hexact.refused (by decide)
  have hopened : ((buildCommand Handler.stodFifty 257).run.run Handler.openingLines).1 =
      .ok Handler.openingCommand := by decide +kernel
  rw [hrun] at hopened
  cases hopened

end DistributedBanking.ClientInput
