import DistributedBanking.SpecialValues

/-!
# Who may change an account

A step of the server touches a stored account in three ways: the packet carries
its number and credentials and removes it or moves its balance, or the packet
is an authenticated transfer from another account that raises its balance. The
one exception is a transfer whose amount turns the destination's balance into
NaN. Account numbers must not wrap around: a wrapped opening would overwrite.
-/

namespace DistributedBanking.Server
open Runs Store Banking Marshalling Monitor Semantics Handler Binary64

section Credentials
variable {M : Type}

structure Authenticates (cmd : ParsedCommand M) (acc : Account M) : Prop where
  accountNumber : cmd.accountNumber = some acc.accountNumber
  accountOwnerName : cmd.accountOwnerName = some acc.holderName
  accountPassword : cmd.accountPassword.map passwordStringToFixed = some acc.password

theorem Authenticates.of_authorised {s : MemoryStore M} {name : Bytes} {accNo : UInt32}
    {pw : Vector UInt8 8} {acc : Account M} {cmd : ParsedCommand M}
    (h : Authorised s name accNo pw acc) (hno : cmd.accountNumber = some accNo)
    (hname : cmd.accountOwnerName = some name)
    (hpw : cmd.accountPassword.map passwordStringToFixed = some pw) : Authenticates cmd acc where
  accountNumber := by rw [hno, s.keyed accNo acc h.stored]
  accountOwnerName := by rw [hname, h.holderName]
  accountPassword := by rw [hpw, h.password]

end Credentials

/-- What a request with the given command may leave of an account that the store holds. -/
inductive Permitted (s : MemoryStore Binary64) (request : Option (ParsedCommand Binary64))
    (acc : Account Binary64) : Option (Account Binary64) → Prop
  | untouched : Permitted s request acc (some acc)
  | removed {cmd : ParsedCommand Binary64} (hrequest : request = some cmd)
      (hauth : Authenticates cmd acc) : Permitted s request acc none
  | changed {cmd : ParsedCommand Binary64} (balance : Binary64) (hrequest : request = some cmd)
      (hauth : Authenticates cmd acc) : Permitted s request acc (some { acc with balance })
  | credited {cmd : ParsedCommand Binary64} {source : Account Binary64} {amount : Binary64}
      (hrequest : request = some cmd) (hservice : cmd.service = some serviceTransferFunds)
      (hauth : Authenticates cmd source)
      (hsource : s.accounts.get source.accountNumber = some source)
      (hother : source.accountNumber ≠ acc.accountNumber)
      (hto : cmd.txAccountNumber = some acc.accountNumber)
      (hcurr : source.currencyType = acc.currencyType)
      (hvalue : cmd.monetaryValue = some amount) (hpos : 0 < amount)
      (hrise : acc.balance < acc.balance + amount) :
      Permitted s request acc (some { acc with balance := acc.balance + amount })

def commandOf : Event → Option (ParsedCommand Binary64)
  | .datagram d _ =>
    match decodeTLV 64 (d.data.drop headerSize) with
    | .ok (.ok cmd) => some cmd
    | _ => none
  | .sweep _ => none

def Guarded (s : Server Binary64) (e : Event) (s' : Server Binary64) : Prop :=
  ∀ id acc, s.backend.store.accounts.get id = some acc →
    Permitted s.backend.store (commandOf e) acc (s'.backend.store.accounts.get id)

/-- A Transfer that passes its checks and leaves the destination with NaN: the amount is NaN, or
it is infinite, slips past the overdraft guard and meets minus infinity. -/
def Corrupts (s : MemoryStore Binary64) : Op Binary64 → Prop
  | .transfer name accNo pw toAccNo curr amount => accNo ≠ toAccNo ∧
    ∃ acc toAcc, Authorised s name accNo pw acc ∧ s.accounts.get toAccNo = some toAcc ∧
      acc.currencyType = curr ∧ acc.currencyType = toAcc.currencyType ∧
      (amount = nan ∧ toAcc.balance ≠ nan ∨
        amount = posInf ∧ ¬ acc.balance < posInf ∧ toAcc.balance = negInf)
  | _ => False

def Corrupted (s : Server Binary64) : Event → Prop
  | .datagram d _ => Executes s d ∧
    ∃ op txName, parseRequest d.data = some (.bank op txName) ∧ Corrupts s.backend.store op
  | .sweep _ => False

theorem add_rises {a b : Binary64} (hb : ¬ b ≤ 0)
    (h : ¬ (b = nan ∧ a ≠ nan ∨ b = posInf ∧ a = negInf)) :
    a + b = a ∨ 0 < b ∧ a < a + b := by
  rcases positive_cases hb with rfl | rfl | ⟨q, rfl, hq⟩
  · have hnan : a = nan := not_not.mp fun hne => h (.inl ⟨rfl, hne⟩)
    rw [hnan]
    exact .inl rfl
  · cases a with
    | nan => exact .inl rfl
    | posInf => exact .inl rfl
    | negInf => exact absurd (.inr ⟨rfl, rfl⟩) h
    | finite p => exact .inr ⟨rfl, rfl⟩
  · cases a with
    | nan => exact .inl rfl
    | posInf => exact .inl rfl
    | negInf => exact .inl rfl
    | finite p =>
      refine .inr ⟨by simpa [lt_def, zero_def, less] using hq, ?_⟩
      simpa [lt_def, add_def, add, less] using hq

section Step
variable {s s' : MemoryStore Binary64} {op : Op Binary64} {res : Result Binary64}
  {cmd : ParsedCommand Binary64}

theorem effect_permitted (hbelow : Below s) (heff : Effect s op s' res) (hcarries : Carries cmd op)
    (hop : ¬ Corrupts s op) {id : UInt32} {acc : Account Binary64}
    (hget : s.accounts.get id = some acc) :
    Permitted s (some cmd) acc (s'.accounts.get id) := by
  cases heff with
  | opened haccounts hnext =>
    have hne : id ≠ s.nextID := by
      intro hfresh
      subst hfresh
      rw [hbelow.fresh] at hget
      cases hget
    rw [haccounts, FiniteMap.get_set_of_ne _ _ hne, hget]
    exact .untouched
  | closed hauth haccounts hnext =>
    obtain ⟨-, hname, hno, hpw⟩ := hcarries
    rw [haccounts, FiniteMap.get_delete]
    split_ifs with hid
    · rw [hid, hauth.stored] at hget
      cases hget
      exact .removed rfl (.of_authorised hauth hno hname hpw)
    · rw [hget]
      exact .untouched
  | checked =>
    rw [hget]
    exact .untouched
  | deposited hpos hauth hcurr haccounts hnext =>
    obtain ⟨-, hname, hno, hpw, -⟩ := hcarries
    rw [haccounts, FiniteMap.get_set]
    split_ifs with hid
    · rw [hid, hauth.stored] at hget
      cases hget
      exact .changed _ rfl (.of_authorised hauth hno hname hpw)
    · rw [hget]
      exact .untouched
  | withdrawn hpos hauth hcurr hfunds haccounts hnext =>
    obtain ⟨-, hname, hno, hpw, -⟩ := hcarries
    rw [haccounts, FiniteMap.get_set]
    split_ifs with hid
    · rw [hid, hauth.stored] at hget
      cases hget
      exact .changed _ rfl (.of_authorised hauth hno hname hpw)
    · rw [hget]
      exact .untouched
  | @transferred name accNo pw toAccNo curr amount source toAcc _ hpos hne hauth hto hcurr hsame
      hfunds haccounts hnext =>
    obtain ⟨hservice, hname, hno, hpw, htoNo, -, hvalue⟩ := hcarries
    have hcmd := Authenticates.of_authorised hauth hno hname hpw
    rw [haccounts, FiniteMap.get_set]
    split_ifs with hid
    · rw [hid, hto] at hget
      cases hget
      have hkeyFrom := s.keyed accNo source hauth.stored
      have hkeyTo := s.keyed toAccNo acc hto
      have hclean : ¬ (amount = nan ∧ acc.balance ≠ nan ∨
          amount = posInf ∧ acc.balance = negInf) := by
        intro hbad
        rcases hbad with hnan | ⟨hinf, hneg⟩
        · exact hop ⟨hne, source, acc, hauth, hto, hcurr, hsame, .inl hnan⟩
        · exact hop ⟨hne, source, acc, hauth, hto, hcurr, hsame,
            .inr ⟨hinf, hinf ▸ hfunds, hneg⟩⟩
      rcases add_rises hpos hclean with heq | ⟨hpositive, hrise⟩
      · rw [heq]
        exact .untouched
      · exact .credited rfl hservice hcmd (by rw [hkeyFrom]; exact hauth.stored)
          (by rw [hkeyFrom, hkeyTo]; exact hne) (by rw [htoNo, hkeyTo]) hsame hvalue hpositive hrise
    · rw [FiniteMap.get_set]
      split_ifs with hidFrom
      · rw [hidFrom, hauth.stored] at hget
        cases hget
        exact .changed _ rfl hcmd
      · rw [hget]
        exact .untouched
  | refused =>
    rw [hget]
    exact .untouched

theorem corrupts_not_permitted (hcarries : Carries cmd op) (hop : Corrupts s op) :
    ¬ ∀ id acc, s.accounts.get id = some acc →
      Permitted s (some cmd) acc ((perform s op).1.accounts.get id) := by
  intro hall
  cases op with
  | transfer name accNo pw toAccNo curr amount =>
    obtain ⟨hne, acc, toAcc, hauth, hto, hcurr, hsame, hamount⟩ := hop
    obtain ⟨-, -, hno, -, -, -, -⟩ := hcarries
    have hguards : ¬ amount ≤ 0 ∧ ¬ acc.balance < amount ∧ toAcc.balance + amount = nan ∧
        toAcc.balance ≠ nan := by
      rcases hamount with ⟨rfl, hnan⟩ | ⟨rfl, hfunds, hneg⟩
      · exact ⟨not_nan_le 0, not_lt_nan _, add_nan _, hnan⟩
      · rw [hneg]
        exact ⟨by simp [le_def, zero_def, lessEq], hfunds, rfl, by simp⟩
    obtain ⟨hpos, hfunds, hsum, hnan⟩ := hguards
    obtain ⟨haccounts, -, -, -⟩ := transfer_writes hauth.stored hto hne (acc.balance - amount)
      (toAcc.balance + amount)
    have hkey := s.keyed toAccNo toAcc hto
    have hdest := hall toAccNo toAcc hto
    rw [perform_transfer hpos hne hauth hto hcurr hsame hfunds, haccounts,
      FiniteMap.get_set_self, hsum] at hdest
    generalize hafter : some { toAcc with balance := nan } = after at hdest
    cases hdest with
    | untouched =>
      have hbalance := congrArg Account.balance (Option.some.inj hafter)
      exact hnan hbalance.symm
    | removed => cases hafter
    | changed balance hrequest hcredentials =>
      cases hrequest
      have hsame := hcredentials.accountNumber
      rw [hno, hkey] at hsame
      exact hne (Option.some.inj hsame)
    | credited hrequest _ _ _ _ _ _ _ _ hrise =>
      have hbalance := congrArg Account.balance (Option.some.inj hafter)
      simp only at hbalance
      rw [← hbalance] at hrise
      exact not_lt_nan _ hrise
  | _ => exact hop

end Step

theorem sweep_guarded (s : Server Binary64) (now : ℕ) :
    Guarded s (.sweep now) (Server.sweep s now) := by
  intro id acc hget
  rw [show (Server.sweep s now).backend.store = s.backend.store from rfl, hget]
  exact .untouched

theorem commandOf_datagram {d : Datagram} {cmd : ParsedCommand Binary64}
    (h : decodeTLV 64 (d.data.drop headerSize) = .ok (.ok cmd)) (now : ℕ) :
    commandOf (.datagram d now) = some cmd := by
  simp only [commandOf, h]

theorem corrupted_not_guarded {s s' : Server Binary64} {d : Datagram} {now : ℕ}
    {reply : Except DispatchError Bytes} (hdisp : Dispatched s d now s' reply)
    (h : Corrupted s (.datagram d now)) : ¬ Guarded s (.datagram d now) s' := by
  obtain ⟨hexec, op, txName, hreq, hop⟩ := h
  obtain ⟨cmd, hdecode, hcarries⟩ := parseRequest_carries hreq
  rw [Guarded, hdisp.store_executed hexec hreq, commandOf_datagram hdecode]
  exact corrupts_not_permitted hcarries hop

theorem dispatched_guarded {s s' : Server Binary64} (hbelow : Below s.backend.store)
    {d : Datagram} {now : ℕ} {reply : Except DispatchError Bytes}
    (hdisp : Dispatched s d now s' reply) :
    Guarded s (.datagram d now) s' ↔ ¬ Corrupted s (.datagram d now) := by
  constructor
  · intro hguarded hcorrupted
    exact corrupted_not_guarded hdisp hcorrupted hguarded
  · intro hclean id acc hget
    rcases hdisp.store with ⟨hexec, op, txName, hreq, hstore⟩ | ⟨-, hstore⟩
    · obtain ⟨cmd, hdecode, hcarries⟩ := parseRequest_carries hreq
      rw [hstore, commandOf_datagram hdecode]
      apply effect_permitted hbelow (perform_effect _ op) hcarries
      · exact fun hop => hclean ⟨hexec, op, txName, hreq, hop⟩
      · exact hget
    · rw [hstore, hget]
      exact .untouched

structure Roomy (s : Server Binary64) (es : List Event) : Prop where
  running : Running s.dispatcher
  below : Below s.backend.store
  room : s.backend.store.nextID.toNat + opensAlong s es < 2 ^ 32

theorem opensAlong_cons {s s' : Server Binary64} {d : Datagram} {now : ℕ} {es : List Event}
    (hstep : step s (.datagram d now) = .ok s') :
    opensAlong s (.datagram d now :: es) =
      (if Executes s d ∧ opensAccount Binary64 d.data then 1 else 0) + opensAlong s' es := by
  simp only [opensAlong, hstep]

theorem Roomy.dispatched {s s' : Server Binary64} {d : Datagram} {now : ℕ} {es : List Event}
    {reply : Except DispatchError Bytes} (h : Roomy s (.datagram d now :: es))
    (hstep : step s (.datagram d now) = .ok s') (hdisp : Dispatched s d now s' reply) :
    Roomy s' es := by
  have hroom := h.room
  rw [opensAlong_cons hstep] at hroom
  have hrunning := hdisp.running h.running
  rcases hdisp.store with ⟨hexec, op, txName, hreq, hstore⟩ | ⟨-, hstore⟩
  · have heff := perform_effect s.backend.store op
    have hnext := heff.nextID_le
    rw [opensAccount_of_bank hreq] at hroom
    rw [← hstore] at heff hnext
    have hcount : (if Executes s d ∧ op.isOpen = true then 1 else 0) = op.isOpen.toNat := by
      cases op.isOpen <;> simp [hexec]
    rw [hcount] at hroom
    refine ⟨hrunning, h.below.effect heff ?_, by omega⟩
    intro hopen
    rw [hopen, Bool.toNat_true] at hroom
    omega
  · refine ⟨hrunning, by rw [hstore]; exact h.below, ?_⟩
    rw [hstore]
    omega

theorem Roomy.sweep {s : Server Binary64} {now : ℕ} {es : List Event}
    (h : Roomy s (.sweep now :: es)) : Roomy (Server.sweep s now) es := by
  refine ⟨h.running, h.below, ?_⟩
  have hroom := h.room
  simp only [opensAlong, step, pure, Except.pure, Nat.zero_add] at hroom
  exact hroom

/-- A run of the server is guarded at every step exactly when no step of it is corrupted. -/
theorem guarded_run_iff {mode : Mode} (hmode : mode = .atLeastOnce ∨ mode = .atMostOnce)
    {es : List Event} (hopens : opensAlong (newServer (M := Binary64) mode) es < 2 ^ 32 - 10000) :
    EveryStep step Guarded (newServer mode) es ↔
      EveryStep step (fun s e _ => ¬ Corrupted s e) (newServer mode) es := by
  apply everyStep_congr (I := Roomy)
  · intro s e es h
    cases e with
    | datagram d now =>
      obtain ⟨s', res, hstep, hdisp⟩ := step_datagram h.running d now
      exact ⟨s', hstep, dispatched_guarded h.below hdisp, fun _ => h.dispatched hstep hdisp⟩
    | sweep now =>
      refine ⟨Server.sweep s now, rfl, ?_, fun _ => h.sweep⟩
      exact iff_of_true (sweep_guarded s now) id
  · refine ⟨running_newServer hmode, ?_, ?_⟩
    · intro id acc hget
      simp [newServer, newMemoryStore] at hget
    · have hstart : (newServer (M := Binary64) mode).backend.store.nextID.toNat = 10000 := rfl
      omega

def tellerPacket (cmd : ClientProtocol.Command)
    (small : (ClientProtocol.packetOf ⟨1, 0, (0x7F000001, 4000)⟩ cmd).length < 2 ^ 16) :
    Datagram :=
  ⟨ClientProtocol.packetOf ⟨1, 0, (0x7F000001, 4000)⟩ cmd, .loopback 4000, small⟩

def openA : Datagram :=
  tellerPacket ⟨some 1, none, some [65], some [80], none, none, some 0x4014000000000000, some 1,
    none, none⟩ (by decide +kernel)

def openB : Datagram :=
  tellerPacket ⟨some 1, none, some [66], some [80], none, none, some 0x3FF0000000000000, some 1,
    none, none⟩ (by decide +kernel)

def transferTwo : Datagram :=
  tellerPacket ⟨some 7, some 10000, some [65], some [80], some 10001, some [66],
    some 0x4000000000000000, some 1, none, none⟩ (by decide +kernel)

def transferNaN : Datagram :=
  tellerPacket ⟨some 7, some 10000, some [65], some [80], some 10001, some [66],
    some 0x7FF8000000000001, some 1, none, none⟩ (by decide +kernel)

theorem opensAlong_le_length (s : Server Binary64) (es : List Event) :
    opensAlong s es ≤ es.length := by
  induction es generalizing s with
  | nil => exact le_rfl
  | cons e es ih =>
    cases e with
    | datagram d now =>
      simp only [opensAlong, List.length_cons]
      rcases step s (.datagram d now) with err | s'
      · dsimp only
        split_ifs <;> omega
      · have hrest := ih s'
        dsimp only
        split_ifs <;> omega
    | sweep now =>
      have hrest := ih (Server.sweep s now)
      simp only [opensAlong, step, pure, Except.pure, List.length_cons]
      omega

def transferRun : List Event :=
  [.datagram openA 0, .datagram openB 1, .datagram transferTwo 2, .sweep 3]

theorem guarded_transfer_iff :
    ((run (newServer .atLeastOnce) transferRun).toOption.map fun s =>
        [10000, 10001].map fun id => (s.backend.store.accounts.get id).map Account.balance) =
      some [some (ofPattern 0x4008000000000000), some (ofPattern 0x4008000000000000)] ∧
      (EveryStep step Guarded (newServer .atLeastOnce) transferRun ↔
        EveryStep step (fun s e _ => ¬ Corrupted s e) (newServer .atLeastOnce) transferRun) :=
  ⟨by decide +kernel,
    guarded_run_iff (.inl rfl) (lt_of_le_of_lt (opensAlong_le_length _ _) (by decide))⟩

theorem step_tellerPacket {s s' : Server Binary64} {cmd : ClientProtocol.Command}
    {small : (ClientProtocol.packetOf ⟨1, 0, (0x7F000001, 4000)⟩ cmd).length < 2 ^ 16} {now : ℕ}
    {op : Op Binary64} {txName : Bytes} (hmode : s.dispatcher.mode = .atLeastOnce)
    (hstep : step s (.datagram (tellerPacket cmd small) now) = .ok s')
    (hreq : parseRequest (tellerPacket cmd small).data = some (.bank op txName)) :
    s'.dispatcher.mode = .atLeastOnce ∧ s'.backend.store = (perform s.backend.store op).1 ∧
      Executes s (tellerPacket cmd small) ∧
      ∃ reply, Dispatched s (tellerPacket cmd small) now s' reply := by
  obtain ⟨res, hdisp⟩ := step_dispatched (.inl hmode) hstep
  have haccept : Accepts s.dispatcher.mode (tellerPacket cmd small) := by
    refine ⟨ClientProtocol.headerSize_le_serialize .little _, ?_⟩
    rw [hmode]
    exact congrArg MessageHeader.flag (ClientProtocol.headerOf_serialize .little _)
  have hexec : Executes s (tellerPacket cmd small) := ⟨haccept, .inl hmode⟩
  exact ⟨hdisp.mode.trans hmode, hdisp.store_executed hexec hreq, hexec, res, hdisp⟩

theorem nan_transfer_unguarded :
    ¬ EveryStep step Guarded (newServer .atLeastOnce)
      [.datagram openA 0, .datagram openB 1, .datagram transferNaN 2] := by
  intro hrun
  obtain ⟨s₁, h₁, -, s₂, h₂, -, s₃, h₃, hguarded, -⟩ := hrun
  have hreq₁ := ClientProtocol.parseRequest_packetOf (M := Binary64)
    (show openA.data.length ≤ 4096 by decide +kernel)
  have hreq₂ := ClientProtocol.parseRequest_packetOf (M := Binary64)
    (show openB.data.length ≤ 4096 by decide +kernel)
  have hreq₃ := ClientProtocol.parseRequest_packetOf (M := Binary64)
    (show transferNaN.data.length ≤ 4096 by decide +kernel)
  obtain ⟨hmode₁, hstore₁, -, -⟩ := step_tellerPacket rfl h₁ hreq₁
  obtain ⟨hmode₂, hstore₂, -, -⟩ := step_tellerPacket hmode₁ h₂ hreq₂
  obtain ⟨-, -, hexec, reply, hdisp⟩ := step_tellerPacket hmode₂ h₃ hreq₃
  apply corrupted_not_guarded hdisp _ hguarded
  refine ⟨hexec, _, _, hreq₃, ?_⟩
  rw [hstore₂, hstore₁]
  refine ⟨by decide, ⟨10000, [65], passwordStringToFixed [80], 1, ofPattern 0x4014000000000000⟩,
    ⟨10001, [66], passwordStringToFixed [80], 1, ofPattern 0x3FF0000000000000⟩, ⟨?_, rfl, rfl⟩, ?_,
    rfl, rfl, .inl ⟨?_, ?_⟩⟩
  · exact FiniteMap.get_set_of_ne _ _ (by decide)
  · exact FiniteMap.get_set_self _ _ _
  · decide +kernel
  · decide +kernel

end DistributedBanking.Server
