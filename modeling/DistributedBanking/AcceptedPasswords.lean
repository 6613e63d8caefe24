import DistributedBanking.Authorisation
import DistributedBanking.Decisions
import DistributedBanking.FieldContract
import DistributedBanking.Runs
import DistributedBanking.Server
import Mathlib.Data.List.GetD
import Mathlib.Data.Set.Function

/-!
# Passwords in eight bytes

The server keeps a password in eight bytes: it cuts a longer text and fills a
shorter one up with zeros, so two texts may become one password. The client's
prompt takes no longer text and none with a zero in it. So no two passwords
meet, and an account opened at a console is open to exactly the name and the
password that were typed there.
-/

namespace DistributedBanking.Marshalling
open ClientInput

section Padding
variable {α : Type} {z : α} {xs : List α} {n : ℕ}

theorem takeWhile_pad [DecidableEq α] (h : z ∉ xs) (n : ℕ) :
    (xs ++ List.replicate n z).takeWhile (fun a => a ≠ z) = xs := by
  have hall : ∀ a ∈ xs, decide (a ≠ z) = true := by
    intro a ha
    exact decide_eq_true fun hz => h (hz ▸ ha)
  have hend : (List.replicate n z).takeWhile (fun a => a ≠ z) = [] := by
    cases n <;> simp [List.replicate_succ]
  rw [List.takeWhile_append_of_pos hall, hend, List.append_nil]

theorem ofFn_getD (h : xs.length ≤ n) :
    (Vector.ofFn fun i : Fin n => xs.getD i z).toList =
      xs ++ List.replicate (n - xs.length) z := by
  apply List.ext_getElem
  · simp
    omega
  · intro i hi hi'
    simp only [Vector.getElem_toList, Vector.getElem_ofFn, List.getElem_append,
      List.getElem_replicate]
    split_ifs with hlt
    · exact List.getD_eq_getElem xs z hlt
    · exact List.getD_eq_default xs z (not_lt.mp hlt)

end Padding

def passwordText (fixed : Vector UInt8 8) : Bytes := fixed.toList.takeWhile fun b => b ≠ 0

theorem zero_notMem_password {pw : Bytes} (h : isPassword pw) : 0 ∉ pw := by
  intro hzero
  simp only [isPassword, isAlphaNumeric, Bool.and_eq_true, List.all_eq_true] at h
  have halnum := h.1.2 0 hzero
  revert halnum
  decide

theorem length_password_le {pw : Bytes} (h : isPassword pw) : pw.length ≤ 8 := by
  simp only [isPassword, isWithinMaxLength, Bool.and_eq_true, decide_eq_true_eq] at h
  exact h.2.2

theorem passwordText_passwordStringToFixed :
    Set.LeftInvOn passwordText passwordStringToFixed {pw | isPassword pw} := by
  intro pw hpw
  rw [passwordText, passwordStringToFixed, ofFn_getD (length_password_le hpw)]
  exact takeWhile_pad (zero_notMem_password hpw) _

theorem passwordStringToFixed_injOn :
    Set.InjOn passwordStringToFixed {pw | ∃ prompt, Yields (getValidatedPassword prompt) pw} := by
  apply passwordText_passwordStringToFixed.injOn.mono
  intro pw haccepted
  obtain ⟨prompt, hpw⟩ := haccepted
  exact yields_password hpw

example : passwordStringToFixed (ascii "password1") = passwordStringToFixed (ascii "password") ∧
    passwordStringToFixed (ascii "pw" ++ [0]) = passwordStringToFixed (ascii "pw") := by
  decide

end DistributedBanking.Marshalling

namespace DistributedBanking.Handler
open Store Banking Marshalling Semantics ClientInput
open ClientProtocol (Command Endian Session fieldsOf onHost parsed serialize encodeMessage
  encodeMessage_onHost buildMessage buildMessage_content parseRequest_serialize)

/-- The packet of a command that was put together at the console of a client. -/
def Sent (cmd : Command) (packet : Bytes) : Prop :=
  ∃ stod userInput e content, ∃ s : Session, Yields (buildCommand stod userInput) cmd ∧
    encodeMessage e cmd = .ok (.ok content) ∧ packet = serialize e (buildMessage s content).2

section Sent
variable {M : Type} [Float64 M] {cmd : Command} {packet : Bytes}

theorem Sent.built (h : Sent cmd packet) : Built cmd := by
  obtain ⟨_, _, _, _, _, hyields, -, -⟩ := h
  exact (yields_buildCommand hyields).1

theorem Sent.parseRequest (h : Sent cmd packet) :
    (packet.length ≤ 4096 ∧ ∃ e : Endian,
        parseRequest (M := M) (packet.take 4096) = requestOf (parsed (onHost e cmd))) ∨
      4096 < packet.length ∧ parseRequest (M := M) (packet.take 4096) = none := by
  have hbuilt := h.built
  obtain ⟨_, _, e, content, s, -, hencode, rfl⟩ := h
  have hcontent := buildMessage_content s content
  by_cases hsize : (serialize e (buildMessage s content).2).length ≤ 4096
  · refine .inl ⟨hsize, e, ?_⟩
    rw [encodeMessage_onHost e cmd (fieldsOf_built hbuilt)] at hencode
    cases hencode
    rw [List.take_of_length_le hsize, parseRequest_serialize hcontent hsize]
  · right
    refine ⟨not_le.mp hsize, ?_⟩
    rw [← hcontent] at hencode
    exact parseRequest_truncated hbuilt hencode (not_le.mp hsize) (by decide)

end Sent

section Carried
variable {M : Type} {pc : ParsedCommand M} {op : Op M} {accNo : UInt32} {name pw : Bytes}

theorem Carries.credentials (h : Carries pc op) (hopen : pc.service ≠ some serviceOpenAccount)
    (hno : pc.accountNumber = some accNo) (hname : pc.accountOwnerName = some name)
    (hpw : pc.accountPassword = some pw) :
    op.credentials = some (accNo, name, passwordStringToFixed pw) := by
  cases op <;> simp only [Carries, hno, hname, hpw, Option.map_some, Option.some.injEq] at h
  case openAccount => exact absurd h.1 hopen
  all_goals simp [Op.credentials, h]

theorem Carries.opening {name' : Bytes} {pw' : Vector UInt8 8} {curr : UInt8} {balance : M}
    (h : Carries pc (.openAccount name' pw' curr balance)) (hname : pc.accountOwnerName = some name)
    (hpw : pc.accountPassword = some pw) : name' = name ∧ pw' = passwordStringToFixed pw := by
  simp only [Carries, hname, hpw, Option.map_some, Option.some.injEq] at h
  exact ⟨h.2.1.symm, h.2.2.1.symm⟩

theorem built_service {cmd : Command} (h : Built cmd) (hno : cmd.accountNumber = some accNo) :
    cmd.service ≠ some serviceOpenAccount := by
  cases h with
  | opening => cases hno
  | authenticated hservice =>
    rcases hservice with rfl | rfl <;> exact (Option.some_injective _).ne (by decide)
  | payment hservice =>
    rcases hservice with rfl | rfl <;> exact (Option.some_injective _).ne (by decide)
  | transfer => exact (Option.some_injective _).ne (by decide)
  | monitor => exact (Option.some_injective _).ne (by decide)

theorem onHost_ownerName (e : Endian) (cmd : Command) :
    (onHost e cmd).accountOwnerName = cmd.accountOwnerName := by
  cases e <;> rfl

theorem onHost_password (e : Endian) (cmd : Command) :
    (onHost e cmd).accountPassword = cmd.accountPassword := by
  cases e <;> rfl

theorem onHost_accountNumber (e : Endian) (cmd : Command) :
    (onHost e cmd).accountNumber = cmd.accountNumber := by
  cases e <;> rfl

end Carried

end DistributedBanking.Handler

namespace DistributedBanking.Server
open Runs Store Banking Marshalling Monitor Semantics Handler ClientInput
open ClientProtocol (Command parsed onHost)

section Opening
variable {M : Type} [Money M] [Float64 M]

def Opens (s : Server M) (accNo : UInt32) : Event → Prop
  | .datagram d _ => Executes s d ∧ ∃ op txName, parseRequest d.data = some (.bank op txName) ∧
      (perform s.backend.store op).2 = .opened accNo
  | .sweep _ => False

/-- Whoever is stored under this number has this name and this password. -/
def HeldBy (accNo : UInt32) (name : Bytes) (pw : Vector UInt8 8) (s : Server M) : Prop :=
  ∀ acc, s.backend.store.accounts.get accNo = some acc → acc.holderName = name ∧ acc.password = pw

variable {s s' : Server M} {accNo : UInt32} {name : Bytes} {pw : Vector UInt8 8}

theorem HeldBy.step (h : HeldBy accNo name pw s) (hrunning : Running s.dispatcher) {e : Event}
    (hstep : step s e = .ok s') (hopens : ¬ Opens s accNo e) : HeldBy accNo name pw s' := by
  cases e with
  | datagram d now =>
    obtain ⟨res, hdisp⟩ := step_dispatched hrunning hstep
    rcases hdisp.store with ⟨hexec, op, txName, hreq, hstore⟩ | ⟨-, hstore⟩
    · intro acc hget
      have heff := perform_effect s.backend.store op
      rw [hstore] at hget
      rcases heff.origin hget with ⟨acc₀, hold, hsame⟩ | ⟨_, _, _, _, -, hopened, -, -⟩
      · rw [hsame]
        exact h acc₀ hold
      · exact absurd ⟨hexec, op, txName, hreq, hopened⟩ hopens
    · rw [HeldBy, hstore]
      exact h
  | sweep now =>
    cases hstep
    exact h

/-- An account number belongs to one name and one password until it is handed out again. -/
theorem HeldBy.run {es : List Event} (h : HeldBy accNo name pw s) (hrunning : Running s.dispatcher)
    (hkept : EveryStep Server.step (fun s e _ => ¬ Opens s accNo e) s es)
    (hrun : Server.run s es = .ok s') : HeldBy accNo name pw s' := by
  induction es generalizing s with
  | nil =>
    cases hrun
    exact h
  | cons e es ih =>
    obtain ⟨s₁, hstep, hopens, hrest⟩ := hkept
    rw [Server.run, List.foldlM_cons, hstep, ok_bind] at hrun
    exact ih (h.step hrunning hstep hopens) (step_running hrunning hstep) hrest hrun

omit [Float64 M] in
theorem perform_opening {s : MemoryStore M} {op : Op M}
    (h : (perform s op).2 = .opened accNo) :
    ∃ name pw curr balance, op = .openAccount name pw curr balance ∧
      (perform s op).1.accounts.get accNo = some ⟨accNo, name, pw, curr, balance⟩ := by
  have heff := perform_effect s op
  rw [h] at heff
  generalize (perform s op).1 = s' at heff ⊢
  cases heff with
  | opened haccounts hnext =>
    exact ⟨_, _, _, _, rfl, by rw [haccounts, FiniteMap.get_set_self]⟩

theorem heldBy_opening {d : Datagram} {now : ℕ} {opening : Command} {packet name pw : Bytes}
    (hrunning : Running s.dispatcher) (hsent : Sent opening packet)
    (hdata : d.data = packet.take 4096) (hname : opening.accountOwnerName = some name)
    (hpw : opening.accountPassword = some pw) (hopens : Opens s accNo (.datagram d now))
    (hstep : step s (.datagram d now) = .ok s') :
    HeldBy accNo name (passwordStringToFixed pw) s' := by
  obtain ⟨hexec, op, txName, hreq, hopened⟩ := hopens
  obtain ⟨e, hcarries⟩ : ∃ e, Carries (parsed (onHost e opening)) op := by
    rw [hdata] at hreq
    rcases hsent.parseRequest (M := M) with ⟨-, e, hread⟩ | ⟨-, hread⟩
    · exact ⟨e, requestOf_carries (hread.symm.trans hreq)⟩
    · rw [hread] at hreq
      cases hreq
  obtain ⟨res, hdisp⟩ := step_dispatched hrunning hstep
  obtain ⟨_, _, curr, balance, rfl, hget⟩ := perform_opening hopened
  obtain ⟨rfl, rfl⟩ := hcarries.opening ((onHost_ownerName e opening).trans hname)
    ((onHost_password e opening).trans hpw)
  intro acc hacc
  rw [hdisp.store_executed hexec hreq, hget] at hacc
  cases hacc
  exact ⟨rfl, rfl⟩

/-- Between the two states a client's packet opens the account for the name and the password of its
command, and the number is not handed out again. -/
inductive OpenedFor (accNo : UInt32) (name pw : Bytes) (s s' : Server M) : Prop
  | intro {opening : Command} {packet : Bytes} {d : Datagram} {now : ℕ} {s₁ : Server M}
      {es : List Event} (sent : Sent opening packet) (hname : opening.accountOwnerName = some name)
      (hpw : opening.accountPassword = some pw) (data : d.data = packet.take 4096)
      (opens : Opens s accNo (.datagram d now)) (opened : step s (.datagram d now) = .ok s₁)
      (kept : EveryStep step (fun s e _ => ¬ Opens s accNo e) s₁ es) (later : run s₁ es = .ok s')

theorem OpenedFor.heldBy {name pw : Bytes} (h : OpenedFor accNo name pw s s')
    (hrunning : Running s.dispatcher) : HeldBy accNo name (passwordStringToFixed pw) s' := by
  obtain ⟨hsent, hname, hpw, hdata, hopens, hopened, hkept, hlater⟩ := h
  have hheld := heldBy_opening hrunning hsent hdata hname hpw hopens hopened
  exact hheld.run (step_running hrunning hopened) hkept hlater

theorem OpenedFor.isPassword {name pw : Bytes} (h : OpenedFor accNo name pw s s') :
    isPassword pw := by
  obtain ⟨hsent, -, hpw, -⟩ := h
  exact (built_validTexts hsent.built).accountPassword _ hpw

omit [Money M] in
theorem sent_presents {cmd : Command} {packet name pw : Bytes} (hsent : Sent cmd packet)
    (hno : cmd.accountNumber = some accNo) (hname : cmd.accountOwnerName = some name)
    (hpw : cmd.accountPassword = some pw) (hsize : packet.length ≤ 4096)
    (hservice : cmd.service ≠ some Handler.serviceMonitor) :
    ∃ op txName, parseRequest (M := M) (packet.take 4096) = some (.bank op txName) ∧
      op.credentials = some (accNo, name, passwordStringToFixed pw) := by
  obtain ⟨-, e, hread⟩ := (hsent.parseRequest (M := M)).resolve_right fun hcut =>
    absurd hsize (not_le.mpr hcut.1)
  obtain ⟨req, hreq, hmenu⟩ := built_request (M := M) (built_onHost e hsent.built)
  rw [onHost_service] at hmenu
  cases req with
  | monitor timeoutSeconds => exact absurd hmenu hservice
  | bank op txName =>
    refine ⟨op, txName, hread.trans hreq, ?_⟩
    apply (requestOf_carries hreq).credentials
    · intro hopen
      exact built_service hsent.built hno ((onHost_service e cmd).symm.trans hopen)
    · exact (onHost_accountNumber e cmd).trans hno
    · exact (onHost_ownerName e cmd).trans hname
    · exact (onHost_password e cmd).trans hpw

/-- The account that a client opened is open to the name and the password that were typed, and no
two passwords that a client takes are one to the server. -/
theorem accepted_told_apart {name pw : Bytes} (hrunning : Running s.dispatcher)
    (hopened : OpenedFor accNo name pw s s') {acc : Account M}
    (hacc : s'.backend.store.accounts.get accNo = some acc) {cmd : Command}
    {packet name' pw' : Bytes} (hsent : Sent cmd packet) (hno : cmd.accountNumber = some accNo)
    (hname : cmd.accountOwnerName = some name') (hpw : cmd.accountPassword = some pw') :
    Set.InjOn passwordStringToFixed {pw | ∃ prompt, Yields (getValidatedPassword prompt) pw} ∧
      (packet.length ≤ 4096 → cmd.service ≠ some Handler.serviceMonitor →
        ∃ op txName, parseRequest (M := M) (packet.take 4096) = some (.bank op txName) ∧
          op.credentials = some (accNo, name', passwordStringToFixed pw')) ∧
      (checkAuth acc name' (passwordStringToFixed pw') = .ok () ↔ name = name' ∧ pw = pw') := by
  refine ⟨passwordStringToFixed_injOn, sent_presents hsent hno hname hpw, ?_⟩
  obtain ⟨hholder, hfixed⟩ := hopened.heldBy hrunning acc hacc
  have hpw' := (built_validTexts hsent.built).accountPassword _ hpw
  rw [checkAuth_ok, hholder, hfixed,
    passwordText_passwordStringToFixed.injOn.eq_iff hopened.isPassword hpw']
  exact and_comm

end Opening

def balanceLines : Console := ⟨[ascii "Al", ascii "10000", ascii "pw"], []⟩

def balanceCommand : Command :=
  { service := some 6, accountNumber := some 10000, accountOwnerName := some (ascii "Al"),
    accountPassword := some (ascii "pw") }

theorem sent_packetOf {cmd : Command} {userInput : ℤ} {c c' : Console}
    (hbuild : (buildCommand stodFifty userInput).run.run c = (.ok cmd, c'))
    (s : ClientProtocol.Session) : Sent cmd (ClientProtocol.packetOf s cmd) := by
  have hyields : Yields (buildCommand stodFifty userInput) cmd := ⟨c, c', hbuild⟩
  obtain ⟨hbuilt, -⟩ := yields_buildCommand hyields
  exact ⟨_, _, .little, _, s, hyields,
    ClientProtocol.encodeMessage_onHost .little cmd (fieldsOf_built hbuilt), rfl⟩

def openAl : Datagram := tellerPacket openingCommand (by decide +kernel)

theorem pw_not_pw1 :
    ∃ (s : Server Binary64) (acc : Account Binary64),
      step (newServer .atLeastOnce) (.datagram openAl 0) = .ok s ∧
      s.backend.store.accounts.get 10000 = some acc ∧
      (checkAuth acc (ascii "Al") (passwordStringToFixed (ascii "pw")) = .ok () ↔
        ascii "Al" = ascii "Al" ∧ ascii "pw1" = ascii "pw") := by
  have hopening : (buildCommand stodFifty 1).run.run openingLines =
      (.ok openingCommand, ((buildCommand stodFifty 1).run.run openingLines).2) :=
    Prod.ext (by decide +kernel) rfl
  have hbalance : (buildCommand stodFifty 6).run.run balanceLines =
      (.ok balanceCommand, ((buildCommand stodFifty 6).run.run balanceLines).2) :=
    Prod.ext (by decide +kernel) rfl
  have hsize : openAl.data.length ≤ 4096 := by decide +kernel
  have hreq := ClientProtocol.parseRequest_packetOf (M := Binary64) hsize
  have hrunning : Running (newServer (M := Binary64) .atLeastOnce).dispatcher := .inl rfl
  obtain ⟨s, -, hstep, -⟩ := step_datagram hrunning openAl 0
  obtain ⟨-, hstore, hexec, -⟩ := step_tellerPacket rfl hstep hreq
  have hkept : EveryStep step (fun s e _ => ¬ Opens s 10000 e) s [] := trivial
  have hopened : OpenedFor 10000 (ascii "Al") (ascii "pw1") (newServer .atLeastOnce) s :=
    .intro (sent_packetOf hopening ⟨1, 0, (0x7F000001, 4000)⟩) rfl rfl
      (List.take_of_length_le hsize).symm ⟨hexec, _, _, hreq, rfl⟩ hstep hkept rfl
  obtain ⟨acc, hacc⟩ : ∃ acc, s.backend.store.accounts.get 10000 = some acc := by
    rw [hstore]
    exact ⟨_, FiniteMap.get_set_self _ _ _⟩
  exact ⟨s, acc, hstep, hacc,
    (accepted_told_apart hrunning hopened hacc
      (sent_packetOf hbalance ⟨1, 1, (0x7F000001, 4001)⟩) rfl rfl rfl).2.2⟩

end DistributedBanking.Server
