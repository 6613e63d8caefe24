import DistributedBanking.TruncatedRequests

/-!
# What the client fills in and what the server asks for

The client's fill functions and the server's nil checks are two lists of fields
for each service. A command that `build_command` puts together has all the
fields that the handler of its service dereferences, on either kind of host, so
its request is served.
-/

namespace DistributedBanking.Handler
open Store Banking Marshalling Semantics ClientInput
open ClientProtocol (Command Endian Message Session fieldsOf onHost parsed serialize encodeMessage
  encodeMessage_onHost buildMessage buildMessage_content decodeTLV_serialize parseRequest_serialize)

def Request.service {M : Type} : Request M → UInt8
  | .bank (.openAccount _ _ _ _) _ => serviceOpenAccount
  | .bank (.closeAccount _ _ _) _ => serviceCloseAccount
  | .bank (.checkBalance _ _ _) _ => serviceGetBalance
  | .bank (.deposit _ _ _ _ _) _ => serviceDeposit
  | .bank (.withdraw _ _ _ _ _) _ => serviceWithdraw
  | .bank (.transfer _ _ _ _ _ _) _ => serviceTransferFunds
  | .monitor _ => serviceMonitor

section Contract
variable {M : Type}

theorem built_request [Float64 M] {cmd : Command} (h : Built cmd) :
    ∃ req : Request M, requestOf (parsed cmd) = some req ∧ cmd.service = some req.service := by
  cases h with
  | opening => exact ⟨_, rfl, rfl⟩
  | authenticated hservice =>
    rcases hservice with rfl | rfl
    · exact ⟨_, rfl, rfl⟩
    · exact ⟨_, rfl, rfl⟩
  | payment hservice =>
    rcases hservice with rfl | rfl
    · exact ⟨_, rfl, rfl⟩
    · exact ⟨_, rfl, rfl⟩
  | transfer => exact ⟨_, rfl, rfl⟩
  | monitor => exact ⟨_, rfl, rfl⟩

theorem fieldsOf_built {e : Endian} {cmd : Command} (h : Built cmd) :
    fieldsOf (onHost e cmd) ≠ [] := by
  obtain ⟨_, _, init, last, -, hfields, -⟩ := built_endsIn (built_onHost e h)
  rw [hfields]
  exact List.append_ne_nil_of_right_ne_nil init (List.cons_ne_nil last [])

theorem onHost_service (e : Endian) (cmd : Command) : (onHost e cmd).service = cmd.service := by
  cases e <;> rfl

variable [Money M] [Float64 M]

/-- A command built at the console reaches the bank, or the monitor, as the service chosen. -/
theorem built_served {stod : Bytes → Except NumberError UInt64} {userInput : ℤ}
    {c c' : Console} {cmd : Command}
    (hbuild : (buildCommand stod userInput).run.run c = (.ok cmd, c')) (e : Endian) :
    ∃ content, encodeMessage e cmd = .ok (.ok content) ∧ ∀ s : Session,
      (serialize e (buildMessage s content).2).length ≤ 4096 →
        ∃ (pc : ParsedCommand M) (req : Request M),
          decodeTLV 64 ((serialize e (buildMessage s content).2).drop headerSize) = .ok (.ok pc) ∧
          requestOf pc = some req ∧ req.service = UInt8.ofNat (userInput % 2 ^ 8).toNat ∧
          ∀ now (b : Backend M) addr,
            buildHandler 64 now b (serialize e (buildMessage s content).2) addr =
              .ok ((serve now addr b req).reply
                (requestIDOf (serialize e (buildMessage s content).2)) addr) := by
  obtain ⟨hbuilt, hmenu⟩ := yields_buildCommand ⟨c, c', hbuild⟩
  refine ⟨_, encodeMessage_onHost e cmd (fieldsOf_built hbuilt), ?_⟩
  intro s hsize
  obtain ⟨req, hreq, hservice⟩ := built_request (M := M) (built_onHost e hbuilt)
  rw [onHost_service, hmenu] at hservice
  have hcontent := buildMessage_content s (encodeTLVFields (fieldsOf (onHost e cmd)))
  refine ⟨parsed (onHost e cmd), req, decodeTLV_serialize hcontent hsize, hreq,
    (Option.some.inj hservice).symm, ?_⟩
  intro now b addr
  rw [buildHandler_eq now addr b (hsize.trans_lt (by decide)), respond,
    parseRequest_serialize hcontent hsize, hreq]
  rfl

end Contract

theorem opening_served :
    ∃ content, encodeMessage .little openingCommand = .ok (.ok content) ∧ ∀ s : Session,
      (serialize .little (buildMessage s content).2).length ≤ 4096 →
        ∃ (pc : ParsedCommand Binary64) (req : Request Binary64),
          decodeTLV 64 ((serialize .little (buildMessage s content).2).drop headerSize) =
            .ok (.ok pc) ∧
          requestOf pc = some req ∧ req.service = 1 ∧
          ∀ now (b : Backend Binary64) addr,
            buildHandler 64 now b (serialize .little (buildMessage s content).2) addr =
              .ok ((serve now addr b req).reply
                (requestIDOf (serialize .little (buildMessage s content).2)) addr) := by
  have hbuild : (buildCommand stodFifty 1).run.run openingLines =
      (.ok openingCommand, ((buildCommand stodFifty 1).run.run openingLines).2) :=
    Prod.ext (by decide +kernel) rfl
  exact built_served hbuild .little

end DistributedBanking.Handler
