import DistributedBanking.Authorisation
import DistributedBanking.Decisions
import DistributedBanking.Footprints

/-!
# Requests on different accounts

A call has the account numbers that it names for a footprint, unless it opens
an account. Clients are independent, and so are their requests: those that name
no account in common are answered the same in either order, and leave the same
accounts behind.
-/

namespace DistributedBanking.Banking
open Store Footprints

section Footprint
variable {M : Type}

def Op.accounts : Op M → Finset UInt32
  | .openAccount _ _ _ _ => ∅
  | .closeAccount _ accNo _ => {accNo}
  | .checkBalance _ accNo _ => {accNo}
  | .deposit _ accNo _ _ _ => {accNo}
  | .withdraw _ accNo _ _ _ => {accNo}
  | .transfer _ fromAccNo _ toAccNo _ _ => {fromAccNo, toAccNo}

theorem settled_frame {op : Op M} (res : Result M) {k : UInt32} (hk : k ∉ op.accounts)
    (found : Option (Account M)) : settled op res k found = found := by
  cases op <;> cases res <;> simp_all [Op.accounts, settled]

variable [Money M]

theorem decision_congr {s t : MemoryStore M} {op : Op M} (hopen : op.isOpen = false)
    (h : ∀ k ∈ op.accounts, s.accounts.get k = t.accounts.get k) :
    decision s op = decision t op := by
  cases op with
  | openAccount => cases hopen
  | closeAccount name accNo pw => rw [decision, decision, h accNo (by simp [Op.accounts])]
  | checkBalance name accNo pw => rw [decision, decision, h accNo (by simp [Op.accounts])]
  | deposit name accNo pw curr amount => rw [decision, decision, h accNo (by simp [Op.accounts])]
  | withdraw name accNo pw curr amount => rw [decision, decision, h accNo (by simp [Op.accounts])]
  | transfer name accNo pw toAccNo curr amount =>
    rw [decision, decision, h accNo (by simp [Op.accounts]), h toAccNo (by simp [Op.accounts])]

theorem perform_hasFootprint {op : Op M} (hopen : op.isOpen = false) :
    HasFootprint (fun s k => s.accounts.get k) (fun s => perform s op) op.accounts where
  frame s k hk := (perform_settled s hopen k).trans (settled_frame _ hk _)
  answer s t h := by
    rw [perform_decision, perform_decision]
    exact decision_congr hopen h
  writes s t h k hk := by
    have hfound : s.accounts.get k = t.accounts.get k := h k hk
    change (perform s op).1.accounts.get k = (perform t op).1.accounts.get k
    rw [perform_settled s hopen, perform_settled t hopen, perform_decision, perform_decision,
      decision_congr hopen h, hfound]

end Footprint
end DistributedBanking.Banking

namespace DistributedBanking.Server
open Store Banking Marshalling Semantics Handler Footprints

section Packets
variable {M : Type} [Money M] [Float64 M]

def namedAccounts (M : Type) [Float64 M] (data : Bytes) : Finset UInt32 :=
  match (parseRequest data : Option (Request M)) with
  | some (.bank op _) => op.accounts
  | _ => ∅

theorem answer_hasFootprint {data : Bytes} (hopen : opensAccount M data = false) :
    HasFootprint (fun s k => s.accounts.get k)
      (fun s : MemoryStore M => answer s (parseRequest data)) (namedAccounts M data) := by
  rcases hreq : (parseRequest data : Option (Request M)) with _ | ⟨op, txName⟩ | timeoutSeconds
  · exact hasFootprint_const _ _ _
  · rw [opensAccount_of_bank hreq] at hopen
    have hop := perform_hasFootprint hopen
    have hnamed : namedAccounts M data = op.accounts := by simp only [namedAccounts, hreq]
    rw [hnamed]
    refine ⟨hop.frame, ?_, hop.writes⟩
    intro s t h
    have hres : (perform s op).2 = (perform t op).2 := hop.answer s t h
    simp only [answer, hres]
  · exact hasFootprint_const _ _ _

theorem answer_nextID (s : MemoryStore M) {data : Bytes} (hopen : opensAccount M data = false) :
    (answer s (parseRequest data)).1.nextID = s.nextID := by
  rcases hreq : (parseRequest data : Option (Request M)) with _ | ⟨op, txName⟩ | timeoutSeconds
  · rfl
  · rw [opensAccount_of_bank hreq] at hopen
    simp only [answer, perform_nextID, hopen]
    exact UInt32.add_zero s.nextID
  · rfl

/-- Whichever of two requests on different accounts is handled first, each gets its reply, and the
accounts are the same afterwards. -/
theorem disjoint_requests_commute (b : Backend M) (x y : Datagram)
    (hx : opensAccount M x.data = false) (hy : opensAccount M y.data = false)
    (hdisj : Disjoint (namedAccounts M x.data) (namedAccounts M y.data))
    (now₁ now₂ now₁' now₂' : ℕ) :
    ∃ (b₁ b₂ b₁' b₂' : Backend M) (replyX replyY : Bytes),
      buildHandler 64 now₁ b x.data x.addr = .ok (b₁, replyX) ∧
      buildHandler 64 now₂ b₁ y.data y.addr = .ok (b₂, replyY) ∧
      buildHandler 64 now₁' b y.data y.addr = .ok (b₁', replyY) ∧
      buildHandler 64 now₂' b₁' x.data x.addr = .ok (b₂', replyX) ∧
      b₂.store = b₂'.store := by
  have hfx := answer_hasFootprint (M := M) hx
  have hfy := answer_hasFootprint (M := M) hy
  have hanswerY : (answer (answer b.store (parseRequest x.data)).1 (parseRequest y.data)).2 =
      (answer b.store (parseRequest y.data)).2 := hfy.answer_after hfx hdisj.symm b.store
  have hanswerX : (answer (answer b.store (parseRequest y.data)).1 (parseRequest x.data)).2 =
      (answer b.store (parseRequest x.data)).2 := hfx.answer_after hfy hdisj b.store
  refine ⟨(respond now₁ b x.data x.addr).1,
    (respond now₂ (respond now₁ b x.data x.addr).1 y.data y.addr).1,
    (respond now₁' b y.data y.addr).1,
    (respond now₂' (respond now₁' b y.data y.addr).1 x.data x.addr).1,
    (respond now₁ b x.data x.addr).2, (respond now₁' b y.data y.addr).2,
    buildHandler_eq now₁ x.addr b x.bounded, ?_, buildHandler_eq now₁' y.addr b y.bounded, ?_, ?_⟩
  · rw [buildHandler_eq now₂ y.addr _ y.bounded]
    refine congrArg Except.ok (Prod.ext rfl ?_)
    rw [respond_reply, respond_reply, respond_store, hanswerY]
  · rw [buildHandler_eq now₂' x.addr _ x.bounded]
    refine congrArg Except.ok (Prod.ext rfl ?_)
    rw [respond_reply, respond_reply, respond_store, hanswerX]
  · have hget := hfx.commute hfy hdisj b.store
    rw [respond_store, respond_store, respond_store, respond_store]
    apply MemoryStore.ext
    · ext1 k
      exact congrFun hget k
    · rw [answer_nextID _ hy, answer_nextID _ hx, answer_nextID _ hx, answer_nextID _ hy]

end Packets

def bankOfTwo (M : Type) (a b : M) : MemoryStore M :=
  let s := (createAccount newMemoryStore ⟨0, [65], passwordStringToFixed [80], 1, a⟩).1
  (createAccount s ⟨0, [66], passwordStringToFixed [80], 1, b⟩).1

theorem bankOfTwo_first {M : Type} (a b : M) : (bankOfTwo M a b).accounts.get 10000 =
    some ⟨10000, [65], passwordStringToFixed [80], 1, a⟩ :=
  FiniteMap.get_set_of_ne _ _ (show (10000 : UInt32) ≠ 10001 by decide)

def depositA : Datagram :=
  tellerPacket ⟨some 3, some 10000, some [65], some [80], none, none, some 0x3FF0000000000000,
    some 1, none, none⟩ (by decide +kernel)

def closeB : Datagram :=
  tellerPacket ⟨some 2, some 10001, some [66], some [80], none, none, none, none, none, none⟩
    (by decide +kernel)

theorem deposit_close_commute :
    ∃ (b₁ b₂ b₁' b₂' : Backend ℚ) (replyX replyY : Bytes),
      buildHandler 64 0 ⟨bankOfTwo ℚ 5 1, Monitor.newManager⟩ depositA.data depositA.addr =
        .ok (b₁, replyX) ∧
      buildHandler 64 1 b₁ closeB.data closeB.addr = .ok (b₂, replyY) ∧
      buildHandler 64 0 ⟨bankOfTwo ℚ 5 1, Monitor.newManager⟩ closeB.data closeB.addr =
        .ok (b₁', replyY) ∧
      buildHandler 64 1 b₁' depositA.data depositA.addr = .ok (b₂', replyX) ∧
      b₂.store = b₂'.store :=
  disjoint_requests_commute ⟨bankOfTwo ℚ 5 1, Monitor.newManager⟩ depositA closeB
    (by decide +kernel) (by decide +kernel) (by decide +kernel) 0 1 0 1

end DistributedBanking.Server
