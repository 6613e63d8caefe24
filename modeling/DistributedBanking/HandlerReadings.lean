import DistributedBanking.Readings

/-!
# Two readings of a request

A packet is parsed down to the pattern of its amount and only then read as an
amount. A backend over each type of amounts answers it with the same bytes when
the two readings of that pattern stand for each other.
-/

namespace DistributedBanking
open Store Banking Marshalling Monitor Semantics Handler

namespace Handler
variable {M N : Type}

def Request.map (f : M → N) : Request M → Request N
  | .bank op txName => .bank (op.map f) txName
  | .monitor timeoutSeconds => .monitor timeoutSeconds

def Request.amount : Request M → Option M
  | .bank op _ => op.amount
  | .monitor _ => none

def mapValue (f : M → N) (cmd : ParsedCommand M) : ParsedCommand N :=
  { service := cmd.service
    accountNumber := cmd.accountNumber
    accountOwnerName := cmd.accountOwnerName
    accountPassword := cmd.accountPassword
    txAccountNumber := cmd.txAccountNumber
    txAccountOwnerName := cmd.txAccountOwnerName
    monetaryValue := cmd.monetaryValue.map f
    currency := cmd.currency
    monitorUpdates := cmd.monitorUpdates
    monitorTimeoutSeconds := cmd.monitorTimeoutSeconds }

theorem requestOf_mapValue (f : M → N) (cmd : ParsedCommand M) :
    requestOf (mapValue f cmd) = (requestOf cmd).map (Request.map f) := by
  obtain ⟨service, accNo, name, pw, txNo, txName, value, curr, updates, timeout⟩ := cmd
  rcases service with _ | service
  · rfl
  simp only [requestOf, mapValue, Option.bind_eq_bind, Option.bind_some]
  split_ifs
  · cases name <;> cases pw <;> cases curr <;> cases value <;> rfl
  · cases name <;> cases accNo <;> cases pw <;> rfl
  · cases name <;> cases accNo <;> cases pw <;> cases curr <;> cases value <;> rfl
  · cases name <;> cases accNo <;> cases pw <;> cases curr <;> cases value <;> rfl
  · cases timeout <;> rfl
  · cases name <;> cases accNo <;> cases pw <;> rfl
  · cases name <;> cases accNo <;> cases pw <;> cases txNo <;> cases txName <;> cases curr <;>
      cases value <;> rfl
  · rfl

theorem parseRequest_unparsed [Float64 M] {data : Bytes} (hlen : data.length < 2 ^ 62)
    (h : ¬ ∃ fs rest, Parses (data.drop headerSize) fs rest) :
    (parseRequest data : Option (Request M)) = none := by
  rw [parseRequest]
  split_ifs
  · rfl
  have hpayload : (data.drop headerSize).length < 2 ^ 62 := by
    rw [List.length_drop]
    omega
  rcases hdecode : decodeTLV (M := M) 64 (data.drop headerSize) with e | e | cmd
  · rfl
  · rfl
  · exact absurd (parses_of_decodeTLV hpayload hdecode) h

theorem parseRequest_map [Float64 M] {data : Bytes} (hlen : data.length < 2 ^ 62) :
    (parseRequest data : Option (Request M)) =
      (parseRequest data : Option (Request UInt64)).map (Request.map Float64.frombits) := by
  by_cases hparses : ∃ fs rest, Parses (data.drop headerSize) fs rest
  · obtain ⟨fs, rest, hparses⟩ := hparses
    rw [parseRequest, parseRequest]
    split_ifs with hshort
    · rfl
    have hpayload : (data.drop headerSize).length < 2 ^ 62 := by
      rw [List.length_drop]
      omega
    simp only [decodeTLV_parses hparses (addressable_64 hpayload)]
    rw [← requestOf_mapValue]
    congr 1
    simp only [ParsedCommand.ofValues, mapValue, Option.map_map]
    rfl
  · rw [parseRequest_unparsed hlen hparses, parseRequest_unparsed hlen hparses]
    rfl

def amountOf (data : Bytes) : Option UInt64 :=
  (parseRequest data : Option (Request UInt64)).bind Request.amount

section Serve
variable [Money M] [Float64 M] [Money N] [Float64 N] {R : M → N → Prop} {Good : N → Prop}

/-- What a client or a subscriber can be sent of two backends is the same. -/
structure Backend.Reads (R : M → N → Prop) (b : Backend M) (c : Backend N) : Prop where
  store : b.store.Reads R c.store
  mon : b.mon = c.mon

omit [Money M] [Money N] in
theorem contentOf_reads (hbits : ∀ x p, R x p → Float64.bits x = Float64.bits p)
    {res : Result M} {res' : Result N} (h : Result.Reads R res res') :
    statusOf res = statusOf res' ∧ contentOf res = contentOf res' := by
  cases h with
  | balance h => exact ⟨rfl, by simp only [contentOf, tlvFloat64, hbits _ _ h]⟩
  | balances hx hy => exact ⟨rfl, by simp only [contentOf, tlvFloat64, hbits _ _ hx]⟩
  | _ => exact ⟨rfl, rfl⟩

def SameUpdate (u : AccountUpdate M) (v : AccountUpdate N) : Prop :=
  marshalCallbackUpdate u = marshalCallbackUpdate v

omit [Money M] [Money N] in
theorem notifyAll_reads {us : List (AccountUpdate M)} {vs : List (AccountUpdate N)}
    (h : List.Forall₂ SameUpdate us vs) (now : ℕ) (mon : Manager) :
    us.foldl (fun mon u => mon.notifyAll now u) mon =
      vs.foldl (fun mon v => mon.notifyAll now v) mon := by
  induction h generalizing mon with
  | nil => rfl
  | @cons u v us vs huv _ ih =>
    have hhead : mon.notifyAll now u = mon.notifyAll now v := by
      rw [Manager.notifyAll, Manager.notifyAll, huv]
    rw [List.foldl_cons, List.foldl_cons, hhead, ih]

omit [Money M] [Money N] in
theorem sameUpdate {x : M} {p : N} (h : Float64.bits x = Float64.bits p) (serviceID : UInt8)
    (accNo : UInt32) (name : Bytes) (curr : UInt8) :
    SameUpdate ⟨serviceID, accNo, name, curr, x⟩ ⟨serviceID, accNo, name, curr, p⟩ := by
  simp only [SameUpdate, marshalCallbackUpdate, Encoder.putFloat64, h]

theorem updatesOf_reads (hR : Reading R Good) {op : Op M} {op' : Op N} (hop : Op.Reads R op op')
    {res : Result M} {res' : Result N} (hres : Result.Reads R res res') (txName : Bytes) :
    List.Forall₂ SameUpdate (updatesOf op txName res) (updatesOf op' txName res') := by
  cases hop with
  | openAccount hx =>
    cases hres with
    | opened accNo => exact .cons (sameUpdate (hR.bits hx) _ _ _ _) .nil
    | _ => exact .nil
  | closeAccount =>
    cases hres with
    | closed => exact .cons (sameUpdate (hR.bits hR.zero) _ _ _ _) .nil
    | _ => exact .nil
  | checkBalance => cases hres <;> exact .nil
  | deposit hx =>
    cases hres with
    | balance hb => exact .cons (sameUpdate (hR.bits hb) _ _ _ _) .nil
    | _ => exact .nil
  | withdraw hx =>
    cases hres with
    | balance hb => exact .cons (sameUpdate (hR.bits hb) _ _ _ _) .nil
    | _ => exact .nil
  | transfer hx =>
    cases hres with
    | balances hb hc =>
      exact .cons (sameUpdate (hR.bits hb) _ _ _ _) (.cons (sameUpdate (hR.bits hc) _ _ _ _) .nil)
    | _ => exact .nil

def AmountReads (R : M → N → Prop) (data : Bytes) : Prop :=
  ∀ a, amountOf data = some a → R (Float64.frombits a) (Float64.frombits a)

theorem respond_reads (hR : Reading R Good) {b : Backend M} {c : Backend N} (hb : b.Reads R c)
    (now : ℕ) (addr : UDPAddr) {data : Bytes} (hlen : data.length < 2 ^ 62)
    (hamount : AmountReads R data)
    (hgood : Server.Balances Good (respond now c data addr).1.store.accounts) :
    (respond now b data addr).1.Reads R (respond now c data addr).1 ∧
      (respond now b data addr).2 = (respond now c data addr).2 := by
  rw [respond] at hgood ⊢
  rw [respond]
  rw [parseRequest_map (M := N) hlen] at hgood ⊢
  rw [parseRequest_map (M := M) hlen]
  simp only [AmountReads, amountOf] at hamount
  generalize (parseRequest data : Option (Request UInt64)) = req at hamount hgood ⊢
  rcases req with _ | ⟨op, txName⟩ | timeoutSeconds
  · exact ⟨hb, rfl⟩
  · have hop : Op.Reads R (op.map Float64.frombits) (op.map Float64.frombits) :=
      Op.map_reads hamount
    obtain ⟨hstore, hres⟩ := perform_reads hR hb.store hop hgood
    obtain ⟨hstatus, hcontent⟩ := contentOf_reads (fun x p => hR.bits) hres
    refine ⟨⟨hstore, ?_⟩, ?_⟩
    · simp only [Option.map_some, Request.map, outcome, serve, Outcome.reply, hb.mon]
      exact notifyAll_reads (updatesOf_reads hR hop hres txName) now _
    · simp only [Option.map_some, Request.map, outcome, serve, Outcome.reply, hstatus, hcontent]
  · refine ⟨⟨hb.store, ?_⟩, rfl⟩
    simp only [Option.map_some, Request.map, outcome, serve, Outcome.reply, hb.mon]

end Serve

end Handler
end DistributedBanking
