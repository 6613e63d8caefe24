import DistributedBanking.Funds
import DistributedBanking.ServerReadings

/-!
# A server over floats without rounding

When all amounts are whole numbers of one unit and no more comes in than the
significand can count, no sum or difference is ever rounded. The server program
then cannot be told from the one over exact rationals by what it writes.
-/

namespace DistributedBanking
open Runs Store Banking Marshalling Monitor Semantics Handler Server Doubles

namespace Handler

theorem amount_map {M N : Type} (f : M → N) (op : Op M) : (op.map f).amount = op.amount.map f := by
  cases op <;> rfl

def Request.paidIn : Request ℚ → ℚ
  | .bank op _ => op.paidIn
  | .monitor _ => 0

/-- The amount, if there is one, is a whole number of units and not negative zero. -/
def Request.InUnits (k : ℤ) (req : Request UInt64) : Prop :=
  ∀ a, req.amount = some a → a ≠ negZero ∧ ∃ q, Binary64.ofPattern a = .finite q ∧ Whole k q

theorem Request.paidIn_nonneg (req : Request ℚ) : 0 ≤ req.paidIn := by
  cases req with
  | bank op txName => exact op.paidIn_nonneg
  | monitor timeoutSeconds => exact le_rfl

theorem Request.InUnits.whole {k : ℤ} {op : Op UInt64} {txName : Bytes}
    (h : Request.InUnits k (.bank op txName)) :
    ∀ q, (op.map Float64.frombits : Op ℚ).amount = some q → Whole k q := by
  intro q hq
  rw [amount_map] at hq
  obtain ⟨a, ha, rfl⟩ := Option.map_eq_some_iff.mp hq
  obtain ⟨-, q, hvalue, hwhole⟩ := h a ha
  have hread : (Float64.frombits a : ℚ) = q := congrArg Binary64.toRat hvalue
  rw [hread]
  exact hwhole

def paidIn (data : Bytes) : ℚ := (parseRequest data).elim 0 Request.paidIn

theorem paidIn_nonneg (data : Bytes) : 0 ≤ paidIn data := by
  rw [paidIn]
  cases (parseRequest data : Option (Request ℚ)) with
  | none => exact le_rfl
  | some req => exact req.paidIn_nonneg

def InUnits (k : ℤ) (data : Bytes) : Prop := ∀ req, parseRequest data = some req → req.InUnits k

theorem InUnits.reads {k : ℤ} {data : Bytes} (h : InUnits k data) : AmountReads Stands data := by
  intro a ha
  obtain ⟨req, hreq, hamount⟩ := Option.bind_eq_some_iff.mp ha
  obtain ⟨hplain, q, hq, -⟩ := h req hreq a hamount
  exact stands_frombits hq hplain

theorem InUnits.whole {k : ℤ} {data : Bytes} (hlen : data.length < 2 ^ 62) (h : InUnits k data)
    {op : Op ℚ} {txName : Bytes} (hreq : parseRequest data = some (.bank op txName)) :
    ∀ q, op.amount = some q → Whole k q := by
  rw [parseRequest_map hlen] at hreq
  obtain ⟨req, hparse, hmap⟩ := Option.map_eq_some_iff.mp hreq
  cases req with
  | monitor timeoutSeconds => cases hmap
  | bank op' txName' =>
    cases hmap
    exact (h _ hparse).whole

end Handler

namespace Server

def Input.paidIn : Input → ℚ
  | .datagram d _ _ => Handler.paidIn (received d).data
  | _ => 0

theorem Input.paidIn_nonneg (i : Input) : 0 ≤ i.paidIn := by
  cases i with
  | datagram d now writes => exact Handler.paidIn_nonneg _
  | readFails => exact le_rfl
  | sweep now => exact le_rfl

def Input.InUnits (k : ℤ) : Input → Prop
  | .datagram d _ _ => Handler.InUnits k (received d).data
  | _ => True

theorem receive_funded {k : ℤ} {paid : ℚ} {t : Server ℚ} (hrun : Running t.dispatcher)
    (h : Funded k paid t.backend.store) {d : Datagram} {now : ℕ} (hunits : Handler.InUnits k d.data)
    {out : Server ℚ × Except DispatchError Bytes} (hout : receive t d now = .ok out) :
    Running out.1.dispatcher ∧ Funded k (paid + Handler.paidIn d.data) out.1.backend.store := by
  obtain ⟨out', hout', hdisp⟩ := receive_dispatched hrun d now
  cases hout'.symm.trans hout
  refine ⟨hdisp.running hrun, ?_⟩
  rcases hdisp.store with ⟨-, op, txName, hreq, hstore⟩ | ⟨-, hstore⟩
  · rw [hstore, Handler.paidIn, hreq, Option.elim_some, Request.paidIn]
    exact perform_funded h (hunits.whole d.bounded hreq)
  · rw [hstore]
    exact ⟨h.whole, h.wealth_le.trans (le_add_of_nonneg_right (paidIn_nonneg _))⟩

theorem answering_funded {k : ℤ} {paid : ℚ} {t : Server ℚ} (hrun : Running t.dispatcher)
    (h : Funded k paid t.backend.store) {i : Input} (hunits : i.InUnits k)
    {out : Server ℚ × Option Outgoing} (hout : answering t i = .ok out) :
    Running out.1.dispatcher ∧ Funded k (paid + i.paidIn) out.1.backend.store := by
  cases i with
  | readFails =>
    cases hout
    rw [Input.paidIn, add_zero]
    · exact ⟨hrun, h⟩
    all_goals simp
  | sweep now =>
    cases hout
    rw [Input.paidIn, add_zero]
    · exact ⟨hrun, h⟩
    all_goals simp
  | datagram d now writes =>
    rcases hreceive : receive t (received d) now with err | out'
    · rw [answering, hreceive] at hout
      cases hout
    · rw [answering, hreceive] at hout
      cases hout
      exact receive_funded hrun h hunits hreceive

/-- The two servers after some inputs, when no more comes in than the units can count. -/
structure Unrounded (k : ℤ) (s : Server Float) (t : Server ℚ) (rest : List Input) : Prop where
  reads : Reads Stands s t
  running : Running t.dispatcher
  funded : ∃ paid, Funded k paid t.backend.store ∧
    paid + (rest.map Input.paidIn).sum ≤ 2 ^ (53 + k)
  units : ∀ i ∈ rest, i.InUnits k

theorem Unrounded.step {k : ℤ} (hleast : -1074 ≤ k) (htop : 53 + k < 1024) {s : Server Float}
    {t : Server ℚ} {i : Input} {rest : List Input} (h : Unrounded k s t (i :: rest)) :
    ∃ s' t' answer, answering s i = .ok (s', answer) ∧ answering t i = .ok (t', answer) ∧
      Unrounded k s' t' rest := by
  obtain ⟨paid, hfunded, hpaid⟩ := h.funded
  rw [List.map_cons, List.sum_cons, ← add_assoc] at hpaid
  have hunits : i.InUnits k := h.units i List.mem_cons_self
  have hrest : 0 ≤ (rest.map Input.paidIn).sum :=
    List.sum_nonneg fun x hx => by
      obtain ⟨j, -, rfl⟩ := List.mem_map.mp hx
      exact j.paidIn_nonneg
  have hgood : ∀ out, answering t i = .ok out →
      Balances Exact out.1.backend.store.accounts := by
    intro out hout accNo acc hget
    obtain ⟨-, hafter⟩ := answering_funded h.running hfunded hunits hout
    refine (hafter.whole accNo acc hget).exact hleast htop ?_
    calc |acc.balance| ≤ wealth Account.balance out.1.backend.store.accounts :=
        balance_le_wealth _ hget
      _ ≤ paid + i.paidIn := hafter.wealth_le
      _ ≤ 2 ^ (53 + k) := by linarith
  have hamount : ∀ d now writes, i = .datagram d now writes → Executes t (received d) →
      AmountReads Stands (received d).data := by
    rintro d now writes rfl -
    exact Handler.InUnits.reads hunits
  obtain ⟨s', t', answer, hs, ht, hreads⟩ :=
    answering_reads float_reading h.reads h.running i hamount hgood
  obtain ⟨hrunning, hafter⟩ := answering_funded h.running hfunded hunits ht
  exact ⟨s', t', answer, hs, ht, hreads, hrunning, ⟨_, hafter, hpaid⟩,
    fun j hj => h.units j (List.mem_cons_of_mem i hj)⟩

section Main
variable {newSource : ℤ → Rand} {parseFloat : String → Option Binary64} {args : List String}

theorem new_reads {p : Program Float} (hnew : Program.new newSource parseFloat args = some p) :
    ∃ q : Program ℚ, Program.new newSource parseFloat args = some q ∧
      q.process.replyLoss = p.process.replyLoss ∧ Reads Stands p.server q.server ∧
      q.server.backend.store = newMemoryStore := by
  unfold Program.new at hnew
  split at hnew
  · rename_i program mode rest
    split at hnew
    · cases hnew
    · rename_i mode' hmode
      cases hnew
      refine ⟨⟨⟨Dispatcher.newDispatcher mode', ⟨newMemoryStore, newManager⟩,
        .newLossSimulator newSource (parseLossRate parseFloat (program :: mode :: rest)) lossSeed⟩,
        []⟩, ?_, rfl, newServer_reads mode', rfl⟩
      simp only [Program.new, hmode]
  · cases hnew

/-- Where amounts are whole numbers of units and no more than `2 ^ 53` units come in, the program
over floats writes the packets that it would write over rationals, and every balance of its bank
is the rational one. -/
theorem exact_floats {p : Program Float} (hnew : Program.new newSource parseFloat args = some p)
    {k : ℤ} (hleast : -1074 ≤ k) (htop : 53 + k < 1024) {inputs : List Input}
    (hunits : ∀ i ∈ inputs, i.InUnits k)
    (hpaid : (inputs.map Input.paidIn).sum ≤ 2 ^ (53 + k)) :
    ∃ p' q q', Program.new (M := ℚ) newSource parseFloat args = some q ∧ p.run inputs = .ok p' ∧
      q.run inputs = .ok q' ∧ p'.written = q'.written ∧ Reads Stands p'.server q'.server := by
  obtain ⟨q, hnew', hloss, hreads, hempty⟩ := new_reads hnew
  obtain ⟨hrun, -⟩ := Program.new_spec hnew
  obtain ⟨hrun', -⟩ := Program.new_spec hnew'
  obtain ⟨p', answers, hp, hserves, -, hwritten, -⟩ := program_served hnew inputs
  obtain ⟨q', answers', hq, hserves', -, hwritten', -⟩ := program_served hnew' inputs
  have hstart : Unrounded k p.server q.server inputs :=
    ⟨hreads, hrun', ⟨0, by rw [hempty]; exact ⟨balances_empty, le_rfl⟩, by rwa [zero_add]⟩, hunits⟩
  obtain ⟨s, t, rs, hs, ht, hend⟩ := outputs_lockstep_rest (f := answering) (g := answering)
    (R := Unrounded k) (fun _ _ _ _ h => h.step hleast htop) hstart
  cases hs.symm.trans hserves
  cases ht.symm.trans hserves'
  exact ⟨p', q, q', hnew', hp, hq, by rw [hwritten, hwritten', hloss], hend.reads⟩

end Main

def halvesOpening : Datagram where
  data := ClientProtocol.packetOf ⟨2, 0, (0x7F000001, 4000)⟩ ⟨some 1, none, some [65], some [80],
    none, none, some 0x4004000000000000, some 1, none, none⟩
  addr := .loopback 4000
  small := by decide +kernel

def halfWithdrawal : Datagram where
  data := ClientProtocol.packetOf ⟨2, 1, (0x7F000001, 4000)⟩ ⟨some 4, some 10000, some [65],
    some [80], none, none, some 0x3FE0000000000000, some 1, none, none⟩
  addr := .loopback 4000
  small := by decide +kernel

def halves : List Input := [.datagram halvesOpening 0 true, .datagram halfWithdrawal 1 true]

def plainFloats : Option (Program Float) :=
  Program.new (fun _ => firstSmall) (fun _ => none) ["server", "at-most-once"]

theorem halves_units : ∀ i ∈ halves, i.InUnits (-1) := by
  have hopening : amountOf (received halvesOpening).data = some 0x4004000000000000 := by
    decide +kernel
  have hwithdrawal : amountOf (received halfWithdrawal).data = some 0x3FE0000000000000 := by
    decide +kernel
  intro i hi
  rcases List.mem_pair.mp hi with rfl | rfl
  · intro req hreq a ha
    rw [amountOf, hreq, Option.bind_some, ha] at hopening
    cases hopening
    exact ⟨by decide, 5 / 2, by decide +kernel, 5, by norm_num⟩
  · intro req hreq a ha
    rw [amountOf, hreq, Option.bind_some, ha] at hwithdrawal
    cases hwithdrawal
    exact ⟨by decide, 1 / 2, by decide +kernel, 1, by norm_num⟩

theorem halves_exact : ∃ p : Program Float, plainFloats = some p ∧ ∃ p' q', p.run halves = .ok p' ∧
    p'.written = q'.written ∧ p'.written.length = 2 ∧
    Reads Stands p'.server (Program.server q') := by
  obtain ⟨p, hp⟩ := Option.isSome_iff_exists.mp (rfl : plainFloats.isSome = true)
  have hpaid : (halves.map Input.paidIn).sum ≤ 2 ^ (53 + (-1 : ℤ)) := by
    have hsum : (halves.map Input.paidIn).sum = 5 / 2 := by decide +kernel
    rw [hsum]
    norm_num
  obtain ⟨p', q, q', -, hrun, -, hwritten, hreads⟩ :=
    exact_floats hp (k := -1) (by norm_num) (by norm_num) halves_units hpaid
  have hlength : (plainFloats.bind fun p => (p.run halves).toOption).map
      (fun p' => p'.written.length) = some 2 := by
    decide +kernel
  rw [hp, Option.bind_some, hrun] at hlength
  exact ⟨p, hp, p', q', hrun, hwritten, Option.some.inj hlength, hreads⟩

end Server
end DistributedBanking
