import DistributedBanking.Decisions
import DistributedBanking.Solvency
import DistributedBanking.TLVGrammar

/-!
# Two readings of the amounts

The bank is written over any type of amounts. When a relation between two such
types is kept by everything that the bank does with amounts, the two banks take
the same decisions, and the server over one is told from the server over the
other by nothing that it sends. A sum or a difference has to stand for the
other one only where the second bank ends up with a balance that is `Good`.
-/

namespace DistributedBanking
open Store Banking Marshalling Monitor Semantics Handler

section Relation
variable {M N : Type}

structure Reading [Money M] [Float64 M] [Money N] [Float64 N] (R : M → N → Prop)
    (Good : N → Prop) : Prop where
  zero : R 0 0
  le {x y : M} {p q : N} : R x p → R y q → (x ≤ y ↔ p ≤ q)
  lt {x y : M} {p q : N} : R x p → R y q → (x < y ↔ p < q)
  add {x y : M} {p q : N} : R x p → R y q → ¬ q ≤ 0 → Good (p + q) → R (x + y) (p + q)
  sub {x y : M} {p q : N} : R x p → R y q → ¬ q ≤ 0 → Good (p - q) → R (x - y) (p - q)
  bits {x : M} {p : N} : R x p → Float64.bits x = Float64.bits p

variable (R : M → N → Prop)

structure Account.Reads (a : Account M) (b : Account N) : Prop where
  accountNumber : a.accountNumber = b.accountNumber
  holderName : a.holderName = b.holderName
  password : a.password = b.password
  currencyType : a.currencyType = b.currencyType
  balance : R a.balance b.balance

structure Store.MemoryStore.Reads (s : MemoryStore M) (t : MemoryStore N) : Prop where
  nextID : s.nextID = t.nextID
  accounts : ∀ k, Option.Rel (Account.Reads R) (s.accounts.get k) (t.accounts.get k)

def Banking.Op.map (f : M → N) : Op M → Op N
  | .openAccount name pw curr balance => .openAccount name pw curr (f balance)
  | .closeAccount name accNo pw => .closeAccount name accNo pw
  | .checkBalance name accNo pw => .checkBalance name accNo pw
  | .deposit name accNo pw curr amount => .deposit name accNo pw curr (f amount)
  | .withdraw name accNo pw curr amount => .withdraw name accNo pw curr (f amount)
  | .transfer fromName fromAccNo pw toAccNo curr amount =>
    .transfer fromName fromAccNo pw toAccNo curr (f amount)

def Banking.Op.amount : Op M → Option M
  | .openAccount _ _ _ balance => some balance
  | .closeAccount _ _ _ => none
  | .checkBalance _ _ _ => none
  | .deposit _ _ _ _ amount => some amount
  | .withdraw _ _ _ _ amount => some amount
  | .transfer _ _ _ _ _ amount => some amount

inductive Banking.Op.Reads : Op M → Op N → Prop
  | openAccount {name : Bytes} {pw : Vector UInt8 8} {curr : UInt8} {x : M} {p : N} (h : R x p) :
      Reads (.openAccount name pw curr x) (.openAccount name pw curr p)
  | closeAccount {name : Bytes} {accNo : UInt32} {pw : Vector UInt8 8} :
      Reads (.closeAccount name accNo pw) (.closeAccount name accNo pw)
  | checkBalance {name : Bytes} {accNo : UInt32} {pw : Vector UInt8 8} :
      Reads (.checkBalance name accNo pw) (.checkBalance name accNo pw)
  | deposit {name : Bytes} {accNo : UInt32} {pw : Vector UInt8 8} {curr : UInt8} {x : M} {p : N}
      (h : R x p) : Reads (.deposit name accNo pw curr x) (.deposit name accNo pw curr p)
  | withdraw {name : Bytes} {accNo : UInt32} {pw : Vector UInt8 8} {curr : UInt8} {x : M} {p : N}
      (h : R x p) : Reads (.withdraw name accNo pw curr x) (.withdraw name accNo pw curr p)
  | transfer {name : Bytes} {accNo : UInt32} {pw : Vector UInt8 8} {toAccNo : UInt32}
      {curr : UInt8} {x : M} {p : N} (h : R x p) :
      Reads (.transfer name accNo pw toAccNo curr x) (.transfer name accNo pw toAccNo curr p)

inductive Banking.Result.Reads : Result M → Result N → Prop
  | opened (accNo : UInt32) : Reads (.opened accNo) (.opened accNo)
  | closed : Reads .closed .closed
  | balance {x : M} {p : N} (h : R x p) : Reads (.balance x) (.balance p)
  | balances {x y : M} {p q : N} (hx : R x p) (hy : R y q) : Reads (.balances x y) (.balances p q)
  | failed (err : BankingError) : Reads (.failed err) (.failed err)

end Relation

namespace Banking
variable {M N : Type} {R : M → N → Prop} {Good : N → Prop}

theorem Op.map_reads {L : Type} {f : L → M} {g : L → N} {op : Op L}
    (h : ∀ a, op.amount = some a → R (f a) (g a)) : Op.Reads R (op.map f) (op.map g) := by
  cases op with
  | openAccount name pw curr balance => exact .openAccount (h _ rfl)
  | closeAccount name accNo pw => exact .closeAccount
  | checkBalance name accNo pw => exact .checkBalance
  | deposit name accNo pw curr amount => exact .deposit (h _ rfl)
  | withdraw name accNo pw curr amount => exact .withdraw (h _ rfl)
  | transfer fromName fromAccNo pw toAccNo curr amount => exact .transfer (h _ rfl)

theorem presented_reads {found : Option (Account M)} {found' : Option (Account N)}
    (h : Option.Rel (Account.Reads R) found found') (name : Bytes) (pw : Vector UInt8 8) :
    (∃ err, presented found name pw = .error err ∧ presented found' name pw = .error err) ∨
      ∃ acc acc', presented found name pw = .ok acc ∧ presented found' name pw = .ok acc' ∧
        Account.Reads R acc acc' ∧ found' = some acc' := by
  cases h with
  | none => exact .inl ⟨_, rfl, rfl⟩
  | @some acc acc' h =>
    have hsame : checkAuth acc name pw = checkAuth acc' name pw := by
      rw [checkAuth, checkAuth, h.password, h.holderName]
    rcases hcheck : checkAuth acc' name pw with err | u
    · exact .inl ⟨err, by simp only [presented, hsame, hcheck], by simp only [presented, hcheck]⟩
    · exact .inr ⟨acc, acc', by simp only [presented, hsame, hcheck],
        by simp only [presented, hcheck], h, rfl⟩

theorem rel_cases {α β : Type} {r : α → β → Prop} {a : Option α} {b : Option β}
    (h : Option.Rel r a b) : a = none ∧ b = none ∨ ∃ x y, a = some x ∧ b = some y ∧ r x y := by
  cases h with
  | none => exact .inl ⟨rfl, rfl⟩
  | some h => exact .inr ⟨_, _, rfl, rfl, h⟩

/-- The balances that a call with this result leaves in accounts that were there before. -/
def written {L : Type} (op : Op L) (res : Result L) : List L :=
  match op, res with
  | .deposit _ _ _ _ _, .balance b => [b]
  | .withdraw _ _ _ _ _, .balance b => [b]
  | .transfer _ _ _ _ _ _, .balances f t => [f, t]
  | _, _ => []

theorem withBalance_reads {found : Option (Account M)} {found' : Option (Account N)}
    (h : Option.Rel (Account.Reads R) found found') {x : M} {p : N} (hx : R x p) :
    Option.Rel (Account.Reads R) (found.map (withBalance x)) (found'.map (withBalance p)) := by
  cases h with
  | none => exact .none
  | some h =>
    exact .some ⟨h.accountNumber, h.holderName, h.password, h.currencyType, hx⟩

theorem settled_reads {op : Op M} {op' : Op N} (hop : Op.Reads R op op') {res : Result M}
    {res' : Result N} (hres : Result.Reads R res res') (k : UInt32) {found : Option (Account M)}
    {found' : Option (Account N)} (h : Option.Rel (Account.Reads R) found found') :
    Option.Rel (Account.Reads R) (settled op res k found) (settled op' res' k found') := by
  cases hop with
  | openAccount hx => cases hres <;> exact h
  | checkBalance => cases hres <;> exact h
  | closeAccount =>
    cases hres with
    | closed =>
      simp only [settled]
      split_ifs
      · exact .none
      · exact h
    | _ => exact h
  | deposit hx =>
    cases hres with
    | balance hb =>
      simp only [settled]
      split_ifs
      · exact withBalance_reads h hb
      · exact h
    | _ => exact h
  | withdraw hx =>
    cases hres with
    | balance hb =>
      simp only [settled]
      split_ifs
      · exact withBalance_reads h hb
      · exact h
    | _ => exact h
  | transfer hx =>
    cases hres with
    | balances hb hc =>
      simp only [settled]
      split_ifs
      · exact withBalance_reads h hc
      · exact withBalance_reads h hb
      · exact h
    | _ => exact h

variable [Money M] [Float64 M] [Money N] [Float64 N]

omit [Float64 N] in
theorem written_good {t : MemoryStore N} {op : Op N}
    (h : Server.Balances Good (perform t op).1.accounts) :
    ∀ b ∈ written op (perform t op).2, Good b := by
  have heff := perform_effect t op
  generalize (perform t op).1 = t' at heff h
  generalize (perform t op).2 = res at heff ⊢
  cases heff with
  | opened => simp [written]
  | closed => simp [written]
  | checked => simp [written]
  | deposited hpos hauth hcurr haccounts hnext =>
    rw [haccounts] at h
    intro b hb
    cases List.mem_singleton.mp hb
    exact h.of_set
  | withdrawn hpos hauth hcurr hfunds haccounts hnext =>
    rw [haccounts] at h
    intro b hb
    cases List.mem_singleton.mp hb
    exact h.of_set
  | @transferred name accNo pw toAccNo curr amount acc toAcc t' hpos hne hauth hto hcurr hsame
      hfunds haccounts hnext =>
    rw [haccounts] at h
    have hsource := h accNo { acc with balance := acc.balance - amount } (by
      rw [FiniteMap.get_set_of_ne _ _ hne, FiniteMap.get_set_self])
    intro b hb
    rcases List.mem_cons.mp hb with rfl | hb
    · exact hsource
    · cases List.mem_singleton.mp hb
      exact h.of_set
  | refused => cases op <;> simp [written]

theorem decision_reads (hR : Reading R Good) {s : MemoryStore M} {t : MemoryStore N}
    (hs : s.Reads R t) {op : Op M} {op' : Op N} (hop : Op.Reads R op op')
    (hgood : ∀ b ∈ written op' (decision t op'), Good b) :
    Result.Reads R (decision s op) (decision t op') := by
  cases hop with
  | openAccount h =>
    rw [decision, decision, hs.nextID]
    exact .opened _
  | @closeAccount name accNo pw =>
    rcases presented_reads (hs.accounts accNo) name pw with
      ⟨err, h, h'⟩ | ⟨acc, acc', h, h', -, -⟩
    · simp only [decision, h, h']
      exact .failed err
    · simp only [decision, h, h']
      exact .closed
  | @checkBalance name accNo pw =>
    rcases presented_reads (hs.accounts accNo) name pw with
      ⟨err, h, h'⟩ | ⟨acc, acc', h, h', hacc, -⟩
    · simp only [decision, h, h']
      exact .failed err
    · simp only [decision, h, h']
      exact .balance hacc.balance
  | @deposit name accNo pw curr x q hx =>
    have hle : x ≤ 0 ↔ q ≤ 0 := hR.le hx hR.zero
    by_cases hpos : q ≤ 0
    · simp only [decision, if_pos hpos, if_pos (hle.mpr hpos)]
      exact .failed _
    simp only [decision, if_neg hpos, if_neg (mt hle.mp hpos)] at hgood ⊢
    rcases presented_reads (hs.accounts accNo) name pw with
      ⟨err, h, h'⟩ | ⟨acc, acc', h, h', hacc, -⟩
    · simp only [h, h']
      exact .failed err
    simp only [h, h', hacc.currencyType] at hgood ⊢
    by_cases hcurr : acc'.currencyType ≠ curr
    · simp only [if_pos hcurr]
      exact .failed _
    · simp only [if_neg hcurr] at hgood ⊢
      exact .balance (hR.add hacc.balance hx hpos (hgood _ (List.mem_singleton_self _)))
  | @withdraw name accNo pw curr x q hx =>
    have hle : x ≤ 0 ↔ q ≤ 0 := hR.le hx hR.zero
    by_cases hpos : q ≤ 0
    · simp only [decision, if_pos hpos, if_pos (hle.mpr hpos)]
      exact .failed _
    simp only [decision, if_neg hpos, if_neg (mt hle.mp hpos)] at hgood ⊢
    rcases presented_reads (hs.accounts accNo) name pw with
      ⟨err, h, h'⟩ | ⟨acc, acc', h, h', hacc, -⟩
    · simp only [h, h']
      exact .failed err
    simp only [h, h', hacc.currencyType] at hgood ⊢
    by_cases hcurr : acc'.currencyType ≠ curr
    · simp only [if_pos hcurr]
      exact .failed _
    simp only [if_neg hcurr] at hgood ⊢
    have hlt : acc.balance < x ↔ acc'.balance < q := hR.lt hacc.balance hx
    by_cases hfunds : acc'.balance < q
    · simp only [if_pos hfunds, if_pos (hlt.mpr hfunds)]
      exact .failed _
    · simp only [if_neg hfunds, if_neg (mt hlt.mp hfunds)] at hgood ⊢
      exact .balance (hR.sub hacc.balance hx hpos (hgood _ (List.mem_singleton_self _)))
  | @transfer name accNo pw toAccNo curr x q hx =>
    have hle : x ≤ 0 ↔ q ≤ 0 := hR.le hx hR.zero
    by_cases hpos : q ≤ 0
    · simp only [decision, if_pos hpos, if_pos (hle.mpr hpos)]
      exact .failed _
    simp only [decision, if_neg hpos, if_neg (mt hle.mp hpos)] at hgood ⊢
    by_cases hsame : accNo = toAccNo
    · simp only [if_pos hsame]
      exact .failed _
    simp only [if_neg hsame] at hgood ⊢
    rcases rel_cases (hs.accounts accNo) with ⟨h, h'⟩ | ⟨acc, acc', h, h', hacc⟩
    · simp only [h, h']
      exact .failed _
    rcases rel_cases (hs.accounts toAccNo) with ⟨hto, hto'⟩ | ⟨toAcc, toAcc', hto, hto', htoAcc⟩
    · simp only [h, h', hto, hto']
      exact .failed _
    have hcheck : checkAuth acc name pw = checkAuth acc' name pw := by
      rw [checkAuth, checkAuth, hacc.password, hacc.holderName]
    simp only [h, h', hto, hto', hcheck, hacc.currencyType, htoAcc.currencyType] at hgood ⊢
    rcases hauth : checkAuth acc' name pw with err | u
    · exact .failed err
    simp only [hauth] at hgood ⊢
    by_cases hcurr : acc'.currencyType ≠ curr ∨ acc'.currencyType ≠ toAcc'.currencyType
    · simp only [if_pos hcurr]
      exact .failed _
    simp only [if_neg hcurr] at hgood ⊢
    have hlt : acc.balance < x ↔ acc'.balance < q := hR.lt hacc.balance hx
    by_cases hfunds : acc'.balance < q
    · simp only [if_pos hfunds, if_pos (hlt.mpr hfunds)]
      exact .failed _
    · simp only [if_neg hfunds, if_neg (mt hlt.mp hfunds)] at hgood ⊢
      exact .balances (hR.sub hacc.balance hx hpos (hgood _ (by simp [written])))
        (hR.add htoAcc.balance hx hpos (hgood _ (by simp [written])))

theorem perform_reads (hR : Reading R Good) {s : MemoryStore M} {t : MemoryStore N}
    (hs : s.Reads R t) {op : Op M} {op' : Op N} (hop : Op.Reads R op op')
    (hgood : Server.Balances Good (perform t op').1.accounts) :
    (perform s op).1.Reads R (perform t op').1 ∧
      Result.Reads R (perform s op).2 (perform t op').2 := by
  have hwritten := written_good hgood
  have hres : Result.Reads R (perform s op).2 (perform t op').2 := by
    rw [perform_decision] at hwritten ⊢
    rw [perform_decision]
    exact decision_reads hR hs hop hwritten
  refine ⟨⟨?_, fun k => ?_⟩, hres⟩
  · rw [perform_nextID, perform_nextID, hs.nextID]
    cases hop <;> rfl
  by_cases hopen : op'.isOpen = true
  · cases hop with
    | @openAccount name pw curr x q hx =>
      simp only [perform, openAccount, createAccount_accounts, FiniteMap.get_set, hs.nextID]
      split_ifs
      · exact .some ⟨rfl, rfl, rfl, rfl, hx⟩
      · exact hs.accounts k
    | _ => cases hopen
  · have hclosed : op'.isOpen = false := eq_false_of_ne_true hopen
    have hclosed' : op.isOpen = false := by cases hop <;> exact hclosed
    rw [perform_settled s hclosed', perform_settled t hclosed]
    exact settled_reads hop hres k (hs.accounts k)

end Banking
end DistributedBanking
