import DistributedBanking.GoRuntime

/-!
# Client addresses

The client's socket is an IPv4 one, so the source address of its datagrams is
four octets and a port; the server's would take IPv6 senders as well, which have
no place here. `UDPAddr.string` is the `ip:port` text under which the reply
history and the monitor file a client; two addresses never share it.
-/

namespace DistributedBanking

structure UDPAddr where
  ip : Vector UInt8 4
  port : UInt16
  deriving DecidableEq

def UDPAddr.loopback (port : UInt16) : UDPAddr := ⟨#v[127, 0, 0, 1], port⟩

def decimal (n : ℕ) : Bytes := (Nat.toDigits 10 n).map fun c => UInt8.ofNat c.toNat

def dot : UInt8 := 46
def colon : UInt8 := 58

theorem toNat_of_mem_toDigits {n : ℕ} {c : Char} (h : c ∈ Nat.toDigits 10 n) :
    48 ≤ c.toNat ∧ c.toNat ≤ 57 := by
  have hdigit := Nat.isDigit_of_mem_toDigits (by omega) (by omega) h
  simp only [Char.isDigit, Bool.and_eq_true, decide_eq_true_eq] at hdigit
  have hlo : (48 : UInt32).toNat ≤ c.val.toNat := UInt32.le_iff_toNat_le.mp hdigit.1
  have hhi : c.val.toNat ≤ (57 : UInt32).toNat := UInt32.le_iff_toNat_le.mp hdigit.2
  exact ⟨hlo, hhi⟩

theorem decimal_digit {n : ℕ} {b : UInt8} (h : b ∈ decimal n) : 48 ≤ b.toNat ∧ b.toNat ≤ 57 := by
  obtain ⟨c, hc, rfl⟩ := List.mem_map.mp h
  have hrange := toNat_of_mem_toDigits hc
  rw [UInt8.toNat_ofNat']
  omega

theorem dot_notMem_decimal (n : ℕ) : dot ∉ decimal n := by
  intro h
  have hrange := decimal_digit h
  simp [dot] at hrange

theorem colon_notMem_decimal (n : ℕ) : colon ∉ decimal n := by
  intro h
  have hrange := decimal_digit h
  simp [colon] at hrange

theorem decimal_injective : Function.Injective decimal := by
  intro m n h
  have hback : ∀ k, (decimal k).map (fun b => Char.ofNat b.toNat) = Nat.toDigits 10 k := by
    intro k
    rw [decimal, List.map_map]
    refine (List.map_congr_left fun c hc => ?_).trans (List.map_id _)
    have hrange := toNat_of_mem_toDigits hc
    have hbyte : (UInt8.ofNat c.toNat).toNat = c.toNat := by
      rw [UInt8.toNat_ofNat']
      omega
    simp only [Function.comp_apply, hbyte, Char.ofNat_toNat, id]
  have hdigits : Nat.toDigits 10 m = Nat.toDigits 10 n := by
    rw [← hback m, ← hback n, h]
  rw [← Nat.ofDigitChars_ten_toDigits (n := m), hdigits, Nat.ofDigitChars_ten_toDigits]

theorem append_cons_inj {α : Type*} {s : α} {x y r t : List α} (hx : s ∉ x) (hy : s ∉ y)
    (h : x ++ s :: r = y ++ s :: t) : x = y ∧ r = t := by
  induction x generalizing y with
  | nil =>
    cases y with
    | nil => simpa using h
    | cons b y =>
      simp only [List.cons_append, List.nil_append, List.cons.injEq] at h
      exact absurd (h.1 ▸ List.mem_cons_self) hy
  | cons a x ih =>
    cases y with
    | nil =>
      simp only [List.cons_append, List.nil_append, List.cons.injEq] at h
      exact absurd (h.1 ▸ List.mem_cons_self) hx
    | cons b y =>
      simp only [List.cons_append, List.cons.injEq] at h
      have htail := ih (List.not_mem_of_not_mem_cons hx) (List.not_mem_of_not_mem_cons hy) h.2
      simp [h.1, htail]

namespace UDPAddr

def string (a : UDPAddr) : Bytes :=
  decimal a.ip[0].toNat ++ dot :: (decimal a.ip[1].toNat ++ dot :: (decimal a.ip[2].toNat ++
    dot :: (decimal a.ip[3].toNat ++ colon :: decimal a.port.toNat)))

theorem string_injective : Function.Injective string := by
  intro a b h
  obtain ⟨h0, h⟩ := append_cons_inj (dot_notMem_decimal _) (dot_notMem_decimal _) h
  obtain ⟨h1, h⟩ := append_cons_inj (dot_notMem_decimal _) (dot_notMem_decimal _) h
  obtain ⟨h2, h⟩ := append_cons_inj (dot_notMem_decimal _) (dot_notMem_decimal _) h
  obtain ⟨h3, h⟩ := append_cons_inj (colon_notMem_decimal _) (colon_notMem_decimal _) h
  have hport : a.port = b.port := UInt16.toNat_inj.mp (decimal_injective h)
  have hip : a.ip = b.ip := by
    ext i hi
    have hcases : i = 0 ∨ i = 1 ∨ i = 2 ∨ i = 3 := by omega
    rcases hcases with rfl | rfl | rfl | rfl
    · exact decimal_injective h0
    · exact decimal_injective h1
    · exact decimal_injective h2
    · exact decimal_injective h3
  cases a
  cases b
  simp_all

example : (loopback 4000).string = "127.0.0.1:4000".toList.map fun c => UInt8.ofNat c.toNat := by
  decide +kernel

end UDPAddr
end DistributedBanking
