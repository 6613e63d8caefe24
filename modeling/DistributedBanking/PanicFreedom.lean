import DistributedBanking.Server
import DistributedBanking.TLVGrammar

/-!
# Datagrams that crash the server

The bounds check of `DecodeTLV` adds a declared length to an offset in an
`int`. With 64 bits the sum is exact. With 32 bits a length from a datagram can
make it negative, the check passes, and the slice after it panics. `runOn` is
the server on either width; the rest of a handler never panics.
-/

namespace DistributedBanking.Marshalling
open ByteOrder

/-- After well-formed fields only, a header announces a value that ends beyond the 32-bit `int`s. -/
def Oversized (payload : Bytes) : Prop :=
  ∃ (fs : List TLVField) (id : UInt8) (v : UInt32) (more : Bytes),
    payload = fs.flatMap fieldBytes ++ id :: (bigEndianPutUint32 v ++ more) ∧
      (∀ f ∈ fs, f.WellFormed) ∧ 2 ^ 31 ≤ (fs.flatMap fieldBytes).length + 5 + v.toNat

theorem goInt_wrap {n : ℕ} (hlo : 2 ^ 31 ≤ n) (hhi : n < 2 ^ 31 + 2 ^ 32) :
    goInt 32 n = (n : ℤ) - 2 ^ 32 := by
  have hshift : ((n : ℤ) - ((2 ^ 32 : ℕ) : ℤ)).bmod (2 ^ 32) = (n : ℤ).bmod (2 ^ 32) :=
    Int.sub_bmod_right _ _
  rw [goInt, ← hshift]
  apply Int.bmod_eq_of_le <;> push_cast <;> omega

variable {M : Type} [Float64 M] {payload : Bytes}

theorem decodeTLV_oversized (hlen : Addressable 32 payload.length) (h : Oversized payload) :
    decodeTLV (M := M) 32 payload = .error .sliceOutOfRange := by
  obtain ⟨fs, id, v, more, rfl, hfs, hwrap⟩ := h
  obtain ⟨fuel, hfuel⟩ := decodeTLV_rest (M := M) hfs hlen
  have hcount := length_header (fs.flatMap fieldBytes) id v more
  have hv := v.toNat_lt
  have hbound : (fs.flatMap fieldBytes ++ id :: (bigEndianPutUint32 v ++ more)).length + 5 <
      2 ^ 31 := hlen
  have hnext := goInt_wrap hwrap (by omega)
  -- The wrapped sum lies before the value it should end, so the check lets it through.
  have hpasses : ¬ (((fs.flatMap fieldBytes).length + 5 + v.toNat : ℕ) : ℤ) - 2 ^ 32 >
      ((fs.flatMap fieldBytes ++ id :: (bigEndianPutUint32 v ++ more)).length : ℤ) := by
    push_cast
    omega
  have hbackwards : ¬ ((((fs.flatMap fieldBytes).length + 5 : ℕ) : ℤ) ≤
      (((fs.flatMap fieldBytes).length + 5 + v.toNat : ℕ) : ℤ) - 2 ^ 32) := by
    push_cast
    omega
  rw [hfuel, decodeLoop_entry hlen (by omega), entryLength_header, hnext, decodeEntry,
    if_neg hpasses, slice, if_neg fun h => hbackwards h.2.1, error_bind]

theorem decodeTLV_width (hlen : Addressable 32 payload.length) (h : ¬ Oversized payload) :
    decodeTLV (M := M) 32 payload = decodeTLV 64 payload := by
  have hwide : Addressable 64 payload.length := by
    rw [Addressable] at hlen ⊢
    omega
  obtain ⟨fs, rest, rfl, hsized, hrest⟩ := exists_fields payload
  by_cases hfs : ∀ f ∈ fs, f.WellFormed
  swap
  · obtain ⟨err, herr⟩ := decodeTLV_refused (M := M) hsized hfs rest
    rw [herr 32 hlen, herr 64 hwide]
  rcases hrest with hshort | ⟨id, v, more, rfl, hover⟩
  · have hparses : Parses _ fs rest := ⟨rfl, hfs, hshort⟩
    rw [decodeTLV_parses hparses hlen, decodeTLV_parses hparses hwide]
  · have hfits : (fs.flatMap fieldBytes).length + 5 + v.toNat < 2 ^ 31 := by
      by_contra hwrap
      exact h ⟨fs, id, v, more, rfl, hfs, not_lt.mp hwrap⟩
    obtain ⟨err, herr⟩ := decodeTLV_overflow (M := M) hfs hover id
    rw [herr 32 hlen hfits, herr 64 hwide (by omega)]

end DistributedBanking.Marshalling

namespace DistributedBanking.Server
open Store Banking Marshalling Monitor Semantics Handler

variable {M : Type} [Money M] [Float64 M]

/-- `receive` with an `int` of the given width. -/
def receiveOn (bits : ℕ) (s : Server M) (d : Datagram) (now : ℕ) :
    Go (Server M × Except DispatchError Bytes) := do
  let (dispatcher, backend, result) ←
    s.dispatcher.dispatch (buildHandler bits now) s.backend d.data d.addr
  return (⟨dispatcher, backend⟩, result)

def stepOn (bits : ℕ) (s : Server M) : Event → Go (Server M)
  | .datagram d now => do return (← receiveOn bits s d now).1
  | .sweep now => return sweep s now

def runOn (bits : ℕ) (s : Server M) (es : List Event) : Go (Server M) := es.foldlM (stepOn bits) s

theorem receiveOn_64 (s : Server M) (d : Datagram) (now : ℕ) :
    receiveOn 64 s d now = receive s d now := rfl

theorem addressable_payload (d : Datagram) :
    Addressable 32 (d.data.drop headerSize).length := by
  have hsmall := d.small
  rw [Addressable, List.length_drop]
  omega

theorem buildHandler_width (now : ℕ) (b : Backend M) (d : Datagram)
    (h : ¬ Oversized (d.data.drop headerSize)) :
    buildHandler 32 now b d.data d.addr = buildHandler 64 now b d.data d.addr := by
  by_cases hshort : d.data.length < headerSize
  · simp only [buildHandler, parseHeader_short hshort, ok_bind]
  · have hheader : headerSize ≤ d.data.length := not_lt.mp hshort
    have hslice : slice d.data headerSize d.data.length = .ok (d.data.drop headerSize) := by
      rw [slice_of_le hheader le_rfl, List.take_of_length_le (by simp)]
    simp only [buildHandler, parseHeader_ok hheader, ok_bind, hslice,
      decodeTLV_width (addressable_payload d) h]

theorem buildHandler_oversized (now : ℕ) (b : Backend M) (d : Datagram)
    (hheader : headerSize ≤ d.data.length) (h : Oversized (d.data.drop headerSize)) :
    buildHandler 32 now b d.data d.addr = .error .sliceOutOfRange := by
  have hslice : slice d.data headerSize d.data.length = .ok (d.data.drop headerSize) := by
    rw [slice_of_le hheader le_rfl, List.take_of_length_le (by simp)]
  rw [buildHandler, parseHeader_ok hheader, ok_bind]
  simp only [hslice, ok_bind, decodeTLV_oversized (addressable_payload d) h, error_bind]

theorem receiveOn_width (s : Server M) (d : Datagram) (now : ℕ)
    (h : ¬ Oversized (d.data.drop headerSize)) : receiveOn 32 s d now = receive s d now := by
  simp only [receiveOn, receive, Dispatcher.dispatch, buildHandler_width now s.backend d h]

theorem receiveOn_of_not_executes {s : Server M} (hrun : Running s.dispatcher) {d : Datagram}
    (h : ¬ Executes s d) (bits now : ℕ) : receiveOn bits s d now = receive s d now := by
  by_cases hshort : d.data.length < headerSize
  · simp only [receiveOn, receive, Dispatcher.dispatch, parseHeader_short hshort, ok_bind]
  have hlen : headerSize ≤ d.data.length := not_lt.mp hshort
  simp only [receiveOn, receive, Dispatcher.dispatch, parseHeader_ok hlen, ok_bind]
  by_cases hflag : (headerOf d.data).flag = s.dispatcher.mode.toUint8
  swap
  · rw [if_pos hflag, if_pos hflag]
  have haccept : Accepts s.dispatcher.mode d := ⟨hlen, hflag⟩
  have hmode : s.dispatcher.mode ≠ .atLeastOnce := fun hmode => h ⟨haccept, .inl hmode⟩
  obtain ⟨history, hhistory⟩ :=
    Option.isSome_iff_exists.mp (s.dispatcher.wf (hrun.resolve_left hmode))
  rcases hlookup : history.lookup d.addr.string (headerOf d.data).requestID with _ | reply
  · exact absurd ⟨haccept, .inr (by simp only [cachedReply, hhistory, hlookup])⟩ h
  · simp only [hflag, ne_eq, not_true_eq_false, if_false, hmode, hhistory, deref_some, ok_bind,
      hlookup]

theorem receiveOn_panics {s : Server M} (hrun : Running s.dispatcher) {d : Datagram}
    (hexec : Executes s d) (h : Oversized (d.data.drop headerSize)) (now : ℕ) :
    receiveOn 32 s d now = .error .sliceOutOfRange := by
  have hhandler := buildHandler_oversized now s.backend d hexec.1.1 h
  simp only [receiveOn, Dispatcher.dispatch, parseHeader_ok hexec.1.1, ok_bind]
  rw [if_neg (not_not.mpr hexec.1.2)]
  by_cases hmode : s.dispatcher.mode = .atLeastOnce
  · rw [if_pos hmode, hhandler]
    rfl
  have hfresh := hexec.2.resolve_left hmode
  obtain ⟨history, hhistory⟩ :=
    Option.isSome_iff_exists.mp (s.dispatcher.wf (hrun.resolve_left hmode))
  simp only [cachedReply, hhistory] at hfresh
  rw [if_neg hmode]
  simp only [hhistory, deref_some, ok_bind, hfresh, hhandler]
  rfl

theorem receiveOn_ok {bits : ℕ} (hbits : bits = 32 ∨ bits = 64) {s : Server M}
    (hrun : Running s.dispatcher) {d : Datagram} {now : ℕ}
    (h : bits = 32 → Executes s d → ¬ Oversized (d.data.drop headerSize)) :
    receiveOn bits s d now = receive s d now := by
  rcases hbits with rfl | rfl
  swap
  · exact receiveOn_64 s d now
  by_cases hexec : Executes s d
  · exact receiveOn_width s d now (h rfl hexec)
  · exact receiveOn_of_not_executes hrun hexec 32 now

theorem receiveOn_ok_iff {bits : ℕ} (hbits : bits = 32 ∨ bits = 64) {s : Server M}
    (hrun : Running s.dispatcher) (d : Datagram) (now : ℕ) :
    (∃ out, receiveOn bits s d now = .ok out) ↔
      (bits = 32 → Executes s d → ¬ Oversized (d.data.drop headerSize)) := by
  constructor
  · intro hok hwidth hexec hover
    subst hwidth
    obtain ⟨out, hout⟩ := hok
    rw [receiveOn_panics hrun hexec hover] at hout
    cases hout
  · intro h
    obtain ⟨out, hout, -⟩ := receive_dispatched hrun d now
    exact ⟨out, (receiveOn_ok hbits hrun h).trans hout⟩

theorem mode_stepOn {bits : ℕ} (hbits : bits = 32 ∨ bits = 64) {s s' : Server M}
    (hrun : Running s.dispatcher) {e : Event} (h : stepOn bits s e = .ok s') :
    s'.dispatcher.mode = s.dispatcher.mode := by
  cases e with
  | sweep now =>
    cases h
    rfl
  | datagram d now =>
    rcases hreceive : receiveOn bits s d now with p | out
    · rw [stepOn, hreceive] at h
      cases h
    · rw [stepOn, hreceive] at h
      cases h
      have hsafe := (receiveOn_ok_iff hbits hrun d now).mp ⟨out, hreceive⟩
      obtain ⟨out', hout', hdisp⟩ := receive_dispatched hrun d now
      rw [receiveOn_ok hbits hrun hsafe, hout'] at hreceive
      cases hreceive
      exact hdisp.mode

theorem running_runOn {bits : ℕ} (hbits : bits = 32 ∨ bits = 64) {mode : Mode}
    (hmode : mode = .atLeastOnce ∨ mode = .atMostOnce) {es : List Event} {s : Server M}
    (h : runOn bits (newServer mode) es = .ok s) : Running s.dispatcher := by
  have hkept : s.dispatcher.mode = mode := by
    refine Runs.run_induction (P := fun _ t => t.dispatcher.mode = mode) rfl ?_ h
    intro _ t e t' _ ht hstep
    have hrun : Running t.dispatcher := by
      rw [Running, ht]
      exact hmode
    exact (mode_stepOn hbits hrun hstep).trans ht
  rw [Running, hkept]
  exact hmode

/-- A run goes through exactly when, on a 32-bit `int`, no datagram that reaches the handler is
oversized. -/
theorem runOn_ok_iff {bits : ℕ} (hbits : bits = 32 ∨ bits = 64) {mode : Mode}
    (hmode : mode = .atLeastOnce ∨ mode = .atMostOnce) (es : List Event) :
    (∃ s : Server M, runOn bits (newServer mode) es = .ok s) ↔
      ∀ es₁ d now es₂ (s : Server M), es = es₁ ++ .datagram d now :: es₂ →
        runOn bits (newServer mode) es₁ = .ok s → bits = 32 → Executes s d →
          ¬ Oversized (d.data.drop headerSize) := by
  refine Runs.exists_foldlM_iff.trans ⟨fun h => ?_, fun h => ?_⟩
  · intro es₁ d now es₂ s hes hs
    obtain ⟨s', hstep⟩ := h es₁ _ es₂ s hes hs
    apply (receiveOn_ok_iff hbits (running_runOn hbits hmode hs) d now).mp
    rcases hreceive : receiveOn bits s d now with p | out
    · rw [stepOn, hreceive] at hstep
      cases hstep
    · exact ⟨out, rfl⟩
  · intro es₁ e es₂ s hes hs
    cases e with
    | sweep now => exact ⟨_, rfl⟩
    | datagram d now =>
      obtain ⟨out, hout⟩ := (receiveOn_ok_iff hbits (running_runOn hbits hmode hs) d now).mpr
        (h es₁ d now es₂ s hes hs)
      exact ⟨out.1, by rw [stepOn, hout]; rfl⟩

def minusOneLength : Datagram where
  data := [0, 1, 0, 0, 0, 7, 0, 0, 0, 0, 0, 0, 0, 0, 0, 0, 0, 5, 1, 255, 255, 255, 255]
  addr := .loopback 4000
  small := by decide

theorem minusOneLength_ok_iff :
    (∃ s : Server Binary64, runOn 32 (newServer .atLeastOnce) [.datagram minusOneLength 0] =
        .ok s) ↔
      ∀ es₁ d now es₂ (s : Server Binary64),
        [Event.datagram minusOneLength 0] = es₁ ++ .datagram d now :: es₂ →
        runOn 32 (newServer .atLeastOnce) es₁ = .ok s → 32 = 32 → Executes s d →
          ¬ Oversized (d.data.drop headerSize) :=
  runOn_ok_iff (.inl rfl) (.inl rfl) _

theorem minusOneLength_panics :
    minusOneLength.data.length ≤ 4096 ∧
      receiveOn 32 (newServer (M := Binary64) .atLeastOnce) minusOneLength 0 =
        .error .sliceOutOfRange := by
  refine ⟨by decide, receiveOn_panics (.inl rfl) (by decide) ?_ 0⟩
  exact ⟨[], 1, 0xFFFFFFFF, [], by decide, by simp, by decide⟩

end DistributedBanking.Server
