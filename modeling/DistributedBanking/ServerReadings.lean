import DistributedBanking.HandlerReadings
import DistributedBanking.ServerLoop

/-!
# Two readings of a server

The dispatcher looks at the header and at its history, never at the state that
the handler works on. Two servers with the same dispatcher, over backends that
stand for each other, therefore take every datagram in the same way.
-/

namespace DistributedBanking.Server
open Runs Store Banking Marshalling Monitor Semantics Handler

section Dispatch
variable {M : Type} {s : Server M}

theorem dispatch_idle (hrun : Running s.dispatcher) {x : Datagram} (hidle : ¬ Executes s x) :
    ∃ d' res, ∀ {σ : Type} (handler : RequestHandler σ) (state : σ),
      s.dispatcher.dispatch handler state x.data x.addr = .ok (d', state, res) := by
  by_cases hshort : x.data.length < headerSize
  · refine ⟨s.dispatcher, .error (.header .errPacketTooShort), fun handler state => ?_⟩
    rw [Dispatcher.dispatch, parseHeader_short hshort]
    rfl
  have hlen : headerSize ≤ x.data.length := not_lt.mp hshort
  by_cases hflag : (headerOf x.data).flag = s.dispatcher.mode.toUint8
  swap
  · refine ⟨s.dispatcher, .error (.flagMismatch (headerOf x.data).flag s.dispatcher.mode),
      fun handler state => ?_⟩
    rw [Dispatcher.dispatch, parseHeader_ok hlen, ok_bind]
    simp only [hflag, ne_eq, not_false_eq_true, if_true]
    rfl
  have haccept : Accepts s.dispatcher.mode x := ⟨hlen, hflag⟩
  have hmode : s.dispatcher.mode ≠ .atLeastOnce := fun hmode => hidle ⟨haccept, .inl hmode⟩
  have hatMostOnce : s.dispatcher.mode = .atMostOnce := hrun.resolve_left hmode
  obtain ⟨history, hhistory⟩ := Option.isSome_iff_exists.mp (s.dispatcher.wf hatMostOnce)
  rcases hlookup : history.lookup x.addr.string (headerOf x.data).requestID with _ | reply
  · exact absurd ⟨haccept, .inr (by simp only [cachedReply, hhistory, hlookup])⟩ hidle
  · refine ⟨s.dispatcher, .ok reply, fun handler state => ?_⟩
    rw [Dispatcher.dispatch, parseHeader_ok hlen, ok_bind]
    simp only [hflag, ne_eq, not_true_eq_false, if_false, hmode, hhistory, deref_some, ok_bind,
      hlookup]
    rfl

theorem dispatch_executes (hrun : Running s.dispatcher) {x : Datagram} (hexec : Executes s x) :
    ∃ next : Bytes → Dispatcher, ∀ {σ : Type} {handler : RequestHandler σ} {state : σ}
      {out : σ × Bytes}, handler state x.data x.addr = .ok out →
        s.dispatcher.dispatch handler state x.data x.addr =
          .ok (next out.2, out.1, .ok out.2) := by
  obtain ⟨⟨hlen, hflag⟩, hfresh⟩ := hexec
  by_cases hmode : s.dispatcher.mode = .atLeastOnce
  · refine ⟨fun _ => s.dispatcher, fun {_ _ _ _} hhandler => ?_⟩
    rw [Dispatcher.dispatch, parseHeader_ok hlen, ok_bind]
    simp only [hflag, ne_eq, not_true_eq_false, if_false, hmode, if_true, hhandler, ok_bind]
    rfl
  have hcached := hfresh.resolve_left hmode
  have hatMostOnce : s.dispatcher.mode = .atMostOnce := hrun.resolve_left hmode
  obtain ⟨history, hhistory⟩ := Option.isSome_iff_exists.mp (s.dispatcher.wf hatMostOnce)
  have hlookup : history.lookup x.addr.string (headerOf x.data).requestID = none := by
    simpa only [cachedReply, hhistory] using hcached
  refine ⟨fun reply => s.dispatcher.setHistory
    (history.store x.addr.string (headerOf x.data).requestID reply),
    fun {_ _ _ _} hhandler => ?_⟩
  rw [Dispatcher.dispatch, parseHeader_ok hlen, ok_bind]
  simp only [hflag, ne_eq, not_true_eq_false, if_false, hmode, hhistory, deref_some, ok_bind,
    hlookup, hhandler]
  rfl

end Dispatch

section Lockstep
variable {M N : Type} [Money M] [Float64 M] [Money N] [Float64 N] {R : M → N → Prop}
  {Good : N → Prop}

structure Reads (R : M → N → Prop) (s : Server M) (t : Server N) : Prop where
  dispatcher : s.dispatcher = t.dispatcher
  backend : s.backend.Reads R t.backend

theorem receive_reads (hR : Reading R Good) {s : Server M} {t : Server N} (h : Reads R s t)
    (hrun : Running t.dispatcher) (d : Datagram) (now : ℕ)
    (hamount : Executes t d → AmountReads R d.data)
    (hgood : ∀ out, receive t d now = .ok out → Balances Good out.1.backend.store.accounts) :
    ∃ s' t' res, receive s d now = .ok (s', res) ∧ receive t d now = .ok (t', res) ∧
      Reads R s' t' := by
  have hs := buildHandler_eq (M := M) now d.addr s.backend d.bounded
  have ht := buildHandler_eq (M := N) now d.addr t.backend d.bounded
  by_cases hexec : Executes t d
  · obtain ⟨next, hdispatch⟩ := dispatch_executes hrun hexec
    have hreceive : receive t d now =
        .ok (⟨next (respond now t.backend d.data d.addr).2,
          (respond now t.backend d.data d.addr).1⟩,
          .ok (respond now t.backend d.data d.addr).2) := by
      rw [receive, hdispatch ht]
      rfl
    obtain ⟨hbackend, hreply⟩ :=
      respond_reads hR h.backend now d.addr d.bounded (hamount hexec) (hgood _ hreceive)
    refine ⟨⟨next (respond now t.backend d.data d.addr).2,
      (respond now s.backend d.data d.addr).1⟩, _, _, ?_, hreceive, ⟨rfl, hbackend⟩⟩
    rw [receive, h.dispatcher, hdispatch hs, hreply]
    rfl
  · obtain ⟨d', res, hdispatch⟩ := dispatch_idle hrun hexec
    refine ⟨⟨d', s.backend⟩, ⟨d', t.backend⟩, res, ?_, ?_, ⟨rfl, h.backend⟩⟩
    · rw [receive, h.dispatcher, hdispatch]
      rfl
    · rw [receive, hdispatch]
      rfl

omit [Money M] [Float64 M] [Money N] [Float64 N] in
theorem sweep_reads {s : Server M} {t : Server N} (h : Reads R s t) (now : ℕ) :
    Reads R (sweep s now) (sweep t now) :=
  ⟨h.dispatcher, h.backend.store, congrArg (Manager.evictExpired · now) h.backend.mon⟩

theorem answering_reads (hR : Reading R Good) {s : Server M} {t : Server N} (h : Reads R s t)
    (hrun : Running t.dispatcher) (i : Input)
    (hamount : ∀ d now writes, i = .datagram d now writes → Executes t (received d) →
      AmountReads R (received d).data)
    (hgood : ∀ out, answering t i = .ok out → Balances Good out.1.backend.store.accounts) :
    ∃ s' t' answer, answering s i = .ok (s', answer) ∧ answering t i = .ok (t', answer) ∧
      Reads R s' t' := by
  cases i with
  | readFails => exact ⟨s, t, none, rfl, rfl, h⟩
  | sweep now => exact ⟨sweep s now, sweep t now, none, rfl, rfl, sweep_reads h now⟩
  | datagram d now writes =>
    have hgoodReceive : ∀ out, receive t (received d) now = .ok out →
        Balances Good out.1.backend.store.accounts := by
      intro out hout
      refine hgood (out.1, out.2.toOption.map fun reply => ⟨d.addr, reply, writes⟩) ?_
      rw [answering, hout]
      rfl
    obtain ⟨s', t', res, hs, ht, hreads⟩ :=
      receive_reads hR h hrun (received d) now (hamount d now writes rfl) hgoodReceive
    refine ⟨s', t', res.toOption.map fun reply => ⟨d.addr, reply, writes⟩, ?_, ?_, hreads⟩
    · rw [answering, hs]
      rfl
    · rw [answering, ht]
      rfl

omit [Money M] [Float64 M] [Money N] [Float64 N] in
theorem newServer_reads (mode : Mode) :
    Reads R (newServer (M := M) mode) (newServer (M := N) mode) :=
  ⟨rfl, ⟨rfl, fun k => by simp [newServer, newMemoryStore]⟩, rfl⟩

end Lockstep
end DistributedBanking.Server
