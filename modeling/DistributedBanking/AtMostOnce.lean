import DistributedBanking.Dedup
import DistributedBanking.Server

/-!
# At-most-once mode suppresses duplicates

The reply history of the dispatcher is the cache of a deduplicating machine
whose keys are the pairs of address text and request id. `dispatch_refines` is
the simulation, for any handler; the facts about whole runs come from the
machine.
-/

namespace DistributedBanking.Server
open Store Banking Marshalling Monitor Semantics Handler

variable {M : Type}

/-- What an at-most-once dispatcher files a request under; none for a packet it turns away. -/
def requestKey (d : Datagram) : Option (Bytes × UInt32) :=
  if Accepts .atMostOnce d then some (d.addr.string, (headerOf d.data).requestID) else none

/-- Among the accepted datagrams, the first one for each address and request id. -/
def firstRequests (xs : List Arrival) : List Arrival :=
  Dedup.firsts (fun x => requestKey x.1) (fun _ => false) xs

theorem requestKey_of_accepts {d : Datagram} (h : Accepts .atMostOnce d) :
    requestKey d = some (d.addr.string, (headerOf d.data).requestID) := if_pos h

theorem requestKey_of_not_accepts {d : Datagram} (h : ¬ Accepts .atMostOnce d) :
    requestKey d = none := if_neg h

def cacheOf (h : Option ReplyHistory) (k : Bytes × UInt32) : Option Bytes :=
  match h with
  | none => none
  | some h => h.lookup k.1 k.2

theorem cacheOf_new : cacheOf (Dispatcher.newDispatcher .atMostOnce).history = fun _ => none := by
  funext k
  exact ReplyHistory.lookup_newReplyHistory k.1 k.2

theorem cacheOf_store (h : ReplyHistory) (c : Bytes) (id : UInt32) (reply : Bytes) :
    cacheOf (some (h.store c id reply)) =
      Function.update (cacheOf (some h)) (c, id) (some reply) := by
  funext k
  by_cases hk : k = (c, id)
  · subst hk
    simp [cacheOf, ReplyHistory.lookup_store]
  · have hne : ¬ (k.1 = c ∧ k.2 = id) := fun h => hk (Prod.ext h.1 h.2)
    simp [cacheOf, ReplyHistory.lookup_store, hk, hne]

section Machine
variable {σ α : Type}

def machine (exec : σ → α → σ × Bytes) (datagram : α → Datagram) :
    Dedup.Machine σ α (Bytes × UInt32) Bytes where
  exec := exec
  key x := requestKey (datagram x)

theorem dispatch_refines (exec : σ → α → σ × Bytes) (datagram : α → Datagram)
    {handler : RequestHandler σ} {d : Dispatcher} (hmode : d.mode = .atMostOnce) {s : σ} {x : α}
    (hhandler : handler s (datagram x).data (datagram x).addr = .ok (exec s x)) :
    ∃ d' s' res,
      d.dispatch handler s (datagram x).data (datagram x).addr = .ok (d', s', res) ∧
      d'.mode = .atMostOnce ∧
      ⟨s', cacheOf d'.history⟩ =
        ((machine exec datagram).step ⟨s, cacheOf d.history⟩ x).1 ∧
      res.toOption = ((machine exec datagram).step ⟨s, cacheOf d.history⟩ x).2 := by
  obtain ⟨d', s', res, hdispatch, hanswered⟩ := dispatch_answered (.inr hmode) hhandler
  refine ⟨d', s', res, hdispatch, ?_⟩
  cases hanswered with
  | rejected haccept =>
    rw [hmode] at haccept
    rw [(machine exec datagram).step_of_no_key (requestKey_of_not_accepts haccept)]
    exact ⟨hmode, rfl, rfl⟩
  | executed haccept hleast =>
    rw [hmode] at hleast
    cases hleast
  | recorded haccept _ hhistory hfresh =>
    rw [hmode] at haccept
    have hcache :
        cacheOf d.history ((datagram x).addr.string, (headerOf (datagram x).data).requestID) =
          none := by
      rw [hhistory]
      exact hfresh
    rw [(machine exec datagram).step_of_fresh (requestKey_of_accepts haccept) hcache]
    refine ⟨hmode, ?_, rfl⟩
    simp only [Dispatcher.setHistory, cacheOf_store, hhistory]
    rfl
  | @replayed history reply haccept _ hhistory hcached =>
    rw [hmode] at haccept
    have hcache :
        cacheOf d.history ((datagram x).addr.string, (headerOf (datagram x).data).requestID) =
          some reply := by
      rw [hhistory]
      exact hcached
    rw [(machine exec datagram).step_of_cached (requestKey_of_accepts haccept) hcache]
    exact ⟨hmode, rfl, rfl⟩

end Machine

section Refinement
variable [Money M] [Float64 M]

def bankMachine : Dedup.Machine (Backend M) Arrival (Bytes × UInt32) Bytes :=
  machine (fun b x => respond x.2 b x.1.data x.1.addr) Prod.fst

omit [Money M] [Float64 M] in
def view (s : Server M) : Dedup.State (Backend M) (Bytes × UInt32) Bytes :=
  ⟨s.backend, cacheOf s.dispatcher.history⟩

theorem receive_refines {s : Server M} (hmode : s.dispatcher.mode = .atMostOnce) (x : Arrival) :
    ∃ s' res, receive s x.1 x.2 = .ok (s', res) ∧ s'.dispatcher.mode = .atMostOnce ∧
      view s' = (bankMachine.step (view s) x).1 ∧
      res.toOption = (bankMachine.step (view s) x).2 := by
  have hhandler := buildHandler_eq (M := M) x.2 x.1.addr s.backend x.1.bounded
  obtain ⟨d', b', res, hdispatch, hmode', hview, hres⟩ :=
    dispatch_refines (fun b y => respond y.2 b y.1.data y.1.addr) Prod.fst
      (x := x) hmode hhandler
  refine ⟨⟨d', b'⟩, res, ?_, hmode', hview, hres⟩
  rw [receive, hdispatch]
  rfl

def receiveAll (s : Server M) : List Arrival → Go (Server M × List (Except DispatchError Bytes))
  | [] => return (s, [])
  | x :: xs => do
    let (s, result) ← receive s x.1 x.2
    let (s, results) ← receiveAll s xs
    return (s, result :: results)

theorem receiveAll_refines {s : Server M} (hmode : s.dispatcher.mode = .atMostOnce)
    (xs : List Arrival) :
    ∃ s' results, receiveAll s xs = .ok (s', results) ∧
      view s' = bankMachine.run (view s) xs ∧
      results.map Except.toOption = bankMachine.replies (view s) xs := by
  induction xs generalizing s with
  | nil => exact ⟨s, [], rfl, rfl, rfl⟩
  | cons x xs ih =>
    obtain ⟨t, result, hreceive, ht, hview, hresult⟩ := receive_refines hmode x
    obtain ⟨s', results, hall, hrun, hreplies⟩ := ih ht
    refine ⟨s', result :: results, ?_, ?_, ?_⟩
    · rw [receiveAll, hreceive, ok_bind]
      simp only [hall, ok_bind]
      rfl
    · rw [hrun, hview]
      rfl
    · rw [List.map_cons, hreplies, hresult, hview]
      rfl

theorem getElem?_ok_of_toOption {results : List (Except DispatchError Bytes)} {i : ℕ} {r : Bytes}
    (h : (results.map Except.toOption)[i]? = some (some r)) : results[i]? = some (.ok r) := by
  rw [List.getElem?_map] at h
  rcases hi : results[i]? with _ | ⟨e | reply⟩
  · simp [hi] at h
  · simp [hi, Except.toOption] at h
  · simp [hi, Except.toOption] at h
    rw [h]

theorem atMostOnce_equivalence (b : Backend M) (xs : List Arrival) :
    ∃ s results t results',
      receiveAll ⟨Dispatcher.newDispatcher .atMostOnce, b⟩ xs = .ok (s, results) ∧
      receiveAll ⟨Dispatcher.newDispatcher .atMostOnce, b⟩ (firstRequests xs) = .ok (t, results') ∧
      s.backend.store = t.backend.store ∧
      s.backend.mon.subscribers = t.backend.mon.subscribers ∧
      s.backend.mon.conn = t.backend.mon.conn ∧
      results.length = xs.length ∧
      ∀ i j k, i ≤ j → ∀ hi : i < xs.length, ∀ hj : j < xs.length,
        requestKey xs[i].1 = some k → requestKey xs[j].1 = some k →
        ∃ reply, results[i]? = some (.ok reply) ∧ results[j]? = some (.ok reply) := by
  have hmode : (Server.mk (Dispatcher.newDispatcher .atMostOnce) b).dispatcher.mode =
      .atMostOnce := rfl
  obtain ⟨s, results, hall, hrun, hreplies⟩ := receiveAll_refines hmode xs
  obtain ⟨t, results', hfirst, hrun', -⟩ := receiveAll_refines hmode (firstRequests xs)
  have hseen : (fun k => ((view (Server.mk (Dispatcher.newDispatcher .atMostOnce) b)).cache
      k).isSome) = fun _ => false := by
    simp only [view, cacheOf_new, Option.isSome_none]
  have hsame : view s = view t := by
    rw [hrun, hrun', firstRequests, ← hseen]
    exact (bankMachine.run_firsts _ xs).symm
  have hbackend : s.backend = t.backend := congrArg Dedup.State.inner hsame
  have hlength := congrArg List.length hreplies
  rw [List.length_map, bankMachine.length_replies] at hlength
  refine ⟨s, results, t, results', hall, hfirst, by rw [hbackend], by rw [hbackend],
    by rw [hbackend], hlength, ?_⟩
  intro i j k hij hi hj hki hkj
  obtain ⟨reply, hri, hrj⟩ := bankMachine.replies_same_key
    (view (Server.mk (Dispatcher.newDispatcher .atMostOnce) b)) hij hj hki hkj
  rw [← hreplies] at hri hrj
  exact ⟨reply, getElem?_ok_of_toOption hri, getElem?_ok_of_toOption hrj⟩

end Refinement
end DistributedBanking.Server
