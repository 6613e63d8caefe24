import DistributedBanking.Marshalling
import DistributedBanking.FiniteMap

/-!
# The monitor

Subscribers by their address text, with an expiry in nanoseconds. `conn` keeps,
for each `NotifyAll` that reached its loop, the packets written to the socket;
the loop ranges over a Go map, so one call sends a multiset.
-/

namespace DistributedBanking.Monitor
open Marshalling

structure Subscriber where
  addr : UDPAddr
  expiresAt : ℕ
  deriving DecidableEq

structure Manager where
  subscribers : FiniteMap Bytes Subscriber
  conn : List (Multiset (UDPAddr × Bytes))
  deriving DecidableEq

def newManager : Manager := ⟨∅, []⟩

/-- `time.Second` in nanoseconds; 2^32 seconds still fit in a `time.Duration`. -/
def second : ℕ := 1000000000

def Manager.register (m : Manager) (now : ℕ) (clientAddr : UDPAddr) (interval : ℕ) : Manager :=
  { m with subscribers := m.subscribers.set clientAddr.string ⟨clientAddr, now + interval⟩ }

def expired (now : ℕ) (sub : Subscriber) : Bool := sub.expiresAt < now

def Manager.notifyAll {M : Type} [Float64 M] (m : Manager) (now : ℕ) (update : AccountUpdate M) :
    Manager :=
  if m.subscribers.entries.card = 0 then m
  else
    let payload := marshalCallbackUpdate update
    let live := m.subscribers.filter fun _ sub => !expired now sub
    ⟨live, m.conn ++ [live.entries.map fun e => (e.2.addr, payload)]⟩

def Manager.evictExpired (m : Manager) (now : ℕ) : Manager :=
  { m with subscribers := m.subscribers.filter fun _ sub => !expired now sub }

end DistributedBanking.Monitor
