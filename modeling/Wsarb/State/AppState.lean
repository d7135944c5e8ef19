import Mathlib.Logic.Function.Basic
import Wsarb.Library.KeyedMap
import Wsarb.Library.Mailbox
import Wsarb.State.Arbitration

/-!
Owns the shared state and its registry: clients and sources, registering a client,
subscribing, pinning, unsubscribing and cleaning up. `subscribe` and `detach` are
written as the pieces the source runs them in (the critical section on the entry, then
the broadcast, then the removal), so that one definition serves the atomic model and
the interleaved one.

`heap` is what the `Arc<Client>` handles point at; `clients` is the registry itself.

Does not own: frames, snapshots and the loss of a source.
-/

namespace Wsarb

open Wsarb.Library

/-- A `{"method":..,"subscription":..}` frame for the upstream. -/
inductive SubRequest
  | subscribe (subscription : SubKey)
  | unsubscribe (subscription : SubKey)
  deriving DecidableEq, Repr

namespace SubRequest

def key : SubRequest → SubKey
  | subscribe key | unsubscribe key => key

end SubRequest

/-- Upper edges, exclusive, in microseconds, of the delay histogram buckets. -/
def bucketEdgesUs : List Nat :=
  [500, 1000, 2000, 5000, 10000, 20000, 50000, 100000, 200000, 500000]

/-- The counters of an upstream connection that arbitration moves. -/
structure SourceStats where
  wins : Nat := 0
  duplicates : Nat := 0
  stale : Nat := 0
  delaySumUs : Nat := 0
  delayCount : Nat := 0
  hist : List Nat := List.replicate (bucketEdgesUs.length + 1) 0

/-- Count one late copy, `delay` nanoseconds behind the first. The sum wraps as its counter does. -/
def SourceStats.recordDelay (stats : SourceStats) (delay : Nat) : SourceStats :=
  let us := delay / 1000
  let bucket := (bucketEdgesUs.findIdx? fun edge => us < edge).getD bucketEdgesUs.length
  { stats with
    duplicates := stats.duplicates + 1
    delaySumUs := (stats.delaySumUs + us) % UInt64.size
    delayCount := stats.delayCount + 1
    hist := stats.hist.modify bucket (· + 1) }

/-- An upstream data connection. `ctrlTx` is every control frame sent to its task. -/
structure Source where
  id : Nat
  stats : SourceStats := {}
  ctrlTx : List SubRequest := []

structure Client (β : Type) where
  ip : String
  /-- Outbound queue drained by the client's writer task. -/
  tx : Mailbox β
  subscriptions : List SubKey
  dropped : Nat
  /-- Raised when the client must be disconnected rather than served a hole. -/
  kill : Bool

/-- How many pending messages are buffered per client. -/
def clientQueue : Nat := 65536

namespace Client

variable {β : Type}

def new (ip : String) : Client β where
  ip := ip
  tx := Mailbox.new clientQueue
  subscriptions := []
  dropped := 0
  kill := false

/-- Queue a frame, hanging up if the queue has overflowed. -/
def sendOrHangUp (client : Client β) (msg : β) : Client β × Bool :=
  if 0 < client.tx.room then ({ client with tx := client.tx.push msg }, true)
  else ({ client with dropped := client.dropped + 1, kill := true }, false)

/-- Queue a frame of a self-contained channel, counting it if it does not fit. -/
def sendOrDrop (client : Client β) (msg : β) : Client β :=
  if 0 < client.tx.room then { client with tx := client.tx.push msg }
  else { client with dropped := client.dropped + 1 }

/-- One turn of the fan-out loop. -/
def forward (client : Client β) (incremental : Bool) (msg : β) : Client β :=
  if incremental then (client.sendOrHangUp msg).1 else client.sendOrDrop msg

end Client

inductive SubscribeOutcome
  | fresh
  | joined
  | duplicate
  deriving DecidableEq, Repr

/-- The state every task shares. -/
structure AppState (β : Type) where
  sources : List Source
  subs : KeyedMap SubKey (SubEntry β)
  clients : List Nat
  nextClientId : Nat
  heap : Nat → Client β

namespace AppState

variable {β : Type}

def new (sources : List Source) : AppState β where
  sources := sources
  subs := ∅
  clients := []
  nextClientId := 1
  heap := fun _ => Client.new ""

/-! ### Access -/

def getEntry (st : AppState β) (key : SubKey) : Option (SubEntry β) := st.subs.lookup key

/-- `entry(key).or_default()`. -/
def entryOr (st : AppState β) (now : Nat) (key : SubKey) : SubEntry β :=
  (st.getEntry key).getD (SubEntry.new now)

/-- Write an entry back under its guard. -/
def setEntry (st : AppState β) (key : SubKey) (e : SubEntry β) : AppState β :=
  { st with subs := st.subs.insert key e }

def modifyClient (st : AppState β) (client : Nat) (f : Client β → Client β) : AppState β :=
  { st with heap := Function.update st.heap client (f (st.heap client)) }

def modifySource (st : AppState β) (id : Nat) (f : Source → Source) : AppState β :=
  { st with sources := st.sources.map fun src => if src.id = id then f src else src }

/-- Everything ever queued to a client. -/
def log (st : AppState β) (client : Nat) : List β := (st.heap client).tx.accepted

def subscriptions (st : AppState β) (client : Nat) : List SubKey :=
  (st.heap client).subscriptions

/-! ### Clients -/

/-- Register a new client; its id is the handle returned. -/
def registerClient (st : AppState β) (ip : String) : AppState β × Nat :=
  let id := st.nextClientId
  ({ st with
      heap := Function.update st.heap id (Client.new ip)
      clients := id :: st.clients
      nextClientId := id + 1 }, id)

/-! ### Subscribing -/

def insertSubscription (st : AppState β) (client : Nat) (key : SubKey) : AppState β :=
  st.modifyClient client fun c => { c with subscriptions := key :: c.subscriptions }

def removeSubscription (st : AppState β) (client : Nat) (key : SubKey) : AppState β :=
  st.modifyClient client fun c =>
    { c with subscriptions := c.subscriptions.filter (· ≠ key) }

/-- Attach or park a client on an entry; says whether the key must be subscribed
upstream. -/
def attach (e : SubEntry β) (key : SubKey) (client : Nat) : SubEntry β × Bool :=
  let needUpstream := !e.upstreamSubscribed
  let e :=
    if !needUpstream && key.isIncremental then
      if e.isRebuilding client then e
      else { e with pending := e.pending ++ [{ client := client, held := [], bytes := 0 }] }
    else if e.subscribers.any (· == client) then e
    else { e with subscribers := e.subscribers ++ [client] }
  (if needUpstream then { e with upstreamSubscribed := true } else e, needUpstream)

def subscribeEntry (st : AppState β) (now client : Nat) (key : SubKey) : AppState β × Bool :=
  let (e, needUpstream) := attach (st.entryOr now key) key client
  (st.setEntry key e, needUpstream)

def broadcastCtrl (st : AppState β) (req : SubRequest) : AppState β :=
  { st with sources := st.sources.map fun src => { src with ctrlTx := src.ctrlTx ++ [req] } }

/-- Subscribe a client to `key`, fanning the first subscription out to every source. -/
def subscribe (st : AppState β) (now client : Nat) (key : SubKey) :
    AppState β × SubscribeOutcome :=
  if key ∈ st.subscriptions client then (st, .duplicate)
  else
    let (st, needUpstream) := (st.insertSubscription client key).subscribeEntry now client key
    if needUpstream then (st.broadcastCtrl (.subscribe key), .fresh) else (st, .joined)

/-- Hold a subscription open forever, with no client behind it. -/
def pin (st : AppState β) (now : Nat) (key : SubKey) : AppState β :=
  let e := st.entryOr now key
  let needUpstream := !e.upstreamSubscribed
  let st := st.setEntry key { e with pinned := true, upstreamSubscribed := true }
  if needUpstream then st.broadcastCtrl (.subscribe key) else st

/-! ### Leaving -/

def without (e : SubEntry β) (client : Nat) : SubEntry β :=
  { e with
    subscribers := e.subscribers.filter (· ≠ client)
    pending := e.pending.filter (·.client ≠ client) }

/-- Nobody is left on an entry that was held upstream only for its clients. -/
def abandoned (e : SubEntry β) : Bool :=
  e.subscribers.isEmpty && e.pending.isEmpty && e.upstreamSubscribed && !e.pinned

/-- Take a client off an entry; says whether that was the last one. -/
def leave (e : SubEntry β) (client : Nat) : SubEntry β × Bool :=
  if abandoned (without e client) then
    ({ without e client with upstreamSubscribed := false }, true)
  else (without e client, false)

def detachEntry (st : AppState β) (client : Nat) (key : SubKey) : AppState β × Bool :=
  match st.getEntry key with
  | none => (st, false)
  | some e =>
      let (e, dropUpstream) := leave e client
      (st.setEntry key e, dropUpstream)

def removeEntry (st : AppState β) (key : SubKey) : AppState β :=
  { st with subs := st.subs.erase key }

/-- Detach a client from one key, dropping the upstream subscription once the last
subscriber is gone. -/
def detach (st : AppState β) (client : Nat) (key : SubKey) : AppState β :=
  let (st, dropUpstream) := st.detachEntry client key
  if dropUpstream then (st.broadcastCtrl (.unsubscribe key)).removeEntry key else st

def unsubscribe (st : AppState β) (client : Nat) (key : SubKey) : AppState β × Bool :=
  if key ∈ st.subscriptions client then
    ((st.removeSubscription client key).detach client key, true)
  else (st, false)

/-- Remove a client and detach it from every key it was subscribed to. -/
def cleanupClient (st : AppState β) (client : Nat) : AppState β :=
  let keys := st.subscriptions client
  let st :=
    { st with clients := st.clients.filter (· ≠ client) }.modifyClient client
      fun c => { c with subscriptions := [] }
  keys.foldl (fun st key => st.detach client key) st

end AppState

end Wsarb
