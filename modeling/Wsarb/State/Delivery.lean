import Wsarb.State.AppState

/-!
Owns the data path of the shared state: a frame arriving from a source, a fetched
snapshot handed to the client it was fetched for, the loss of a source, and giving a
parked client up. As with the registry, each is written as its critical section
followed by the sends made after the guard is released.

Does not own: where frames and snapshots come from.
-/

namespace Wsarb

open Wsarb.Library

variable {β : Type}

namespace Pending

/-- Pile one more frame up behind a parked client. -/
def pile [Payload β] (p : Pending β) (src h : Nat) (payload : β) : Pending β :=
  { p with
    held := p.held ++ [(src, h, payload)]
    bytes := p.bytes + Payload.len payload }

end Pending

/-- What `on_update` carries out of its critical section. -/
structure Outcome where
  verdict : Verdict
  overflowed : List Nat
  /-- The clients the frame goes to, cloned under the guard; empty unless delivered. -/
  subscribers : List Nat

namespace SubEntry

/-- Hold the frame for everyone parked and evict those whose backlog has outgrown the
cap. (With nobody parked the source skips this, to the same effect.) -/
def hold [Payload β] (e : SubEntry β) (src : Nat) (seq : Seq) (payload : β) :
    SubEntry β × List Nat :=
  match seq.heldHeight with
  | none => (e, [])
  | some h =>
      let piled := e.pending.map (·.pile src h payload)
      ({ e with pending := piled.filter (·.bytes ≤ pendingMaxBytes) },
        (piled.filter (pendingMaxBytes < ·.bytes)).map (·.client))

/-- The critical section of `on_update` on the entry: decide, hold, clone. -/
def update [Payload β] (e : SubEntry β) (key : SubKey) (now src : Nat) (seq : Seq)
    (payload : β) : SubEntry β × Outcome :=
  let (e, verdict) := e.arbitrate key now src seq
  if verdict.deliver then
    let (e, overflowed) := e.hold src seq payload
    (e, { verdict := verdict, overflowed := overflowed, subscribers := e.subscribers })
  else (e, { verdict := verdict, overflowed := [], subscribers := [] })

/-- The held frames a snapshot at `height` from `source` releases: those above it, and
on a single-sourced channel only its own source's. -/
def backlogOf (key : SubKey) (source height : Nat) (held : List (Nat × Nat × β)) : List β :=
  (held.filter fun frame =>
    decide (height < frame.2.1) && (!key.singleSourced || frame.1 == source)).map (·.2.2)

/-- The critical section of `deliver_snapshot` on the entry: the backlog to send if the
client was parked there. -/
def rebuild (e : SubEntry β) (key : SubKey) (client source height : Nat) (snapshot : β) :
    SubEntry β × Option (List β) :=
  match e.pending.find? (·.client == client) with
  | none => (e, none)
  | some p =>
      ({ e with
          pending := e.pending.eraseP (·.client == client)
          blockLeader := if key.singleSourced then some source else e.blockLeader
          subscribers := e.subscribers ++ [client] },
        some (snapshot :: backlogOf key source height p.held))

/-- What the loss of `source` does to one entry, with the clients it orphans. -/
def loseSource (source : Nat) (key : SubKey) (e : SubEntry β) :
    SubEntry β × List (SubKey × Nat) :=
  if e.blockLeader ≠ some source then (e, [])
  else if !key.isIncremental then
    if key.singleSourced then
      ({ e with blockLeader := none, blockSampled := 0, last := 0 }, [])
    else (e, [])
  else
    ({ e with
        blockLeader := none
        blockSampled := 0
        needsSnapshot := e.needsSnapshot ||| sourceBit source
        last := 0
        subscribers := []
        pending := e.pending ++
          e.subscribers.map fun client => { client := client, held := [], bytes := 0 } },
      e.subscribers.map fun client => (key, client))

end SubEntry

namespace AppState

/-! ### A frame from a source -/

def onUpdateEntry [Payload β] (st : AppState β) (now src : Nat) (key : SubKey) (seq : Seq)
    (payload : β) : AppState β × Outcome :=
  let (e, outcome) := (st.entryOr now key).update key now src seq payload
  (st.setEntry key e, outcome)

/-- The counters `on_update` moves once the guard is released. -/
def countVerdict (st : AppState β) (src : Nat) (verdict : Verdict) : AppState β :=
  st.modifySource src fun source =>
    let stats := source.stats
    let stats := if verdict.win then { stats with wins := stats.wins + 1 } else stats
    let stats := match verdict.late with
      | some delay => stats.recordDelay delay
      | none => stats
    let stats := if verdict.stale then { stats with stale := stats.stale + 1 } else stats
    { source with stats := stats }

def notifyKill (st : AppState β) (client : Nat) : AppState β :=
  st.modifyClient client fun c => { c with kill := true }

def fanOut (st : AppState β) (incremental : Bool) (payload : β)
    (recipients : List Nat) : AppState β :=
  recipients.foldl (fun st client => st.modifyClient client (·.forward incremental payload)) st

/-- Handle a fresh frame for `key` arriving from `src`. -/
def onUpdate [Payload β] (st : AppState β) (now src : Nat) (key : SubKey) (seq : Seq)
    (payload : β) : AppState β :=
  let (st, outcome) := st.onUpdateEntry now src key seq payload
  let st := st.countVerdict src outcome.verdict
  let st := outcome.overflowed.foldl notifyKill st
  st.fanOut key.isIncremental payload outcome.subscribers

/-! ### A snapshot for a parked client -/

/-- The critical section of `deliver_snapshot`: the backlog to send, if any. -/
def deliverSnapshotEntry (st : AppState β) (key : SubKey) (client source height : Nat)
    (snapshot : β) : AppState β × Option (List β) :=
  match st.getEntry key with
  | none => (st, none)
  | some e =>
      let (e, backlog) := e.rebuild key client source height snapshot
      (st.setEntry key e, backlog)

/-- The release loop: it stops at the first frame that does not fit. -/
def release (st : AppState β) (client : Nat) : List β → AppState β
  | [] => st
  | msg :: rest =>
      let (c, sent) := (st.heap client).sendOrHangUp msg
      let st := st.modifyClient client fun _ => c
      if sent then st.release client rest else st

/-- Hand a freshly fetched snapshot to a waiting client, release the frames held behind
it and attach it to the live stream. -/
def deliverSnapshot (st : AppState β) (key : SubKey) (client source height : Nat)
    (snapshot : β) : AppState β :=
  let (st, backlog) := st.deliverSnapshotEntry key client source height snapshot
  match backlog with
  | some backlog => st.release client backlog
  | none => st

def failPending (st : AppState β) (key : SubKey) (client : Nat) : AppState β :=
  match st.getEntry key with
  | none => st
  | some e =>
      if e.isRebuilding client then
        (st.setEntry key
          { e with pending := e.pending.eraseP (·.client == client) }).notifyKill client
      else st

/-! ### Losing a source -/

/-- Free what the lost source was leading, parking the clients that must be rebuilt;
returns the snapshots to fetch. -/
def resyncAfterSourceLoss (st : AppState β) (source : Nat) :
    AppState β × List (SubKey × Nat) :=
  ({ st with subs := KeyedMap.mapValues (fun key e => (e.loseSource source key).1) st.subs },
    st.subs.entries.flatMap fun entry => (entry.2.loseSource source entry.1).2)

/-- The keys currently live upstream, which a reconnecting source is subscribed to. -/
def subscribedRequests (st : AppState β) : List SubRequest :=
  (st.subs.entries.filter (·.2.upstreamSubscribed)).map fun entry => .subscribe entry.1

end AppState

end Wsarb
