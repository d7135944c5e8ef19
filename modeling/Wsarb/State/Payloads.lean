import Wsarb.State.Effects

/-!
Owns that the shared state carries payloads without looking into them: put another payload in the
place of each, of the same length, and every operation does the same to the registry, the sources
and the fetches to be started. What stands in the clients' queues is no part of the comparison.

Does not own: which payloads are compared.
-/

namespace Wsarb

open Wsarb.Library

variable {α β : Type}

/-! ### An entry -/

/-- The client waits behind other payloads. -/
def Pending.carry (f : α → β) (p : Pending α) : Pending β where
  client := p.client
  held := p.held.map fun frame => (frame.1, frame.2.1, f frame.2.2)
  bytes := p.bytes

namespace SubEntry

/-- The entry with other payloads in it. -/
def carry (f : α → β) (e : SubEntry α) : SubEntry β where
  last := e.last
  lastSeenAt := e.lastSeenAt
  upstreamSubscribed := e.upstreamSubscribed
  subscribers := e.subscribers
  pinned := e.pinned
  pending := e.pending.map (·.carry f)
  blockLeader := e.blockLeader
  blockSampled := e.blockSampled
  blockSent := e.blockSent
  blockSeen := e.blockSeen
  needsSnapshot := e.needsSnapshot

variable (f : α → β) (e : SubEntry α)

theorem carry_arbitrate (key : SubKey) (now src : Nat) (seq : Seq) :
    (e.carry f).arbitrate key now src seq =
      ((e.arbitrate key now src seq).1.carry f, (e.arbitrate key now src seq).2) := by
  have last : (e.carry f).last = e.last := rfl
  have leader : (e.carry f).blockLeader = e.blockLeader := rfl
  cases seq with
  | point v =>
      simp only [arbitrate, arbitratePoint, last]
      split_ifs <;> rfl
  | lead v =>
      simp only [arbitrate, arbitrateLead, last, leader]
      split_ifs <;> rfl
  | sticky v =>
      simp only [arbitrate, arbitrateSticky, last, leader]
      cases e.blockLeader with
      | none => rfl
      | some id =>
          dsimp only
          split_ifs <;> rfl
  | snapshot h =>
      simp only [arbitrate, arbitrateSnapshot, last, leader]
      split_ifs <;> rfl
  | block h =>
      have out : (e.carry f).writtenOff src = e.writtenOff src := rfl
      have bumped : (e.carry f).bumpBlockCount src =
          ((e.bumpBlockCount src).1.carry f, (e.bumpBlockCount src).2) := rfl
      have sent (x : SubEntry α) : (x.carry f).blockSent = x.blockSent := rfl
      have sampled (x : SubEntry α) : (x.carry f).blockSampled = x.blockSampled := rfl
      simp only [arbitrate, arbitrateBlock, last, out, bumped, sent, sampled]
      split_ifs <;> rfl

theorem isRebuilding_carry (client : Nat) :
    (e.carry f).isRebuilding client = e.isRebuilding client := by
  simp [isRebuilding, carry, Pending.carry, Function.comp_def]

variable [Payload α] [Payload β]

theorem carry_hold (len : ∀ x, Payload.len (f x) = (Payload.len x : Nat)) (src : Nat) (seq : Seq)
    (payload : α) :
    (e.carry f).hold src seq (f payload) =
      ((e.hold src seq payload).1.carry f, (e.hold src seq payload).2) := by
  have piled (p : Pending α) (h : Nat) :
      (p.carry f).pile src h (f payload) = (p.pile src h payload).carry f := by
    simp [Pending.carry, Pending.pile, len]
  have bytes (p : Pending α) : (p.carry f).bytes = p.bytes := rfl
  have client (p : Pending α) : (p.carry f).client = p.client := rfl
  unfold hold
  cases seq.heldHeight with
  | none => rfl
  | some h =>
      simp only [carry, List.map_map, Function.comp_def, piled, List.filter_map, bytes, client]

theorem carry_update (len : ∀ x, Payload.len (f x) = (Payload.len x : Nat)) (key : SubKey)
    (now src : Nat) (seq : Seq) (payload : α) :
    (e.carry f).update key now src seq (f payload) =
      ((e.update key now src seq payload).1.carry f, (e.update key now src seq payload).2) := by
  simp only [update, carry_arbitrate, carry_hold _ _ len]
  split_ifs <;> rfl

end SubEntry

/-! ### The shared state -/

namespace AppState

/-- The two states differ in what their clients' queues hold, if at all. -/
structure Alike {γ : Type} (st after : AppState γ) : Prop where
  sources : after.sources = st.sources
  subs : after.subs = st.subs
  clients : after.clients = st.clients
  nextClientId : after.nextClientId = st.nextClientId
  subscriptions : ∀ client, after.subscriptions client = st.subscriptions client

namespace Alike

variable {γ : Type} {st after last : AppState γ}

theorem refl (st : AppState γ) : Alike st st := ⟨rfl, rfl, rfl, rfl, fun _ => rfl⟩

theorem trans (first : Alike st after) (second : Alike after last) : Alike st last where
  sources := second.sources.trans first.sources
  subs := second.subs.trans first.subs
  clients := second.clients.trans first.clients
  nextClientId := second.nextClientId.trans first.nextClientId
  subscriptions := fun client => (second.subscriptions client).trans (first.subscriptions client)

theorem modifyClient (st : AppState γ) (client : Nat) {g : Client γ → Client γ}
    (quiet : ∀ c, (g c).subscriptions = c.subscriptions) : Alike st (st.modifyClient client g) where
  sources := rfl
  subs := rfl
  clients := rfl
  nextClientId := rfl
  subscriptions := by
    intro who
    rw [AppState.subscriptions, heap_modifyClient]
    split
    · next same => rw [quiet, same]; rfl
    · rfl

theorem foldl {ι : Type} {move : AppState γ → ι → AppState γ}
    (quiet : ∀ st item, Alike st (move st item)) (items : List ι) :
    ∀ st, Alike st (items.foldl move st) := by
  induction items with
  | nil => exact refl
  | cons item rest inductionHypothesis =>
      exact fun st => (quiet st item).trans (inductionHypothesis (move st item))

theorem fanOut (st : AppState γ) (incremental : Bool) (payload : γ) (recipients : List Nat) :
    Alike st (st.fanOut incremental payload recipients) :=
  foldl (fun st client => modifyClient st client fun c =>
    c.forward_subscriptions incremental payload) recipients st

theorem notifyKills (st : AppState γ) (clients : List Nat) :
    Alike st (clients.foldl AppState.notifyKill st) :=
  foldl (fun st client => modifyClient st client (fun _ => rfl : ∀ c : Client γ,
    { c with kill := true }.subscriptions = c.subscriptions)) clients st

theorem release (client : Nat) (backlog : List γ) :
    ∀ st : AppState γ, Alike st (st.release client backlog) := by
  induction backlog with
  | nil => exact refl
  | cons msg rest inductionHypothesis =>
      intro st
      have quiet : ((st.heap client).sendOrHangUp msg).1.subscriptions =
          (st.heap client).subscriptions := by
        unfold Client.sendOrHangUp
        split <;> rfl
      have sent : Alike st
          (st.modifyClient client fun _ => ((st.heap client).sendOrHangUp msg).1) := by
        refine ⟨rfl, rfl, rfl, rfl, fun who => ?_⟩
        rw [AppState.subscriptions, heap_modifyClient]
        split
        · next same => rw [quiet, same]; rfl
        · rfl
      unfold AppState.release
      dsimp only
      split
      · exact sent.trans (inductionHypothesis _)
      · exact sent

end Alike

/-- The two states keep the same registry and the same sources, but for the payloads. -/
structure Reflects (f : α → β) (st : AppState α) (other : AppState β) : Prop where
  sources : other.sources = st.sources
  subs : other.subs = KeyedMap.mapTo (SubEntry.carry f) st.subs
  clients : other.clients = st.clients
  nextClientId : other.nextClientId = st.nextClientId
  subscriptions : ∀ client, other.subscriptions client = st.subscriptions client

variable {f : α → β} {st : AppState α} {other : AppState β}

theorem mirrors_new (f : α → β) (sources : List Source) :
    Reflects f (AppState.new sources) (AppState.new sources) where
  sources := rfl
  subs := rfl
  clients := rfl
  nextClientId := rfl
  subscriptions := fun _ => rfl

namespace Reflects

theorem getEntry (mirrors : Reflects f st other) (key : SubKey) :
    other.getEntry key = (st.getEntry key).map (SubEntry.carry f) := by
  rw [AppState.getEntry, mirrors.subs, KeyedMap.lookup_mapTo]
  rfl

theorem entryOr (mirrors : Reflects f st other) (now : Nat) (key : SubKey) :
    other.entryOr now key = (st.entryOr now key).carry f := by
  rw [AppState.entryOr, AppState.entryOr, mirrors.getEntry]
  cases st.getEntry key <;> rfl

/-! #### The pieces the operations are written in -/

theorem setEntry (mirrors : Reflects f st other) (key : SubKey) (e : SubEntry α) :
    Reflects f (st.setEntry key e) (other.setEntry key (e.carry f)) where
  sources := mirrors.sources
  subs := by rw [AppState.setEntry, AppState.setEntry, mirrors.subs, KeyedMap.mapTo_insert]
  clients := mirrors.clients
  nextClientId := mirrors.nextClientId
  subscriptions := mirrors.subscriptions

theorem removeEntry (mirrors : Reflects f st other) (key : SubKey) :
    Reflects f (st.removeEntry key) (other.removeEntry key) where
  sources := mirrors.sources
  subs := by rw [AppState.removeEntry, AppState.removeEntry, mirrors.subs, KeyedMap.mapTo_erase]
  clients := mirrors.clients
  nextClientId := mirrors.nextClientId
  subscriptions := mirrors.subscriptions

theorem broadcastCtrl (mirrors : Reflects f st other) (req : SubRequest) :
    Reflects f (st.broadcastCtrl req) (other.broadcastCtrl req) where
  sources := by rw [AppState.broadcastCtrl, AppState.broadcastCtrl, mirrors.sources]
  subs := mirrors.subs
  clients := mirrors.clients
  nextClientId := mirrors.nextClientId
  subscriptions := mirrors.subscriptions

theorem modifySource (mirrors : Reflects f st other) (id : Nat) (g : Source → Source) :
    Reflects f (st.modifySource id g) (other.modifySource id g) where
  sources := by rw [AppState.modifySource, AppState.modifySource, mirrors.sources]
  subs := mirrors.subs
  clients := mirrors.clients
  nextClientId := mirrors.nextClientId
  subscriptions := mirrors.subscriptions

theorem subscriptions_modifyClient {γ : Type} (st : AppState γ) (client : Nat)
    (g : Client γ → Client γ) (who : Nat) :
    (st.modifyClient client g).subscriptions who =
      if who = client then (g (st.heap client)).subscriptions else st.subscriptions who := by
  rw [AppState.subscriptions, heap_modifyClient]
  split <;> rfl

/-- What is done to a client on the one side and on the other changes its keys alike. -/
theorem modifyClient (mirrors : Reflects f st other) (client : Nat) {g : Client α → Client α}
    {h : Client β → Client β}
    (alike : ∀ c d, d.subscriptions = c.subscriptions →
      (h d).subscriptions = (g c).subscriptions) :
    Reflects f (st.modifyClient client g) (other.modifyClient client h) where
  sources := mirrors.sources
  subs := mirrors.subs
  clients := mirrors.clients
  nextClientId := mirrors.nextClientId
  subscriptions := by
    intro who
    have same := alike (st.heap client) (other.heap client) (mirrors.subscriptions client)
    rw [subscriptions_modifyClient, subscriptions_modifyClient, mirrors.subscriptions, same]

/-- What changes the queues alone may be done on either side. -/
theorem of_alike (mirrors : Reflects f st other) {st' : AppState α} {other' : AppState β}
    (ours : Alike st st') (theirs : Alike other other') : Reflects f st' other' where
  sources := by rw [theirs.sources, ours.sources, mirrors.sources]
  subs := by rw [theirs.subs, ours.subs, mirrors.subs]
  clients := by rw [theirs.clients, ours.clients, mirrors.clients]
  nextClientId := by rw [theirs.nextClientId, ours.nextClientId, mirrors.nextClientId]
  subscriptions := fun client => by
    rw [theirs.subscriptions, ours.subscriptions, mirrors.subscriptions]

/-! #### The operations -/

theorem registerClient (mirrors : Reflects f st other) (ip : String) :
    Reflects f (st.registerClient ip).1 (other.registerClient ip).1 := by
  have moved := mirrors.modifyClient (g := fun _ => Client.new ip) (h := fun _ => Client.new ip)
    st.nextClientId fun _ _ _ => rfl
  refine ⟨mirrors.sources, mirrors.subs, ?_, ?_, ?_⟩
  · rw [AppState.registerClient, AppState.registerClient, mirrors.nextClientId, mirrors.clients]
  · rw [AppState.registerClient, AppState.registerClient, mirrors.nextClientId]
  · intro client
    have same := moved.subscriptions client
    rw [AppState.registerClient, AppState.registerClient, mirrors.nextClientId]
    exact same

theorem subscribe (mirrors : Reflects f st other) (now client : Nat) (key : SubKey) :
    Reflects f (st.subscribe now client key).1 (other.subscribe now client key).1 ∧
      (other.subscribe now client key).2 = (st.subscribe now client key).2 := by
  have inserted : Reflects f (st.insertSubscription client key)
      (other.insertSubscription client key) :=
    mirrors.modifyClient client fun c d same => congrArg (key :: ·) same
  have attached (e : SubEntry α) :
      attach (e.carry f) key client =
        ((attach e key client).1.carry f, (attach e key client).2) := by
    have waits := SubEntry.isRebuilding_carry f e client
    have live : (e.carry f).upstreamSubscribed = e.upstreamSubscribed := rfl
    have listed : (e.carry f).subscribers = e.subscribers := rfl
    simp only [attach, waits, live, listed]
    split_ifs <;> simp [SubEntry.carry, Pending.carry]
  have entry := inserted.entryOr now key
  have written := inserted.setEntry key
    (attach ((st.insertSubscription client key).entryOr now key) key client).1
  unfold AppState.subscribe subscribeEntry
  rw [mirrors.subscriptions]
  split
  · exact ⟨mirrors, rfl⟩
  · rw [entry, attached]
    generalize (attach ((st.insertSubscription client key).entryOr now key) key client) = fresh
      at written ⊢
    obtain ⟨e, needUpstream⟩ := fresh
    cases needUpstream with
    | true => exact ⟨written.broadcastCtrl _, rfl⟩
    | false => exact ⟨written, rfl⟩

theorem pin (mirrors : Reflects f st other) (now : Nat) (key : SubKey) :
    Reflects f (st.pin now key) (other.pin now key) := by
  have entry := mirrors.entryOr now key
  have written := mirrors.setEntry key
    { st.entryOr now key with pinned := true, upstreamSubscribed := true }
  unfold AppState.pin
  simp only [entry]
  show Reflects f (if _ then _ else _) (if !(st.entryOr now key).upstreamSubscribed then _ else _)
  split
  · exact written.broadcastCtrl _
  · exact written

theorem detach (mirrors : Reflects f st other) (client : Nat) (key : SubKey) :
    Reflects f (st.detach client key) (other.detach client key) := by
  have left (e : SubEntry α) :
      leave (e.carry f) client = ((leave e client).1.carry f, (leave e client).2) := by
    have without : without (e.carry f) client = (AppState.without e client).carry f := by
      simp [AppState.without, SubEntry.carry, List.filter_map, Function.comp_def, Pending.carry]
    have gone (x : SubEntry α) : abandoned (x.carry f) = abandoned x := by
      simp [abandoned, SubEntry.carry]
    simp only [leave, without, gone]
    split <;> rfl
  have entry := mirrors.getEntry key
  unfold AppState.detach detachEntry
  cases found : st.getEntry key with
  | none =>
      rw [found, Option.map_none] at entry
      simp only [entry, Bool.false_eq_true, if_false]
      exact mirrors
  | some e =>
      rw [found, Option.map_some] at entry
      simp only [entry, left]
      split
      · exact ((mirrors.setEntry key _).broadcastCtrl _).removeEntry key
      · exact mirrors.setEntry key _

theorem unsubscribe (mirrors : Reflects f st other) (client : Nat) (key : SubKey) :
    Reflects f (st.unsubscribe client key).1 (other.unsubscribe client key).1 ∧
      (other.unsubscribe client key).2 = (st.unsubscribe client key).2 := by
  have removed : Reflects f (st.removeSubscription client key)
      (other.removeSubscription client key) :=
    mirrors.modifyClient client fun c d same => congrArg (List.filter (· ≠ key)) same
  unfold AppState.unsubscribe
  rw [mirrors.subscriptions]
  split
  · exact ⟨removed.detach client key, rfl⟩
  · exact ⟨mirrors, rfl⟩

theorem cleanupClient (mirrors : Reflects f st other) (client : Nat) :
    Reflects f (st.cleanupClient client) (other.cleanupClient client) := by
  have all (keys : List SubKey) : ∀ {st : AppState α} {other : AppState β}, Reflects f st other →
      Reflects f (keys.foldl (fun st key => st.detach client key) st)
        (keys.foldl (fun st key => st.detach client key) other) := by
    induction keys with
    | nil => exact fun mirrors => mirrors
    | cons key rest inductionHypothesis =>
        exact fun mirrors => inductionHypothesis (mirrors.detach client key)
  have listed : Reflects f { st with clients := st.clients.filter (· ≠ client) }
      { other with clients := other.clients.filter (· ≠ client) } :=
    ⟨mirrors.sources, mirrors.subs, by rw [mirrors.clients], mirrors.nextClientId,
      mirrors.subscriptions⟩
  unfold AppState.cleanupClient
  rw [mirrors.subscriptions]
  exact all _ (listed.modifyClient client fun c d _ => rfl)

theorem resyncAfterSourceLoss (mirrors : Reflects f st other) (source : Nat) :
    Reflects f (st.resyncAfterSourceLoss source).1 (other.resyncAfterSourceLoss source).1 ∧
      (other.resyncAfterSourceLoss source).2 = (st.resyncAfterSourceLoss source).2 := by
  have lost (key : SubKey) (e : SubEntry α) :
      (e.carry f).loseSource source key =
        ((e.loseSource source key).1.carry f, (e.loseSource source key).2) := by
    have leads : (e.carry f).blockLeader = e.blockLeader := rfl
    have attached : (e.carry f).subscribers = e.subscribers := rfl
    simp only [SubEntry.loseSource, leads, attached]
    split_ifs
    · rfl
    · rfl
    · rfl
    · simp [SubEntry.carry, Pending.carry, Function.comp_def]
  constructor
  · refine ⟨mirrors.sources, ?_, mirrors.clients, mirrors.nextClientId, mirrors.subscriptions⟩
    show KeyedMap.mapValues _ other.subs = KeyedMap.mapTo _ (KeyedMap.mapValues _ st.subs)
    rw [mirrors.subs]
    exact (KeyedMap.mapTo_mapValues fun key e => (congrArg Prod.fst (lost key e)).symm).symm
  · show other.subs.entries.flatMap _ = st.subs.entries.flatMap _
    rw [mirrors.subs, KeyedMap.mapTo, List.flatMap_map]
    exact List.flatMap_congr fun entry _ => congrArg Prod.snd (lost entry.1 entry.2)

theorem failPending (mirrors : Reflects f st other) (key : SubKey) (client : Nat) :
    Reflects f (st.failPending key client) (other.failPending key client) := by
  have gone (e : SubEntry α) :
      ({ e.carry f with
          pending := (e.carry f).pending.eraseP (·.client == client) } : SubEntry β) =
        { e with pending := e.pending.eraseP (·.client == client) }.carry f := by
    simp [SubEntry.carry, List.eraseP_map, Function.comp_def, Pending.carry]
  have entry := mirrors.getEntry key
  unfold AppState.failPending
  cases found : st.getEntry key with
  | none =>
      rw [found, Option.map_none] at entry
      simp only [entry]
      exact mirrors
  | some e =>
      rw [found, Option.map_some] at entry
      simp only [entry, SubEntry.isRebuilding_carry, gone]
      split
      · exact (mirrors.setEntry key _).modifyClient client fun c d same => same
      · exact mirrors

theorem deliverSnapshot (mirrors : Reflects f st other) (key : SubKey)
    (client source height : Nat) (snapshot : α) :
    Reflects f (st.deliverSnapshot key client source height snapshot)
      (other.deliverSnapshot key client source height (f snapshot)) := by
  have found (e : SubEntry α) : (e.carry f).pending.find? (·.client == client) =
      (e.pending.find? (·.client == client)).map (·.carry f) := by
    rw [SubEntry.carry, List.find?_map]
    rfl
  have entry := mirrors.getEntry key
  unfold AppState.deliverSnapshot deliverSnapshotEntry
  cases there : st.getEntry key with
  | none =>
      rw [there, Option.map_none] at entry
      simp only [entry]
      exact mirrors
  | some e =>
      rw [there, Option.map_some] at entry
      simp only [entry, SubEntry.rebuild, found]
      cases e.pending.find? (·.client == client) with
      | none => exact mirrors.setEntry key e
      | some p =>
          have written := mirrors.setEntry key
            { e with
              pending := e.pending.eraseP (·.client == client)
              blockLeader := if key.singleSourced then some source else e.blockLeader
              subscribers := e.subscribers ++ [client] }
          have erased : (e.carry f).pending.eraseP (·.client == client) =
              (e.pending.eraseP (·.client == client)).map (·.carry f) := by
            rw [SubEntry.carry, List.eraseP_map]
            rfl
          simp only [Option.map_some, erased]
          exact written.of_alike (Alike.release _ _ _) (Alike.release _ _ _)

theorem onUpdate [Payload α] [Payload β] (mirrors : Reflects f st other)
    (len : ∀ x, Payload.len (f x) = (Payload.len x : Nat)) (now src : Nat) (key : SubKey)
    (seq : Seq) (payload : α) :
    Reflects f (st.onUpdate now src key seq payload)
      (other.onUpdate now src key seq (f payload)) := by
  have entry := mirrors.entryOr now key
  unfold AppState.onUpdate onUpdateEntry
  simp only [entry, SubEntry.carry_update f _ len]
  have counted := (mirrors.setEntry key
    ((st.entryOr now key).update key now src seq payload).1).modifySource src
  exact (counted _).of_alike ((Alike.notifyKills _ _).trans (Alike.fanOut _ _ _ _))
    ((Alike.notifyKills _ _).trans (Alike.fanOut _ _ _ _))

end Reflects

end AppState

end Wsarb
