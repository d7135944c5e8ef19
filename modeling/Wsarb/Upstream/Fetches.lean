import Wsarb.State.Waiting

/-!
Owns the snapshot fetches under way: who starts one, and that each ends by handing its
client's key a snapshot or by giving the client up. A fetch knows only its key and its
client, so one started for an earlier wait may end a later one; still, whoever waits on a key
has a fetch for it under way.

Does not own: where a fetch gets its snapshot from.
-/

namespace Wsarb

open Wsarb.Library AppState

/-- The operations that can park a client. -/
def Op.parks : Op → Bool
  | .subscribe .. | .resyncAfterSourceLoss _ => true
  | _ => false

namespace AppState

variable {st : Live} {key : SubKey} {client source : Nat} {e : SubEntry Message} {op : Op}

/-! ### What starts a fetch -/

/-- A client joins a key it did not hold and that is live upstream. -/
theorem subscribe_joined_iff (now : Nat) :
    (st.subscribe now client key).2 = .joined ↔
      key ∉ st.subscriptions client ∧ (st.entryOr now key).upstreamSubscribed = true := by
  have same : (st.insertSubscription client key).entryOr now key = st.entryOr now key := rfl
  unfold subscribe
  split
  · next holds => simp [holds]
  · next absent =>
      simp only [subscribeEntry, attach, same]
      cases (st.entryOr now key).upstreamSubscribed <;> simp [absent]

/-- The loss of a source orphans whoever was attached where it led an incremental key. -/
theorem mem_orphans {lost : SubKey × Nat} :
    lost ∈ (e.loseSource source key).2 ↔
      e.blockLeader = some source ∧ key.isIncremental = true ∧
        ∃ client ∈ e.subscribers, lost = (key, client) := by
  by_cases leads : e.blockLeader = some source
  · cases incremental : key.isIncremental with
    | true =>
        have orphans : (e.loseSource source key).2 =
            e.subscribers.map fun client => (key, client) := by
          simp [SubEntry.loseSource, leads, incremental]
        rw [orphans, List.mem_map]
        constructor
        · rintro ⟨client, attached, rfl⟩
          exact ⟨leads, rfl, client, attached, rfl⟩
        · rintro ⟨-, -, client, attached, rfl⟩
          exact ⟨client, attached, rfl⟩
    | false =>
        have nobody : (e.loseSource source key).2 = [] := by
          simp [SubEntry.loseSource, leads, incremental]
          split <;> rfl
        simp [nobody]
  · rw [loseSource_of_other e key source leads]
    simp [leads]

/-- What a loss returns: whoever was attached where the source led an incremental key. -/
theorem mem_resync :
    (key, client) ∈ (st.resyncAfterSourceLoss source).2 ↔
      ∃ e, st.getEntry key = some e ∧ e.blockLeader = some source ∧
        key.isIncremental = true ∧ client ∈ e.subscribers := by
  rw [resyncAfterSourceLoss, List.mem_flatMap]
  constructor
  · rintro ⟨⟨other, e⟩, listed, orphan⟩
    obtain ⟨leads, incremental, who, attached, same⟩ := mem_orphans.mp orphan
    obtain ⟨rfl, rfl⟩ := Prod.mk.inj same
    exact ⟨e, AList.mem_lookup_iff.mpr listed, leads, incremental, attached⟩
  · rintro ⟨e, found, leads, incremental, attached⟩
    exact ⟨⟨key, e⟩, AList.mem_lookup_iff.mp found,
      mem_orphans.mpr ⟨leads, incremental, client, attached, rfl⟩⟩

/-- A loss returns nobody twice. -/
theorem Seated.nodup_resync (seated : st.Seated) (source : Nat) :
    (st.resyncAfterSourceLoss source).2.Nodup := by
  rw [resyncAfterSourceLoss, List.nodup_flatMap]
  constructor
  · rintro ⟨key, e⟩ listed
    have once := seated.once key e (AList.mem_lookup_iff.mpr listed)
    have attached : e.subscribers.Nodup := (List.nodup_append.mp once).1
    unfold SubEntry.loseSource
    split_ifs
    · exact List.nodup_nil
    · exact List.nodup_nil
    · exact List.nodup_nil
    · exact attached.map fun first second same => (Prod.mk.inj same).2
  · have keys := st.subs.nodupKeys
    rw [List.NodupKeys, List.keys, List.Nodup, List.pairwise_map] at keys
    apply keys.imp
    intro first second apart lost inFirst inSecond
    obtain ⟨-, -, _, -, same⟩ := mem_orphans.mp inFirst
    obtain ⟨-, -, _, -, other⟩ := mem_orphans.mp inSecond
    rw [same] at other
    exact apart (Prod.mk.inj other).1

/-! ### Who comes to wait -/

/-- Who an operation parks: a client that joins a live incremental key, or one that the loss of
its source orphans. -/
def Parks (st : Live) (op : Op) (key : SubKey) (client : Nat) : Prop :=
  (∃ now, op = .subscribe now client key ∧ key.isIncremental = true ∧
      key ∉ st.subscriptions client ∧ (st.entryOr now key).upstreamSubscribed = true) ∨
    ∃ source, op = .resyncAfterSourceLoss source ∧
      (key, client) ∈ (st.resyncAfterSourceLoss source).2

/-- Whoever is parked was so before, or is parked now. -/
theorem parked_step (parked : (st.step op).parked key client = true) :
    st.parked key client = true ∨ st.Parks op key client := by
  obtain ⟨e, found, p, member, rfl⟩ := parked_iff.mp parked
  cases waits found member with
  | stayed before listed silent => exact Or.inl (parked_of_mem before listed)
  | @piled now message before old entry listed goesOut fits =>
      have waited : st.parked key old.client = true := parked_of_mem entry listed
      exact Or.inl waited
  | @joined now client incremental absent live alone =>
      exact Or.inr (Or.inl ⟨now, rfl, incremental, absent, live⟩)
  | @orphaned source client before entry incremental leads attached =>
      have orphan := mem_resync.mpr ⟨before, entry, leads, incremental, attached⟩
      exact Or.inr (Or.inr ⟨source, rfl, orphan⟩)

/-! ### What a loss changes -/

/-- The source leads an incremental key. -/
def Carries (source : Nat) (key : SubKey) (e : SubEntry Message) : Prop :=
  e.blockLeader = some source ∧ key.isIncremental = true

/-- Where the lost source carried the key, whoever was attached is moved behind whoever is
parked, holding nothing; elsewhere nobody is moved, and where the source did not lead at all
nothing changes. -/
structure Orphans (source : Nat) (key : SubKey) (e after : SubEntry Message) : Prop where
  moved : Carries source key e → after.subscribers = [] ∧
    after.pending = e.pending ++
      e.subscribers.map fun client => { client := client, held := [], bytes := 0 }
  unmoved : ¬ Carries source key e →
    after.subscribers = e.subscribers ∧ after.pending = e.pending
  apart : e.blockLeader ≠ some source → after = e

theorem orphans_loseSource (source : Nat) (key : SubKey) (e : SubEntry Message) :
    Orphans source key e (e.loseSource source key).1 where
  moved := by
    rintro ⟨leads, incremental⟩
    rw [loseSource_of_leads e key source leads incremental]
    exact ⟨rfl, rfl⟩
  unmoved := by
    intro whole
    unfold SubEntry.loseSource
    split_ifs with other self
    · exact ⟨rfl, rfl⟩
    · exact ⟨rfl, rfl⟩
    · exact ⟨rfl, rfl⟩
    · exact absurd ⟨not_not.mp other, by simpa using self⟩ whole
  apart := fun other => by rw [loseSource_of_other e key source other]

end AppState

/-! ### The callers -/

/-- A snapshot fetch: the key and the client it is for. -/
abbrev Fetch := SubKey × Nat

/-- The shared state, and the fetches under way. -/
structure Proxy where
  st : Live
  fetches : List Fetch

/-- Channels the proxy cannot stream correctly, refused loudly rather than served wrong. -/
def unsupported : SubKey → Option String
  | .bookDiffs _ =>
      some
        "bookDiffs carries no sequence to arbitrate on; subscribe to l4Book for the same diffs"
  | _ => none

namespace Proxy

/-- What the tasks of the proxy do to the shared state. -/
inductive Call
  /-- A client's connection is accepted. -/
  | accept (ip : String)
  /-- A client asks to subscribe. -/
  | subscribe (now client : Nat) (key : SubKey)
  /-- A client asks to unsubscribe. -/
  | unsubscribe (client : Nat) (key : SubKey)
  | pin (now : Nat) (key : SubKey)
  | frame (now : Nat) (message : Message)
  /-- A source disconnects, or is silent for too long. -/
  | lose (source : Nat)
  /-- A fetch ends with a snapshot. -/
  | answered (client : Nat) (fetched : Fetched)
  /-- A fetch ends without one. -/
  | unanswered (client : Nat) (key : SubKey)
  /-- A client's connection ends. -/
  | disconnect (client : Nat)
  | receive (client : Nat)
  | close (client : Nat)

def start (sources : List Source) : Proxy := ⟨AppState.new sources, []⟩

/-- `handle_request` with a subscription: a late joiner is fetched a snapshot. -/
def handleSubscribe (proxy : Proxy) (now client : Nat) (key : SubKey) : Proxy :=
  let key := key.normalized
  match unsupported key with
  | some _ => proxy
  | none =>
      let (st, outcome) := proxy.st.subscribe now client key
      { st := st
        fetches :=
          if outcome = .joined ∧ key.isIncremental = true then (key, client) :: proxy.fetches
          else proxy.fetches }

/-- The disconnect path of `run`, and the silence monitor: every orphan is fetched a
snapshot. -/
def handleLoss (proxy : Proxy) (source : Nat) : Proxy :=
  let (st, work) := proxy.st.resyncAfterSourceLoss source
  { st := st, fetches := work ++ proxy.fetches }

/-- A fetch ends, if there is one, with what it does to the shared state. -/
def finish (proxy : Proxy) (fetch : Fetch) (op : Op) : Proxy :=
  if fetch ∈ proxy.fetches then
    { st := proxy.st.step op, fetches := proxy.fetches.erase fetch }
  else proxy

/-- One call. Requests are made by clients that have connected: a handle that was never given
out makes none. -/
def step (proxy : Proxy) : Call → Proxy
  | .accept ip => { proxy with st := proxy.st.step (.registerClient ip) }
  | .subscribe now client key =>
      if client < proxy.st.nextClientId then proxy.handleSubscribe now client key else proxy
  | .unsubscribe client key =>
      { proxy with st := proxy.st.step (.unsubscribe client key.normalized) }
  | .pin now key => { proxy with st := proxy.st.step (.pin now key) }
  | .frame now message => { proxy with st := proxy.st.step (.onUpdate now message) }
  | .lose source => proxy.handleLoss source
  | .answered client fetched =>
      proxy.finish (fetched.key, client) (.deliverSnapshot client fetched)
  | .unanswered client key => proxy.finish (key, client) (.failPending key client)
  | .disconnect client => { proxy with st := proxy.st.step (.cleanupClient client) }
  | .receive client => { proxy with st := proxy.st.step (.receive client) }
  | .close client => { proxy with st := proxy.st.step (.close client) }

/-- Nobody is listed twice, and whoever waits on a key has a fetch for it under way. -/
structure Attended (proxy : Proxy) : Prop where
  seated : proxy.st.Seated
  fetched : ∀ key e, proxy.st.getEntry key = some e → ∀ p ∈ e.pending,
    (key, p.client) ∈ proxy.fetches

theorem attended_start (sources : List Source) : Attended (start sources) where
  seated := seated_new sources
  fetched := fun _ _ found => nomatch found

variable {proxy : Proxy}

/-- An operation keeps everyone attended if the fetches are kept for whoever still waits, and
whoever it parks is given one. -/
theorem Attended.perform (attended : proxy.Attended) (op : Op) (handed : proxy.st.Handed op)
    {fetches : List Fetch}
    (kept : ∀ key client, (proxy.st.step op).parked key client = true →
      (key, client) ∈ proxy.fetches → (key, client) ∈ fetches)
    (parks : ∀ key client, proxy.st.Parks op key client → (key, client) ∈ fetches) :
    Attended ⟨proxy.st.step op, fetches⟩ where
  seated := seated_step attended.seated op handed
  fetched := by
    intro key e found p member
    have parked := parked_of_mem found member
    rcases parked_step parked with before | now
    · obtain ⟨entry, there, old, listed, same⟩ := parked_iff.mp before
      exact kept key p.client parked (same ▸ attended.fetched key entry there old listed)
    · exact parks key p.client now

/-- An operation that parks nobody keeps everyone attended. -/
theorem Attended.plain (attended : proxy.Attended) {op : Op} (quiet : op.parks = false)
    {fetches : List Fetch}
    (kept : ∀ key client, (proxy.st.step op).parked key client = true →
      (key, client) ∈ proxy.fetches → (key, client) ∈ fetches) :
    Attended ⟨proxy.st.step op, fetches⟩ := by
  apply attended.perform _ _ kept
  · rintro key client (⟨now, rfl, -⟩ | ⟨source, rfl, -⟩) <;> cases quiet
  · cases op with
    | subscribe now client key => cases quiet
    | _ => trivial

/-- A fetch that ends leaves its client parked no more. -/
theorem Attended.finish (attended : proxy.Attended) {fetch : Fetch} {op : Op}
    (quiet : op.parks = false)
    (ends : (proxy.st.step op).parked fetch.1 fetch.2 = false) :
    Attended (proxy.finish fetch op) := by
  unfold Proxy.finish
  split
  · apply attended.plain quiet
    intro key client parked listed
    have differs : (key, client) ≠ fetch := by
      rintro rfl
      rw [ends] at parked
      cases parked
    exact (List.mem_erase_of_ne differs).mpr listed
  · exact attended

/-- Every call keeps everyone attended. -/
theorem Attended.step (attended : proxy.Attended) (call : Call) : (proxy.step call).Attended := by
  cases call with
  | subscribe now client key =>
      unfold Proxy.step
      dsimp only
      split
      · next handed =>
          unfold handleSubscribe
          dsimp only
          split
          · exact attended
          · apply attended.perform (.subscribe now client key.normalized) handed
            · intro key' client' _ listed
              split
              · exact List.mem_cons_of_mem _ listed
              · exact listed
            · rintro _ _ (⟨_, ⟨⟩, incremental, absent, live⟩ | ⟨_, ⟨⟩, -⟩)
              rw [if_pos ⟨(subscribe_joined_iff now).mpr ⟨absent, live⟩, incremental⟩]
              exact List.mem_cons_self
      · exact attended
  | lose source =>
      apply attended.perform (.resyncAfterSourceLoss source) trivial
      · exact fun _ _ _ listed => List.mem_append_right _ listed
      · rintro _ _ (⟨_, ⟨⟩, -⟩ | ⟨_, ⟨⟩, orphan⟩)
        exact List.mem_append_left _ orphan
  | answered client fetched =>
      exact attended.finish rfl (attended.seated.not_parked_deliverSnapshot client fetched)
  | unanswered client key =>
      exact attended.finish rfl (attended.seated.not_parked_failPending client key)
  | _ =>
      apply attended.plain
      · rfl
      · exact fun _ _ _ listed => listed

/-- Whatever the callers do: whoever is parked on a key has a fetch for it under way; and the
loss of a source moves exactly those attached where it carried the key, returns each of them
once, and changes no entry it did not lead. -/
theorem no_parked_client_is_stranded (sources : List Source) (calls : List Call) :
    let proxy := run step (start sources) calls
    (∀ key client, proxy.st.parked key client = true → (key, client) ∈ proxy.fetches) ∧
      ∀ source,
        (proxy.st.resyncAfterSourceLoss source).2.Nodup ∧
        (∀ key client, (key, client) ∈ (proxy.st.resyncAfterSourceLoss source).2 ↔
          ∃ e, proxy.st.getEntry key = some e ∧ Carries source key e ∧
            client ∈ e.subscribers) ∧
        ∀ key,
          ((proxy.st.resyncAfterSourceLoss source).1.getEntry key).isSome =
              (proxy.st.getEntry key).isSome ∧
            ∀ e after, proxy.st.getEntry key = some e →
              (proxy.st.resyncAfterSourceLoss source).1.getEntry key = some after →
              Orphans source key e after := by
  intro proxy
  have attended : proxy.Attended :=
    Reachable.invariant ⟨calls, rfl⟩ (attended_start sources)
      fun _ call attended => attended.step call
  refine ⟨?_, fun source => ⟨attended.seated.nodup_resync source, ?_, fun key => ⟨?_, ?_⟩⟩⟩
  · intro key client parked
    obtain ⟨e, found, p, member, rfl⟩ := parked_iff.mp parked
    exact attended.fetched key e found p member
  · intro key client
    simp only [mem_resync, Carries, and_assoc]
  · rw [getEntry_resyncAfterSourceLoss, Option.isSome_map]
  · intro e after found found'
    rw [getEntry_resyncAfterSourceLoss, found, Option.map_some, Option.some.injEq] at found'
    rw [← found']
    exact orphans_loseSource source key e

end Proxy

end Wsarb
