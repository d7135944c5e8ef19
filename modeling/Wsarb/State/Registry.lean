import Wsarb.State.Transitions

/-!
Owns what the operations do to the registry: each client's own set of keys, its hang-up
flag, and the requests sent to each source. Traffic (frames, snapshots, losses, reads)
moves none of them but the flag, which it only raises. Owns the two agreements every
operation keeps: a key is live upstream exactly when the last request about it was to
subscribe, and whoever stands on a key's entry holds the key.
-/

namespace Wsarb

open Wsarb.Library

namespace AppState

variable {β : Type}

/-! ### Clients -/

/-- A property of clients that queueing, hanging up and reading leave alone. -/
structure Steady (P : Client β → Prop) : Prop where
  forward : ∀ client incremental msg, P client → P (client.forward incremental msg)
  hangUp : ∀ client, P client → P { client with kill := true }
  receive : ∀ client, P client → P { client with tx := client.tx.receive }
  close : ∀ client, P client → P { client with tx := client.tx.close }

theorem steady_subscriptions (keys : List SubKey) :
    Steady fun client : Client β => client.subscriptions = keys where
  forward client incremental msg holds := by rw [Client.forward_subscriptions, holds]
  hangUp _ holds := holds
  receive _ holds := holds
  close _ holds := holds

theorem steady_kill : Steady fun client : Client β => client.kill = true where
  forward client incremental msg holds := by
    unfold Client.forward Client.sendOrHangUp Client.sendOrDrop
    split_ifs <;> simp [holds]
  hangUp _ _ := rfl
  receive _ holds := holds
  close _ holds := holds

section Steadily

variable {P : Client β → Prop} {st : AppState β} {client : Nat}

theorem steadily_modifyClient {f : Client β → Client β} (keeps : ∀ c, P c → P (f c))
    (holds : P (st.heap client)) (who : Nat) : P ((st.modifyClient who f).heap client) := by
  rw [heap_modifyClient]
  split
  · next same => exact keeps _ (same ▸ holds)
  · exact holds

theorem steadily_notifyKills (steady : Steady P) (clients : List Nat)
    (holds : P (st.heap client)) : P ((clients.foldl notifyKill st).heap client) := by
  induction clients generalizing st with
  | nil => exact holds
  | cons who rest inductionHypothesis =>
      exact inductionHypothesis (steadily_modifyClient steady.hangUp holds who)

theorem steadily_fanOut (steady : Steady P) (incremental : Bool) (payload : β)
    (recipients : List Nat) (holds : P (st.heap client)) :
    P ((st.fanOut incremental payload recipients).heap client) := by
  induction recipients generalizing st with
  | nil => exact holds
  | cons who rest inductionHypothesis =>
      exact inductionHypothesis
        (steadily_modifyClient (fun c => steady.forward c incremental payload) holds who)

theorem steadily_release (steady : Steady P) (who : Nat) (backlog : List β)
    (holds : P (st.heap client)) : P ((st.release who backlog).heap client) := by
  induction backlog generalizing st with
  | nil => exact holds
  | cons msg rest inductionHypothesis =>
      have sent : P ((st.modifyClient who fun _ =>
          ((st.heap who).sendOrHangUp msg).1).heap client) := by
        rw [heap_modifyClient]
        split
        · next same => exact steady.forward _ true msg (same ▸ holds)
        · exact holds
      unfold release
      dsimp only
      split
      · exact inductionHypothesis sent
      · exact sent

end Steadily

/-- Raising hang-ups raises the flag of everyone listed. -/
theorem kill_notifyKills {clients : List Nat} {client : Nat} (listed : client ∈ clients)
    (st : AppState β) : ((clients.foldl notifyKill st).heap client).kill = true := by
  induction clients generalizing st with
  | nil => exact absurd listed List.not_mem_nil
  | cons who rest inductionHypothesis =>
      rcases List.mem_cons.mp listed with rfl | later
      · apply steadily_notifyKills steady_kill rest
        rw [notifyKill, heap_modifyClient, if_pos rfl]
      · exact inductionHypothesis later (st.notifyKill who)

end AppState

/-- The operations that carry frames and losses rather than requests. -/
def Op.isTraffic : Op → Bool
  | .onUpdate .. | .deliverSnapshot .. | .failPending .. | .resyncAfterSourceLoss _
  | .receive _ | .close _ => true
  | _ => false

namespace AppState

variable {st : Live} {client : Nat}

/-- Traffic keeps every steady property of every client. -/
theorem steadily_step {P : Client Message → Prop} (steady : Steady P) {op : Op}
    (traffic : op.isTraffic = true) (holds : P (st.heap client)) :
    P ((st.step op).heap client) := by
  cases op with
  | onUpdate now message =>
      exact steadily_fanOut steady _ _ _ (steadily_notifyKills steady _ holds)
  | deliverSnapshot who fetched =>
      show P ((st.deliverSnapshot _ who _ _ _).heap client)
      have kept : P ((st.deliverSnapshotEntry fetched.key who fetched.source fetched.height
          fetched.message).1.heap client) := by
        unfold deliverSnapshotEntry
        split <;> exact holds
      unfold deliverSnapshot
      dsimp only
      split
      · exact steadily_release steady who _ kept
      · exact kept
  | failPending key who =>
      show P ((st.failPending key who).heap client)
      unfold failPending
      split
      · exact holds
      · split
        · exact steadily_modifyClient steady.hangUp holds who
        · exact holds
  | resyncAfterSourceLoss source => exact holds
  | receive who => exact steadily_modifyClient steady.receive holds who
  | close who => exact steadily_modifyClient steady.close holds who
  | _ => cases traffic

theorem subscriptions_of_traffic {op : Op} (traffic : op.isTraffic = true) :
    (st.step op).subscriptions client = st.subscriptions client :=
  steadily_step (steady_subscriptions _) traffic rfl

/-- What an operation makes of a client's own set of keys. -/
def subscriptionsAfter (st : Live) (client : Nat) : Op → List SubKey
  | .registerClient _ => if client = st.nextClientId then [] else st.subscriptions client
  | .subscribe _ who key =>
      if client = who ∧ key ∉ st.subscriptions who then key :: st.subscriptions client
      else st.subscriptions client
  | .unsubscribe who key =>
      if client = who then (st.subscriptions client).filter (· ≠ key)
      else st.subscriptions client
  | .cleanupClient who => if client = who then [] else st.subscriptions client
  | _ => st.subscriptions client

theorem subscriptions_step (op : Op) :
    (st.step op).subscriptions client = st.subscriptionsAfter client op := by
  cases op with
  | registerClient ip =>
      show (Function.update st.heap _ _ client).subscriptions = _
      rw [Function.update_apply, subscriptionsAfter]
      split <;> rfl
  | subscribe now who key =>
      have inserted : ((st.insertSubscription who key).heap client).subscriptions =
          if client = who then key :: st.subscriptions client else st.subscriptions client := by
        rw [insertSubscription, heap_modifyClient]
        split
        · next same => rw [same, subscriptions]
        · rfl
      show ((st.subscribe now who key).1.heap client).subscriptions = _
      simp only [subscribe, subscriptionsAfter]
      by_cases held : key ∈ st.subscriptions who
      · rw [if_pos held, if_neg fun both => both.2 held]
        rfl
      · simp only [held, if_false, not_false_eq_true, and_true, ← inserted]
        split <;> rfl
  | pin now key =>
      show ((st.pin now key).heap client).subscriptions = _
      rw [heap_pin]
      rfl
  | unsubscribe who key =>
      have removed : ((st.removeSubscription who key).heap client).subscriptions =
          if client = who then (st.subscriptions client).filter (· ≠ key)
          else st.subscriptions client := by
        rw [removeSubscription, heap_modifyClient]
        split
        · next same => rw [same, subscriptions]
        · rfl
      show ((st.unsubscribe who key).1.heap client).subscriptions = _
      simp only [unsubscribe, subscriptionsAfter]
      by_cases held : key ∈ st.subscriptions who
      · rw [if_pos held, heap_detach, removed]
      · rw [if_neg held]
        split
        · next same =>
            subst same
            refine (List.filter_eq_self.mpr fun other member => ?_).symm
            exact decide_eq_true fun same => held (same ▸ member)
        · rfl
  | cleanupClient who =>
      show ((st.cleanupClient who).heap client).subscriptions = _
      rw [cleanupClient, heap_detachAll, heap_modifyClient, subscriptionsAfter]
      split <;> rfl
  | onUpdate now message => exact subscriptions_of_traffic rfl
  | deliverSnapshot who fetched => exact subscriptions_of_traffic rfl
  | failPending key who => exact subscriptions_of_traffic rfl
  | resyncAfterSourceLoss source => exact subscriptions_of_traffic rfl
  | receive who => exact subscriptions_of_traffic rfl
  | close who => exact subscriptions_of_traffic rfl

/-- Requests hang nobody up. -/
theorem kill_of_request {op : Op} (request : op.isTraffic = false)
    (old : ¬ st.Registers client op) :
    ((st.step op).heap client).kill = (st.heap client).kill := by
  cases op with
  | registerClient ip =>
      have other : client ≠ st.nextClientId := fun same => old ⟨⟨ip, rfl⟩, same⟩
      simp [step, registerClient, Function.update_of_ne other]
  | subscribe now who key =>
      have inserted : ((st.insertSubscription who key).heap client).kill =
          (st.heap client).kill := by
        rw [insertSubscription, heap_modifyClient]
        split
        · next same => rw [same]
        · rfl
      show ((st.subscribe now who key).1.heap client).kill = _
      unfold subscribe
      split
      · rfl
      · rw [← inserted]
        dsimp only
        split <;> rfl
  | pin now key =>
      show ((st.pin now key).heap client).kill = _
      rw [heap_pin]
  | unsubscribe who key =>
      show ((st.unsubscribe who key).1.heap client).kill = _
      unfold unsubscribe
      split
      · dsimp only
        rw [heap_detach, removeSubscription, heap_modifyClient]
        split
        · next same => rw [same]
        · rfl
      · rfl
  | cleanupClient who =>
      show ((st.cleanupClient who).heap client).kill = _
      rw [cleanupClient, heap_detachAll, heap_modifyClient]
      split
      · next same => rw [same]
      · rfl
  | _ => cases request

/-! ### Requests -/

def lastRequest (key : SubKey) (requests : List SubRequest) : Option SubRequest :=
  (requests.filter (·.key = key)).getLast?

theorem lastRequest_join (key : SubKey) (before later : List SubRequest) :
    lastRequest key (before ++ later) = (lastRequest key later).or (lastRequest key before) := by
  rw [lastRequest, List.filter_append, List.getLast?_append]
  rfl

theorem lastRequest_concat (key : SubKey) (requests : List SubRequest) (req : SubRequest) :
    lastRequest key (requests ++ [req]) =
      if req.key = key then some req else lastRequest key requests := by
  rw [lastRequest_join]
  by_cases about : req.key = key <;> simp [lastRequest, about]

theorem lastRequest_eq_none {key : SubKey} {requests : List SubRequest} :
    lastRequest key requests = none ↔ ∀ req ∈ requests, req.key ≠ key := by
  simp [lastRequest]

theorem mem_of_lastRequest {key : SubKey} {requests : List SubRequest} {req : SubRequest}
    (last : lastRequest key requests = some req) : req ∈ requests ∧ req.key = key := by
  have member := List.mem_filter.mp (List.mem_of_getLast? last)
  exact ⟨member.1, of_decide_eq_true member.2⟩

/-- A key stays subscribed for as long as nobody asks to unsubscribe from it. -/
theorem lastRequest_append {key : SubKey} {before later : List SubRequest}
    (last : lastRequest key before = some (.subscribe key))
    (kept : .unsubscribe key ∉ later) :
    lastRequest key (before ++ later) = some (.subscribe key) := by
  rw [lastRequest_join]
  cases said : lastRequest key later with
  | none => exact last
  | some req =>
      obtain ⟨member, about⟩ := mem_of_lastRequest said
      cases req with
      | subscribe asked =>
          obtain rfl : asked = key := about
          rfl
      | unsubscribe asked =>
          obtain rfl : asked = key := about
          exact absurd member kept

section Requests

variable {β : Type} (st : AppState β)

/-- The requests sent to each source, oldest first. -/
def requests : List (List SubRequest) := st.sources.map (·.ctrlTx)

def Upstream (key : SubKey) : Prop :=
  ∃ e, st.getEntry key = some e ∧ e.upstreamSubscribed = true

/-- A key is live upstream exactly when the last request about it was to subscribe. -/
def Tuned : Prop :=
  ∀ key, ∀ sent ∈ st.requests, lastRequest key sent = some (.subscribe key) ↔ st.Upstream key

theorem requests_broadcastCtrl (req : SubRequest) :
    (st.broadcastCtrl req).requests = st.requests.map (· ++ [req]) := by
  simp [requests, broadcastCtrl, Function.comp_def]

theorem requests_countVerdict (src : Nat) (verdict : Verdict) :
    (st.countVerdict src verdict).requests = st.requests := by
  simp only [requests, countVerdict, modifySource, List.map_map]
  apply List.map_congr_left
  intro source _
  show (if source.id = src then _ else source).ctrlTx = source.ctrlTx
  split <;> rfl

theorem requests_notifyKills (clients : List Nat) :
    (clients.foldl notifyKill st).requests = st.requests := by
  induction clients generalizing st with
  | nil => rfl
  | cons client rest inductionHypothesis => exact inductionHypothesis (st.notifyKill client)

theorem requests_fanOut (incremental : Bool) (payload : β) (recipients : List Nat) :
    (st.fanOut incremental payload recipients).requests = st.requests := by
  induction recipients generalizing st with
  | nil => rfl
  | cons client rest inductionHypothesis =>
      exact inductionHypothesis (st.modifyClient client _)

theorem requests_release (client : Nat) (backlog : List β) :
    (st.release client backlog).requests = st.requests := by
  induction backlog generalizing st with
  | nil => rfl
  | cons msg rest inductionHypothesis =>
      unfold release
      dsimp only
      split
      · exact inductionHypothesis (st.modifyClient client _)
      · rfl

variable {st}

/-- What a piece of an operation does to the keys live upstream: nothing, or it makes one live
or drops one, and asks for that. -/
inductive Announces (st after : AppState β) : Prop
  | silent (requests : after.requests = st.requests)
      (upstream : ∀ key, after.Upstream key ↔ st.Upstream key)
  | asks (req : SubRequest) (requests : after.requests = st.requests.map (· ++ [req]))
      (others : ∀ key, key ≠ req.key → (after.Upstream key ↔ st.Upstream key))
      (before : st.Upstream req.key ↔ req ≠ .subscribe req.key)
      (own : after.Upstream req.key ↔ req = .subscribe req.key)

theorem Announces.sources_length {after : AppState β} (announces : st.Announces after) :
    after.sources.length = st.sources.length := by
  have count : ∀ st : AppState β, st.requests.length = st.sources.length :=
    fun st => List.length_map _
  cases announces with
  | silent requests _ => rw [← count, requests, count]
  | asks req requests _ _ _ => rw [← count, requests, List.length_map, count]

theorem Tuned.announced {after : AppState β} (tuned : st.Tuned) (announces : st.Announces after) :
    after.Tuned := by
  intro key sent member
  cases announces with
  | silent requests upstream =>
      rw [upstream key]
      exact tuned key sent (requests ▸ member)
  | asks req requests others _ own =>
      rw [requests] at member
      obtain ⟨before, old, rfl⟩ := List.mem_map.mp member
      rw [lastRequest_concat]
      by_cases about : req.key = key
      · subst about
        rw [if_pos rfl, own, Option.some.injEq]
      · rw [if_neg about, others key (Ne.symm about)]
        exact tuned key before old

theorem upstream_congr {after : AppState β} {key : SubKey}
    (same : after.getEntry key = st.getEntry key) : after.Upstream key ↔ st.Upstream key := by
  rw [Upstream, same, Upstream]

/-! ### Requests, piece by piece -/

theorem entryOr_upstreamSubscribed (now : Nat) (key : SubKey) :
    (st.entryOr now key).upstreamSubscribed = true ↔ st.Upstream key := by
  unfold entryOr Upstream
  cases st.getEntry key with
  | none => simp [SubEntry.new]
  | some e => simp

theorem attach_upstreamSubscribed (e : SubEntry β) (key : SubKey) (client : Nat) :
    (attach e key client).1.upstreamSubscribed = true := by
  unfold attach
  cases flag : e.upstreamSubscribed with
  | false => rfl
  | true =>
      dsimp only
      split_ifs <;> simp_all

/-- Subscribing asks for a request exactly when the key is not live, and makes it live. -/
theorem subscribeEntry_need (now client : Nat) (key : SubKey) :
    (st.subscribeEntry now client key).2 = true ↔ ¬ st.Upstream key := by
  rw [← entryOr_upstreamSubscribed now]
  show (!(st.entryOr now key).upstreamSubscribed) = true ↔ _
  simp

theorem upstream_subscribeEntry (now client : Nat) (key other : SubKey) :
    (st.subscribeEntry now client key).1.Upstream other ↔ other = key ∨ st.Upstream other := by
  have entered := st.getEntry_subscribeEntry now client key other
  by_cases same : other = key
  · subst same
    exact iff_of_true ⟨_, entered.trans (if_pos rfl), attach_upstreamSubscribed _ _ _⟩ (Or.inl rfl)
  · rw [upstream_congr (entered.trans (if_neg same)), or_iff_right same]

theorem leave_upstreamSubscribed (e : SubEntry β) (client : Nat) :
    (leave e client).1.upstreamSubscribed = (e.upstreamSubscribed && !(leave e client).2) := by
  unfold leave
  split
  · exact (Bool.and_false _).symm
  · exact (Bool.and_true _).symm

theorem getEntry_detachEntry (client : Nat) (key other : SubKey) :
    (st.detachEntry client key).1.getEntry other =
      if other = key then (st.getEntry key).map fun e => (leave e client).1
      else st.getEntry other := by
  unfold detachEntry
  cases found : st.getEntry key with
  | none =>
      dsimp only
      split
      · next same => rw [same, found]; rfl
      · rfl
  | some e =>
      dsimp only
      rw [getEntry_setEntry]
      rfl

theorem drop_detachEntry {client : Nat} {key : SubKey} {e : SubEntry β}
    (found : st.getEntry key = some e) :
    (st.detachEntry client key).2 = (leave e client).2 := by
  rw [detachEntry, found]

/-- Leaving asks for a request exactly when it empties a live entry, which then is live no
longer. -/
theorem upstream_detachEntry (client : Nat) (key other : SubKey) :
    (st.detachEntry client key).1.Upstream other ↔
      st.Upstream other ∧ ¬ (other = key ∧ (st.detachEntry client key).2 = true) := by
  have left := st.getEntry_detachEntry client key other
  by_cases same : other = key
  · subst same
    cases found : st.getEntry other with
    | none => simp [Upstream, left, found]
    | some e =>
        simp [Upstream, left, found, drop_detachEntry found, leave_upstreamSubscribed]
  · rw [upstream_congr (left.trans (if_neg same))]
    simp [same]

/-- Only a live key is dropped. -/
theorem upstream_of_drop {client : Nat} {key : SubKey}
    (drop : (st.detachEntry client key).2 = true) : st.Upstream key := by
  unfold detachEntry at drop
  cases found : st.getEntry key with
  | none => simp [found] at drop
  | some e =>
      simp only [found, leave] at drop
      split at drop
      · next empty =>
          simp only [abandoned, Bool.and_eq_true] at empty
          exact ⟨e, found, empty.1.2⟩
      · cases drop

/-- The critical section of `detach` touches no source and no client. -/
theorem requests_detachEntry (client : Nat) (key : SubKey) :
    (st.detachEntry client key).1.requests = st.requests := by
  unfold detachEntry
  split <;> rfl

theorem clients_detachEntry (client : Nat) (key : SubKey) :
    (st.detachEntry client key).1.clients = st.clients := by
  unfold detachEntry
  split <;> rfl

theorem heap_detachEntry (client : Nat) (key : SubKey) :
    (st.detachEntry client key).1.heap = st.heap := by
  unfold detachEntry
  split <;> rfl

/-! ### What each piece announces -/

theorem announces_subscribeEntry (now client : Nat) (key : SubKey) :
    st.Announces (if (st.subscribeEntry now client key).2
      then ((st.subscribeEntry now client key).1.broadcastCtrl (.subscribe key), .fresh)
      else ((st.subscribeEntry now client key).1, SubscribeOutcome.joined)).1 := by
  have live := fun other => st.upstream_subscribeEntry now client key other
  have need := st.subscribeEntry_need now client key
  split
  · next needed =>
      refine .asks (.subscribe key) (requests_broadcastCtrl _ _) ?_ ?_ (iff_of_true ?_ rfl)
      · exact fun other differs => (live other).trans (or_iff_right differs)
      · exact iff_of_false (need.mp needed) (not_not.mpr rfl)
      · exact (live key).mpr (Or.inl rfl)
  · next alive =>
      refine .silent rfl fun other => (live other).trans (or_iff_right_of_imp ?_)
      intro same
      rw [same]
      exact not_not.mp (mt need.mpr alive)

theorem announces_pin (now : Nat) (key : SubKey) : st.Announces (st.pin now key) := by
  have pinned := fun other => st.getEntry_pin now key other
  have live : (st.pin now key).Upstream key := ⟨_, (pinned key).trans (if_pos rfl), rfl⟩
  have others : ∀ other, other ≠ key → ((st.pin now key).Upstream other ↔ st.Upstream other) :=
    fun other differs => upstream_congr ((pinned other).trans (if_neg differs))
  have flag := st.entryOr_upstreamSubscribed now key
  cases known : (st.entryOr now key).upstreamSubscribed with
  | false =>
      refine .asks (.subscribe key) ?_ others ?_ (iff_of_true live rfl)
      · simp only [pin, known, Bool.not_false, if_true, requests_broadcastCtrl]
        rfl
      · refine iff_of_false (fun was => ?_) (not_not.mpr rfl)
        rw [flag.mpr was] at known
        cases known
  | true =>
      refine .silent ?_ fun other => ?_
      · simp only [pin, known, Bool.not_true, Bool.false_eq_true, if_false]
        rfl
      · by_cases same : other = key
        · subst same
          exact iff_of_true live (flag.mp known)
        · exact others other same

theorem announces_detach (client : Nat) (key : SubKey) : st.Announces (st.detach client key) := by
  have live := fun other => st.upstream_detachEntry client key other
  unfold detach
  dsimp only
  split
  · next drop =>
      refine .asks (.unsubscribe key) ?_ ?_ ?_ (iff_of_false ?_ (by simp))
      · show ((st.detachEntry client key).1.broadcastCtrl _).requests = _
        rw [requests_broadcastCtrl, requests_detachEntry]
      · intro other differs
        replace differs : other ≠ key := differs
        refine (upstream_congr ?_).trans ((live other).trans (and_iff_left ?_))
        · rw [getEntry_removeEntry, if_neg differs]
          rfl
        · exact fun both => differs both.1
      · exact iff_of_true (upstream_of_drop drop) (by simp)
      · rintro ⟨e, found, -⟩
        have gone := getEntry_removeEntry
          ((st.detachEntry client key).1.broadcastCtrl (.unsubscribe key)) key key
        rw [if_pos rfl] at gone
        exact Option.some_ne_none e (found.symm.trans gone)
  · next stays =>
      refine .silent (requests_detachEntry client key) fun other => (live other).trans ?_
      exact and_iff_left fun both => stays both.2

end Requests

theorem tuned_start (ids : List Nat) :
    Tuned (AppState.new (ids.map ({ id := · })) : Live) := by
  intro key sent member
  simp only [requests, AppState.new, List.map_map, List.mem_map] at member
  obtain ⟨id, -, rfl⟩ := member
  apply iff_of_false (by simp [lastRequest])
  rintro ⟨e, found, -⟩
  cases found

theorem requests_of_traffic {op : Op} (traffic : op.isTraffic = true) :
    (st.step op).requests = st.requests := by
  cases op with
  | onUpdate now message =>
      show (st.onUpdate now _ _ _ message).requests = _
      simp only [onUpdate, requests_fanOut, requests_notifyKills, requests_countVerdict]
      rfl
  | deliverSnapshot who fetched =>
      show (st.deliverSnapshot _ who _ _ _).requests = _
      have kept : (st.deliverSnapshotEntry fetched.key who fetched.source fetched.height
          fetched.message).1.requests = st.requests := by
        unfold deliverSnapshotEntry
        split <;> rfl
      unfold deliverSnapshot
      dsimp only
      split
      · rw [requests_release, kept]
      · exact kept
  | failPending key who =>
      show (st.failPending key who).requests = _
      unfold failPending
      split
      · rfl
      · split <;> rfl
  | resyncAfterSourceLoss source => rfl
  | receive who => rfl
  | close who => rfl
  | _ => cases traffic

/-! ### Handles -/

/-- The clients on the registry and the next id to be handed out. -/
def handles {β : Type} (st : AppState β) : List Nat × Nat := (st.clients, st.nextClientId)

/-- A fold of steps that leave the handles alone leaves them alone. -/
theorem handles_foldl {α : Type} {β : Type} (f : AppState β → α → AppState β)
    (keeps : ∀ st item, (f st item).handles = st.handles) (items : List α)
    (st : AppState β) : (items.foldl f st).handles = st.handles := by
  induction items generalizing st with
  | nil => rfl
  | cons item rest inductionHypothesis =>
      rw [List.foldl_cons, inductionHypothesis, keeps]

theorem handles_release {β : Type} (st : AppState β) (who : Nat) (backlog : List β) :
    (st.release who backlog).handles = st.handles := by
  induction backlog generalizing st with
  | nil => rfl
  | cons msg rest inductionHypothesis =>
      unfold release
      dsimp only
      split
      · exact inductionHypothesis _
      · rfl

theorem handles_detach {β : Type} (st : AppState β) (who : Nat) (key : SubKey) :
    (st.detach who key).handles = st.handles := by
  unfold detach detachEntry
  cases st.getEntry key with
  | none => rfl
  | some e =>
      dsimp only
      split <;> rfl

/-- Registering a client hands the next id out, cleaning up takes a client off, and nothing else
moves the handles. -/
theorem handles_step (op : Op) :
    (st.step op).handles =
      match op with
      | .registerClient _ => (st.nextClientId :: st.clients, st.nextClientId + 1)
      | .cleanupClient who => (st.clients.filter (· ≠ who), st.nextClientId)
      | _ => st.handles := by
  cases op with
  | registerClient ip => rfl
  | subscribe now who key =>
      show (st.subscribe now who key).1.handles = _
      unfold subscribe
      dsimp only
      split
      · rfl
      · split <;> rfl
  | pin now key =>
      show (st.pin now key).handles = _
      unfold pin
      dsimp only
      split <;> rfl
  | unsubscribe who key =>
      show (st.unsubscribe who key).1.handles = _
      unfold unsubscribe
      split
      · exact handles_detach _ who key
      · rfl
  | onUpdate now message =>
      have sent := fun st recipients => handles_foldl (fun (st : Live) client =>
        st.modifyClient client (·.forward message.key.isIncremental message)) (fun _ _ => rfl)
        recipients st
      exact (sent _ _).trans (handles_foldl notifyKill (fun _ _ => rfl) _ _)
  | deliverSnapshot who fetched =>
      show (st.deliverSnapshot _ who _ _ _).handles = _
      have kept : (st.deliverSnapshotEntry fetched.key who fetched.source fetched.height
          fetched.message).1.handles = st.handles := by
        unfold deliverSnapshotEntry
        split <;> rfl
      unfold deliverSnapshot
      dsimp only
      split
      · rw [handles_release, kept]
      · exact kept
  | failPending key who =>
      show (st.failPending key who).handles = _
      unfold failPending
      split
      · rfl
      · split <;> rfl
  | resyncAfterSourceLoss source => rfl
  | cleanupClient who =>
      exact handles_foldl _ (fun st key => handles_detach st who key) _ _
  | receive who => rfl
  | close who => rfl

theorem nextClientId_step (op : Op) :
    (st.step op).nextClientId =
      match op with
      | .registerClient _ => st.nextClientId + 1
      | _ => st.nextClientId := by
  have moved := congrArg Prod.snd (st.handles_step op)
  cases op <;> exact moved

theorem clients_step (op : Op) :
    (st.step op).clients =
      match op with
      | .registerClient _ => st.nextClientId :: st.clients
      | .cleanupClient who => st.clients.filter (· ≠ who)
      | _ => st.clients := by
  have moved := congrArg Prod.fst (st.handles_step op)
  cases op <;> exact moved

theorem loseSource_upstreamSubscribed (source : Nat) (key : SubKey) (e : SubEntry Message) :
    (e.loseSource source key).1.upstreamSubscribed = e.upstreamSubscribed := by
  unfold SubEntry.loseSource
  split_ifs <;> rfl

theorem upstream_of_traffic {op : Op} (traffic : op.isTraffic = true) (key : SubKey) :
    (st.step op).Upstream key ↔ st.Upstream key := by
  cases op with
  | onUpdate now message =>
      unfold Upstream
      rw [getEntry_step, entryAfter]
      split
      · next same =>
          subst same
          simp only [Option.some.injEq, exists_eq_left', SubEntry.update_upstreamSubscribed]
          exact entryOr_upstreamSubscribed now message.key
      · rfl
  | deliverSnapshot who fetched =>
      unfold Upstream
      rw [getEntry_step, entryAfter]
      split
      · cases st.getEntry key with
        | none => simp
        | some e => simp [(rebuild_arbitration e key who _ _ _).2.2.2.2]
      · rfl
  | failPending failed who =>
      unfold Upstream
      rw [getEntry_step, entryAfter]
      split
      · cases st.getEntry key <;> simp [givenUp]
      · rfl
  | resyncAfterSourceLoss source =>
      unfold Upstream
      rw [getEntry_step, entryAfter]
      cases st.getEntry key <;> simp [loseSource_upstreamSubscribed]
  | receive who => exact upstream_congr (getEntry_step _ _ key)
  | close who => exact upstream_congr (getEntry_step _ _ key)
  | _ => cases traffic

/-! ### Every operation, piece by piece -/

/-- What every piece keeps, every operation keeps. -/
theorem announced_step {P : Live → Prop}
    (keeps : ∀ {st after : Live}, P st → st.Announces after → P after) (holds : P st) (op : Op) :
    P (st.step op) := by
  have traffic : ∀ {op : Op}, op.isTraffic = true → P (st.step op) := fun traffic =>
    keeps holds (.silent (requests_of_traffic traffic) (upstream_of_traffic traffic))
  cases op with
  | registerClient ip => exact keeps holds (.silent rfl fun _ => Iff.rfl)
  | subscribe now who key =>
      show P (st.subscribe now who key).1
      unfold subscribe
      split
      · exact holds
      · have still : P (st.insertSubscription who key) :=
          keeps holds (.silent rfl fun _ => Iff.rfl)
        exact keeps still (announces_subscribeEntry now who key)
  | pin now key => exact keeps holds (announces_pin now key)
  | unsubscribe who key =>
      show P (st.unsubscribe who key).1
      unfold unsubscribe
      split
      · have still : P (st.removeSubscription who key) :=
          keeps holds (.silent rfl fun _ => Iff.rfl)
        exact keeps still (announces_detach who key)
      · exact holds
  | cleanupClient who =>
      have all : ∀ (keys : List SubKey) (st : Live), P st →
          P (keys.foldl (fun st key => st.detach who key) st) := by
        intro keys
        induction keys with
        | nil => exact fun _ holds => holds
        | cons first rest inductionHypothesis =>
            exact fun st holds => inductionHypothesis _ (keeps holds (announces_detach who first))
      exact all _ _ (keeps holds (.silent rfl fun _ => Iff.rfl))
  | onUpdate now message => exact traffic rfl
  | deliverSnapshot who fetched => exact traffic rfl
  | failPending key who => exact traffic rfl
  | resyncAfterSourceLoss source => exact traffic rfl
  | receive who => exact traffic rfl
  | close who => exact traffic rfl

/-- Every operation keeps the requests in agreement with the entries. -/
theorem tuned_step (tuned : st.Tuned) (op : Op) : (st.step op).Tuned :=
  announced_step (P := Tuned) Tuned.announced tuned op

/-- Whatever an operation asks, it asks of every source. -/
theorem requests_step (op : Op) :
    ∃ said, (st.step op).requests = st.requests.map (· ++ said) := by
  refine announced_step (P := fun after => ∃ said, after.requests = st.requests.map (· ++ said))
    ?_ ⟨[], by simp⟩ op
  rintro before after ⟨said, asked⟩ announces
  cases announces with
  | silent requests _ => exact ⟨said, requests.trans asked⟩
  | asks req requests _ _ _ =>
      refine ⟨said ++ [req], requests.trans ?_⟩
      rw [asked, List.map_map]
      exact List.map_congr_left fun sent _ => List.append_assoc sent said [req]

/-- The requests sent to one source, whose id is its place among the sources. -/
def sentTo (st : Live) (source : Nat) : List SubRequest := (st.requests[source]?).getD []

theorem sentTo_step (op : Op) (source : Nat) :
    ∃ more, (st.step op).sentTo source = st.sentTo source ++ more := by
  obtain ⟨said, asked⟩ := st.requests_step op
  rw [sentTo, asked, List.getElem?_map, sentTo]
  cases st.requests[source]? with
  | none => exact ⟨[], rfl⟩
  | some sent => exact ⟨said, rfl⟩

/-- A key whose last request to some source was to subscribe is live upstream. -/
theorem Tuned.upstream_of_sentTo (tuned : st.Tuned) {key : SubKey} {source : Nat}
    (last : lastRequest key (st.sentTo source) = some (.subscribe key)) : st.Upstream key := by
  unfold sentTo at last
  cases sent : st.requests[source]? with
  | none =>
      rw [sent] at last
      cases last
  | some requests =>
      rw [sent] at last
      exact (tuned key requests (List.mem_of_getElem? sent)).mp last

/-- A source is subscribed to every key that is live upstream. -/
theorem Tuned.last_sentTo (tuned : st.Tuned) {key : SubKey} {source : Nat}
    (known : source < st.sources.length) (live : st.Upstream key) :
    lastRequest key (st.sentTo source) = some (.subscribe key) := by
  have inside : source < st.requests.length := by rwa [requests, List.length_map]
  have sent : st.requests[source]? = some st.requests[source] := List.getElem?_eq_getElem inside
  rw [sentTo, sent]
  exact (tuned key _ (List.getElem_mem inside)).mpr live

/-- The keys a reconnecting source is subscribed to are those live upstream. -/
theorem mem_subscribedRequests {key : SubKey} :
    .subscribe key ∈ st.subscribedRequests ↔ st.Upstream key := by
  rw [subscribedRequests, List.mem_map]
  constructor
  · rintro ⟨⟨other, e⟩, member, same⟩
    obtain ⟨entered, live⟩ := List.mem_filter.mp member
    obtain rfl := SubRequest.subscribe.inj same
    exact ⟨e, AList.mem_lookup_iff.mpr entered, live⟩
  · intro ⟨e, found, live⟩
    exact ⟨⟨key, e⟩, List.mem_filter.mpr ⟨AList.mem_lookup_iff.mp found, live⟩, rfl⟩

end AppState

end Wsarb
