import Wsarb.Server.Refinement
import Wsarb.Upstream.Meeting

/-!
Owns which keys the proxy comes to know: whatever the clients ask for and the sources send, every
key on the registry, held by a client, asked of a source or fetched for is in the one spelling a
request and a frame meet at, and none of them is of the channel that is refused.

Does not own: that request and frame meet there.
-/

namespace Wsarb

open Wsarb.Library AppState

namespace AppState

variable {P : SubKey → Prop} {st : Live}

/-- Every key the shared state knows is one of these. -/
structure Keyed (P : SubKey → Prop) {β : Type} (st : AppState β) : Prop where
  entries : ∀ key e, st.getEntry key = some e → P key
  held : ∀ client, ∀ key ∈ st.subscriptions client, P key
  asked : ∀ sent ∈ st.requests, ∀ req ∈ sent, P req.key

/-- The key an operation can bring in. -/
def Brings (P : SubKey → Prop) : Op → Prop
  | .subscribe _ _ key | .pin _ key => P key
  | .onUpdate _ message => P message.key
  | _ => True

theorem keyed_new (P : SubKey → Prop) (ids : List Nat) :
    Keyed P (AppState.new (β := Message) (ids.map ({ id := · }))) where
  entries := fun _ _ found => nomatch found
  held := fun _ _ member => absurd member List.not_mem_nil
  asked := by
    intro sent member req asked
    obtain ⟨source, listed, rfl⟩ := List.mem_map.mp member
    obtain ⟨id, -, rfl⟩ := List.mem_map.mp listed
    exact absurd asked List.not_mem_nil

/-- The requests have grown, by requests about these keys at most. -/
def Asks {β : Type} (P : SubKey → Prop) (st after : AppState β) : Prop :=
  ∃ said, after.requests = st.requests.map (· ++ said) ∧ ∀ req ∈ said, P req.key

theorem asks_nothing {β : Type} {st after : AppState β} (same : after.requests = st.requests) :
    Asks P st after :=
  ⟨[], by simp [same], fun _ member => absurd member List.not_mem_nil⟩

theorem Asks.trans {β : Type} {st after last : AppState β} (first : Asks P st after)
    (second : Asks P after last) : Asks P st last := by
  obtain ⟨said, asked, good⟩ := first
  obtain ⟨more, asked', good'⟩ := second
  refine ⟨said ++ more, ?_, ?_⟩
  · rw [asked', asked, List.map_map]
    exact List.map_congr_left fun sent _ => List.append_assoc sent said more
  · intro req member
    exact (List.mem_append.mp member).elim (good req) (good' req)

theorem asks_broadcastCtrl {β : Type} (st : AppState β) {req : SubRequest} (good : P req.key) :
    Asks P st (st.broadcastCtrl req) :=
  ⟨[req], requests_broadcastCtrl st req, fun _ member => List.mem_singleton.mp member ▸ good⟩

theorem asks_detach {β : Type} (st : AppState β) (client : Nat) {key : SubKey} (good : P key) :
    Asks P st (st.detach client key) := by
  have left : Asks P st (st.detachEntry client key).1 :=
    asks_nothing (requests_detachEntry client key)
  unfold detach
  dsimp only
  split
  · exact left.trans (asks_broadcastCtrl _ good)
  · exact left

theorem asks_detachAll {β : Type} (client : Nat) (keys : List SubKey) (good : ∀ key ∈ keys, P key) :
    ∀ st : AppState β, Asks P st (keys.foldl (fun st key => st.detach client key) st) := by
  induction keys with
  | nil => exact fun st => asks_nothing rfl
  | cons key rest inductionHypothesis =>
      obtain ⟨first, later⟩ := List.forall_mem_cons.mp good
      exact fun st => (asks_detach st client first).trans (inductionHypothesis later _)

theorem Keyed.asks (keyed : Keyed P st) (op : Op) (brings : Brings P op) :
    Asks P st (st.step op) := by
  cases op with
  | subscribe now client key =>
      show Asks P st (st.subscribe now client key).1
      unfold subscribe
      split
      · exact asks_nothing rfl
      · dsimp only
        split
        · exact Asks.trans (asks_nothing rfl) (asks_broadcastCtrl _ brings)
        · exact asks_nothing rfl
  | pin now key =>
      show Asks P st (st.pin now key)
      unfold pin
      dsimp only
      split
      · exact Asks.trans (asks_nothing rfl) (asks_broadcastCtrl _ brings)
      · exact asks_nothing rfl
  | unsubscribe client key =>
      show Asks P st (st.unsubscribe client key).1
      unfold unsubscribe
      split
      · next member =>
          exact Asks.trans (asks_nothing rfl) (asks_detach _ client (keyed.held client key member))
      · exact asks_nothing rfl
  | cleanupClient client =>
      exact Asks.trans (asks_nothing rfl) (asks_detachAll client _ (keyed.held client) _)
  | registerClient ip => exact asks_nothing rfl
  | _ => exact asks_nothing (requests_of_traffic rfl)

/-- The keys stay these as long as these are the keys brought in. -/
theorem Keyed.step (keyed : Keyed P st) (op : Op) (brings : Brings P op) :
    Keyed P (st.step op) where
  entries := by
    intro key e found
    have old : ∀ {other}, st.getEntry key = some other → P key :=
      fun {other} there => keyed.entries key other there
    rw [getEntry_step] at found
    cases op with
    | subscribe now client subscribed =>
        rw [entryAfter] at found
        split at found
        · next both => exact both.1 ▸ brings
        · exact old found
    | pin now pinned =>
        rw [entryAfter] at found
        split at found
        · next same => exact same ▸ brings
        · exact old found
    | onUpdate now message =>
        rw [entryAfter] at found
        split at found
        · next same => exact same ▸ brings
        · exact old found
    | unsubscribe client left =>
        rw [entryAfter] at found
        split at found
        · next both => exact keyed.held client key both.2
        · exact old found
    | cleanupClient client =>
        rw [entryAfter] at found
        split at found
        · next member => exact keyed.held client key member
        · exact old found
    | deliverSnapshot client fetched =>
        rw [entryAfter] at found
        split at found
        · obtain ⟨other, there, -⟩ := Option.map_eq_some_iff.mp found
          exact old there
        · exact old found
    | failPending failed client =>
        rw [entryAfter] at found
        split at found
        · obtain ⟨other, there, -⟩ := Option.map_eq_some_iff.mp found
          exact old there
        · exact old found
    | resyncAfterSourceLoss source =>
        obtain ⟨other, there, -⟩ := Option.map_eq_some_iff.mp found
        exact old there
    | _ => exact old found
  held := by
    intro client key member
    have old := keyed.held client key
    rw [subscriptions_step] at member
    cases op with
    | registerClient ip =>
        rw [subscriptionsAfter] at member
        split at member
        · exact absurd member List.not_mem_nil
        · exact old member
    | subscribe now who subscribed =>
        rw [subscriptionsAfter] at member
        split at member
        · exact (List.mem_cons.mp member).elim (fun same => same ▸ brings) old
        · exact old member
    | unsubscribe who left =>
        rw [subscriptionsAfter] at member
        split at member
        · exact old (List.mem_of_mem_filter member)
        · exact old member
    | cleanupClient who =>
        rw [subscriptionsAfter] at member
        split at member
        · exact absurd member List.not_mem_nil
        · exact old member
    | _ => exact old member
  asked := by
    obtain ⟨said, grown, good⟩ := keyed.asks op brings
    intro sent member req asked
    rw [grown] at member
    obtain ⟨before, listed, rfl⟩ := List.mem_map.mp member
    exact (List.mem_append.mp asked).elim (keyed.asked before listed req) (good req)

end AppState

/-! ### The keys of the proxy -/

namespace SubKey

/-- The key is in the one spelling, and not of the refused channel. -/
def Agreed (key : SubKey) : Prop := key.normalized = key ∧ ∀ coin, key ≠ .bookDiffs coin

theorem normalized_normalized (key : SubKey) : key.normalized.normalized = key.normalized := by
  have levels (nLevels : Option UInt64) :
      (nLevels.filter (· ≠ defaultL2Levels)).filter (· ≠ defaultL2Levels) =
        nLevels.filter (· ≠ defaultL2Levels) := by
    cases nLevels with
    | none => rfl
    | some n => by_cases same : n = defaultL2Levels <;> simp [Option.filter, same]
  cases key with
  | orderUpdates user => exact congrArg orderUpdates (toAsciiLowercase_idem user)
  | l2Book coin nSigFigs nLevels mantissa =>
      exact congrArg (l2Book coin nSigFigs · mantissa) (levels nLevels)
  | l2Diff coin nSigFigs nLevels mantissa =>
      exact congrArg (l2Diff coin nSigFigs · mantissa) (levels nLevels)
  | _ => rfl

/-- What a client asks for and is not refused. -/
theorem agreed_of_supported {key : SubKey} (supported : unsupported key.normalized = none) :
    key.normalized.Agreed := by
  refine ⟨normalized_normalized key, ?_⟩
  intro coin same
  rw [same] at supported
  cases supported

/-- What a frame is routed by. -/
theorem agreed_of_route {frame : Frame} {key : SubKey} {seq : Seq}
    (routed : route frame = some (key, seq)) : key.Agreed := by
  constructor
  · obtain ⟨⟨raw, tag⟩, -, same⟩ := Option.bind_eq_some_iff.mp routed
    obtain ⟨rfl, rfl⟩ := Prod.mk.inj (Option.some.inj same)
    exact normalized_normalized raw
  · rintro coin rfl
    have admitted := route_admits routed
    cases seq <;> cases admitted

end SubKey

namespace Proxy

/-- A call brings in agreed keys only; what a client asks for is put in the one spelling on the
way. -/
def Call.Brings : Call → Prop
  | .pin _ key => key.Agreed
  | .frame _ message => message.key.Agreed
  | _ => True

/-- Every key the proxy knows is agreed, and fetches are for incremental channels. -/
structure Keyed (proxy : Proxy) : Prop where
  st : AppState.Keyed SubKey.Agreed proxy.st
  fetches : ∀ fetch ∈ proxy.fetches, fetch.1.Agreed ∧ fetch.1.isIncremental = true

variable {proxy : Proxy}

theorem Keyed.finish (keyed : proxy.Keyed) (fetch : Fetch) (op : Op)
    (brings : AppState.Brings SubKey.Agreed op) : (proxy.finish fetch op).Keyed := by
  unfold Proxy.finish
  split
  · exact ⟨keyed.st.step op brings, fun other member =>
      keyed.fetches other (List.mem_of_mem_erase member)⟩
  · exact keyed

theorem Keyed.step (keyed : proxy.Keyed) (call : Call) (brings : call.Brings) :
    (proxy.step call).Keyed := by
  cases call with
  | subscribe now client key =>
      unfold Proxy.step
      dsimp only
      split
      · unfold handleSubscribe
        dsimp only
        split
        · exact keyed
        · next supported =>
            have agreed := SubKey.agreed_of_supported supported
            refine ⟨keyed.st.step (.subscribe now client key.normalized) agreed, ?_⟩
            intro fetch member
            dsimp only at member
            split at member
            · next joined =>
                rcases List.mem_cons.mp member with rfl | old
                · exact ⟨agreed, joined.2⟩
                · exact keyed.fetches fetch old
            · exact keyed.fetches fetch member
      · exact keyed
  | lose source =>
      refine ⟨keyed.st.step (.resyncAfterSourceLoss source) trivial, ?_⟩
      intro fetch member
      rcases List.mem_append.mp member with lost | old
      · obtain ⟨key, client⟩ := fetch
        obtain ⟨e, found, -, incremental, -⟩ := mem_resync.mp lost
        exact ⟨keyed.st.entries key e found, incremental⟩
      · exact keyed.fetches fetch old
  | answered client fetched => exact keyed.finish _ (.deliverSnapshot client fetched) trivial
  | unanswered client key => exact keyed.finish _ (.failPending key client) trivial
  | accept ip => exact ⟨keyed.st.step (.registerClient ip) trivial, keyed.fetches⟩
  | unsubscribe client key =>
      exact ⟨keyed.st.step (.unsubscribe client key.normalized) trivial, keyed.fetches⟩
  | pin now key => exact ⟨keyed.st.step (.pin now key) brings, keyed.fetches⟩
  | frame now message => exact ⟨keyed.st.step (.onUpdate now message) brings, keyed.fetches⟩
  | disconnect client => exact ⟨keyed.st.step (.cleanupClient client) trivial, keyed.fetches⟩
  | receive client => exact ⟨keyed.st.step (.receive client) trivial, keyed.fetches⟩
  | close client => exact ⟨keyed.st.step (.close client) trivial, keyed.fetches⟩

end Proxy

namespace Server

variable {setting : Setting}

/-- What happens at the sockets brings in agreed keys only. -/
theorem brings_call {server : Server} {event : Event} {call : Proxy.Call}
    (called : server.call setting event = some call) : call.Brings := by
  cases event with
  | pin now coin =>
      obtain rfl := Option.some.inj called
      exact ⟨rfl, fun _ same => nomatch same⟩
  | upstream now wall later source text =>
      rw [Server.call] at called
      split at called
      · next key seq goes =>
          split at called
          · obtain rfl := Option.some.inj called
            obtain ⟨frame, -, routed⟩ := admits_of_update goes
            exact SubKey.agreed_of_route routed
          · cases called
      · cases called
  | request now client text =>
      rw [Server.call] at called
      split at called
      · obtain ⟨message, -, asked⟩ := Option.bind_eq_some_iff.mp called
        cases message with
        | ping => cases asked
        | subscribe key =>
            obtain rfl := Option.some.inj asked
            trivial
        | unsubscribe key =>
            obtain rfl := Option.some.inj asked
            trivial
      · cases called
  | fetched client key asked =>
      rw [Server.call] at called
      unfold fetchedCall at called
      split at called
      · obtain rfl := Option.some.inj called
        trivial
      · split at called
        · obtain rfl := Option.some.inj called
          trivial
        · cases called
  | _ =>
      obtain rfl := Option.some.inj called
      trivial

theorem brings_calls (server : Server) (events : List Event) :
    ∀ call ∈ server.calls setting events, call.Brings := by
  induction events generalizing server with
  | nil => exact fun _ member => absurd member List.not_mem_nil
  | cons event rest inductionHypothesis =>
      intro call member
      rcases List.mem_append.mp member with first | later
      · exact brings_call (Option.mem_toList.mp first)
      · exact inductionHypothesis _ call later

/-- Whatever the clients ask for and the sources send: every key with an entry, every key a client
holds, every key a source has been asked about and every key a snapshot is being fetched for is in
the spelling requests and frames meet at, and not of the refused channel; and snapshots are fetched
for incremental channels only. -/
theorem keys_agree (setting : Setting) (ids : List Nat) (events : List Event) :
    let server := Library.run (step setting) (Server.start (ids.map ({ id := · }))) events
    (∀ key e, server.st.getEntry key = some e → key.Agreed) ∧
      (∀ client, ∀ key ∈ server.st.subscriptions client, key.Agreed) ∧
      (∀ source ∈ server.st.sources, ∀ req ∈ source.ctrlTx, req.key.Agreed) ∧
      ∀ fetch ∈ server.fetches, fetch.1.Agreed ∧ fetch.1.isIncremental = true := by
  intro server
  let first := Server.start (ids.map ({ id := · }))
  have shows' : Shows _ server := (shows_start ids).run events
  have keyed : (Library.run Proxy.step (Proxy.start (ids.map ({ id := · })))
      (first.calls setting events)).Keyed :=
    run_keeps (fun _ call keyed brings => keyed.step call brings) _
      ⟨keyed_new _ ids, fun _ member => absurd member List.not_mem_nil⟩
      (throughout_of_forall _ fun call member _ => brings_calls first events call member)
  refine ⟨?_, ?_, ?_, ?_⟩
  · intro key e found
    have same := shows'.mirrors.getEntry key
    rw [found] at same
    obtain ⟨routed, there, -⟩ := Option.map_eq_some_iff.mp same.symm
    exact keyed.st.entries key routed there
  · intro client key member
    rw [shows'.mirrors.subscriptions] at member
    exact keyed.st.held client key member
  · intro source listed req asked
    rw [shows'.mirrors.sources] at listed
    exact keyed.st.asked _ (List.mem_map_of_mem listed) req asked
  · intro fetch member
    rw [shows'.fetches] at member
    exact keyed.fetches fetch member

end Server

end Wsarb
