import Wsarb.Server.Texts
import Wsarb.State.Accord

/-!
Owns that the machine of texts, but for what stands in the queues, is the proxy of routed messages:
every event is one of its calls, or none. What holds of that proxy's registry and of its fetches
whatever it is called to do therefore holds of the texts' machine whatever happens at its sockets.

Does not own: what the clients are sent.
-/

namespace Wsarb

open Wsarb.Library AppState

namespace Server

variable {setting : Setting} {fromStr : String → Option Frame} {proxy : Proxy} {server : Server}

/-! ### What an event calls -/

def requestCall (now client : Nat) : ClientMessage → Option Proxy.Call
  | .ping => none
  | .subscribe subscription => some (.subscribe now client subscription)
  | .unsubscribe subscription => some (.unsubscribe client subscription)

def fetchedCall (client : Nat) (key : SubKey) : Option (Nat × Nat × String) → Option Proxy.Call
  | none => some (.unanswered client key)
  | some (source, height, text) =>
      if incremental : key.isIncremental = true then
        some (.answered client ⟨source, key, height, text, incremental⟩)
      else none

/-- The call an event amounts to, if any. -/
def call (setting : Setting) (server : Server) : Event → Option Proxy.Call
  | .accept ip => some (.accept ip)
  | .request now client text =>
      if client ∈ server.st.clients then
        (setting.request text).bind (requestCall now client)
      else none
  | .pin now coin => some (.pin now (.bbo coin))
  | .upstream now wall later source text =>
      match handleText setting.frame wall later setting.maxAge text with
      | .update key seq =>
          if admitted : key.admits seq = true then
            some (.frame now ⟨source, key, seq, text, admitted⟩)
          else none
      | _ => none
  | .lose source => some (.lose source)
  | .fetched client key asked => fetchedCall client key (fetchSnapshot setting.frame key asked)
  | .disconnect client => some (.disconnect client)
  | .receive client => some (.receive client)
  | .close client => some (.close client)

def calls (setting : Setting) : Server → List Event → List Proxy.Call
  | _, [] => []
  | server, event :: rest =>
      (server.call setting event).toList ++ calls setting (server.step setting event) rest

/-! ### The two machines side by side -/

/-- The proxy of routed messages has the registry, the sources and the fetches of the machine of
texts; and the registry is in order. -/
structure Shows (proxy : Proxy) (server : Server) : Prop where
  mirrors : Reflects Message.text proxy.st server.st
  fetches : server.fetches = proxy.fetches
  registered : proxy.st.Registered

theorem shows_start (ids : List Nat) :
    Shows (Proxy.start (ids.map ({ id := · }))) (Server.start (ids.map ({ id := · }))) where
  mirrors := mirrors_new _ _
  fetches := rfl
  registered := registered_new ids

/-- A reply changes one queue and nothing else. -/
theorem alike_reply (st : AppState String) (client : Nat) (text : String) :
    Alike st (reply st client text) := Alike.modifyClient st client fun _ => rfl

/-- A client's own writer changes its queue and nothing else. -/
theorem alike_tx {γ : Type} (st : AppState γ) (client : Nat) (g : Mailbox γ → Mailbox γ) :
    Alike st (st.modifyClient client fun c => { c with tx := g c.tx }) :=
  Alike.modifyClient st client fun _ => rfl

/-- What a snapshot is fetched for has snapshots. -/
theorem incremental_of_snapshotFrom {key : SubKey} {texts : List String} {found : Nat × String}
    (answers : snapshotFrom fromStr key texts = some found) : key.isIncremental = true := by
  induction texts with
  | nil => cases answers
  | cons text rest inductionHypothesis =>
      rw [snapshotFrom] at answers
      split at answers
      · next other height routed =>
          split at answers
          · next same =>
              obtain ⟨frame, -, route⟩ := Option.bind_eq_some_iff.mp routed
              have admitted := route_admits route
              rw [same] at admitted
              cases key <;> simp_all [SubKey.admits, SubKey.isIncremental]
          · exact inductionHypothesis answers
      · exact inductionHypothesis answers

theorem incremental_of_fetchSnapshot {key : SubKey} {asked : List (Nat × List String)}
    {found : Nat × Nat × String} (answers : fetchSnapshot fromStr key asked = some found) :
    key.isIncremental = true := by
  obtain ⟨answer, -, there⟩ := List.exists_of_findSome?_eq_some answers
  obtain ⟨snapshot, taken, -⟩ := Option.map_eq_some_iff.mp there
  exact incremental_of_snapshotFrom taken

/-- What is let through was routed. -/
theorem admits_of_update {wall later : Nat} {text : String} {key : SubKey} {seq : Seq}
    (goes : handleText setting.frame wall later setting.maxAge text = .update key seq) :
    ∃ frame, setting.frame text = some frame ∧ route frame = some (key, seq) := by
  unfold handleText at goes
  split at goes
  · cases goes
  · cases goes
  · next frame _ read =>
      refine ⟨frame, read, ?_⟩
      split at goes
      · cases goes
      · next routed =>
          split_ifs at goes
          injection goes with sameKey sameSeq
          rw [routed, sameKey, sameSeq]

/-- The proxy after a call that may be none. -/
def after (proxy : Proxy) (call : Option Proxy.Call) : Proxy := call.elim proxy proxy.step

theorem Shows.subscribe (shows' : Shows proxy server) {now client : Nat}
    (connected : client ∈ proxy.st.clients) (key : SubKey) :
    let (st, outcome) := server.st.subscribe now client key.normalized
    unsupported key.normalized = none →
    Shows (proxy.step (.subscribe now client key))
      { st := reply st client (SubRequest.subscribe key.normalized).ack
        fetches :=
          if outcome = .joined ∧ key.normalized.isIncremental = true then
            (key.normalized, client) :: server.fetches
          else server.fetches } := by
  intro served
  have out : client < proxy.st.nextClientId := shows'.registered.enrolled.out client connected
  have same := shows'.mirrors.subscribe now client key.normalized
  have called : proxy.step (.subscribe now client key) =
      { st := (proxy.st.subscribe now client key.normalized).1
        fetches :=
          if (proxy.st.subscribe now client key.normalized).2 = .joined ∧
              key.normalized.isIncremental = true then
            (key.normalized, client) :: proxy.fetches
          else proxy.fetches } := by
    simp only [Proxy.step, if_pos out, Proxy.handleSubscribe, served]
  rw [called]
  constructor
  · exact same.1.of_alike (Alike.refl _) (alike_reply _ _ _)
  · show (if (server.st.subscribe now client key.normalized).2 = .joined ∧ _ then _ else _) = _
    simp only [same.2, shows'.fetches]
  · exact shows'.registered.step (.subscribe now client key.normalized) connected

theorem Shows.request (shows' : Shows proxy server) {now client : Nat}
    (connected : client ∈ proxy.st.clients) (text : String) :
    Shows (after proxy ((setting.request text).bind (requestCall now client)))
      (server.handleRequest setting now client text) := by
  have out : client < proxy.st.nextClientId := shows'.registered.enrolled.out client connected
  unfold handleRequest
  cases setting.request text with
  | none => exact shows'
  | some message =>
      cases message with
      | ping =>
          exact ⟨shows'.mirrors.of_alike (Alike.refl _) (alike_reply _ _ _), shows'.fetches,
            shows'.registered⟩
      | subscribe key =>
          cases refused : unsupported key.normalized with
          | some reason =>
              have unmoved : proxy.step (.subscribe now client key) = proxy := by
                simp only [Proxy.step, if_pos out, Proxy.handleSubscribe, refused]
              simp only [refused]
              show Shows (proxy.step (.subscribe now client key)) server
              rw [unmoved]
              exact shows'
          | none =>
              simp only [refused]
              exact shows'.subscribe connected key refused
      | unsubscribe key =>
          have same := shows'.mirrors.unsubscribe client key.normalized
          have registered := shows'.registered.step (.unsubscribe client key.normalized) trivial
          dsimp only
          split
          · exact ⟨same.1.of_alike (Alike.refl _) (alike_reply _ _ _), shows'.fetches, registered⟩
          · exact ⟨same.1, shows'.fetches, registered⟩

theorem Shows.upstream (shows' : Shows proxy server) (now wall later source : Nat)
    (text : String) :
    Shows (after proxy (server.call setting (.upstream now wall later source text)))
      (server.step setting (.upstream now wall later source text)) := by
  rw [call, step]
  cases goes : handleText setting.frame wall later setting.maxAge text with
  | update key seq =>
      obtain ⟨frame, -, routed⟩ := admits_of_update goes
      have admitted := route_admits routed
      simp only [dif_pos admitted]
      exact ⟨shows'.mirrors.onUpdate (fun _ => rfl) now source key seq
        ⟨source, key, seq, text, admitted⟩, shows'.fetches,
        shows'.registered.step (.onUpdate now ⟨source, key, seq, text, admitted⟩) trivial⟩
  | _ => exact shows'

theorem Shows.fetched (shows' : Shows proxy server) (client : Nat) (key : SubKey)
    (asked : List (Nat × List String)) :
    Shows (after proxy (fetchedCall client key (fetchSnapshot setting.frame key asked)))
      (server.finishFetch setting client key asked) := by
  have ended (op : Op) {st : AppState String} (moved : Reflects Message.text (proxy.st.step op) st)
      (registered : (proxy.st.step op).Registered) :
      Shows (proxy.finish (key, client) op)
        (if server.fetches.contains (key, client) then
          { st := st, fetches := server.fetches.erase (key, client) } else server) := by
    simp only [Proxy.finish, shows'.fetches, List.contains_iff_mem]
    split
    · exact ⟨moved, rfl, registered⟩
    · exact shows'
  unfold finishFetch
  cases answers : fetchSnapshot setting.frame key asked with
  | none =>
      exact ended (.failPending key client) (shows'.mirrors.failPending key client)
        (shows'.registered.step (.failPending key client) trivial)
  | some found =>
      obtain ⟨source, height, text⟩ := found
      have incremental := incremental_of_fetchSnapshot answers
      rw [fetchedCall, dif_pos incremental]
      let snapshot : Fetched := ⟨source, key, height, text, incremental⟩
      exact ended (.deliverSnapshot client snapshot)
        (shows'.mirrors.deliverSnapshot key client source height snapshot.message)
        (shows'.registered.step (.deliverSnapshot client snapshot) trivial)

/-- Every event is one call, or none. -/
theorem Shows.step (shows' : Shows proxy server) (event : Event) :
    Shows (after proxy (server.call setting event)) (server.step setting event) := by
  cases event with
  | accept ip =>
      exact ⟨shows'.mirrors.registerClient ip, shows'.fetches,
        shows'.registered.step (.registerClient ip) trivial⟩
  | request now client text =>
      rw [call, Server.step]
      split
      · next connected =>
          rw [shows'.mirrors.clients] at connected
          exact shows'.request connected text
      · exact shows'
  | pin now coin =>
      exact ⟨shows'.mirrors.pin now (.bbo coin), shows'.fetches,
        shows'.registered.step (.pin now (.bbo coin)) trivial⟩
  | upstream now wall later source text => exact shows'.upstream now wall later source text
  | lose source =>
      have same := shows'.mirrors.resyncAfterSourceLoss source
      refine ⟨same.1, ?_, shows'.registered.step (.resyncAfterSourceLoss source) trivial⟩
      show (server.st.resyncAfterSourceLoss source).2 ++ server.fetches =
        (proxy.st.resyncAfterSourceLoss source).2 ++ proxy.fetches
      rw [same.2, shows'.fetches]
  | fetched client key asked => exact shows'.fetched client key asked
  | disconnect client =>
      exact ⟨shows'.mirrors.cleanupClient client, shows'.fetches,
        shows'.registered.step (.cleanupClient client) trivial⟩
  | receive client =>
      exact ⟨shows'.mirrors.of_alike (alike_tx _ _ _) (alike_tx _ _ _), shows'.fetches,
        shows'.registered.step (.receive client) trivial⟩
  | close client =>
      exact ⟨shows'.mirrors.of_alike (alike_tx _ _ _) (alike_tx _ _ _), shows'.fetches,
        shows'.registered.step (.close client) trivial⟩

/-- Every run of events is a run of the calls it amounts to. -/
theorem Shows.run (shows' : Shows proxy server) (events : List Event) :
    Shows (Library.run Proxy.step proxy (server.calls setting events))
      (Library.run (Server.step setting) server events) := by
  induction events generalizing proxy server with
  | nil => exact shows'
  | cons event rest inductionHypothesis =>
      have next : Shows _ (server.step setting event) := shows'.step event
      have stepped := inductionHypothesis next
      have joined : Library.run Proxy.step proxy (server.calls setting (event :: rest)) =
          Library.run Proxy.step (after proxy (server.call setting event))
            ((server.step setting event).calls setting rest) := by
        rw [calls, run_append]
        cases server.call setting event <;> rfl
      rw [joined]
      exact stepped

/-- Whatever happens at the sockets, one event after the other, the machine of texts keeps the
registry, the sources and the fetches of the proxy of routed messages, called as the events amount
to. So nobody stands on an
entry twice, whoever stands on one is connected and holds its key, and whoever is parked on one has
a fetch for it under way. -/
theorem texts_refine_calls (setting : Setting) (ids : List Nat) (events : List Event) :
    let first := Server.start (ids.map ({ id := · }))
    let server := Library.run (step setting) first events
    let proxy := Library.run Proxy.step (Proxy.start (ids.map ({ id := · })))
      (first.calls setting events)
    Reflects Message.text proxy.st server.st ∧ server.fetches = proxy.fetches ∧
      ∀ key e, server.st.getEntry key = some e →
        e.members.Nodup ∧
        (∀ client ∈ e.members,
          client ∈ server.st.clients ∧ key ∈ server.st.subscriptions client) ∧
        ∀ p ∈ e.pending, (key, p.client) ∈ server.fetches := by
  intro first server proxy
  have shows' : Shows proxy server := (shows_start ids).run events
  have attended : proxy.Attended :=
    Reachable.invariant ⟨first.calls setting events, rfl⟩ (Proxy.attended_start _)
      fun _ call attended => attended.step call
  have accord := shows'.registered.accord
  refine ⟨shows'.mirrors, shows'.fetches, fun key e found => ?_⟩
  have same := shows'.mirrors.getEntry key
  rw [found] at same
  obtain ⟨routed, there, rfl⟩ := Option.map_eq_some_iff.mp same.symm
  have members : (routed.carry Message.text).members = routed.members := by
    simp [SubEntry.members, SubEntry.carry, Pending.carry, Function.comp_def]
  rw [members, shows'.mirrors.clients, shows'.fetches]
  refine ⟨accord.once key routed there, ?_, ?_⟩
  · intro client member
    rw [shows'.mirrors.subscriptions]
    exact accord.listed key routed there client member
  · intro p member
    obtain ⟨parked, listed, rfl⟩ := List.mem_map.mp member
    exact attended.fetched key routed there parked listed

end Server

end Wsarb
