import Wsarb.Server.Replies

/-!
Owns what the machine of texts puts in a client's queue, event by event: the answer to a request of
its own, a text let through for a key it stands on, or the backlog a fetched snapshot opens with.
Owns that the answers leave the client with exactly the keys it holds, as long as each found room,
and that everything else is, letter for letter, a text some source sent for a key it asked for.

Does not own: which of the texts are let through.
-/

namespace Wsarb

open Wsarb.Library AppState

/-- What a request is answered with, once it is acted on. -/
def ClientMessage.answer : ClientMessage → String
  | .ping => pong
  | .subscribe key => (SubRequest.subscribe key.normalized).ack
  | .unsubscribe key => (SubRequest.unsubscribe key.normalized).ack

/-- A source's text is let through for a key, or handed over as a snapshot of it. -/
def Event.Lets (setting : Setting) (key : SubKey) (text : String) : Event → Prop
  | .upstream _ wall later _ sent =>
      sent = text ∧ ∃ seq, handleText setting.frame wall later setting.maxAge sent = .update key seq
  | .fetched _ asked answers =>
      asked = key ∧ ∃ source height,
        fetchSnapshot setting.frame asked answers = some (source, height, text)
  | _ => False

namespace AppState

/-- What a snapshot releases was held behind the client it is for. -/
theorem mem_backlog? {β : Type} {st : AppState β} {key : SubKey} {client source height : Nat}
    {snapshot item : β}
    (member : item ∈ (st.backlog? key client source height snapshot).getD []) :
    ∃ e p, st.getEntry key = some e ∧ p ∈ e.pending ∧ p.client = client ∧
      (item = snapshot ∨ ∃ frame ∈ p.held, frame.2.2 = item) := by
  rw [backlog?] at member
  cases found : st.getEntry key with
  | none =>
      rw [found] at member
      exact absurd member List.not_mem_nil
  | some e =>
      rw [found, Option.bind_some, SubEntry.rebuild] at member
      cases parked : e.pending.find? (·.client == client) with
      | none =>
          rw [parked] at member
          exact absurd member List.not_mem_nil
      | some p =>
          rw [parked] at member
          refine ⟨e, p, rfl, List.mem_of_find?_eq_some parked, ?_, ?_⟩
          · simpa using List.find?_some parked
          · rcases List.mem_cons.mp member with same | released
            · exact Or.inl same
            · obtain ⟨frame, kept, same⟩ := List.mem_map.mp released
              exact Or.inr ⟨frame, List.mem_of_mem_filter kept, same⟩

/-- Every frame held behind a client is of the key it waits on, and one of these. -/
def Holding (R : Message → Prop) (st : Live) : Prop :=
  ∀ key e, st.getEntry key = some e → ∀ p ∈ e.pending, ∀ frame ∈ p.held,
    frame.2.2.key = key ∧ R frame.2.2

theorem Holding.step {R : Message → Prop} {st : Live} (holding : Holding R st) (op : Op)
    (good : ∀ now message, op = .onUpdate now message → R message) : Holding R (st.step op) := by
  intro key e found p member frame held
  cases waits found member with
  | stayed before listed silent => exact holding key _ before _ listed frame held
  | @piled now message old entry before listed goesOut fits =>
      rcases List.mem_append.mp held with earlier | last
      · exact holding key _ before _ listed frame earlier
      · rw [List.mem_singleton.mp last]
        exact ⟨(forwardedBy_onUpdate_iff.mp goesOut).1, good now message rfl⟩
  | joined incremental absent live alone => exact absurd held List.not_mem_nil
  | orphaned before incremental leads attached => exact absurd held List.not_mem_nil

end AppState

namespace Proxy

def op (proxy : Proxy) : Call → Option Op
  | .accept ip => some (.registerClient ip)
  | .subscribe now client key =>
      if client < proxy.st.nextClientId ∧ unsupported key.normalized = none then
        some (.subscribe now client key.normalized)
      else none
  | .unsubscribe client key => some (.unsubscribe client key.normalized)
  | .pin now key => some (.pin now key)
  | .frame now message => some (.onUpdate now message)
  | .lose source => some (.resyncAfterSourceLoss source)
  | .answered client fetched =>
      if proxy.fetches.contains (fetched.key, client) then some (.deliverSnapshot client fetched)
      else none
  | .unanswered client key =>
      if proxy.fetches.contains (key, client) then some (.failPending key client) else none
  | .disconnect client => some (.cleanupClient client)
  | .receive client => some (.receive client)
  | .close client => some (.close client)

/-- A call performs its operation, and nothing else on the shared state. -/
theorem st_step (proxy : Proxy) (call : Call) :
    (proxy.step call).st = (proxy.op call).elim proxy.st proxy.st.step := by
  cases call with
  | subscribe now client key =>
      rw [step, op, handleSubscribe]
      cases unsupported key.normalized <;> by_cases out : client < proxy.st.nextClientId <;>
        simp [out, AppState.step]
  | answered client fetched =>
      simp only [step, op, finish, List.contains_iff_mem]
      split <;> rfl
  | unanswered client key =>
      simp only [step, op, finish, List.contains_iff_mem]
      split <;> rfl
  | _ => rfl

/-- Whoever comes on the registry was handed out just now. -/
theorem joins {proxy : Proxy} {call : Call} {client : Nat}
    (there : client ∈ (proxy.step call).st.clients) :
    client ∈ proxy.st.clients ∨
      (∃ ip, call = .accept ip) ∧ client = proxy.st.nextClientId := by
  rw [proxy.st_step] at there
  cases performed : proxy.op call with
  | none =>
      rw [performed] at there
      exact Or.inl there
  | some op =>
      rw [performed, Option.elim_some, clients_step] at there
      cases op with
      | registerClient ip =>
          rcases List.mem_cons.mp there with new | old
          · cases call with
            | accept other => exact Or.inr ⟨⟨other, rfl⟩, new⟩
            | _ => simp [op] at performed
          · exact Or.inl old
      | cleanupClient who => exact Or.inl (List.mem_of_mem_filter there)
      | _ => exact Or.inl there

end Proxy

namespace Server

variable {setting : Setting} {proxy : Proxy} {server : Server} {client : Nat} {event : Event}

/-! ### What an event sends -/

/-- The request that is granted to a client that is connected. -/
def grants (server : Server) (client : Nat) : ClientMessage → Option SubRequest
  | .ping => none
  | .subscribe key =>
      if unsupported key.normalized = none then some (.subscribe key.normalized) else none
  | .unsubscribe key =>
      if key.normalized ∈ server.st.subscriptions client then some (.unsubscribe key.normalized)
      else none

/-- What a client that is connected is answered. -/
def replies (server : Server) (client : Nat) : ClientMessage → List String
  | .ping => [pong]
  | message => (server.grants client message).toList.map SubRequest.ack

def granted (setting : Setting) (server : Server) (client : Nat) : Event → Option SubRequest
  | .request _ who text =>
      if who = client ∧ who ∈ server.st.clients then
        (setting.request text).bind (server.grants client)
      else none
  | _ => none

/-- What an event offers to a client's queue. -/
def sends (setting : Setting) (server : Server) (client : Nat) : Event → List String
  | .request _ who text =>
      if who = client ∧ who ∈ server.st.clients then
        (setting.request text).elim [] (server.replies client)
      else []
  | .upstream now wall later source text =>
      match handleText setting.frame wall later setting.maxAge text with
      | .update key seq =>
          List.replicate ((server.st.recipients now source key seq text).count client) text
      | _ => []
  | .fetched who key asked =>
      if client = who ∧ server.fetches.contains (key, who) then
        match fetchSnapshot setting.frame key asked with
        | some (source, height, text) =>
            (server.st.backlog? key who source height text).getD []
        | none => []
      else []
  | _ => []

theorem tx_reply (st : AppState String) (who other : Nat) (text : String) :
    ((reply st who text).heap other).tx =
      if other = who then (st.heap who).tx.push text else (st.heap other).tx := by
  rw [reply, heap_modifyClient]
  split <;> rfl

theorem log_of_tx {st after : AppState String}
    (same : (after.heap client).tx = (st.heap client).tx) : after.log client = st.log client :=
  congrArg Mailbox.accepted same

/-- A client's own writer adds nothing to its queue. -/
theorem log_of_writer (st : AppState String) (who : Nat) {g : Mailbox String → Mailbox String}
    (keeps : ∀ box, (g box).accepted = box.accepted) :
    (st.modifyClient who fun c => { c with tx := g c.tx }).log client = st.log client := by
  rw [AppState.log, heap_modifyClient, AppState.log]
  split
  · next same => rw [keeps, same]
  · rfl

theorem handleRequest_subscribe {now : Nat} {text : String} {key : SubKey}
    (read : setting.request text = some (.subscribe key))
    (served : unsupported key.normalized = none) :
    (server.handleRequest setting now client text).st =
      reply (server.st.subscribe now client key.normalized).1 client
        (SubRequest.subscribe key.normalized).ack := by
  simp only [handleRequest, read, served]

theorem handleRequest_unsubscribe {now : Nat} {text : String} {key : SubKey}
    (read : setting.request text = some (.unsubscribe key))
    (holds : key.normalized ∈ server.st.subscriptions client) :
    (server.handleRequest setting now client text).st =
      reply (server.st.unsubscribe client key.normalized).1 client
        (SubRequest.unsubscribe key.normalized).ack := by
  have told : (server.st.unsubscribe client key.normalized).2 = true := by
    simp [unsubscribe, holds]
  simp only [handleRequest, read, told, if_true]

/-- Acting on a request leaves the queues alone, but for its answer. -/
theorem handleRequest_st (server : Server) (now who : Nat) (text : String) :
    ∃ st : AppState String, (∀ other, (st.heap other).tx = (server.st.heap other).tx) ∧
      (server.handleRequest setting now who text).st =
        ((setting.request text).elim [] (server.replies who)).foldl (reply · who ·) st := by
  cases read : setting.request text with
  | none =>
      refine ⟨server.st, fun _ => rfl, ?_⟩
      rw [handleRequest, read]
      rfl
  | some message =>
      cases message with
      | ping =>
          refine ⟨server.st, fun _ => rfl, ?_⟩
          rw [handleRequest, read]
          rfl
      | subscribe key =>
          by_cases served : unsupported key.normalized = none
          · have said : server.replies who (.subscribe key) =
                [(SubRequest.subscribe key.normalized).ack] := by
              simp [replies, grants, served]
            refine ⟨_, server.st.tx_subscribe now who key.normalized, ?_⟩
            rw [handleRequest_subscribe read served, Option.elim_some, said]
            rfl
          · obtain ⟨reason, refused⟩ := Option.ne_none_iff_exists'.mp served
            have said : server.replies who (.subscribe key) = [] := by
              simp [replies, grants, served]
            refine ⟨server.st, fun _ => rfl, ?_⟩
            simp only [handleRequest, read, refused, Option.elim_some, said, List.foldl_nil]
      | unsubscribe key =>
          refine ⟨_, server.st.tx_unsubscribe who key.normalized, ?_⟩
          by_cases holds : key.normalized ∈ server.st.subscriptions who
          · have said : server.replies who (.unsubscribe key) =
                [(SubRequest.unsubscribe key.normalized).ack] := by
              simp [replies, grants, holds]
            rw [handleRequest_unsubscribe read holds, Option.elim_some, said]
            rfl
          · have told : (server.st.unsubscribe who key.normalized).2 = false := by
              simp [unsubscribe, holds]
            have said : server.replies who (.unsubscribe key) = [] := by
              simp [replies, grants, holds]
            simp only [handleRequest, read, told, Option.elim_some, said, Bool.false_eq_true,
              if_false, List.foldl_nil]

theorem tx_replies (answers : List String) (who other : Nat) (st : AppState String) :
    ((answers.foldl (reply · who ·) st).heap other).tx =
      if other = who then (st.heap who).tx.offer answers else (st.heap other).tx := by
  induction answers generalizing st with
  | nil => simp only [List.foldl_nil, Mailbox.offer_nil]; split <;> simp_all
  | cons answer rest inductionHypothesis =>
      rw [List.foldl_cons, inductionHypothesis, tx_reply, tx_reply, if_pos rfl, Mailbox.offer_cons]
      split <;> rfl

/-- What an event adds to a client's queue, unless it hands the client's handle out. -/
theorem log_step (event : Event)
    (old : ∀ ip, event = .accept ip → client ≠ server.st.nextClientId) :
    (server.step setting event).st.log client =
      server.st.log client ++
        (server.sends setting client event).take (server.st.heap client).tx.room := by
  have unmoved_accepted {st : AppState String} (same : st.log client = server.st.log client) :
      st.log client = server.st.log client ++
        ([] : List String).take (server.st.heap client).tx.room := by
    rw [same, List.take_nil, List.append_nil]
  have unmoved {st : AppState String} (same : (st.heap client).tx = (server.st.heap client).tx) :
      st.log client = server.st.log client ++
        ([] : List String).take (server.st.heap client).tx.room :=
    unmoved_accepted (log_of_tx same)
  cases event with
  | accept ip =>
      have other : client ≠ server.st.nextClientId := old ip rfl
      apply unmoved
      simp [step, registerClient, Function.update_of_ne other]
  | request now who text =>
      rw [step, sends]
      by_cases on : who ∈ server.st.clients
      · obtain ⟨st, same, handled⟩ := server.handleRequest_st now who text
        rw [if_pos on, handled, AppState.log, tx_replies, same, same]
        by_cases own : client = who
        · rw [if_pos own, if_pos ⟨own.symm, on⟩, Mailbox.accepted_offer, own, AppState.log]
        · rw [if_neg own, if_neg fun both => own both.1.symm]
          exact unmoved_accepted rfl
      · rw [if_neg on, if_neg fun both => on both.2]
        exact unmoved_accepted rfl
  | pin now coin => exact unmoved (by simp [step])
  | upstream now wall later source text =>
      rw [step, sends]
      cases handleText setting.frame wall later setting.maxAge text with
      | update key seq =>
          dsimp only
          rw [AppState.log, tx_onUpdate, Mailbox.accepted_offer, AppState.log]
      | _ => exact unmoved rfl
  | lose source => exact unmoved rfl
  | fetched who key asked =>
      rw [step, finishFetch, sends]
      by_cases ours : (key, who) ∈ server.fetches
      · simp only [List.contains_iff_mem, ours, if_true, and_true]
        cases fetchSnapshot setting.frame key asked with
        | none =>
            dsimp only
            rw [ite_self]
            exact unmoved (tx_failPending server.st key who client)
        | some found =>
            obtain ⟨source, height, snapshot⟩ := found
            dsimp only
            rw [AppState.log, tx_deliverSnapshot]
            split
            · next same => rw [Mailbox.accepted_offer, same, AppState.log]
            · exact unmoved_accepted rfl
      · simp [ours]
  | disconnect who => exact unmoved (tx_cleanupClient server.st who client)
  | receive who => exact unmoved_accepted (log_of_writer _ who Mailbox.accepted_receive)
  | close who => exact unmoved_accepted (log_of_writer _ who Mailbox.accepted_close)

/-! ### What is sent, and what it tells -/

theorem frame_of_snapshotFrom {key : SubKey} {texts : List String} {height : Nat} {text : String}
    (answers : snapshotFrom fromStr key texts = some (height, text)) :
    text ∈ texts ∧ (fromStr text).bind route = some (key, .snapshot height) := by
  induction texts with
  | nil => cases answers
  | cons first rest inductionHypothesis =>
      have later (answers : snapshotFrom fromStr key rest = some (height, text)) :
          text ∈ first :: rest ∧ (fromStr text).bind route = some (key, .snapshot height) := by
        obtain ⟨member, routed⟩ := inductionHypothesis answers
        exact ⟨List.mem_cons_of_mem first member, routed⟩
      rw [snapshotFrom] at answers
      split at answers
      · next found routed =>
          split at answers
          · next same =>
              obtain ⟨rfl, rfl⟩ := Prod.mk.inj (Option.some.inj answers)
              exact ⟨List.mem_cons_self, by rw [routed, same]⟩
          · exact later answers
      · exact later answers

theorem frame_of_fetchSnapshot {key : SubKey} {asked : List (Nat × List String)}
    {source height : Nat} {text : String}
    (answers : fetchSnapshot fromStr key asked = some (source, height, text)) :
    (∃ texts, (source, texts) ∈ asked ∧ text ∈ texts) ∧
      (fromStr text).bind route = some (key, .snapshot height) := by
  obtain ⟨answer, member, there⟩ := List.exists_of_findSome?_eq_some answers
  obtain ⟨snapshot, taken, same⟩ := Option.map_eq_some_iff.mp there
  obtain ⟨rfl, rfl⟩ := Prod.mk.inj same
  obtain ⟨listed, routed⟩ := frame_of_snapshotFrom taken
  exact ⟨⟨answer.2, member, listed⟩, routed⟩

/-- What is let through is a frame of its key. -/
theorem routed_of_lets {key : SubKey} {text : String} (lets : event.Lets setting key text) :
    ∃ frame seq, setting.frame text = some frame ∧ route frame = some (key, seq) := by
  cases event with
  | upstream now wall later source sent =>
      obtain ⟨rfl, seq, goes⟩ := lets
      obtain ⟨frame, read, routed⟩ := admits_of_update goes
      exact ⟨frame, seq, read, routed⟩
  | fetched client asked answers =>
      obtain ⟨rfl, source, height, found⟩ := lets
      obtain ⟨frame, read, routed⟩ := Option.bind_eq_some_iff.mp (frame_of_fetchSnapshot found).2
      exact ⟨frame, .snapshot height, read, routed⟩
  | _ => exact lets.elim

/-- A frame the proxy is called with was let through. -/
theorem lets_of_call {now : Nat} {message : Message}
    (called : server.call setting event = some (.frame now message)) :
    event.Lets setting message.key message.text := by
  cases event with
  | upstream arrived wall later source text =>
      rw [call] at called
      split at called
      · next key seq goes =>
          split at called
          · obtain ⟨-, rfl⟩ := Proxy.Call.frame.inj (Option.some.inj called)
            exact ⟨rfl, seq, goes⟩
          · cases called
      · cases called
  | request arrived who text =>
      rw [call] at called
      split at called
      · obtain ⟨message, -, asked⟩ := Option.bind_eq_some_iff.mp called
        cases message <;> cases asked
      · cases called
  | fetched who key asked =>
      rw [call] at called
      unfold fetchedCall at called
      split at called
      · cases called
      · split at called <;> cases called
  | _ => cases called

/-- The registries side by side, with what is held behind the clients. -/
structure Stocked (R : SubKey → String → Prop) (proxy : Proxy) (server : Server) : Prop where
  shows' : Shows proxy server
  holding : Holding (fun message => R message.key message.text) proxy.st

theorem stocked_start (R : SubKey → String → Prop) (ids : List Nat) :
    Stocked R (Proxy.start (ids.map ({ id := · }))) (Server.start (ids.map ({ id := · }))) where
  shows' := shows_start ids
  holding := fun _ _ found => nomatch found

/-- What is held stays of a kind as long as what is let through is. -/
theorem Stocked.step {R : SubKey → String → Prop} (stocked : Stocked R proxy server)
    (event : Event) (good : ∀ key text, event.Lets setting key text → R key text) :
    Stocked R (after proxy (server.call setting event)) (server.step setting event) where
  shows' := stocked.shows'.step event
  holding := by
    cases called : server.call setting event with
    | none => exact stocked.holding
    | some call =>
        show Holding _ (proxy.step call).st
        rw [proxy.st_step]
        cases performed : proxy.op call with
        | none => exact stocked.holding
        | some op =>
            apply stocked.holding.step
            intro now message heard
            subst heard
            have frame : call = .frame now message := by
              cases call with
              | frame arrived other =>
                  obtain ⟨rfl, rfl⟩ := Op.onUpdate.inj (Option.some.inj performed)
                  rfl
              | _ => simp [Proxy.op] at performed
            exact good _ _ (lets_of_call (frame ▸ called))

/-- Whoever stands on an entry holds its key. -/
theorem Shows.holds (shows' : Shows proxy server) {key : SubKey} {e : SubEntry String}
    (found : server.st.getEntry key = some e) (stands : e.Stands client) :
    client ∈ server.st.clients ∧ key ∈ server.st.subscriptions client := by
  have same := shows'.mirrors.getEntry key
  rw [found] at same
  obtain ⟨routed, there, rfl⟩ := Option.map_eq_some_iff.mp same.symm
  have listed : client ∈ routed.members := by
    rw [SubEntry.mem_members]
    exact stands.imp id fun waits => by rwa [SubEntry.isRebuilding_carry] at waits
  rw [shows'.mirrors.clients, shows'.mirrors.subscriptions]
  exact shows'.registered.accord.listed key routed there client listed

theorem answer_of_replies {message : ClientMessage} {text : String}
    (member : text ∈ server.replies client message) : text = message.answer := by
  cases message with
  | ping => exact List.mem_singleton.mp member
  | subscribe key =>
      obtain ⟨req, granted, rfl⟩ := List.mem_map.mp member
      rw [Option.mem_toList, grants] at granted
      split at granted
      · obtain rfl := Option.some.inj granted
        rfl
      · cases granted
  | unsubscribe key =>
      obtain ⟨req, granted, rfl⟩ := List.mem_map.mp member
      rw [Option.mem_toList, grants] at granted
      split at granted
      · obtain rfl := Option.some.inj granted
        rfl
      · cases granted

/-- What is sent to a client answers its own request, or is of a key it holds and let through. -/
theorem Stocked.sent {R : SubKey → String → Prop} (stocked : Stocked R proxy server)
    {text : String} (member : text ∈ server.sends setting client event) :
    (∃ now asked message, event = .request now client asked ∧
        setting.request asked = some message ∧ text = message.answer) ∨
      ∃ key, (client ∈ server.st.clients ∧ key ∈ server.st.subscriptions client) ∧
        (R key text ∨ event.Lets setting key text) := by
  cases event with
  | request now who asked =>
      rw [sends] at member
      split at member
      · next own =>
          obtain ⟨rfl, -⟩ := own
          cases read : setting.request asked with
          | none =>
              rw [read] at member
              exact absurd member List.not_mem_nil
          | some message =>
              rw [read] at member
              exact Or.inl ⟨now, asked, message, rfl, read, answer_of_replies member⟩
      · exact absurd member List.not_mem_nil
  | upstream now wall later source sent =>
      rw [sends] at member
      split at member
      · next key seq goes =>
          obtain ⟨some', rfl⟩ := List.mem_replicate.mp member
          have listed := List.count_pos_iff.mp (Nat.pos_of_ne_zero some')
          obtain ⟨e, found, -, attached⟩ :=
            (server.st.mem_recipients now source key seq text client).mp listed
          exact Or.inr ⟨key, stocked.shows'.holds found (Or.inl attached),
            Or.inr ⟨rfl, seq, goes⟩⟩
      · exact absurd member List.not_mem_nil
  | fetched who key asked =>
      rw [sends] at member
      split at member
      · next ours =>
          obtain ⟨rfl, -⟩ := ours
          cases answers : fetchSnapshot setting.frame key asked with
          | none =>
              rw [answers] at member
              exact absurd member List.not_mem_nil
          | some found =>
              obtain ⟨source, height, snapshot⟩ := found
              rw [answers] at member
              obtain ⟨e, p, there, waits, named, from'⟩ := mem_backlog? member
              have stands : e.Stands client :=
                Or.inr ((e.isRebuilding_iff_mem client).mpr ⟨p, waits, named⟩)
              refine Or.inr ⟨key, stocked.shows'.holds there stands, ?_⟩
              rcases from' with rfl | ⟨frame, held, same⟩
              · exact Or.inr ⟨rfl, source, height, answers⟩
              · have mirrored := stocked.shows'.mirrors.getEntry key
                rw [there] at mirrored
                obtain ⟨routed, behind, rfl⟩ := Option.map_eq_some_iff.mp mirrored.symm
                obtain ⟨parked, listed, rfl⟩ := List.mem_map.mp waits
                obtain ⟨message, kept, rfl⟩ := List.mem_map.mp held
                obtain ⟨ofKey, kind⟩ := stocked.holding key routed behind parked listed message kept
                rw [ofKey] at kind
                exact Or.inl (same ▸ kind)
      · exact absurd member List.not_mem_nil
  | _ => exact absurd member List.not_mem_nil

/-! ### Everything a client is sent -/

/-- The machine after a run, beside a proxy that holds only what the run let through. -/
theorem stocked_run (setting : Setting) (ids : List Nat) (events : List Event) :
    ∃ proxy, Stocked (fun key text => ∃ event ∈ events, event.Lets setting key text) proxy
      (Library.run (step setting) (Server.start (ids.map ({ id := · }))) events) := by
  induction events using List.reverseRecOn with
  | nil => exact ⟨_, stocked_start _ ids⟩
  | append_singleton before event inductionHypothesis =>
      obtain ⟨proxy, stocked⟩ := inductionHypothesis
      have wider : Stocked (fun key text =>
          ∃ cause ∈ before ++ [event], cause.Lets setting key text) proxy
          (Library.run (step setting) (Server.start (ids.map ({ id := · }))) before) := by
        refine ⟨stocked.shows', fun key e found p waits frame held => ?_⟩
        obtain ⟨same, cause, member, lets⟩ := stocked.holding key e found p waits frame held
        exact ⟨same, cause, List.mem_append_left _ member, lets⟩
      rw [run_append]
      exact ⟨_, wider.step event fun key text lets =>
        ⟨event, List.mem_append_right before List.mem_cons_self, lets⟩⟩

/-- Whatever was ever put in a client's queue was put there by one event: as the answer to a request
of the client's own, or, letter for letter, as a text that was let through for a key by then, while
the client was connected and held that key. -/
theorem own_texts (setting : Setting) (ids : List Nat) (events : List Event) (client : Nat) :
    let start := Server.start (ids.map ({ id := · }))
    ∀ text ∈ (Library.run (step setting) start events).st.log client,
      ∃ before event later, events = before ++ event :: later ∧
        ((∃ now asked message, event = .request now client asked ∧
            setting.request asked = some message ∧ text = message.answer) ∨
          ∃ key, (∃ cause ∈ before ++ [event], cause.Lets setting key text) ∧
            client ∈ (Library.run (step setting) start before).st.clients ∧
            key ∈ (Library.run (step setting) start before).st.subscriptions client) := by
  intro start
  induction events using List.reverseRecOn with
  | nil => exact fun text member => absurd member List.not_mem_nil
  | append_singleton before event inductionHypothesis =>
      intro text member
      rw [run_append] at member
      obtain ⟨proxy, stocked⟩ := stocked_run setting ids before
      by_cases fresh : ∃ ip, event = .accept ip ∧
          client = (Library.run (step setting) start before).st.nextClientId
      · obtain ⟨ip, rfl, same⟩ := fresh
        have blank : ((Library.run (step setting) start before).step setting (.accept ip)).st.log
            client = [] := by
          rw [same]
          simp [step, registerClient, AppState.log, Client.new, Mailbox.new]
        exact absurd (blank ▸ member) List.not_mem_nil
      · have grown : ((Library.run (step setting) start before).step setting event).st.log client =
            _ := log_step event
          (fun ip accepted same => fresh ⟨ip, accepted, same⟩)
        have member : text ∈ ((Library.run (step setting) start before).step setting event).st.log
            client := member
        rw [grown] at member
        rcases List.mem_append.mp member with earlier | new
        · obtain ⟨first, cause, later, rfl, put⟩ := inductionHypothesis text earlier
          exact ⟨first, cause, later ++ [event], by simp, put⟩
        · refine ⟨before, event, [], rfl, ?_⟩
          rcases stocked.sent (List.mem_of_mem_take new) with answer | ⟨key, ⟨on, holds⟩, source⟩
          · exact Or.inl answer
          · refine Or.inr ⟨key, ?_, on, holds⟩
            rcases source with ⟨cause, listed, lets⟩ | lets
            · exact ⟨cause, List.mem_append_left _ listed, lets⟩
            · exact ⟨event, List.mem_append_right before List.mem_cons_self, lets⟩

/-! ### What the answers add up to -/

theorem accept_of_call {ip : String} (called : server.call setting event = some (.accept ip)) :
    event = .accept ip := by
  cases event with
  | accept other =>
      obtain rfl := Proxy.Call.accept.inj (Option.some.inj called)
      rfl
  | upstream now wall later source text =>
      rw [call] at called
      split at called
      · split at called <;> cases called
      · cases called
  | request now who text =>
      rw [call] at called
      split at called
      · obtain ⟨message, -, asked⟩ := Option.bind_eq_some_iff.mp called
        cases message <;> cases asked
      · cases called
  | fetched who key asked =>
      rw [call] at called
      unfold fetchedCall at called
      split at called
      · cases called
      · split at called <;> cases called
  | _ => cases called

/-- Whoever comes on the registry was handed out by this event. -/
theorem Shows.joins (shows' : Shows proxy server) (off : client ∉ server.st.clients)
    (there : client ∈ (server.step setting event).st.clients) :
    ∃ ip, event = .accept ip ∧ client = server.st.nextClientId := by
  have next : Shows _ (server.step setting event) := shows'.step event
  rw [next.mirrors.clients] at there
  rw [shows'.mirrors.clients] at off
  rw [shows'.mirrors.nextClientId]
  cases called : server.call setting event with
  | none =>
      rw [called] at there
      exact absurd there off
  | some call =>
      rw [called] at there
      rcases Proxy.joins there with old | ⟨⟨ip, rfl⟩, same⟩
      · exact absurd old off
      · obtain rfl := accept_of_call called
        exact ⟨ip, rfl, same⟩

/-- Two lists of the same keys hold the same keys after a request. -/
theorem mem_apply_congr {held other : List SubKey} (same : ∀ key, key ∈ held ↔ key ∈ other)
    (req : SubRequest) (key : SubKey) : key ∈ req.apply held ↔ key ∈ req.apply other := by
  cases req with
  | subscribe asked =>
      have member (keys : List SubKey) :
          key ∈ (SubRequest.subscribe asked).apply keys ↔ key = asked ∨ key ∈ keys := by
        rw [SubRequest.apply]
        split
        · next held => exact (or_iff_right_of_imp fun same => same ▸ held).symm
        · exact List.mem_cons
      rw [member held, member other, same key]
  | unsubscribe asked => simp [SubRequest.apply, List.mem_filter, same key]

/-- An event changes the keys of a client that stays connected by the request it is granted. -/
theorem Shows.subscriptions_step (shows' : Shows proxy server) (on : client ∈ server.st.clients)
    (event : Event) (stays : client ∈ (server.step setting event).st.clients) (key : SubKey) :
    key ∈ (server.step setting event).st.subscriptions client ↔
      key ∈ (server.granted setting client event).toList.foldl SubRequest.apply
        (server.st.subscriptions client) := by
  have next : Shows _ (server.step setting event) := shows'.step event
  rw [next.mirrors.clients] at stays
  rw [next.mirrors.subscriptions, shows'.mirrors.subscriptions]
  have out {who : Nat} (there : who ∈ server.st.clients) : who < proxy.st.nextClientId :=
    shows'.registered.enrolled.out who (shows'.mirrors.clients ▸ there)
  have performed (call : Proxy.Call) : (proxy.step call).st.subscriptions client =
      (proxy.op call).elim (proxy.st.subscriptions client)
        (proxy.st.subscriptionsAfter client) := by
    rw [proxy.st_step]
    cases proxy.op call with
    | none => rfl
    | some op => exact AppState.subscriptions_step op
  have quiet (call : Proxy.Call) (same : (proxy.op call).elim (proxy.st.subscriptions client)
      (proxy.st.subscriptionsAfter client) = proxy.st.subscriptions client) :
      key ∈ (proxy.step call).st.subscriptions client ↔ key ∈ proxy.st.subscriptions client := by
    rw [performed, same]
  cases event with
  | request now who text =>
      have own : (server.granted setting client (.request now who text)) =
          if who = client then (setting.request text).bind (server.grants client) else none := by
        rw [granted]
        by_cases same : who = client
        · rw [if_pos same, if_pos ⟨same, same ▸ on⟩, ← same]
        · rw [if_neg same, if_neg fun both => same both.1]
      rw [own, call]
      by_cases there : who ∈ server.st.clients
      · rw [if_pos there]
        cases setting.request text with
        | none => simp [after]
        | some message =>
            cases message with
            | ping => simp [after, requestCall, grants]
            | subscribe asked =>
                show key ∈ (proxy.step (.subscribe now who asked)).st.subscriptions client ↔ _
                rw [performed, Proxy.op, Option.bind_some, grants]
                by_cases served : unsupported asked.normalized = none
                · rw [if_pos ⟨out there, served⟩, if_pos served, Option.elim_some,
                    subscriptionsAfter]
                  by_cases same : who = client
                  · subst same
                    by_cases holds : asked.normalized ∈ proxy.st.subscriptions who <;>
                      simp [holds, SubRequest.apply]
                  · rw [if_neg same, if_neg fun both => same both.1.symm]
                    rfl
                · rw [if_neg fun both => served both.2, if_neg served, ite_self]
                  rfl
            | unsubscribe asked =>
                show key ∈ (proxy.step (.unsubscribe who asked)).st.subscriptions client ↔ _
                rw [performed, Proxy.op, Option.elim_some, subscriptionsAfter, Option.bind_some,
                  grants, shows'.mirrors.subscriptions]
                by_cases same : who = client
                · subst same
                  by_cases holds : asked.normalized ∈ proxy.st.subscriptions who
                  · simp [holds, SubRequest.apply]
                  · simp only [if_true, if_neg holds, Option.toList_none, List.foldl_nil,
                      List.mem_filter, decide_eq_true_eq, and_iff_left_iff_imp]
                    exact fun member same => holds (same ▸ member)
                · rw [if_neg same, if_neg (Ne.symm same)]
                  rfl
      · have other : who ≠ client := fun same => there (same ▸ on)
        rw [if_neg there, if_neg other]
        rfl
  | accept ip =>
      show key ∈ (proxy.step (.accept ip)).st.subscriptions client ↔ _
      rw [performed, Proxy.op, Option.elim_some, subscriptionsAfter, if_neg (Nat.ne_of_lt (out on))]
      rfl
  | disconnect who =>
      have differs : client ≠ who := by
        have stays : client ∈ (proxy.st.step (.cleanupClient who)).clients := stays
        rw [clients_step] at stays
        simpa using (List.mem_filter.mp stays).2
      show key ∈ (proxy.step (.disconnect who)).st.subscriptions client ↔ _
      rw [performed, Proxy.op, Option.elim_some, subscriptionsAfter, if_neg differs]
      rfl
  | upstream now wall later source text =>
      rw [call]
      split
      · split
        · exact quiet (.frame now _) rfl
        · rfl
      · rfl
  | fetched who asked answers =>
      rw [call]
      unfold fetchedCall
      split
      · refine quiet (.unanswered who asked) ?_
        rw [Proxy.op]
        split <;> rfl
      · split
        · refine quiet (.answered who _) ?_
          rw [Proxy.op]
          split <;> rfl
        · rfl
  | pin now coin => exact quiet (.pin now (.bbo coin)) rfl
  | lose source => exact quiet (.lose source) rfl
  | receive who => exact quiet (.receive who) rfl
  | close who => exact quiet (.close who) rfl

theorem told_replies (message : ClientMessage) :
    (server.replies client message).filterMap told = (server.grants client message).toList := by
  cases message with
  | ping => simp [replies, grants, told_pong]
  | subscribe key =>
      simp only [replies, grants]
      split <;> simp [told_ack]
  | unsubscribe key =>
      simp only [replies, grants]
      split <;> simp [told_ack]

theorem length_replies (message : ClientMessage) :
    (server.replies client message).length ≤ 1 := by
  cases message with
  | ping => exact Nat.le_refl 1
  | subscribe key =>
      simp only [replies, grants]
      split <;> simp
  | unsubscribe key =>
      simp only [replies, grants]
      split <;> simp

/-- A request of the client's finds room in the client's queue. -/
def Roomy (client : Nat) (server : Server) : Event → Prop
  | .request _ who _ => who = client → 0 < (server.st.heap client).tx.room
  | _ => True

instance (event : Event) : Decidable (Roomy client server event) := by
  cases event <;> unfold Roomy <;> infer_instance

/-- What is held behind the clients are frames. -/
def Framed (setting : Setting) (_ : SubKey) (text : String) : Prop :=
  ∃ frame, setting.frame text = some frame

/-- What is read as a frame acknowledges nothing. -/
theorem told_of_frame (apart : ∀ req : SubRequest, setting.frame req.ack = none) {text : String}
    {frame : Frame} (read : setting.frame text = some frame) : told text = none :=
  told_eq_none fun req same => by
    rw [same, apart req] at read
    cases read

/-- Of what an event puts in a client's queue, the client is told what it was granted. -/
theorem told_sends (apart : ∀ req : SubRequest, setting.frame req.ack = none)
    (stocked : Stocked (Framed setting) proxy server) (roomy : Roomy client server event) :
    ((server.sends setting client event).take (server.st.heap client).tx.room).filterMap told =
      (server.granted setting client event).toList := by
  have frames (none' : server.granted setting client event = none)
      (other : ∀ now asked, event ≠ .request now client asked) :
      ((server.sends setting client event).take (server.st.heap client).tx.room).filterMap told =
        (server.granted setting client event).toList := by
    rw [none', Option.toList_none, List.filterMap_eq_nil_iff]
    intro text member
    rcases stocked.sent (List.mem_of_mem_take member) with ⟨now, asked, _, same, -⟩ | ⟨key, -, sent⟩
    · exact absurd same (other now asked)
    · rcases sent with ⟨frame, read⟩ | lets
      · exact told_of_frame apart read
      · obtain ⟨frame, seq, read, -⟩ := routed_of_lets lets
        exact told_of_frame apart read
  cases event with
  | request now who text =>
      by_cases own : who = client ∧ who ∈ server.st.clients
      · rw [sends, granted, if_pos own, if_pos own, ← own.1]
        cases setting.request text with
        | none => simp
        | some message =>
            have room : 0 < (server.st.heap who).tx.room := own.1 ▸ roomy own.1
            have short : (server.replies who message).length ≤ 1 := length_replies message
            rw [Option.elim_some, Option.bind_some, List.take_of_length_le (by omega)]
            exact told_replies message
      · rw [sends, granted, if_neg own, if_neg own, List.take_nil]
        rfl
  | _ => exact frames rfl fun _ _ same => nomatch same

/-- As long as a client that is connected has had room in its queue at each of its requests, it
holds exactly the keys that the acknowledgements in its queue, each applied in its turn, leave it
subscribed to; provided that no acknowledgement is read as a source's frame. -/
theorem acknowledged_keys (setting : Setting)
    (apart : ∀ req : SubRequest, setting.frame req.ack = none) (ids : List Nat)
    (events : List Event) (client : Nat)
    (roomy : Throughout (step setting) (Roomy client) (Server.start (ids.map ({ id := · }))) events)
    (on : client ∈ (Library.run (step setting) (Server.start (ids.map ({ id := · })))
      events).st.clients) (key : SubKey) :
    let server := Library.run (step setting) (Server.start (ids.map ({ id := · }))) events
    key ∈ server.st.subscriptions client ↔
      key ∈ subscribedOn ((server.st.log client).filterMap told) := by
  intro server
  let Kept : Server → Prop := fun server =>
    (∃ proxy, Stocked (Framed setting) proxy server) ∧ (client ∈ server.st.clients →
      ∀ key, key ∈ server.st.subscriptions client ↔
        key ∈ subscribedOn ((server.st.log client).filterMap told))
  have keeps : ∀ (server : Server) (event : Event), Kept server → Roomy client server event →
      Kept (server.step setting event) := by
    intro server event ⟨⟨proxy, stocked⟩, agrees⟩ roomy
    have next : Stocked (Framed setting) (after proxy (server.call setting event))
        (server.step setting event) :=
      stocked.step event fun key text lets => by
        obtain ⟨frame, seq, read, -⟩ := routed_of_lets lets
        exact ⟨frame, read⟩
    refine ⟨⟨_, next⟩, fun stays key => ?_⟩
    by_cases on : client ∈ server.st.clients
    · have old : ∀ ip, event = .accept ip → client ≠ server.st.nextClientId := by
        intro ip _ same
        have out := stocked.shows'.registered.enrolled.out client
          (stocked.shows'.mirrors.clients ▸ on)
        rw [same, stocked.shows'.mirrors.nextClientId] at out
        exact Nat.lt_irrefl _ out
      rw [stocked.shows'.subscriptions_step on event stays, log_step event old,
        List.filterMap_append, told_sends apart stocked roomy, subscribedOn, List.foldl_append,
        ← subscribedOn]
      cases server.granted setting client event with
      | none => exact agrees on key
      | some req => exact mem_apply_congr (agrees on) req key
    · obtain ⟨ip, rfl, same⟩ := stocked.shows'.joins on stays
      have blank : (server.step setting (.accept ip)).st.heap client = Client.new ip := by
        rw [same]
        exact Function.update_self ..
      rw [AppState.subscriptions, AppState.log, blank]
      rfl
  have kept : Kept server := run_keeps keeps events
    ⟨⟨_, stocked_start (Framed setting) ids⟩, fun on => absurd on List.not_mem_nil⟩ roomy
  exact kept.2 on key

/-- A client that has asked for one key while its queue was empty holds it, and was told so. -/
theorem acknowledged_keys_subscribed :
    let setting : Setting := ⟨ClientMessage.read, Frame.read, none⟩
    let events := [Event.accept "127.0.0.1",
      .request 0 1 (SubRequest.subscribe (.l4Book "BTC")).json]
    let server := Library.run (step setting) (Server.start ([0, 1].map ({ id := · }))) events
    SubKey.l4Book "BTC" ∈ server.st.subscriptions 1 ∧
      (SubKey.l4Book "BTC" ∈ server.st.subscriptions 1 ↔
        SubKey.l4Book "BTC" ∈ subscribedOn ((server.st.log 1).filterMap told)) := by
  intro setting events server
  let accepted := (Server.start ([0, 1].map ({ id := · }))).step setting (.accept "127.0.0.1")
  have on : 1 ∈ accepted.st.clients := by decide
  have room : 0 < (accepted.st.heap 1).tx.room := by decide
  have read : setting.request (SubRequest.subscribe (.l4Book "BTC")).json =
      some (.subscribe (.l4Book "BTC")) := ClientMessage.read_json (.subscribe (.l4Book "BTC"))
  have subscribed : server.st = reply (accepted.st.subscribe 0 1 (.l4Book "BTC")).1 1
      (SubRequest.subscribe (.l4Book "BTC")).ack := by
    have ran : server = accepted.step setting
        (.request 0 1 (SubRequest.subscribe (.l4Book "BTC")).json) := rfl
    rw [ran, step, if_pos on]
    exact handleRequest_subscribe read rfl
  have holds : SubKey.l4Book "BTC" ∈ server.st.subscriptions 1 := by
    rw [subscribed, AppState.subscriptions, reply, heap_modifyClient]
    decide
  have still : 1 ∈ server.st.clients := by
    rw [subscribed]
    decide
  exact ⟨holds, acknowledged_keys setting read_ack [0, 1] events 1
    ⟨trivial, fun _ => room, trivial⟩ still _⟩

end Server

end Wsarb
