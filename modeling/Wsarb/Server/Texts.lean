import Wsarb.State.Payloads
import Wsarb.Upstream.Fetches
import Wsarb.Upstream.Freshness

/-!
Owns the proxy as it stands between two sockets: texts come in from clients and sources, and texts
go out. A client's text is read, acted on and acknowledged in the client's own queue; a source's
text is read, routed and let through the freshness gate; a fetch reads the texts of a throwaway
connection up to the first snapshot of its key.

How `serde_json` reads a text is a parameter. An event is taken whole: a client's teardown, a
frame's fan-out and a snapshot's handing over each come to their end before the next event. What is
only logged is left out. A label that cannot be formatted ends the process, and the run with it.

Does not own: which source a fetch asks first, or when a source is connected; or the orders in
which operations overlap.
-/

namespace Wsarb

open Wsarb.Library Wsarb.Library.Json

/-! ### Acknowledgements -/

/-- An object put together as a value: its members are kept by name. -/
def Library.Json.ofMap (members : Members) : Json :=
  .obj (members.mergeSort fun first second => decide (first.1 ≤ second.1))

namespace SubRequest

def method : SubRequest → String
  | subscribe _ => "subscribe"
  | unsubscribe _ => "unsubscribe"

/-- What `send_ack` writes for a request: the shape the upstream would acknowledge it in. -/
def ackJson (req : SubRequest) : Json :=
  .ofMap [("channel", .str "subscriptionResponse"),
    ("data", .ofMap [("method", .str req.method),
      ("subscription", .ofMap (("type", .str req.key.tag) :: req.key.fields))])]

def ack (req : SubRequest) : String := req.ackJson.print

end SubRequest

def pong : String := (Json.obj [("channel", .str "pong")]).print

/-! ### The snapshot of a throwaway connection -/

/-- The first of the texts that is a snapshot of the key, with its height. -/
def snapshotFrom (fromStr : String → Option Frame) (key : SubKey) :
    List String → Option (Nat × String)
  | [] => none
  | text :: rest =>
      match (fromStr text).bind route with
      | some (found, .snapshot height) =>
          if found = key then some (height, text) else snapshotFrom fromStr key rest
      | _ => snapshotFrom fromStr key rest

/-- The sources a fetch asks in turn, each with the texts its connection carried until it ended or
took too long: who answered first, at which height and with what. -/
def fetchSnapshot (fromStr : String → Option Frame) (key : SubKey)
    (asked : List (Nat × List String)) : Option (Nat × Nat × String) :=
  asked.findSome? fun answer => (snapshotFrom fromStr key answer.2).map (answer.1, ·)

/-! ### The machine -/

/-- What the machine runs with: `serde_json::from_str` for a client's request and for a source's
frame, and the age from which a frame is refused. -/
structure Setting where
  request : String → Option ClientMessage
  frame : String → Option Frame
  maxAge : Option Nat

/-- The shared state over texts, and the fetches under way. -/
structure Server where
  st : AppState String
  fetches : List Fetch

inductive Event
  /-- A client's connection is accepted. -/
  | accept (ip : String)
  /-- A client's text arrives. -/
  | request (now client : Nat) (text : String)
  | pin (now : Nat) (coin : String)
  /-- A source's text arrives; the wall clock reads two times, in milliseconds. -/
  | upstream (now wall later source : Nat) (text : String)
  /-- A source disconnects, or is silent for too long. -/
  | lose (source : Nat)
  /-- A fetch ends. -/
  | fetched (client : Nat) (key : SubKey) (asked : List (Nat × List String))
  /-- A client's connection ends. -/
  | disconnect (client : Nat)
  | receive (client : Nat)
  | close (client : Nat)

namespace Server

def start (sources : List Source) : Server := ⟨AppState.new sources, []⟩

/-- `try_send` of a reply; a reply that does not fit is lost without a trace. -/
def reply (st : AppState String) (client : Nat) (text : String) : AppState String :=
  st.modifyClient client fun c => { c with tx := c.tx.push text }

/-- Parse and act on a client request frame. -/
def handleRequest (setting : Setting) (server : Server) (now client : Nat) (text : String) :
    Server :=
  match setting.request text with
  | none => server
  | some .ping => { server with st := reply server.st client pong }
  | some (.subscribe subscription) =>
      let key := subscription.normalized
      match unsupported key with
      | some _ => server
      | none =>
          let (st, outcome) := server.st.subscribe now client key
          { st := reply st client (SubRequest.subscribe key).ack
            fetches :=
              if outcome = .joined ∧ key.isIncremental = true then (key, client) :: server.fetches
              else server.fetches }
  | some (.unsubscribe subscription) =>
      let key := subscription.normalized
      let (st, held) := server.st.unsubscribe client key
      if held then { server with st := reply st client (SubRequest.unsubscribe key).ack }
      else { server with st := st }

/-- A fetch ends: its snapshot is handed over, or its client is given up. -/
def finishFetch (setting : Setting) (server : Server) (client : Nat) (key : SubKey)
    (asked : List (Nat × List String)) : Server :=
  if server.fetches.contains (key, client) then
    { st :=
        match fetchSnapshot setting.frame key asked with
        | some (source, height, text) => server.st.deliverSnapshot key client source height text
        | none => server.st.failPending key client
      fetches := server.fetches.erase (key, client) }
  else server

/-- One event. A client's texts are read from when it is registered until it is cleaned up. -/
def step (setting : Setting) (server : Server) : Event → Server
  | .accept ip => { server with st := (server.st.registerClient ip).1 }
  | .request now client text =>
      if client ∈ server.st.clients then server.handleRequest setting now client text else server
  | .pin now coin => { server with st := server.st.pin now (.bbo coin) }
  | .upstream now wall later source text =>
      match handleText setting.frame wall later setting.maxAge text with
      | .update key seq => { server with st := server.st.onUpdate now source key seq text }
      | _ => server
  | .lose source =>
      let (st, work) := server.st.resyncAfterSourceLoss source
      { st := st, fetches := work ++ server.fetches }
  | .fetched client key asked => server.finishFetch setting client key asked
  | .disconnect client => { server with st := server.st.cleanupClient client }
  | .receive client =>
      { server with st := server.st.modifyClient client fun c => { c with tx := c.tx.receive } }
  | .close client =>
      { server with st := server.st.modifyClient client fun c => { c with tx := c.tx.close } }

end Server

end Wsarb
