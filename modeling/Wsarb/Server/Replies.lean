import Wsarb.Server.Keys
import Wsarb.Upstream.Resubscribing

/-!
Owns what stands in a client's queue: the replies to its own requests, and among them frames of the
keys it holds, each as some source sent it. Owns that a client can tell the two apart, and that the
acknowledgements, applied in their order, leave it with exactly the keys it holds, as long as none
of them found the queue full.

Does not own: which of the frames are forwarded.
-/

namespace Wsarb

open Wsarb.Library Wsarb.Library.Json AppState

/-! ### What an acknowledgement says -/

def SubRequest.ofMethod (method : String) (key : SubKey) : Option SubRequest :=
  if method = "subscribe" then some (.subscribe key)
  else if method = "unsubscribe" then some (.unsubscribe key)
  else none

def toldOfData : Json → Option SubRequest
  | .obj members => do
      let method ← text? members "method"
      match field? members "subscription" with
      | some (some value) => (SubKey.ofJson value).bind (SubRequest.ofMethod method)
      | _ => none
  | _ => none

def toldOfJson : Json → Option SubRequest
  | .obj members =>
      match text? members "channel", field? members "data" with
      | some "subscriptionResponse", some (some data) => toldOfData data
      | _, _ => none
  | _ => none

/-- The request a text is the acknowledgement of, letter for letter. -/
def told (text : String) : Option SubRequest :=
  ((parse openContainers text).bind toldOfJson).filter (·.ack == text)

theorem ofMap_perm (members : Members) :
    (members.mergeSort fun first second => decide (first.1 ≤ second.1)).Perm members :=
  List.mergeSort_perm _ _

/-- What stands in the members an object was put together from stands in the object. -/
theorem standing_ofMap {members : Members} {name : String} {value : Json}
    (stands : standing members name = [value]) :
    standing (members.mergeSort fun first second => decide (first.1 ≤ second.1)) name = [value] :=
  standing_perm (ofMap_perm members).symm (show _ = (some value).toList from stands)

theorem toldOfData_ack (req : SubRequest) :
    toldOfData (.ofMap [("method", .str req.method),
      ("subscription", .ofMap (("type", .str req.key.tag) :: req.key.fields))]) = some req := by
  have method : text? ([("method", .str req.method),
      ("subscription", .ofMap (("type", .str req.key.tag) :: req.key.fields))].mergeSort
        fun first second => decide (first.1 ≤ second.1)) "method" = some req.method :=
    text?_eq_some_iff.mpr (standing_ofMap rfl)
  have subscription : field? ([("method", .str req.method),
      ("subscription", .ofMap (("type", .str req.key.tag) :: req.key.fields))].mergeSort
        fun first second => decide (first.1 ≤ second.1)) "subscription" =
      some (some (.ofMap (("type", .str req.key.tag) :: req.key.fields))) :=
    field?_eq_some_iff.mpr (standing_ofMap rfl)
  have key : SubKey.ofJson (.ofMap (("type", .str req.key.tag) :: req.key.fields)) =
      some req.key :=
    SubKey.ofJson_eq_some_iff.mpr (req.key.spells_written.perm (ofMap_perm _).symm)
  have named : SubRequest.ofMethod req.method req.key = some req := by cases req <;> rfl
  simp only [ofMap] at key subscription method ⊢
  simp only [toldOfData, method, subscription, key, Option.bind_eq_bind, Option.bind_some, named]

theorem toldOfJson_ack (req : SubRequest) : toldOfJson req.ackJson = some req := by
  have channel : text? ([("channel", .str "subscriptionResponse"),
      ("data", .ofMap [("method", .str req.method),
        ("subscription", .ofMap (("type", .str req.key.tag) :: req.key.fields))])].mergeSort
          fun first second => decide (first.1 ≤ second.1)) "channel" =
      some "subscriptionResponse" :=
    text?_eq_some_iff.mpr (standing_ofMap rfl)
  have data : field? ([("channel", .str "subscriptionResponse"),
      ("data", .ofMap [("method", .str req.method),
        ("subscription", .ofMap (("type", .str req.key.tag) :: req.key.fields))])].mergeSort
          fun first second => decide (first.1 ≤ second.1)) "data" = some (some _) :=
    field?_eq_some_iff.mpr (standing_ofMap rfl)
  show (match text? _ "channel", field? _ "data" with
    | some "subscriptionResponse", some (some data) => toldOfData data
    | _, _ => none) = _
  rw [channel, data]
  exact toldOfData_ack req

theorem depthMembers_perm {first second : Members} (perm : first.Perm second) :
    depthMembers first = depthMembers second := by
  induction perm with
  | nil => rfl
  | cons member _ inductionHypothesis => simp only [depthMembers, inductionHypothesis]
  | swap one other rest => simp only [depthMembers, Nat.max_left_comm]
  | trans _ _ first second => exact first.trans second

theorem depth_ofMap (members : Members) : (ofMap members).depth = depthMembers members + 1 := by
  rw [ofMap, depth, depthMembers_perm (ofMap_perm members)]

theorem parse_ack (req : SubRequest) : parse openContainers req.ack = some req.ackJson := by
  have one : max 0 (depthMembers req.key.fields) + 1 = 1 := req.key.depth_toJson
  have fields : depthMembers req.key.fields = 0 := by omega
  have fits : req.ackJson.depth ≤ openContainers := by
    simp only [SubRequest.ackJson, depth_ofMap, depthMembers, depth, fields]
    decide
  exact parse_print _ fits

/-- A text tells of a request exactly if it is the request's acknowledgement. -/
theorem told_eq_some_iff {text : String} {req : SubRequest} :
    told text = some req ↔ text = req.ack := by
  rw [told, Option.filter_eq_some_iff, beq_iff_eq]
  constructor
  · exact fun both => both.2.symm
  · rintro rfl
    refine ⟨?_, rfl⟩
    rw [parse_ack, Option.bind_some]
    exact toldOfJson_ack req

theorem told_ack (req : SubRequest) : told req.ack = some req := told_eq_some_iff.mpr rfl

/-- What no acknowledgement is tells of nothing. -/
theorem told_eq_none {text : String} (other : ∀ req : SubRequest, text ≠ req.ack) :
    told text = none :=
  Option.eq_none_iff_forall_ne_some.mpr fun req tells => other req (told_eq_some_iff.mp tells)

/-- The answer to a ping acknowledges nothing. -/
theorem told_pong : told pong = none := by
  rw [told, pong, parse_print _ (by decide)]
  rfl

/-- The channel of acknowledgements is no channel of frames. -/
theorem read_ack (req : SubRequest) : Frame.read req.ack = none := by
  have channel : text? ([("channel", .str "subscriptionResponse"),
      ("data", .ofMap [("method", .str req.method),
        ("subscription", .ofMap (("type", .str req.key.tag) :: req.key.fields))])].mergeSort
          fun first second => decide (first.1 ≤ second.1)) "channel" =
      some "subscriptionResponse" :=
    text?_eq_some_iff.mpr (standing_ofMap rfl)
  have nothing (data : Json) : Frame.readVariant "subscriptionResponse" data = none := by
    simp +decide [Frame.readVariant]
  rw [Frame.read, parse_ack, Option.bind_some]
  show (text? _ "channel").bind (fun channel =>
    match field? _ "data" with
    | some (some data) => Frame.readVariant channel data
    | _ => none) = none
  rw [channel, Option.bind_some]
  split
  · exact nothing _
  · rfl

end Wsarb
