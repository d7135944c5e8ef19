import Wsarb.Library.JsonText
import Wsarb.Library.Records
import Wsarb.State.AppState

/-!
Owns the wire form of subscriptions: the JSON a key and a request are written as, and the reading
of a client's request. Both follow the derived readers and writers: the variant is named by a tag
inside the object, variants are put in camel case, and so are the fields of the two variants that
ask for it; the parameters of the aggregated books may be left out.

A reader of `serde_json` opens at most 127 containers at once. What the derived readers take
beyond what is documented of them, a sequence for an object or a variant's number for its name,
is not modelled.

Does not own: what is done with a request.
-/

namespace Wsarb

open Wsarb.Library Wsarb.Library.Json

/-- How many containers a text may have open at once. -/
def openContainers : Nat := 127

namespace SubKey

/-- The variant a key is declared under. -/
def ident : SubKey → String
  | trades .. => "Trades"
  | l2Book .. => "L2Book"
  | l2Diff .. => "L2Diff"
  | l4Book .. => "L4Book"
  | bbo .. => "Bbo"
  | orderUpdates .. => "OrderUpdates"
  | bookDiffs .. => "BookDiffs"

def tag (key : SubKey) : String := CamelCase.variant key.ident

/-! ### Writing -/

/-- The fields of the variants whose fields are put in camel case. -/
def levelFields (coin : String) (nSigFigs : Option UInt32) (nLevels mantissa : Option UInt64) :
    Members :=
  (CamelCase.field "coin", .str coin) ::
    (optional (CamelCase.field "n_sig_figs") (nSigFigs.map (·.toNat)) ++
      (optional (CamelCase.field "n_levels") (nLevels.map (·.toNat)) ++
        optional (CamelCase.field "mantissa") (mantissa.map (·.toNat))))

/-- The fields of a key, in the order they are declared in. -/
def fields : SubKey → Members
  | trades coin | l4Book coin | bbo coin | bookDiffs coin => [("coin", .str coin)]
  | orderUpdates user => [("user", .str user)]
  | l2Book coin nSigFigs nLevels mantissa => levelFields coin nSigFigs nLevels mantissa
  | l2Diff coin nSigFigs nLevels mantissa => levelFields coin nSigFigs nLevels mantissa

/-- A key as a JSON value: its tag, and its fields. -/
def toJson (key : SubKey) : Json := .obj (("type", .str key.tag) :: key.fields)

def json (key : SubKey) : String := key.toJson.print

/-! ### Reading -/

def u32? (members : Members) (name : String) : Option (Option UInt32) :=
  (natural? UInt32.size members name).map (·.map UInt32.ofNat)

/-- An `Option<u64>` field, or one of `usize`. -/
def u64? (members : Members) (name : String) : Option (Option UInt64) :=
  (natural? UInt64.size members name).map (·.map UInt64.ofNat)

def readLevels
    (make : String → Option UInt32 → Option UInt64 → Option UInt64 → SubKey)
    (members : Members) : Option SubKey :=
  match text? members (CamelCase.field "coin"), u32? members (CamelCase.field "n_sig_figs"),
    u64? members (CamelCase.field "n_levels"), u64? members (CamelCase.field "mantissa") with
  | some coin, some nSigFigs, some nLevels, some mantissa =>
      some (make coin nSigFigs nLevels mantissa)
  | _, _, _, _ => none

def readVariant (tag : String) (members : Members) : Option SubKey :=
  if tag = CamelCase.variant "Trades" then (text? members "coin").map trades
  else if tag = CamelCase.variant "L2Book" then readLevels l2Book members
  else if tag = CamelCase.variant "L2Diff" then readLevels l2Diff members
  else if tag = CamelCase.variant "L4Book" then (text? members "coin").map l4Book
  else if tag = CamelCase.variant "Bbo" then (text? members "coin").map bbo
  else if tag = CamelCase.variant "OrderUpdates" then (text? members "user").map orderUpdates
  else if tag = CamelCase.variant "BookDiffs" then (text? members "coin").map bookDiffs
  else none

def ofJson : Json → Option SubKey
  | .obj members => (text? members "type").bind (readVariant · members)
  | _ => none

def read (text : String) : Option SubKey := (parse openContainers text).bind ofJson

/-! ### What spells a key -/

/-- The fields of an aggregated book stand in the members, under their names on the wire. -/
def LevelsStand (members : Members) (coin : String) (nSigFigs : Option UInt32)
    (nLevels mantissa : Option UInt64) : Prop :=
  standing members "coin" = [.str coin] ∧ Stands members "nSigFigs" (nSigFigs.map (·.toNat)) ∧
    Stands members "nLevels" (nLevels.map (·.toNat)) ∧
    Stands members "mantissa" (mantissa.map (·.toNat))

/-- The fields of the key stand in the members. -/
def FieldsStand (members : Members) : SubKey → Prop
  | trades coin | l4Book coin | bbo coin | bookDiffs coin => standing members "coin" = [.str coin]
  | orderUpdates user => standing members "user" = [.str user]
  | l2Book coin nSigFigs nLevels mantissa => LevelsStand members coin nSigFigs nLevels mantissa
  | l2Diff coin nSigFigs nLevels mantissa => LevelsStand members coin nSigFigs nLevels mantissa

/-- The members spell the key: its channel stands under `type` and its fields under their names,
each once, in any order and whatever else stands beside them. -/
def Spells (members : Members) (key : SubKey) : Prop :=
  standing members "type" = [.str key.channel] ∧ key.FieldsStand members

end SubKey

namespace SubRequest

def toJson : SubRequest → Json
  | subscribe key =>
      .obj [("method", .str (CamelCase.variant "Subscribe")), ("subscription", key.toJson)]
  | unsubscribe key =>
      .obj [("method", .str (CamelCase.variant "Unsubscribe")), ("subscription", key.toJson)]

def json (request : SubRequest) : String := request.toJson.print

end SubRequest

/-- A request frame from a client. -/
inductive ClientMessage
  | subscribe (subscription : SubKey)
  | unsubscribe (subscription : SubKey)
  | ping
  deriving DecidableEq, Repr

namespace ClientMessage

def subscription? (members : Members) : Option SubKey :=
  match field? members "subscription" with
  | some (some value) => SubKey.ofJson value
  | _ => none

def readVariant (method : String) (members : Members) : Option ClientMessage :=
  if method = CamelCase.variant "Subscribe" then (subscription? members).map subscribe
  else if method = CamelCase.variant "Unsubscribe" then (subscription? members).map unsubscribe
  else if method = CamelCase.variant "Ping" then some ping
  else none

def ofJson : Json → Option ClientMessage
  | .obj members => (text? members "method").bind (readVariant · members)
  | _ => none

def read (text : String) : Option ClientMessage := (parse openContainers text).bind ofJson

end ClientMessage

/-! ### Names on the wire -/

theorem variant_names :
    CamelCase.variant "Trades" = "trades" ∧ CamelCase.variant "L2Book" = "l2Book" ∧
      CamelCase.variant "L2Diff" = "l2Diff" ∧ CamelCase.variant "L4Book" = "l4Book" ∧
      CamelCase.variant "Bbo" = "bbo" ∧ CamelCase.variant "OrderUpdates" = "orderUpdates" ∧
      CamelCase.variant "BookDiffs" = "bookDiffs" := by decide

theorem field_names :
    CamelCase.field "coin" = "coin" ∧ CamelCase.field "n_sig_figs" = "nSigFigs" ∧
      CamelCase.field "n_levels" = "nLevels" ∧ CamelCase.field "mantissa" = "mantissa" := by
  decide

theorem method_names :
    CamelCase.variant "Subscribe" = "subscribe" ∧
      CamelCase.variant "Unsubscribe" = "unsubscribe" ∧ CamelCase.variant "Ping" = "ping" := by
  decide

namespace SubKey

variable {members : Members} {key : SubKey}

/-- A key is tagged with the name of its channel. -/
theorem tag_eq_channel (key : SubKey) : key.tag = key.channel := by
  obtain ⟨trades, l2Book, l2Diff, l4Book, bbo, orderUpdates, bookDiffs⟩ := variant_names
  cases key <;> assumption

/-! ### Reading is finding what spells the key -/

/-- A number that may be left out is read as a word if it stands and the word holds it. -/
theorem word_eq_some_iff {W : Type} {size : Nat} {ofNat : Nat → W} {toNat : W → Nat}
    (back : ∀ word, ofNat (toNat word) = word) (there : ∀ n < size, toNat (ofNat n) = n)
    (holds : ∀ word, toNat word < size) {name : String} {word : Option W} :
    (natural? size members name).map (·.map ofNat) = some word ↔
      Stands members name (word.map toNat) := by
  have inverse : (word.map toNat).map ofNat = word := by
    cases word with
    | none => rfl
    | some word => exact congrArg some (back word)
  constructor
  · intro read
    obtain ⟨value, found, rfl⟩ := Option.map_eq_some_iff.mp read
    obtain ⟨stands, small⟩ := natural?_eq_some_iff.mp found
    cases value with
    | none => exact stands
    | some n =>
        have kept : toNat (ofNat n) = n := there n (small n rfl)
        rwa [Option.map_some, Option.map_some, kept]
  · intro stands
    have small : ∀ n, word.map toNat = some n → n < size := by
      intro n written
      obtain ⟨held, -, rfl⟩ := Option.map_eq_some_iff.mp written
      exact holds held
    rw [natural?_eq_some_iff.mpr ⟨stands, small⟩, Option.map_some, inverse]

theorem u32?_eq_some_iff {name : String} {word : Option UInt32} :
    u32? members name = some word ↔ Stands members name (word.map (·.toNat)) :=
  word_eq_some_iff (fun _ => UInt32.ofNat_toNat) (fun _ small => UInt32.toNat_ofNat_of_lt' small)
    UInt32.toNat_lt_size

theorem u64?_eq_some_iff {name : String} {word : Option UInt64} :
    u64? members name = some word ↔ Stands members name (word.map (·.toNat)) :=
  word_eq_some_iff (fun _ => UInt64.ofNat_toNat) (fun _ small => UInt64.toNat_ofNat_of_lt' small)
    UInt64.toNat_lt_size

theorem readLevels_eq_some_iff
    {make : String → Option UInt32 → Option UInt64 → Option UInt64 → SubKey} :
    readLevels make members = some key ↔
      ∃ coin nSigFigs nLevels mantissa, key = make coin nSigFigs nLevels mantissa ∧
        LevelsStand members coin nSigFigs nLevels mantissa := by
  obtain ⟨coin, nSigFigs, nLevels, mantissa⟩ := field_names
  unfold readLevels LevelsStand
  rw [coin, nSigFigs, nLevels, mantissa]
  simp only [← text?_eq_some_iff, ← u32?_eq_some_iff, ← u64?_eq_some_iff]
  split
  · next coin nSigFigs nLevels mantissa readCoin readFigs readLevels readMantissa =>
      simp only [readCoin, readFigs, readLevels, readMantissa, Option.some.injEq]
      constructor
      · rintro rfl
        exact ⟨coin, nSigFigs, nLevels, mantissa, rfl, rfl, rfl, rfl, rfl⟩
      · rintro ⟨_, _, _, _, rfl, rfl, rfl, rfl, rfl⟩
        rfl
  · next other =>
      constructor
      · exact fun found => by cases found
      · rintro ⟨_, _, _, _, -, readCoin, readFigs, readLevels, readMantissa⟩
        exact (other _ _ _ _ readCoin readFigs readLevels readMantissa).elim

theorem readVariant_eq_some_iff {tag : String} :
    readVariant tag members = some key ↔ tag = key.channel ∧ key.FieldsStand members := by
  obtain ⟨trades, l2Book, l2Diff, l4Book, bbo, orderUpdates, bookDiffs⟩ := variant_names
  rw [readVariant, trades, l2Book, l2Diff, l4Book, bbo, orderUpdates, bookDiffs]
  constructor
  · intro found
    split at found
    · next same =>
        obtain ⟨coin, read, rfl⟩ := Option.map_eq_some_iff.mp found
        exact ⟨same, text?_eq_some_iff.mp read⟩
    split at found
    · next same =>
        obtain ⟨coin, _, _, _, rfl, stand⟩ := readLevels_eq_some_iff.mp found
        exact ⟨same, stand⟩
    split at found
    · next same =>
        obtain ⟨coin, _, _, _, rfl, stand⟩ := readLevels_eq_some_iff.mp found
        exact ⟨same, stand⟩
    split at found
    · next same =>
        obtain ⟨coin, read, rfl⟩ := Option.map_eq_some_iff.mp found
        exact ⟨same, text?_eq_some_iff.mp read⟩
    split at found
    · next same =>
        obtain ⟨coin, read, rfl⟩ := Option.map_eq_some_iff.mp found
        exact ⟨same, text?_eq_some_iff.mp read⟩
    split at found
    · next same =>
        obtain ⟨user, read, rfl⟩ := Option.map_eq_some_iff.mp found
        exact ⟨same, text?_eq_some_iff.mp read⟩
    split at found
    · next same =>
        obtain ⟨coin, read, rfl⟩ := Option.map_eq_some_iff.mp found
        exact ⟨same, text?_eq_some_iff.mp read⟩
    · cases found
  · rintro ⟨rfl, stand⟩
    cases key with
    | trades coin => simp [channel, text?_eq_some_iff.mpr stand]
    | l4Book coin => simp [channel, text?_eq_some_iff.mpr stand]
    | bbo coin => simp [channel, text?_eq_some_iff.mpr stand]
    | bookDiffs coin => simp [channel, text?_eq_some_iff.mpr stand]
    | orderUpdates user => simp [channel, text?_eq_some_iff.mpr stand]
    | l2Book coin nSigFigs nLevels mantissa =>
        simp [channel, readLevels_eq_some_iff.mpr ⟨coin, nSigFigs, nLevels, mantissa, rfl, stand⟩]
    | l2Diff coin nSigFigs nLevels mantissa =>
        simp [channel, readLevels_eq_some_iff.mpr ⟨coin, nSigFigs, nLevels, mantissa, rfl, stand⟩]

theorem ofJson_eq_some_iff : ofJson (.obj members) = some key ↔ key.Spells members := by
  rw [ofJson, Option.bind_eq_some_iff, Spells]
  constructor
  · rintro ⟨tag, read, found⟩
    obtain ⟨rfl, stand⟩ := readVariant_eq_some_iff.mp found
    exact ⟨text?_eq_some_iff.mp read, stand⟩
  · rintro ⟨tagged, stand⟩
    exact ⟨key.channel, text?_eq_some_iff.mpr tagged,
      readVariant_eq_some_iff.mpr ⟨rfl, stand⟩⟩

/-- Whatever the order of the members. -/
theorem Spells.perm {other : Members} (same : members.Perm other) (spells : key.Spells members) :
    key.Spells other := by
  obtain ⟨tagged, stand⟩ := spells
  have text {name value : String} (one : standing members name = (some (.str value)).toList) :
      standing other name = [.str value] := standing_perm same one
  have levels {coin nSigFigs nLevels mantissa}
      (stand : LevelsStand members coin nSigFigs nLevels mantissa) :
      LevelsStand other coin nSigFigs nLevels mantissa :=
    ⟨text stand.1, stand.2.1.perm same, stand.2.2.1.perm same, stand.2.2.2.perm same⟩
  refine ⟨text tagged, ?_⟩
  cases key with
  | trades coin => exact text stand
  | l4Book coin => exact text stand
  | bbo coin => exact text stand
  | bookDiffs coin => exact text stand
  | orderUpdates user => exact text stand
  | l2Book coin nSigFigs nLevels mantissa => exact levels stand
  | l2Diff coin nSigFigs nLevels mantissa => exact levels stand

/-! ### What is written is read -/

/-- What stands in the fields of an aggregated book as they are written. -/
theorem levelsStand_written (first : Json) (coin : String) (nSigFigs : Option UInt32)
    (nLevels mantissa : Option UInt64) :
    LevelsStand (("type", first) :: levelFields coin nSigFigs nLevels mantissa) coin nSigFigs
      nLevels mantissa := by
  obtain ⟨coinName, nSigFigsName, nLevelsName, mantissaName⟩ := field_names
  rw [levelFields, coinName, nSigFigsName, nLevelsName, mantissaName]
  refine ⟨?_, stands_of_written ?_, stands_of_written ?_, stands_of_written ?_⟩
  all_goals simp [standing_cons, standing_append, standing_optional]

theorem spells_written (key : SubKey) : key.Spells (("type", .str key.tag) :: key.fields) := by
  have tagged : standing (("type", .str key.tag) :: key.fields) "type" = [.str key.channel] := by
    obtain ⟨coin, nSigFigs, nLevels, mantissa⟩ := field_names
    rw [tag_eq_channel, standing_cons, if_pos rfl]
    cases key <;>
      simp [fields, levelFields, coin, nSigFigs, nLevels, mantissa, standing_cons,
        standing_append, standing_optional]
  refine ⟨tagged, ?_⟩
  cases key with
  | l2Book coin nSigFigs nLevels mantissa => exact levelsStand_written _ _ _ _ _
  | l2Diff coin nSigFigs nLevels mantissa => exact levelsStand_written _ _ _ _ _
  | _ => rfl

theorem ofJson_toJson (key : SubKey) : ofJson key.toJson = some key :=
  ofJson_eq_some_iff.mpr key.spells_written

/-- A key opens one container. -/
theorem depth_toJson (key : SubKey) : key.toJson.depth = 1 := by
  have flat : depthMembers key.fields = 0 := by
    cases key <;> simp [fields, levelFields, depthMembers, depthMembers_append, depth]
  exact congrArg (fun deep => max 0 deep + 1) flat

theorem read_json (key : SubKey) : read key.json = some key := by
  have fits : key.toJson.depth ≤ openContainers := by
    rw [depth_toJson]
    decide
  rw [read, json, parse_print key.toJson fits, Option.bind_some, ofJson_toJson]

end SubKey

namespace ClientMessage

/-- The request the proxy writes, as a client would. -/
def ofRequest : SubRequest → ClientMessage
  | .subscribe key => subscribe key
  | .unsubscribe key => unsubscribe key

theorem subscription?_written (method : Json) (key : SubKey) :
    subscription? [("method", method), ("subscription", key.toJson)] = some key := by
  have stands : standing [("method", method), ("subscription", key.toJson)] "subscription" =
      (some key.toJson).toList := rfl
  rw [subscription?, field?_eq_some_iff.mpr stands]
  exact key.ofJson_toJson

theorem ofJson_toJson (request : SubRequest) :
    ofJson request.toJson = some (ofRequest request) := by
  obtain ⟨subscribed, unsubscribed, -⟩ := method_names
  have named (method : String) (key : SubKey) :
      text? [("method", .str method), ("subscription", key.toJson)] "method" = some method :=
    text?_eq_some_iff.mpr rfl
  cases request with
  | subscribe key =>
      rw [SubRequest.toJson, ofJson, named, Option.bind_some, readVariant, if_pos rfl,
        subscription?_written]
      rfl
  | unsubscribe key =>
      have other : CamelCase.variant "Unsubscribe" ≠ CamelCase.variant "Subscribe" := by decide
      rw [SubRequest.toJson, ofJson, named, Option.bind_some, readVariant, if_neg other,
        if_pos rfl, subscription?_written]
      rfl

theorem depth_toJson (request : SubRequest) : request.toJson.depth = 2 := by
  cases request with
  | subscribe key => exact congrArg (fun deep => max 0 (max deep 0) + 1) key.depth_toJson
  | unsubscribe key => exact congrArg (fun deep => max 0 (max deep 0) + 1) key.depth_toJson

theorem read_json (request : SubRequest) : read request.json = some (ofRequest request) := by
  have fits : request.toJson.depth ≤ openContainers := by
    rw [depth_toJson]
    decide
  rw [read, SubRequest.json, parse_print request.toJson fits, Option.bind_some, ofJson_toJson]

end ClientMessage

/-- The text of a key reads back as the key, and the text of a request for it as the same method
with that key. The text of an object reads as the key exactly if its members spell it: the tag and
each field once, under their names, in any order and whatever else stands beside them, a parameter
left out being absent or null. Whatever text reads as the key, the key's own text does too. -/
theorem wire_round_trip (key : SubKey) :
    SubKey.read key.json = some key ∧
      ClientMessage.read (SubRequest.subscribe key).json = some (.subscribe key) ∧
      ClientMessage.read (SubRequest.unsubscribe key).json = some (.unsubscribe key) ∧
      (∀ text members, parse openContainers text = some (.obj members) →
        (SubKey.read text = some key ↔ key.Spells members)) ∧
      (∀ members other : Members, members.Perm other → key.Spells members → key.Spells other) ∧
      ∀ text, SubKey.read text = some key → SubKey.read key.json = some key := by
  refine ⟨key.read_json, ClientMessage.read_json (.subscribe key),
    ClientMessage.read_json (.unsubscribe key), ?_, ?_, fun _ _ => key.read_json⟩
  · intro text members parsed
    rw [SubKey.read, parsed, Option.bind_some]
    exact SubKey.ofJson_eq_some_iff
  · exact fun _ _ same spells => spells.perm same

end Wsarb
