/-!
Owns the subscription key, its two classifications, the normal spelling a request
and a frame meet at, and the ordering tag a frame carries into the arbitration.

Stamps, heights and trade ids are `u64` in the source and are only ever compared,
so they are natural numbers here. `usize` is 64 bits wide.
-/

namespace Wsarb

/-- One subscription. Its identity is the whole value, aggregation parameters
included. -/
inductive SubKey
  | trades (coin : String)
  | l2Book (coin : String) (nSigFigs : Option UInt32) (nLevels : Option UInt64)
      (mantissa : Option UInt64)
  | l2Diff (coin : String) (nSigFigs : Option UInt32) (nLevels : Option UInt64)
      (mantissa : Option UInt64)
  | l4Book (coin : String)
  | bbo (coin : String)
  | orderUpdates (user : String)
  | bookDiffs (coin : String)
  deriving DecidableEq, Repr

namespace SubKey

/-- The upstream's `nLevels` when a client leaves it out. -/
def defaultL2Levels : UInt64 := 20

def channel : SubKey → String
  | trades .. => "trades"
  | l2Book .. => "l2Book"
  | l2Diff .. => "l2Diff"
  | l4Book .. => "l4Book"
  | bbo .. => "bbo"
  | orderUpdates .. => "orderUpdates"
  | bookDiffs .. => "bookDiffs"

/-- `to_ascii_lowercase`: `Char.toLower` changes `A` to `Z` and nothing else. -/
def toAsciiLowercase (text : String) : String := text.map Char.toLower

/-- The one spelling of a key that a client request and an upstream frame both
arrive at: addresses in lower case, the default depth folded back to none. -/
def normalized : SubKey → SubKey
  | orderUpdates user => orderUpdates (toAsciiLowercase user)
  | l2Book coin nSigFigs nLevels mantissa =>
      l2Book coin nSigFigs (nLevels.filter (· ≠ defaultL2Levels)) mantissa
  | l2Diff coin nSigFigs nLevels mantissa =>
      l2Diff coin nSigFigs (nLevels.filter (· ≠ defaultL2Levels)) mantissa
  | other => other

/-- Whether one source carries the whole stream rather than the sources taking
turns. -/
def singleSourced : SubKey → Bool
  | l2Diff .. | l2Book .. => true
  | _ => false

/-- Whether the channel streams increments against a prior snapshot. -/
def isIncremental : SubKey → Bool
  | l4Book .. | l2Diff .. => true
  | _ => false

end SubKey

/-- How an incoming frame orders against the frames already seen for its key. -/
inductive Seq
  /-- Newest wins. -/
  | point (v : Nat)
  /-- One message out of a block; positions within the block are raced one by one. -/
  | block (h : Nat)
  /-- One source carries a stamp to its end. -/
  | lead (v : Nat)
  /-- One source carries the whole stream. -/
  | sticky (v : Nat)
  /-- A full snapshot at a block height. -/
  | snapshot (h : Nat)
  deriving DecidableEq, Repr

namespace Seq

/-- The number the tag orders by. -/
def stamp : Seq → Nat
  | point v | block v | lead v | sticky v | snapshot v => v

/-- The height a frame is held under for a client awaiting its snapshot; frames of
the remaining modes are not held. -/
def heldHeight : Seq → Option Nat
  | block h | snapshot h | sticky h => some h
  | point _ | lead _ => none

/-- A frame that is held is held under its stamp. -/
theorem stamp_of_heldHeight {seq : Seq} {h : Nat} (height : seq.heldHeight = some h) :
    seq.stamp = h := by
  cases seq <;> simp_all [heldHeight, stamp]

def isSnapshot : Seq → Bool
  | snapshot _ => true
  | _ => false

/-- Whether the frame is an increment against a prior snapshot. -/
def isIncrement : Seq → Bool
  | block _ | sticky _ => true
  | _ => false

end Seq

/-- The arbitration modes of a channel: the ones `route` tags its frames with. -/
def SubKey.admits : SubKey → Seq → Bool
  | trades _, .point _ => true
  | l2Book .., .sticky _ => true
  | l2Diff .., .snapshot _ => true
  | l2Diff .., .sticky _ => true
  | l4Book _, .snapshot _ => true
  | l4Book _, .block _ => true
  | bbo _, .lead _ => true
  | orderUpdates _, .block _ => true
  | _, _ => false

end Wsarb
