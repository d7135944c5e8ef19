import Mathlib.Data.List.MinMax
import Wsarb.State.SubKey

/-!
Owns the routing of an upstream frame: the fields of a frame the proxy reads, the key it
belongs to and the tag it is ordered by. Every routed frame carries one of the modes its
channel admits, and every key arrives in its normal spelling.

Does not own: parsing the text into a frame, or the freshness gate.
-/

namespace Wsarb

structure CoinTime where
  coin : String
  time : Nat

structure L2Head where
  coin : String
  time : Nat
  nSigFigs : Option UInt32
  nLevels : Option UInt64
  mantissa : Option UInt64

structure TradeHead where
  coin : String
  tid : Nat

structure OrderUpdateHead where
  user : String
  height : Nat

structure CoinOnly where
  coin : String

structure L2DiffHead where
  coin : String
  height : Nat
  nSigFigs : Option UInt32
  nLevels : Option UInt64
  mantissa : Option UInt64

/-- The subscription an `l2Diff` frame belongs to. -/
def L2DiffHead.key (d : L2DiffHead) : SubKey := .l2Diff d.coin d.nSigFigs d.nLevels d.mantissa

inductive L2DiffFrame
  | snapshot (head : L2DiffHead)
  | updates (head : L2DiffHead)

structure StatusHead where
  order : CoinOnly

structure L4Updates where
  height : Nat
  orderStatuses : List StatusHead
  bookDiffs : List CoinOnly

inductive L4Frame
  | snapshot (coin : String) (height : Nat)
  | updates (u : L4Updates)

/-- An upstream frame, by channel. -/
inductive Frame
  | bbo (d : CoinTime)
  | l2Book (d : L2Head)
  | trades (v : List TradeHead)
  | orderUpdates (v : List OrderUpdateHead)
  | l4Book (f : L4Frame)
  | l2Diff (f : L2DiffFrame)
  | error (msg : String)

/-- The key and tag of a frame, the key as the frame spells it. -/
def routeRaw : Frame → Option (SubKey × Seq)
  | .bbo d => some (.bbo d.coin, .lead d.time)
  | .l2Book d => some (.l2Book d.coin d.nSigFigs d.nLevels d.mantissa, .sticky d.time)
  | .trades v => do
      let first ← v.head?
      let tid ← (v.map (·.tid)).max?
      some (.trades first.coin, .point tid)
  | .orderUpdates v => do
      let first ← v.head?
      let height ← (v.map (·.height)).max?
      some (.orderUpdates (SubKey.toAsciiLowercase first.user), .block height)
  | .l4Book (.snapshot coin height) => some (.l4Book coin, .snapshot height)
  | .l2Diff (.snapshot d) => some (d.key, .snapshot d.height)
  | .l2Diff (.updates d) => some (d.key, .sticky d.height)
  | .l4Book (.updates u) => do
      let coin ← (u.orderStatuses.head?.map (·.order.coin)).or (u.bookDiffs.head?.map (·.coin))
      some (.l4Book coin, .block u.height)
  | .error _ => none

/-- Derive the subscription a frame belongs to, and the value it is ordered by. -/
def route (frame : Frame) : Option (SubKey × Seq) := do
  let (key, seq) ← routeRaw frame
  some (key.normalized, seq)

theorem admits_normalized (key : SubKey) (seq : Seq) :
    key.normalized.admits seq = key.admits seq := by
  cases key <;> cases seq <;> rfl

/-- Every routed frame carries a mode its channel admits. -/
theorem route_admits {frame : Frame} {key : SubKey} {seq : Seq}
    (routed : route frame = some (key, seq)) : key.admits seq = true := by
  have raw : ∀ {key seq}, routeRaw frame = some (key, seq) → key.admits seq = true := by
    intro key seq routed
    rcases frame with d | d | v | v | (f | u) | (d | d) | msg <;>
      simp only [routeRaw, Option.some.injEq, Prod.mk.injEq, Option.bind_eq_bind,
        Option.bind_eq_some_iff, reduceCtorEq] at routed
    · obtain ⟨rfl, rfl⟩ := routed; rfl
    · obtain ⟨rfl, rfl⟩ := routed; rfl
    · obtain ⟨first, -, tid, -, rfl, rfl⟩ := routed; rfl
    · obtain ⟨first, -, height, -, rfl, rfl⟩ := routed; rfl
    · obtain ⟨rfl, rfl⟩ := routed; rfl
    · obtain ⟨coin, -, rfl, rfl⟩ := routed; rfl
    · obtain ⟨rfl, rfl⟩ := routed; rfl
    · obtain ⟨rfl, rfl⟩ := routed; rfl
  obtain ⟨⟨rawKey, rawSeq⟩, found, same⟩ := Option.bind_eq_some_iff.mp routed
  simp only [Option.some.injEq, Prod.mk.injEq] at same
  obtain ⟨rfl, rfl⟩ := same
  rw [admits_normalized]
  exact raw found

end Wsarb
