import Mathlib.Logic.Function.Basic
import Wsarb.Library.KeyedMap
import Wsarb.Library.Run
import Wsarb.LoadTest.Percentiles
import Wsarb.State.SubKey

/-!
Owns the load test's comparison of streams: what a stream notes of an arriving frame, and the
sweeper that ages frames and stamps out of the two maps and judges each as it goes.

The streams and the sweeper are threads that share the maps. A stream notes a frame in three
steps, each under a lock of its own; a pass of the sweeper comes to the entries of a map one at a
time, first to those of `seen`, then to those of `blocks`, and frames go on arriving meanwhile.
Which entries a pass comes to, and in what order, is left open here: `retain` goes shard by shard.

Times are nanoseconds of one monotonic clock. Slot 0 is wsarb. The verdict's counters are `u64`
and rise by one a frame, so they are natural numbers; the counts of a block are `u32` and wrap, as
in the release build.

Does not own: what a stream measures of itself, or the report.
-/

namespace Wsarb.LoadTest

open Wsarb.Library

/-- `u32::MAX`: no such subscription, no such age. -/
def u32Max : Nat := UInt32.size - 1

/-- Where a message was seen and when it was seen first there, plus what it was. -/
structure Seen where
  firstAt : Nat → Option Nat := fun _ => none
  ages : Nat → Nat := fun _ => u32Max
  born : Nat
  /-- Index into the subscription list. -/
  key : Nat
  seq : Nat
  /-- The highest value wsarb had delivered for this subscription when the frame first appeared. -/
  bornMax : Nat

/-- How many messages each stream carried for one stamp of one subscription. -/
structure Block where
  born : Nat
  n : Nat → Nat := fun _ => 0
  raced : Bool

def Block.count (b : Block) (slot : Nat) : Block :=
  { b with n := Function.update b.n slot ((b.n slot + 1) % UInt32.size) }

/-- What the cross-stream comparison concluded. The block counters are indexed by whether the
channel is raced. -/
structure Verdict where
  matched : Nat := 0
  lost : Nat := 0
  staleDropped : Nat := 0
  superseded : Nat := 0
  skipped : Nat := 0
  invented : Nat := 0
  behindUs : Nat := 0
  behindN : Nat := 0
  aheadUs : Nat := 0
  aheadN : Nat := 0
  undecided : Nat := 0
  noiseUs : Nat := 0
  noiseN : Nat := 0
  noiseMaxUs : Nat := 0
  twinFirst : Nat := 0
  twinSecond : Nat := 0
  twinBoth : Nat := 0
  nodeOnly : Nat := 0
  twinOnly : Nat := 0
  blkSeen : Bool → Nat := fun _ => 0
  blkSameAgree : Bool → Nat := fun _ => 0
  blkSameDiffer : Bool → Nat := fun _ => 0
  blkShort : Nat := 0
  blkShortFrames : Nat := 0
  blkCrossAgree : Bool → Nat := fun _ => 0
  blkCrossDiffer : Bool → Nat := fun _ => 0

structure Setup where
  /-- The subscriptions by label. -/
  keys : KeyedMap String Nat
  window : Nat
  compareStart : Nat
  compareEnd : Nat
  noiseSlot : Option Nat
  usedSlots : Nat

namespace Setup

/-- The index of a subscription, or `u32::MAX`. -/
def keyIdx (cfg : Setup) (label : String) : Nat := (cfg.keys.lookup label).getD u32Max

def compareSlots (cfg : Setup) : List Nat :=
  List.range' cfg.compareStart (cfg.compareEnd - cfg.compareStart)

end Setup

/-- Where the sweeper is. -/
inductive Pass
  | resting
  /-- Going over `seen`. -/
  | judging (now : Nat) (finishing : Bool)
  /-- Going over `blocks`. -/
  | cutting (now : Nat) (finishing : Bool)
  | ended
  deriving DecidableEq

/-- What the threads share. -/
structure Tables where
  seen : KeyedMap Nat Seen := ∅
  blocks : KeyedMap (Nat × Nat) Block := ∅
  wsarbMax : Nat → Nat := fun _ => 0
  verdict : Verdict := {}
  ages : List (List Nat)
  pass : Pass := .resting

def Setup.start (cfg : Setup) : Tables where
  ages := List.replicate cfg.usedSlots (List.replicate ageBuckets 0)

/-- A frame as a stream receives it, parsed and routed. -/
structure Arrival where
  slot : Nat
  now : Nat
  /-- `hash_of(text)` -/
  hash : Nat
  /-- The label of its subscription. -/
  label : String
  seq : Seq
  age : Option Nat

/-- The stamp a frame is counted under and whether its channel is raced. A snapshot stands alone,
and `point` values rise per message, so neither has anything to count. -/
def counted : Seq → Option (Nat × Bool)
  | .block h => some (h, true)
  | .lead h | .sticky h => some (h, false)
  | .point _ | .snapshot _ => none

/-! ### A frame arrives -/

namespace Tables

def raiseMax (cfg : Setup) (st : Tables) (a : Arrival) : Tables :=
  let key := cfg.keyIdx a.label
  if a.slot = 0 ∧ key ≠ u32Max then
    { st with wsarbMax := Function.update st.wsarbMax key (max (st.wsarbMax key) a.seq.stamp) }
  else st

def noteSeen (cfg : Setup) (st : Tables) (a : Arrival) : Tables :=
  let key := cfg.keyIdx a.label
  let e := (st.seen.lookup a.hash).getD
    { born := a.now
      key := key
      seq := a.seq.stamp
      bornMax := if key = u32Max then 0 else st.wsarbMax key }
  let e :=
    if (e.firstAt a.slot).isNone then
      { e with
        firstAt := Function.update e.firstAt a.slot (some a.now)
        ages := (a.age.map fun age => Function.update e.ages a.slot age).getD e.ages }
    else e
  { st with seen := st.seen.insert a.hash e }

def noteBlock (cfg : Setup) (st : Tables) (a : Arrival) : Tables :=
  let key := cfg.keyIdx a.label
  match counted a.seq with
  | none => st
  | some (h, raced) =>
      if key = u32Max then st
      else
        let b := (st.blocks.lookup (key, h)).getD { born := a.now, raced := raced }
        { st with blocks := st.blocks.insert (key, h) (b.count a.slot) }

end Tables

/-! ### A frame is judged -/

def asMicros (span : Nat) : Nat := span / 1000

/-- What two connections to one node make of a frame. -/
def Verdict.judgeTwins (cfg : Setup) (v : Verdict) (e : Seen) : Verdict :=
  match cfg.noiseSlot with
  | none => v
  | some twin =>
      match e.firstAt cfg.compareStart, e.firstAt twin with
      | some b, some a =>
          let d := asMicros (if b < a then a - b else b - a)
          { v with
            twinBoth := v.twinBoth + 1
            noiseUs := v.noiseUs + d
            noiseN := v.noiseN + 1
            noiseMaxUs := max v.noiseMaxUs d
            twinFirst := if a < b then v.twinFirst + 1 else v.twinFirst
            twinSecond := if a < b then v.twinSecond else v.twinSecond + 1 }
      | some _, none => { v with nodeOnly := v.nodeOnly + 1 }
      | none, some _ => { v with twinOnly := v.twinOnly + 1 }
      | none, none => v

/-- Age percentiles are taken over the frames every stream carried. -/
def judgeAges (cfg : Setup) (ages : List (List Nat)) (e : Seen) : List (List Nat) :=
  if (List.range cfg.usedSlots).all fun s => e.ages s ≠ u32Max then
    (List.range cfg.usedSlots).foldl (fun ages s => ages.modify s (countAge · (e.ages s))) ages
  else ages

/-- The four things a frame is that a node had and wsarb did not. -/
inductive Absence
  | staleDropped
  | superseded
  | skipped
  | lost
  deriving DecidableEq

def Verdict.add (v : Verdict) : Absence → Verdict
  | .staleDropped => { v with staleDropped := v.staleDropped + 1 }
  | .superseded => { v with superseded := v.superseded + 1 }
  | .skipped => { v with skipped := v.skipped + 1 }
  | .lost => { v with lost := v.lost + 1 }

/-- When a compared node first had the frame. -/
def Setup.theirs (cfg : Setup) (e : Seen) : Option Nat :=
  (cfg.compareSlots.filterMap e.firstAt).min?

namespace Tables

def absence (st : Tables) (e : Seen) : Absence :=
  let carried := e.key ≠ u32Max ∧ (st.blocks.lookup (e.key, e.seq)).any fun b => 0 < b.n 0
  let ahead := e.key ≠ u32Max ∧ e.seq < st.wsarbMax e.key
  if e.key ≠ u32Max ∧ e.seq < e.bornMax then .staleDropped
  else if carried then .superseded
  else if ahead then .skipped
  else .lost

/-- wsarb's copy of a frame against the nodes'. -/
def judgeFrame (cfg : Setup) (st : Tables) (v : Verdict) (e : Seen) : Verdict :=
  match e.firstAt 0, cfg.theirs e with
  | some o, some t =>
      if t ≤ o then
        { v with
          matched := v.matched + 1
          behindUs := v.behindUs + asMicros (o - t)
          behindN := v.behindN + 1 }
      else
        { v with
          matched := v.matched + 1
          aheadUs := v.aheadUs + asMicros (t - o)
          aheadN := v.aheadN + 1 }
  | none, some _ => v.add (st.absence e)
  | some _, none => { v with invented := v.invented + 1 }
  | none, none => v

/-- The sweeper comes to one entry of `seen`. -/
def judge (cfg : Setup) (st : Tables) (now : Nat) (finishing : Bool) (hash : Nat) : Tables :=
  match st.seen.lookup hash with
  | none => st
  | some e =>
      if now - e.born < cfg.window then
        -- On the last pass these are discarded unjudged.
        if finishing then
          { st with
            seen := st.seen.erase hash
            verdict := { st.verdict with undecided := st.verdict.undecided + 1 } }
        else st
      else
        { st with
          seen := st.seen.erase hash
          verdict := st.judgeFrame cfg (st.verdict.judgeTwins cfg e) e
          ages := judgeAges cfg st.ages e }

end Tables

/-! ### A stamp is judged -/

def tick (counter : Bool → Nat) (mode : Bool) : Bool → Nat :=
  Function.update counter mode (counter mode + 1)

/-- Whether the pairs cut a stamp into the same messages; judged on the stamps every stream
carried. -/
def Verdict.judgeBlock (cfg : Setup) (v : Verdict) (b : Block) : Verdict :=
  if (List.range cfg.usedSlots).any fun s => b.n s = 0 then v
  else
    let v := { v with blkSeen := tick v.blkSeen b.raced }
    let v :=
      match cfg.noiseSlot with
      | none => v
      | some twin =>
          if b.n cfg.compareStart = b.n twin then
            { v with blkSameAgree := tick v.blkSameAgree b.raced }
          else { v with blkSameDiffer := tick v.blkSameDiffer b.raced }
    let best := (cfg.compareSlots.map b.n).max?.getD 0
    let v :=
      if b.n 0 < best then
        { v with
          blkShort := v.blkShort + 1
          blkShortFrames := v.blkShortFrames + (best - b.n 0) }
      else v
    if cfg.compareStart + 1 < cfg.compareEnd then
      if b.n cfg.compareStart = b.n (cfg.compareStart + 1) then
        { v with blkCrossAgree := tick v.blkCrossAgree b.raced }
      else { v with blkCrossDiffer := tick v.blkCrossDiffer b.raced }
    else v

/-- The sweeper comes to one entry of `blocks`. -/
def Tables.cut (cfg : Setup) (st : Tables) (now : Nat) (finishing : Bool) (stamp : Nat × Nat) :
    Tables :=
  match st.blocks.lookup stamp with
  | none => st
  | some b =>
      if now - b.born < cfg.window then
        if finishing then { st with blocks := st.blocks.erase stamp } else st
      else
        { st with
          blocks := st.blocks.erase stamp
          verdict := st.verdict.judgeBlock cfg b }

/-! ### Steps -/

/-- What one of the threads does next. -/
inductive Step
  | raiseMax (a : Arrival)
  | noteSeen (a : Arrival)
  | noteBlock (a : Arrival)
  /-- The ticker fires: a pass begins. -/
  | tick (now : Nat) (finishing : Bool)
  | judge (hash : Nat)
  /-- From `seen` to `blocks`. -/
  | turn
  | cut (stamp : Nat × Nat)
  /-- The pass is done; the last one ends the sweeper. -/
  | rest

/-- One step; a step that is not the sweeper's next changes nothing. -/
def Setup.step (cfg : Setup) (st : Tables) : Step → Tables
  | .raiseMax a => st.raiseMax cfg a
  | .noteSeen a => st.noteSeen cfg a
  | .noteBlock a => st.noteBlock cfg a
  | .tick now finishing =>
      match st.pass with
      | .resting => { st with pass := .judging now finishing }
      | _ => st
  | .judge hash =>
      match st.pass with
      | .judging now finishing => st.judge cfg now finishing hash
      | _ => st
  | .turn =>
      match st.pass with
      | .judging now finishing => { st with pass := .cutting now finishing }
      | _ => st
  | .cut stamp =>
      match st.pass with
      | .cutting now finishing => st.cut cfg now finishing stamp
      | _ => st
  | .rest =>
      match st.pass with
      | .cutting _ finishing => { st with pass := if finishing then .ended else .resting }
      | _ => st

/-- What one frame makes its stream do, one step after the other. -/
def Arrival.steps (a : Arrival) : List Step := [.raiseMax a, .noteSeen a, .noteBlock a]

end Wsarb.LoadTest
