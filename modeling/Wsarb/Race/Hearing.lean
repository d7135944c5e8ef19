import Wsarb.Library.Scripts
import Wsarb.Race.Counters

/-!
Owns a raced key as its sources see it: each source reads out its own frames in order,
`on_update` hears them in any order of turns, and what it lets out is written down.

Does not own: what the sources' frames are.
-/

namespace Wsarb

open Wsarb.Library

variable {β : Type}

/-- Who speaks next, and when. -/
structure Turn where
  source : Nat
  now : Nat

/-- The shared state, and every frame of one key `on_update` has forwarded. -/
structure Heard (β : Type) where
  st : AppState β
  forwarded : List (Seq × β)

namespace AppState

/-- The race's view of a key; a key with no entry has the one it would be given. -/
def counters (st : AppState β) (key : SubKey) : Counters :=
  (st.getEntry key).elim Counters.fresh SubEntry.counters

theorem counters_entryOr (st : AppState β) (now : Nat) (key : SubKey) :
    (st.entryOr now key).counters = st.counters key := by
  unfold entryOr counters
  cases st.getEntry key with
  | none => exact SubEntry.counters_new now
  | some e => rfl

section Frame

variable [Payload β] (st : AppState β) (now src : Nat) (key : SubKey)

def forwards (seq : Seq) (payload : β) : Bool :=
  (st.onUpdateEntry now src key seq payload).2.verdict.deliver

theorem forwards_iff (seq : Seq) (payload : β) :
    st.forwards now src key seq payload = true ↔ (st.entryOr now key).Accepts key src seq := by
  rw [← SubEntry.arbitrate_deliver_iff _ key now src seq, forwards, onUpdateEntry]
  simp only [SubEntry.update]
  split_ifs <;> rfl

theorem forwards_block_iff (h : Nat) (payload : β) :
    st.forwards now src key (.block h) payload = true ↔
      (st.counters key).AcceptsBlock src h := by
  rw [forwards_iff, SubEntry.accepts_block_iff, counters_entryOr]

theorem forwards_snapshot_iff (raced : key.singleSourced = false) (h : Nat) (payload : β) :
    st.forwards now src key (.snapshot h) payload = true ↔ (st.counters key).last < h := by
  rw [forwards_iff, SubEntry.accepts_snapshot_iff _ _ _ raced, counters_entryOr]

theorem counters_onUpdate_block (h : Nat) (payload : β) :
    (st.onUpdate now src key (.block h) payload).counters key =
      (st.counters key).block src h := by
  rw [counters, getEntry_onUpdate, if_pos rfl, Option.elim_some, SubEntry.update_counters_block,
    counters_entryOr]

theorem counters_onUpdate_snapshot (raced : key.singleSourced = false) (h : Nat) (payload : β) :
    (st.onUpdate now src key (.snapshot h) payload).counters key =
      (st.counters key).snapshot src h := by
  rw [counters, getEntry_onUpdate, if_pos rfl, Option.elim_some,
    SubEntry.update_counters_snapshot _ _ _ _ _ _ raced, counters_entryOr]

end Frame

end AppState

/-- Hear one frame, and write down whether it went out. -/
def hear [Payload β] (key : SubKey) (heard : Heard β) (turn : Turn) (frame : Seq × β) :
    Heard β where
  st := heard.st.onUpdate turn.now turn.source key frame.1 frame.2
  forwarded :=
    if heard.st.forwards turn.now turn.source key frame.1 frame.2 then
      heard.forwarded ++ [frame]
    else heard.forwarded

/-- A canonical list of messages, as the frames that carry them. -/
def blockFrames (blocks : List (Nat × β)) : List (Seq × β) :=
  blocks.map fun block => (.block block.1, block.2)

/-- Reading a line of the frames is reading a message of the list. -/
theorem blockFrames_getElem? {blocks : List (Nat × β)} {index : Nat} {frame : Seq × β} :
    (blockFrames blocks)[index]? = some frame ↔
      ∃ inRange : index < blocks.length,
        frame = (.block blocks[index].1, blocks[index].2) := by
  rw [blockFrames, List.getElem?_map, Option.map_eq_some_iff]
  constructor
  · rintro ⟨block, found, rfl⟩
    obtain ⟨inRange, rfl⟩ := List.getElem?_eq_some_iff.mp found
    exact ⟨inRange, rfl⟩
  · rintro ⟨inRange, rfl⟩
    exact ⟨_, List.getElem?_eq_getElem inRange, rfl⟩

theorem blockFrames_getElem?_of_lt {blocks : List (Nat × β)} {index : Nat}
    (inRange : index < blocks.length) :
    (blockFrames blocks)[index]? = some (.block blocks[index].1, blocks[index].2) :=
  blockFrames_getElem?.mpr ⟨inRange, rfl⟩

/-- What a row of frames continues with lies where the row ends. -/
theorem getElem?_of_append_isPrefix {blocks : List (Nat × β)} {tail : List (Seq × β)}
    {frame : Seq × β} {low : Nat} (fits : tail ++ [frame] <+: (blockFrames blocks).drop low) :
    (blockFrames blocks)[low + tail.length]? = some frame := by
  have next := List.prefix_iff_getElem?.mp fits tail.length (by simp)
  simpa using next

theorem blockFrames_drop (blocks : List (Nat × β)) (count : Nat) :
    blockFrames (blocks.drop count) = (blockFrames blocks).drop count :=
  List.map_drop

theorem take_succ_blockFrames {blocks : List (Nat × β)} {index : Nat}
    (inRange : index < blocks.length) :
    (blockFrames blocks).take (index + 1) =
      (blockFrames blocks).take index ++ [(.block blocks[index].1, blocks[index].2)] := by
  rw [List.take_add_one, blockFrames_getElem?_of_lt inRange]
  rfl

/-- A window over the frames grows by the frame at its upper edge. -/
theorem drop_take_succ_blockFrames {blocks : List (Nat × β)} {low index : Nat}
    (inRange : index < blocks.length) (within : low ≤ index) :
    ((blockFrames blocks).take (index + 1)).drop low =
      ((blockFrames blocks).take index).drop low ++
        [(.block blocks[index].1, blocks[index].2)] := by
  have reaches : low ≤ ((blockFrames blocks).take index).length := by
    simp only [List.length_take, blockFrames, List.length_map]
    omega
  rw [take_succ_blockFrames inRange, List.drop_append_of_le_length reaches]

end Wsarb
