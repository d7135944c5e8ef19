import Wsarb.State.SubEntry

/-!
Owns the arbitration rule: what one frame does to its key's entry and whether it goes
out, mode by mode, and the two facts everything later uses. A frame is forwarded
exactly when the entry accepts it, and the entry's height and leader then are the
frame's stamp and its source; a frame that is not forwarded moves neither.

Does not own: who is attached, the held frames, or the sending.
-/

namespace Wsarb

/-- What the arbitration decided about one frame. -/
structure Verdict where
  deliver : Bool := false
  win : Bool := false
  late : Option Nat := none
  stale : Bool := false
  deriving DecidableEq, Repr

namespace SubEntry

variable {β : Type}

/-- `Seq::Point`: newest wins, an equal stamp is a slower source's copy. -/
def arbitratePoint (e : SubEntry β) (now v : Nat) : SubEntry β × Verdict :=
  if e.last < v then
    ({ e with last := v, lastSeenAt := now }, { deliver := true, win := true })
  else if v = e.last then
    (e, { late := some (now - e.lastSeenAt) })
  else (e, { stale := true })

/-- `Seq::Lead`: whoever opens a stamp carries it to its end. -/
def arbitrateLead (e : SubEntry β) (now src v : Nat) : SubEntry β × Verdict :=
  if e.last < v then
    ({ e with last := v, lastSeenAt := now, blockLeader := some src },
      { deliver := true, win := true })
  else if v = e.last then
    if e.blockLeader = some src then (e, { deliver := true })
    else (e, { late := some (now - e.lastSeenAt) })
  else (e, { stale := true })

/-- `Seq::Sticky`: the leader keeps the whole stream. -/
def arbitrateSticky (e : SubEntry β) (now src v : Nat) : SubEntry β × Verdict :=
  match e.blockLeader with
  | none =>
      ({ e with last := v, lastSeenAt := now, blockLeader := some src },
        { deliver := true, win := true })
  | some id =>
      if id = src then
        if e.last ≤ v then
          ({ e with last := v, lastSeenAt := now },
            { deliver := true, win := decide (e.last < v) })
        else (e, { stale := true })
      else (e, { late := some (now - e.lastSeenAt) })

/-- `Seq::Snapshot`: a reset, and what puts a written-off source back in play. On a
single-sourced channel only from the source being followed, or from anyone when
nobody is. -/
def arbitrateSnapshot (e : SubEntry β) (key : SubKey) (now src h : Nat) :
    SubEntry β × Verdict :=
  let e := { e with needsSnapshot := e.needsSnapshot &&& ~~~ sourceBit src }
  let ours := !key.singleSourced || e.blockLeader.all (· == src)
  if ours && decide (e.last < h) then
    ({ e with
        last := h, lastSeenAt := now, blockLeader := some src,
        blockSampled := sourceBit src }.openBlock src,
      { deliver := true, win := true })
  else (e, { stale := true })

/-- `Seq::Block`: positions inside a block are raced one by one. -/
def arbitrateBlock (e : SubEntry β) (now src h : Nat) : SubEntry β × Verdict :=
  if e.writtenOff src then (e, { stale := true })
  else if e.last < h then
    ({ e with
        last := h, lastSeenAt := now, blockLeader := some src,
        blockSampled := sourceBit src }.openBlock src,
      { deliver := true, win := true })
  else if h = e.last then
    let (e, seen) := e.bumpBlockCount src
    if e.blockSent < seen then
      ({ e with blockSent := seen, blockLeader := some src }, { deliver := true })
    else if e.blockSampled &&& sourceBit src = 0 then
      -- One delay sample per source per block rather than one per message.
      ({ e with blockSampled := e.blockSampled ||| sourceBit src },
        { late := some (now - e.lastSeenAt) })
    else (e, {})
  else (e, { stale := true })

/-- The arbitration rule for a frame of `key` from `src`. -/
def arbitrate (e : SubEntry β) (key : SubKey) (now src : Nat) : Seq → SubEntry β × Verdict
  | .point v => e.arbitratePoint now v
  | .lead v => e.arbitrateLead now src v
  | .sticky v => e.arbitrateSticky now src v
  | .snapshot h => e.arbitrateSnapshot key now src h
  | .block h => e.arbitrateBlock now src h

/-- When the rule lets a frame through, read off the entry as it stood before. -/
def Accepts (e : SubEntry β) (key : SubKey) (src : Nat) : Seq → Prop
  | .point v => e.last < v
  | .lead v => e.last < v ∨ v = e.last ∧ e.blockLeader = some src
  | .sticky v => e.blockLeader = none ∨ e.blockLeader = some src ∧ e.last ≤ v
  | .snapshot h =>
      (key.singleSourced = true → e.blockLeader = none ∨ e.blockLeader = some src) ∧ e.last < h
  | .block h =>
      e.writtenOff src = false ∧
        (e.last < h ∨ h = e.last ∧ e.blockSent < (e.seenBy src + 1) % 2 ^ 32)

section Rule

variable (e : SubEntry β) (key : SubKey) (now src : Nat)

/-! ### Mode by mode -/

theorem arbitrateSnapshot_ours :
    (!key.singleSourced || e.blockLeader.all (· == src)) = true ↔
      (key.singleSourced = true → e.blockLeader = none ∨ e.blockLeader = some src) := by
  cases key.singleSourced <;> cases e.blockLeader <;> simp

theorem arbitrateSnapshot_of_accepts {h : Nat} (accepts : e.Accepts key src (.snapshot h)) :
    e.arbitrateSnapshot key now src h =
      ({ e with
          needsSnapshot := e.needsSnapshot &&& ~~~ sourceBit src
          last := h, lastSeenAt := now, blockLeader := some src,
          blockSampled := sourceBit src }.openBlock src,
        { deliver := true, win := true }) := by
  have ours := (arbitrateSnapshot_ours e key src).mpr accepts.1
  have above : e.last < h := accepts.2
  simp only [arbitrateSnapshot, ours, above, decide_true, Bool.and_self, if_true]

theorem arbitrateSnapshot_of_not_accepts {h : Nat}
    (refuses : ¬ e.Accepts key src (.snapshot h)) :
    e.arbitrateSnapshot key now src h =
      ({ e with needsSnapshot := e.needsSnapshot &&& ~~~ sourceBit src }, { stale := true }) := by
  have shut : ¬ ((!key.singleSourced || e.blockLeader.all (· == src)) = true ∧ e.last < h) := by
    rw [arbitrateSnapshot_ours]
    exact refuses
  unfold arbitrateSnapshot
  simp only [Bool.and_eq_true, decide_eq_true_eq]
  rw [if_neg shut]

/-- The first message of a newer block. -/
theorem arbitrateBlock_opens {h : Nat} (inPlay : e.writtenOff src = false) (newer : e.last < h) :
    e.arbitrateBlock now src h =
      ({ e with
          last := h, lastSeenAt := now, blockLeader := some src,
          blockSampled := sourceBit src }.openBlock src,
        { deliver := true, win := true }) := by
  simp [arbitrateBlock, inPlay, newer]

/-- A position of the open block nobody has supplied yet. -/
theorem arbitrateBlock_continues {h : Nat} (inPlay : e.writtenOff src = false)
    (same : h = e.last) (ahead : e.blockSent < (e.seenBy src + 1) % 2 ^ 32) :
    e.arbitrateBlock now src h =
      ({ (e.bumpBlockCount src).1 with
          blockSent := (e.seenBy src + 1) % 2 ^ 32, blockLeader := some src },
        { deliver := true }) := by
  have notNewer : ¬ e.last < h := by omega
  simp only [arbitrateBlock, inPlay, Bool.false_eq_true, if_false, if_neg notNewer, if_pos same,
    bumpBlockCount_count, bumpBlockCount_blockSent, if_pos ahead]

/-- What every other block frame leaves alone. -/
theorem arbitrateBlock_repeats {h : Nat} (inPlay : e.writtenOff src = false)
    (same : h = e.last) (behind : ¬ e.blockSent < (e.seenBy src + 1) % 2 ^ 32) :
    ∃ sampled late, e.arbitrateBlock now src h =
      ({ (e.bumpBlockCount src).1 with blockSampled := sampled }, { late := late }) := by
  have notNewer : ¬ e.last < h := by omega
  simp only [arbitrateBlock, inPlay, Bool.false_eq_true, if_false, if_neg notNewer, if_pos same,
    bumpBlockCount_count, bumpBlockCount_blockSent, if_neg behind]
  split
  · exact ⟨_, _, rfl⟩
  · exact ⟨_, none, rfl⟩

theorem arbitrateBlock_stale {h : Nat}
    (old : e.writtenOff src = true ∨ h < e.last) :
    e.arbitrateBlock now src h = (e, { stale := true }) := by
  unfold arbitrateBlock
  rcases old with off | below
  · rw [if_pos off]
  · rw [if_neg (by omega : ¬ e.last < h), if_neg (by omega : ¬ h = e.last), ite_self]

/-! ### The rule as a whole -/

/-- A frame goes out exactly when the entry accepts it. -/
theorem arbitrate_deliver_iff (seq : Seq) :
    (e.arbitrate key now src seq).2.deliver = true ↔ e.Accepts key src seq := by
  cases seq with
  | point v =>
      simp only [arbitrate, arbitratePoint, Accepts]
      split_ifs <;> simp_all
  | lead v =>
      simp only [arbitrate, arbitrateLead, Accepts]
      split_ifs <;> simp_all
  | sticky v =>
      cases led : e.blockLeader with
      | none => simp [arbitrate, arbitrateSticky, Accepts, led]
      | some id =>
          by_cases leads : id = src
          · by_cases fresh : e.last ≤ v <;>
              simp [arbitrate, arbitrateSticky, Accepts, led, leads, fresh]
          · simp [arbitrate, arbitrateSticky, Accepts, led, leads]
  | snapshot h =>
      by_cases accepts : e.Accepts key src (.snapshot h)
      · simp [arbitrate, arbitrateSnapshot_of_accepts e key now src accepts, accepts]
      · simp [arbitrate, arbitrateSnapshot_of_not_accepts e key now src accepts, accepts]
  | block h =>
      simp only [arbitrate, Accepts]
      by_cases inPlay : e.writtenOff src = false
      · rcases Nat.lt_trichotomy e.last h with newer | same | older
        · simp [arbitrateBlock_opens e now src inPlay newer, inPlay, newer]
        · by_cases ahead : e.blockSent < (e.seenBy src + 1) % 2 ^ 32
          · rw [arbitrateBlock_continues e now src inPlay same.symm ahead]
            exact iff_of_true rfl ⟨inPlay, Or.inr ⟨same.symm, ahead⟩⟩
          · obtain ⟨sampled, late, repeats⟩ :=
              arbitrateBlock_repeats e now src inPlay same.symm ahead
            simp only [repeats, inPlay, same, Nat.lt_irrefl, true_and, false_or]
            simpa using ahead
        · rw [arbitrateBlock_stale e now src (Or.inr older)]
          simp only [Bool.false_eq_true, inPlay, true_and, false_iff]
          omega
      · have off : e.writtenOff src = true := by simpa using inPlay
        simp [arbitrateBlock_stale e now src (Or.inl off), off]

theorem arbitrate_last (seq : Seq) :
    (e.arbitrate key now src seq).1.last =
      if (e.arbitrate key now src seq).2.deliver then seq.stamp else e.last := by
  cases seq with
  | point v =>
      simp only [arbitrate, arbitratePoint, Seq.stamp]
      split_ifs <;> simp_all
  | lead v =>
      simp only [arbitrate, arbitrateLead, Seq.stamp]
      split_ifs <;> simp_all
  | sticky v =>
      cases led : e.blockLeader with
      | none => simp [arbitrate, arbitrateSticky, led, Seq.stamp]
      | some id =>
          simp only [arbitrate, arbitrateSticky, led, Seq.stamp]
          split_ifs <;> simp_all
  | snapshot h =>
      simp only [arbitrate, arbitrateSnapshot, Seq.stamp]
      split <;> simp
  | block h =>
      simp only [arbitrate, arbitrateBlock, Seq.stamp]
      split_ifs <;> simp_all

theorem arbitrate_blockLeader (seq : Seq) :
    (e.arbitrate key now src seq).1.blockLeader =
      if (e.arbitrate key now src seq).2.deliver ∧ seq ≠ .point seq.stamp then some src
      else e.blockLeader := by
  cases seq with
  | point v =>
      simp only [arbitrate, arbitratePoint, Seq.stamp]
      split_ifs <;> simp_all
  | lead v =>
      simp only [arbitrate, arbitrateLead, Seq.stamp]
      split_ifs <;> simp_all
  | sticky v =>
      cases led : e.blockLeader with
      | none => simp [arbitrate, arbitrateSticky, led]
      | some id =>
          simp only [arbitrate, arbitrateSticky, led, Seq.stamp]
          split_ifs <;> simp_all
  | snapshot h =>
      simp only [arbitrate, arbitrateSnapshot, Seq.stamp]
      split <;> simp
  | block h =>
      simp only [arbitrate, arbitrateBlock, Seq.stamp]
      split_ifs <;> simp_all

instance (e : SubEntry β) (key : SubKey) (src : Nat) (seq : Seq) :
    Decidable (e.Accepts key src seq) :=
  decidable_of_iff _ (e.arbitrate_deliver_iff key 0 src seq)

/-- The rule never touches who is attached or parked, nor the upstream flags. -/
theorem arbitrate_members (seq : Seq) :
    (e.arbitrate key now src seq).1.subscribers = e.subscribers ∧
      (e.arbitrate key now src seq).1.pending = e.pending ∧
      (e.arbitrate key now src seq).1.upstreamSubscribed = e.upstreamSubscribed ∧
      (e.arbitrate key now src seq).1.pinned = e.pinned := by
  have opened : ∀ (e : SubEntry β) (id : Nat),
      (e.openBlock id).subscribers = e.subscribers ∧ (e.openBlock id).pending = e.pending ∧
        (e.openBlock id).upstreamSubscribed = e.upstreamSubscribed ∧
        (e.openBlock id).pinned = e.pinned := fun _ _ => ⟨rfl, rfl, rfl, rfl⟩
  cases seq with
  | point v =>
      simp only [arbitrate, arbitratePoint]
      split_ifs <;> exact ⟨rfl, rfl, rfl, rfl⟩
  | lead v =>
      simp only [arbitrate, arbitrateLead]
      split_ifs <;> exact ⟨rfl, rfl, rfl, rfl⟩
  | sticky v =>
      simp only [arbitrate, arbitrateSticky]
      split
      · exact ⟨rfl, rfl, rfl, rfl⟩
      · split_ifs <;> exact ⟨rfl, rfl, rfl, rfl⟩
  | snapshot h =>
      simp only [arbitrate, arbitrateSnapshot]
      split
      · exact opened _ _
      · exact ⟨rfl, rfl, rfl, rfl⟩
  | block h =>
      simp only [arbitrate, arbitrateBlock]
      split_ifs <;> exact ⟨rfl, rfl, rfl, rfl⟩

end Rule

end SubEntry

end Wsarb
