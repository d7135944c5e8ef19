import Wsarb.Race.Scoreboard

/-!
Owns how often a source is charged a delay on `l4Book`: never more often than blocks are opened by
others, leaders lost and entries dropped, but for one charge it may owe from before.

Does not own: what a charge does to the counters.
-/

namespace Wsarb

open Wsarb.Library AppState

namespace SubEntry

variable {β : Type} (e : SubEntry β) (key : SubKey) (now src : Nat)

/-- The source opened the current block or has been charged for it. -/
def sampled (id : Nat) : Bool := e.blockSampled.getLsbD (id % 64)

/-- The frame is let through and starts a block. -/
def Opens (seq : Seq) : Prop := e.Accepts key src seq ∧ e.last < seq.stamp

instance (seq : Seq) : Decidable (e.Opens key src seq) :=
  inferInstanceAs (Decidable (_ ∧ _))

theorem sampled_clear_iff : e.blockSampled &&& sourceBit src = 0 ↔ e.sampled src = false := by
  have mask := writtenOff_eq_getLsbD { e with needsSnapshot := e.blockSampled } src
  simp only [writtenOff] at mask
  rw [sampled, ← mask]
  simp

/-- A repeated position is charged for exactly where its source's mark is clear. -/
theorem arbitrateBlock_charges {h : Nat} (inPlay : e.writtenOff src = false) (same : h = e.last)
    (behind : ¬ e.blockSent < (e.seenBy src + 1) % 2 ^ 32) :
    e.arbitrateBlock now src h =
      if e.sampled src = false then
        ({ (e.bumpBlockCount src).1 with blockSampled := e.blockSampled ||| sourceBit src },
          { late := some (now - e.lastSeenAt) })
      else ((e.bumpBlockCount src).1, {}) := by
  have notNewer : ¬ e.last < h := by omega
  simp only [arbitrateBlock, inPlay, Bool.false_eq_true, if_false, if_neg notNewer, if_pos same,
    bumpBlockCount_count, bumpBlockCount_blockSent, if_neg behind, ← sampled_clear_iff]
  rfl

/-- What a frame does to the mark of a source: a block opened is marked for its opener alone, other
frames clear no mark, and a charge sets one that was clear. -/
structure Marks (id : Nat) (seq : Seq) (after : SubEntry β) (verdict : Verdict) : Prop where
  opens : e.Opens key src seq → after.sampled id = decide (id % 64 = src % 64)
  keeps : ¬ e.Opens key src seq → e.sampled id = true → after.sampled id = true
  charges : verdict.late.isSome = true →
    ¬ e.Opens key src seq ∧ e.sampled src = false ∧ after.sampled src = true

variable {e key now src} {seq : Seq} {after : SubEntry β} {verdict : Verdict}

theorem Marks.of_opened (id : Nat) (opens : e.Opens key src seq)
    (marked : after.blockSampled = sourceBit src) (win : verdict.late = none) :
    e.Marks key src id seq after verdict where
  opens := fun _ => by rw [sampled, marked, getLsbD_sourceBit]
  keeps := fun never => absurd opens never
  charges := fun late => by simp [win] at late

theorem Marks.of_same (id : Nat) (other : ¬ e.Opens key src seq)
    (same : after.blockSampled = e.blockSampled) (quiet : verdict.late = none) :
    e.Marks key src id seq after verdict where
  opens := fun opens => absurd opens other
  keeps := fun _ marked => by rw [sampled, same]; exact marked
  charges := fun late => by simp [quiet] at late

theorem marks_arbitrateBlock (id h : Nat) :
    e.Marks key src id (.block h) (e.arbitrateBlock now src h).1
      (e.arbitrateBlock now src h).2 := by
  by_cases inPlay : e.writtenOff src = false
  · rcases Nat.lt_trichotomy e.last h with newer | same | older
    · rw [arbitrateBlock_opens e now src inPlay newer]
      exact .of_opened id ⟨⟨inPlay, .inl newer⟩, newer⟩ rfl rfl
    · have other : ¬ e.Opens key src (.block h) := fun opens => by
        have newer : e.last < h := opens.2
        omega
      by_cases ahead : e.blockSent < (e.seenBy src + 1) % 2 ^ 32
      · rw [arbitrateBlock_continues e now src inPlay same.symm ahead]
        exact .of_same id other rfl rfl
      · rw [arbitrateBlock_charges e now src inPlay same.symm ahead]
        split
        · next clear =>
            have set (other : Nat) : (e.blockSampled ||| sourceBit src).getLsbD (other % 64) =
                (e.sampled other || decide (other % 64 = src % 64)) := by
              rw [BitVec.getLsbD_or, getLsbD_sourceBit, sampled]
            refine ⟨fun opens => absurd opens other, fun _ marked => ?_,
              fun _ => ⟨other, clear, ?_⟩⟩
            · exact (set id).trans (by rw [marked, Bool.true_or])
            · exact (set src).trans (by simp)
        · exact .of_same id other rfl rfl
    · rw [arbitrateBlock_stale e now src (.inr older)]
      refine .of_same id (fun opens => ?_) rfl rfl
      have newer : e.last < h := opens.2
      omega
  · have off : e.writtenOff src = true := by simpa using inPlay
    rw [arbitrateBlock_stale e now src (.inl off)]
    exact .of_same id (fun opens => inPlay opens.1.1) rfl rfl

theorem marks_arbitrateSnapshot (id h : Nat) :
    e.Marks key src id (.snapshot h) (e.arbitrateSnapshot key now src h).1
      (e.arbitrateSnapshot key now src h).2 := by
  by_cases accepts : e.Accepts key src (.snapshot h)
  · rw [arbitrateSnapshot_of_accepts e key now src accepts]
    exact .of_opened id ⟨accepts, accepts.2⟩ rfl rfl
  · rw [arbitrateSnapshot_of_not_accepts e key now src accepts]
    exact .of_same id (fun opens => accepts opens.1) rfl rfl

/-- The marks are read off the mask alone. -/
theorem Marks.congr {id : Nat} {other : SubEntry β} (marks : e.Marks key src id seq after verdict)
    (same : other.blockSampled = after.blockSampled) : e.Marks key src id seq other verdict := by
  have alike (id : Nat) : other.sampled id = after.sampled id := by
    rw [sampled, same, sampled]
  refine ⟨fun opens => ?_, fun stays marked => ?_, fun late => ?_⟩
  · rw [alike, marks.opens opens]
  · rw [alike, marks.keeps stays marked]
  · rw [alike]
    exact marks.charges late

/-- On `l4Book` frames are snapshots and messages of blocks. -/
theorem marks_update [Payload β] {coin : String} (id : Nat) (payload : β)
    (admitted : (SubKey.l4Book coin).admits seq = true) :
    e.Marks (.l4Book coin) src id seq (e.update (.l4Book coin) now src seq payload).1
      (e.arbitrate (.l4Book coin) now src seq).2 := by
  have decided : e.Marks (.l4Book coin) src id seq (e.arbitrate (.l4Book coin) now src seq).1
      (e.arbitrate (.l4Book coin) now src seq).2 := by
    cases seq with
    | snapshot h => exact marks_arbitrateSnapshot id h
    | block h => exact marks_arbitrateBlock id h
    | _ => cases admitted
  refine decided.congr ?_
  rw [update_entry]
  split <;> rfl

end SubEntry

/-! ### Over a run -/

namespace AppState

variable {st : Live} {key : SubKey} {source : Nat} {op : Op}

def charges (key : SubKey) (source : Nat) (st : Live) (op : Op) : Bool :=
  decide (op.carries = some key) && (st.judged source op).any (·.late.isSome)

/-- The source can be charged again: somebody else, whose mark is another, opens a block of the key,
or the key loses its leader or its entry. -/
def renews (key : SubKey) (source : Nat) (st : Live) : Op → Bool
  | .onUpdate now message =>
      decide (message.key = key ∧ source % 64 ≠ message.source % 64 ∧
        (st.entryOr now key).Opens key message.source message.seq)
  | op => st.losesLeader key op ||
      ((st.getEntry key).isSome && ((st.step op).getEntry key).isNone)

/-- The source has not been charged for the block under way, nor opened it. -/
def chargeable (key : SubKey) (source : Nat) (st : Live) : Bool :=
  !(st.getEntry key).any (·.sampled source)

theorem chargeable_of_some {e : SubEntry Message} (found : st.getEntry key = some e) :
    chargeable key source st = !e.sampled source := by
  rw [chargeable, found, Option.any_some]

theorem chargeable_entryOr (now : Nat) :
    chargeable key source st = !(st.entryOr now key).sampled source := by
  cases found : st.getEntry key with
  | some e => rw [chargeable_of_some found, entryOr_of_some found]
  | none =>
      rw [chargeable, found, entryOr_of_none found]
      simp [SubEntry.sampled, SubEntry.new]

/-- Whoever stands on an entry, its marks stay; only the loss of its leader clears them. -/
theorem sampled_of_becomes {e after : SubEntry Message} (found : st.getEntry key = some e)
    (later : (st.step op).getEntry key = some after) (silent : ∀ now message,
      op = .onUpdate now message → message.key ≠ key)
    (led : st.losesLeader key op = false) : after.sampled source = e.sampled source := by
  have own {other : SubEntry Message} (before : st.getEntry key = some other) : other = e :=
    Option.some.inj (before.symm.trans found)
  have used (now : Nat) : st.entryOr now key = e := entryOr_of_some found now
  cases becomes later with
  | kept before apart => rw [own before]
  | @subscribed now client absent =>
      rw [used now]
      unfold attach
      dsimp only
      split_ifs <;> rfl
  | @pinned now => rw [used now]; rfl
  | left before leaves stays => rw [own before]; rfl
  | heard routed => exact absurd routed (silent _ _ rfl)
  | @rebuilt client fetched other before routed =>
      rw [own before]
      unfold SubEntry.rebuild
      split <;> rfl
  | @gaveUp client other before =>
      rw [own before]
      rfl
  | @lost lost other before =>
      have stays : other.blockLeader ≠ some lost := by
        simpa [losesLeader, before] using led
      rw [loseSource_of_other _ _ _ stays, own before]

/-- A frame of the key that charges the source takes its chance to be charged; only a block that
somebody else opens gives it back. -/
theorem charges_heard {coin : String} {now : Nat} {message : Message}
    (routed : message.key = .l4Book coin) :
    (charges (.l4Book coin) source st (.onUpdate now message)).toNat +
        (chargeable (.l4Book coin) source (st.step (.onUpdate now message))).toNat ≤
      (chargeable (.l4Book coin) source st).toNat +
        (renews (.l4Book coin) source st (.onUpdate now message)).toNat := by
  have admitted : (SubKey.l4Book coin).admits message.seq = true := routed ▸ message.admitted
  have marks : (st.entryOr now (.l4Book coin)).Marks (.l4Book coin) message.source source
      message.seq ((st.entryOr now (.l4Book coin)).update (.l4Book coin) now message.source
        message.seq message).1 ((st.entryOr now (.l4Book coin)).arbitrate (.l4Book coin) now
        message.source message.seq).2 := SubEntry.marks_update source message admitted
  have before : chargeable (.l4Book coin) source st =
      !(st.entryOr now (.l4Book coin)).sampled source := chargeable_entryOr now
  have after : (st.step (.onUpdate now message)).getEntry (.l4Book coin) =
      some ((st.entryOr now (.l4Book coin)).update (.l4Book coin) now message.source message.seq
        message).1 := by
    rw [getEntry_step, entryAfter, if_pos routed]
  have charged : charges (.l4Book coin) source st (.onUpdate now message) = true →
      message.source = source ∧ ((st.entryOr now (.l4Book coin)).arbitrate (.l4Book coin) now
        message.source message.seq).2.late.isSome = true := by
    simp only [charges, judged, routed, Bool.and_eq_true]
    intro both
    have late := both.2
    split at late
    · next own => exact ⟨own, late⟩
    · cases late
  have renewed : renews (.l4Book coin) source st (.onUpdate now message) =
      decide (source % 64 ≠ message.source % 64 ∧
        (st.entryOr now (.l4Book coin)).Opens (.l4Book coin) message.source message.seq) := by
    simp only [renews, routed, true_and]
  rw [before, chargeable_of_some after, renewed]
  by_cases opens :
      (st.entryOr now (.l4Book coin)).Opens (.l4Book coin) message.source message.seq
  · have free : charges (.l4Book coin) source st (.onUpdate now message) = false :=
      Bool.eq_false_iff.mpr fun late => (marks.charges (charged late).2).1 opens
    rw [free, marks.opens opens]
    by_cases own : source % 64 = message.source % 64 <;> simp [own, opens]
  · cases late : charges (.l4Book coin) source st (.onUpdate now message) with
    | true =>
        obtain ⟨rfl, charge⟩ := charged late
        simp [marks.charges charge]
    | false =>
        have kept := marks.keeps opens
        cases marked : (st.entryOr now (.l4Book coin)).sampled source with
        | true => simp [kept marked]
        | false => exact Nat.le_add_right_of_le (by simp [Bool.toNat_le])

/-- Anything else charges nobody, and renews where it clears a mark. -/
theorem charges_silent (silent : ∀ now message, op = .onUpdate now message → message.key ≠ key) :
    (charges key source st op).toNat + (chargeable key source (st.step op)).toNat ≤
      (chargeable key source st).toNat + (renews key source st op).toNat := by
  have free : charges key source st op = false := by
    cases op with
    | onUpdate now message => simp [charges, Op.carries, silent now message rfl]
    | _ => simp [charges, judged]
  rw [free, Bool.toNat_false, Nat.zero_add]
  cases found : st.getEntry key with
  | none => exact Nat.le_add_right_of_le (by simp [chargeable, found, Bool.toNat_le])
  | some e =>
      cases later : (st.step op).getEntry key with
      | none =>
          have renewed : renews key source st op = true := by
            cases op with
            | onUpdate now message =>
                rw [getEntry_step, entryAfter, if_neg (silent now message rfl), found] at later
                cases later
            | _ => simp [renews, found, later]
          simp [renewed, chargeable, later]
      | some after =>
          rw [chargeable_of_some found, chargeable_of_some later]
          cases led : st.losesLeader key op with
          | true =>
              have renewed : renews key source st op = true := by
                cases op with
                | onUpdate now message => cases led
                | _ => simp [renews, led]
              rw [renewed]
              exact Nat.le_add_left_of_le (Bool.toNat_le _)
          | false =>
              rw [sampled_of_becomes found later silent led]
              exact Nat.le_add_right _ _

theorem charges_step (coin : String) (source : Nat) (st : Live) (op : Op) :
    (charges (.l4Book coin) source st op).toNat +
        (chargeable (.l4Book coin) source (st.step op)).toNat ≤
      (chargeable (.l4Book coin) source st).toNat + (renews (.l4Book coin) source st op).toNat := by
  cases op with
  | onUpdate now message =>
      by_cases routed : message.key = .l4Book coin
      · exact charges_heard routed
      · refine charges_silent ?_
        intro _ _ same
        obtain ⟨rfl, rfl⟩ := Op.onUpdate.inj same
        exact routed
  | _ => exact charges_silent fun _ _ never => nomatch never

/-- From any state on, a source is charged on an `l4Book` key no more often than a block is opened
there by somebody else, its leader is lost or its entry dropped; once more only if it could be
charged at the outset. -/
theorem charged_once_a_block (coin : String) (source : Nat) (st : Live) (ops : List Op) :
    total step (fun st op => (charges (.l4Book coin) source st op).toNat) st ops ≤
      (chargeable (.l4Book coin) source st).toNat +
        total step (fun st op => (renews (.l4Book coin) source st op).toNat) st ops :=
  total_le_supply (fun st => (chargeable (.l4Book coin) source st).toNat)
    (charges_step coin source) st ops

end AppState

end Wsarb
