import Wsarb.Upstream.Route

/-!
Owns what the upstream understands by a request and the frames it sends for one, and that the
two spellings meet: requests share a normal key exactly when they ask for the same stream, and
the frames of a request route to its normal key.

Does not own: which node answers, or how a frame is ordered.
-/

namespace Wsarb

/-- What the upstream understands by a request. -/
structure Meaning where
  channel : String
  coin : Option String
  user : Option String
  nSigFigs : Option UInt32
  nLevels : Option UInt64
  mantissa : Option UInt64
  deriving DecidableEq, Repr

/-- A request on a channel that asks for a coin and nothing more. -/
def Meaning.ofCoin (channel coin : String) : Meaning where
  channel := channel
  coin := some coin
  user := none
  nSigFigs := none
  nLevels := none
  mantissa := none

/-- A request for an aggregated book; without a depth it asks for the default one. -/
def Meaning.ofBook (channel coin : String) (nSigFigs : Option UInt32)
    (nLevels mantissa : Option UInt64) : Meaning where
  channel := channel
  coin := some coin
  user := none
  nSigFigs := nSigFigs
  nLevels := some (nLevels.getD SubKey.defaultL2Levels)
  mantissa := mantissa

namespace SubKey

/-- The stream a request asks for. Addresses are the same address in any case. -/
def denote : SubKey → Meaning
  | trades coin => .ofCoin "trades" coin
  | l2Book coin nSigFigs nLevels mantissa => .ofBook "l2Book" coin nSigFigs nLevels mantissa
  | l2Diff coin nSigFigs nLevels mantissa => .ofBook "l2Diff" coin nSigFigs nLevels mantissa
  | l4Book coin => .ofCoin "l4Book" coin
  | bbo coin => .ofCoin "bbo" coin
  | orderUpdates user =>
      { channel := "orderUpdates", coin := none, user := some (toAsciiLowercase user),
        nSigFigs := none, nLevels := none, mantissa := none }
  | bookDiffs coin => .ofCoin "bookDiffs" coin

end SubKey

/-- The frames the upstream sends for a request. Parameters are echoed with the default depth
filled in, and a batch is never empty and all of one coin or user. `l4Book` updates carry their
coin in the elements of one array or the other. Nothing is ever sent for `bookDiffs`. -/
inductive Sends : SubKey → Frame → Prop
  | trades {coin : String} {batch : List TradeHead} (filled : batch ≠ [])
      (ours : ∀ trade ∈ batch, trade.coin = coin) : Sends (.trades coin) (.trades batch)
  | l2Book {coin : String} {nSigFigs : Option UInt32} {nLevels mantissa : Option UInt64}
      (time : Nat) :
      Sends (.l2Book coin nSigFigs nLevels mantissa)
        (.l2Book ⟨coin, time, nSigFigs, some (nLevels.getD SubKey.defaultL2Levels), mantissa⟩)
  | l2DiffSnapshot {coin : String} {nSigFigs : Option UInt32} {nLevels mantissa : Option UInt64}
      (height : Nat) :
      Sends (.l2Diff coin nSigFigs nLevels mantissa)
        (.l2Diff (.snapshot
          ⟨coin, height, nSigFigs, some (nLevels.getD SubKey.defaultL2Levels), mantissa⟩))
  | l2DiffUpdates {coin : String} {nSigFigs : Option UInt32} {nLevels mantissa : Option UInt64}
      (height : Nat) :
      Sends (.l2Diff coin nSigFigs nLevels mantissa)
        (.l2Diff (.updates
          ⟨coin, height, nSigFigs, some (nLevels.getD SubKey.defaultL2Levels), mantissa⟩))
  | l4Snapshot {coin : String} (height : Nat) :
      Sends (.l4Book coin) (.l4Book (.snapshot coin height))
  | l4Updates {coin : String} {updates : L4Updates}
      (filled : updates.orderStatuses ≠ [] ∨ updates.bookDiffs ≠ [])
      (statuses : ∀ status ∈ updates.orderStatuses, status.order.coin = coin)
      (diffs : ∀ diff ∈ updates.bookDiffs, diff.coin = coin) :
      Sends (.l4Book coin) (.l4Book (.updates updates))
  | bbo {coin : String} (time : Nat) : Sends (.bbo coin) (.bbo ⟨coin, time⟩)
  | orderUpdates {user : String} {batch : List OrderUpdateHead} (filled : batch ≠ [])
      (ours : ∀ update ∈ batch,
        SubKey.toAsciiLowercase update.user = SubKey.toAsciiLowercase user) :
      Sends (.orderUpdates user) (.orderUpdates batch)

/-! ### Requests -/

/-- Folding the default depth back merges two depths exactly when filling it in does. -/
theorem filter_levels_inj (first second : Option UInt64) :
    first.filter (· ≠ SubKey.defaultL2Levels) = second.filter (· ≠ SubKey.defaultL2Levels) ↔
      first.getD SubKey.defaultL2Levels = second.getD SubKey.defaultL2Levels := by
  cases first <;> cases second <;> simp only [Option.filter, Option.getD] <;> grind

/-- Filling in the default depth does not change what is asked for. -/
theorem filter_getD_levels (nLevels : Option UInt64) :
    (some (nLevels.getD SubKey.defaultL2Levels)).filter (· ≠ SubKey.defaultL2Levels) =
      nLevels.filter (· ≠ SubKey.defaultL2Levels) :=
  (filter_levels_inj _ _).mpr rfl

/-- Two requests have one normal spelling exactly when they ask for one stream. -/
theorem normalized_eq_iff (first second : SubKey) :
    first.normalized = second.normalized ↔ first.denote = second.denote := by
  have levels := filter_levels_inj
  cases first <;> cases second <;>
    simp only [SubKey.normalized, SubKey.denote, Meaning.ofCoin, Meaning.ofBook,
      SubKey.trades.injEq, SubKey.l2Book.injEq, SubKey.l2Diff.injEq, SubKey.l4Book.injEq,
      SubKey.bbo.injEq, SubKey.orderUpdates.injEq, SubKey.bookDiffs.injEq, Meaning.mk.injEq,
      Option.some.injEq, levels, reduceCtorEq, String.reduceEq, true_and, and_true, false_and,
      and_false]

theorem toLower_toLower (c : Char) : c.toLower.toLower = c.toLower := by
  have small : ¬ (c.toLower.val ≥ 'A'.val ∧ c.toLower.val ≤ 'Z'.val) := by
    rw [Char.toLower.eq_def]
    simp only [ge_iff_le]
    split <;> grind [UInt32.toNat_add, Char.toNat_val]
  rw [Char.toLower.eq_def c.toLower, dif_neg small]

theorem toAsciiLowercase_idem (text : String) :
    SubKey.toAsciiLowercase (SubKey.toAsciiLowercase text) = SubKey.toAsciiLowercase text := by
  have twice : Char.toLower ∘ Char.toLower = Char.toLower := funext toLower_toLower
  rw [SubKey.toAsciiLowercase, SubKey.toAsciiLowercase, String.map_map, twice]

/-! ### Frames -/

/-- A frame sent for a request routes to the request's normal spelling. -/
theorem route_of_sends {key : SubKey} {frame : Frame} (sends : Sends key frame) :
    ∃ seq, route frame = some (key.normalized, seq) := by
  cases sends with
  | @trades coin batch filled ours =>
      obtain ⟨first, rest, rfl⟩ := List.exists_cons_of_ne_nil filled
      have named : first.coin = coin := ours first List.mem_cons_self
      obtain ⟨tid, newest⟩ : ∃ tid, ((first :: rest).map (·.tid)).max? = some tid :=
        ⟨_, List.max?_cons'⟩
      refine ⟨.point tid, ?_⟩
      simp only [route, routeRaw, List.head?_cons, newest, named, SubKey.normalized,
        Option.bind_eq_bind, Option.bind_some]
  | l2Book time =>
      refine ⟨.sticky time, ?_⟩
      simp only [route, routeRaw, SubKey.normalized, filter_getD_levels, Option.bind_eq_bind,
        Option.bind_some]
  | l2DiffSnapshot height =>
      refine ⟨.snapshot height, ?_⟩
      simp only [route, routeRaw, L2DiffHead.key, SubKey.normalized, filter_getD_levels,
        Option.bind_eq_bind, Option.bind_some]
  | l2DiffUpdates height =>
      refine ⟨.sticky height, ?_⟩
      simp only [route, routeRaw, L2DiffHead.key, SubKey.normalized, filter_getD_levels,
        Option.bind_eq_bind, Option.bind_some]
  | l4Snapshot height => exact ⟨.snapshot height, rfl⟩
  | @l4Updates coin updates filled statuses diffs =>
      refine ⟨.block updates.height, ?_⟩
      have named : (updates.orderStatuses.head?.map (·.order.coin)).or
          (updates.bookDiffs.head?.map (·.coin)) = some coin := by
        cases listed : updates.orderStatuses with
        | cons status rest =>
            rw [listed] at statuses
            simp [statuses status List.mem_cons_self]
        | nil =>
            obtain ⟨diff, rest, same⟩ :=
              List.exists_cons_of_ne_nil (filled.resolve_left (not_not_intro listed))
            rw [same] at diffs
            simp [same, diffs diff List.mem_cons_self]
      simp [route, routeRaw, named]
  | bbo time => exact ⟨.lead time, rfl⟩
  | @orderUpdates user batch filled ours =>
      obtain ⟨first, rest, rfl⟩ := List.exists_cons_of_ne_nil filled
      have named := ours first List.mem_cons_self
      obtain ⟨height, newest⟩ : ∃ height, ((first :: rest).map (·.height)).max? = some height :=
        ⟨_, List.max?_cons'⟩
      refine ⟨.block height, ?_⟩
      simp only [route, routeRaw, List.head?_cons, newest, named, SubKey.normalized,
        toAsciiLowercase_idem, Option.bind_eq_bind, Option.bind_some]

/-- There is a frame for every request but those for `bookDiffs`. -/
theorem exists_sends {key : SubKey} (served : ∀ coin, key ≠ .bookDiffs coin) :
    ∃ frame, Sends key frame := by
  cases key with
  | trades coin => exact ⟨.trades [⟨coin, 0⟩], .trades (by simp) (by simp)⟩
  | l2Book coin nSigFigs nLevels mantissa => exact ⟨_, .l2Book 0⟩
  | l2Diff coin nSigFigs nLevels mantissa => exact ⟨_, .l2DiffSnapshot 0⟩
  | l4Book coin => exact ⟨_, .l4Snapshot 0⟩
  | bbo coin => exact ⟨_, .bbo 0⟩
  | orderUpdates user => exact ⟨.orderUpdates [⟨user, 0⟩], .orderUpdates (by simp) (by simp)⟩
  | bookDiffs coin => exact absurd rfl (served coin)

/-- Requests and frames meet at the same key: two requests share a normal spelling exactly when
they ask for the same stream, and whatever the upstream sends for a request, which is something
for every request but those for `bookDiffs`, is routed to its normal spelling. -/
theorem requests_and_frames_meet :
    (∀ first second : SubKey,
      first.normalized = second.normalized ↔ first.denote = second.denote) ∧
    (∀ (key : SubKey) (frame : Frame), Sends key frame →
      ∃ seq, route frame = some (key.normalized, seq)) ∧
    ∀ key : SubKey, (∀ coin, key ≠ .bookDiffs coin) → ∃ frame, Sends key frame :=
  ⟨normalized_eq_iff, fun _ _ => route_of_sends, fun _ => exists_sends⟩

/-- The diffs branch of an `l4Book` update, and two spellings of the default depth. -/
theorem requests_and_frames_meet_at_sol :
    (SubKey.l2Book "SOL" none (some 20) none).normalized =
        (SubKey.l2Book "SOL" none none none).normalized ∧
      ∃ seq, route (.l4Book (.updates ⟨902, [], [⟨"SOL"⟩]⟩)) = some (.l4Book "SOL", seq) :=
  ⟨(requests_and_frames_meet.1 _ _).mpr rfl,
    requests_and_frames_meet.2.1 (.l4Book "SOL") _
      (.l4Updates (Or.inr (by simp)) (by simp) (by simp))⟩

end Wsarb
