import Mathlib.Algebra.Ring.Nat
import Mathlib.Data.List.MinMax
import Wsarb.Library.Run

/-!
Owns how silence is measured: the window counters of a source, the pass over all sources every
window, and the sources taken for dead at a tick. Owns exactly when sources that fall quiet
together are all left alone.

Times are nanoseconds since start-up; tick `k` closes the `k`-th window. Packet counters are
natural numbers: no source delivers 2^64 packets.

Does not own: what is done about a silent source.
-/

namespace Wsarb

open Wsarb.Library

/-- How often `roll_window` is called, in nanoseconds. -/
def windowNs : Nat := 5000000000

/-- How long a source may go without delivering before it is treated as gone. -/
def silenceLimit : Nat := 5000000000

/-- The counters `roll_window` takes the differences of. -/
structure Tally where
  packets : Nat := 0
  wins : Nat := 0
  duplicates : Nat := 0
  stale : Nat := 0
  delaySumUs : Nat := 0
  delayCount : Nat := 0

/-- What was counted since; a counter that fell counts as unchanged. -/
def Tally.since (now before : Tally) : Tally where
  packets := now.packets - before.packets
  wins := now.wins - before.wins
  duplicates := now.duplicates - before.duplicates
  stale := now.stale - before.stale
  delaySumUs := now.delaySumUs - before.delaySumUs
  delayCount := now.delayCount - before.delayCount

/-- The statistics of one upstream connection that windows are taken of. -/
structure WindowStats where
  connected : Bool
  count : Tally := {}
  /-- Consecutive `rollWindow` passes in which this source delivered nothing. -/
  silentWindows : Nat := 0
  prev : Tally := {}
  delta : Tally := {}

namespace WindowStats

def deliver (stats : WindowStats) : WindowStats :=
  { stats with count := { stats.count with packets := stats.count.packets + 1 } }

/-- How long this source has been silent in whole windows, or none if it never delivered. The
count is cut to 32 bits. -/
def idleFor (stats : WindowStats) : Option Nat :=
  if stats.count.packets = 0 then none else some (windowNs * (stats.silentWindows % 2 ^ 32))

/-- Store what was counted since the last pass, and whether that was nothing. -/
def rollWindow (stats : WindowStats) : WindowStats :=
  let delta := stats.count.since stats.prev
  { stats with
    silentWindows := if delta.packets = 0 then (stats.silentWindows + 1) % 2 ^ 64 else 0
    prev := stats.count
    delta := delta }

end WindowStats

/-- An upstream connection as the silence task sees it. -/
structure Watched where
  id : Nat
  stats : WindowStats

/-- Sources that have gone quiet while others keep delivering. -/
def silentSources (limit : Nat) (sources : List Watched) : List Nat :=
  match (sources.filterMap (·.stats.idleFor)).min? with
  | none => []
  | some freshest =>
      if freshest ≤ limit then
        ((sources.filter (·.stats.connected)).filter
          fun src => src.stats.idleFor.any (limit < ·)).map (·.id)
      else []

/-- A packet from a source at some time within a window. -/
structure Delivery where
  source : Nat
  offset : Nat
  within : offset < windowNs

/-- What is delivered between two ticks. -/
abbrev Window := List Delivery

namespace Watch

def hear (sources : List Watched) (delivery : Delivery) : List Watched :=
  sources.map fun src =>
    if src.id = delivery.source then { src with stats := src.stats.deliver } else src

/-- A window of deliveries, and the pass over all sources at the tick that closes it. -/
def pass (sources : List Watched) (window : Window) : List Watched :=
  (window.foldl hear sources).map fun src => { src with stats := src.stats.rollWindow }

/-- All sources connected, none heard yet. -/
def start (count : Nat) : List Watched :=
  (List.range count).map fun id => { id := id, stats := { connected := true } }

/-- The sources at tick `k` of a history. -/
def atTick (count : Nat) (history : Nat → Window) (k : Nat) : List Watched :=
  run pass (start count) ((List.range k).map history)

def Delivers (history : Nat → Window) (id t : Nat) : Prop :=
  ∃ i, ∃ delivery ∈ history i, delivery.source = id ∧ t = i * windowNs + delivery.offset

/-- The source's last delivery is at this time, or it never delivers. -/
def IsLast (history : Nat → Window) (id : Nat) : Option Nat → Prop
  | none => ∀ t, ¬ Delivers history id t
  | some t => Delivers history id t ∧ ∀ other, Delivers history id other → other ≤ t

/-! ### One source -/

/-- Some packets come in, then the window is rolled. -/
def through (stats : WindowStats) (packets : Nat) : WindowStats :=
  { stats with
    count := { stats.count with packets := stats.count.packets + packets } }.rollWindow

/-- The source delivers nothing in a window. -/
def Mute (id : Nat) (window : Window) : Prop := ∀ delivery ∈ window, delivery.source ≠ id

/-- A source's counters after `k` windows of a history. -/
structure Counted (history : Nat → Window) (k id : Nat) (stats : WindowStats) : Prop where
  connected : stats.connected = true
  rolled : stats.prev.packets = stats.count.packets
  unheard : stats.count.packets = 0 ↔ ∀ i < k, Mute id (history i)
  silent : ∀ i < k, ¬ Mute id (history i) → (∀ j < k, i < j → Mute id (history j)) →
    stats.silentWindows = (k - 1 - i) % 2 ^ 64

variable {history : Nat → Window} {k id : Nat} {stats : WindowStats}

theorem countP_eq_zero_iff {window : Window} :
    window.countP (·.source = id) = 0 ↔ Mute id window := by
  simp [List.countP_eq_zero, Mute]

theorem forall_lt_succ {P : Nat → Prop} : (∀ i < k + 1, P i) ↔ (∀ i < k, P i) ∧ P k := by
  constructor
  · intro all
    exact ⟨fun i below => all i (by omega), all k (by omega)⟩
  · rintro ⟨below, last⟩ i within
    rcases Nat.lt_succ_iff_lt_or_eq.mp within with earlier | rfl
    · exact below i earlier
    · exact last

/-- One window, counted. -/
theorem Counted.next (counted : Counted history k id stats) :
    Counted history (k + 1) id (through stats ((history k).countP (·.source = id))) where
  connected := counted.connected
  rolled := rfl
  unheard := by
    rw [forall_lt_succ, ← counted.unheard, ← countP_eq_zero_iff]
    exact Nat.add_eq_zero_iff
  silent := by
    have silentWindows : (through stats ((history k).countP (·.source = id))).silentWindows =
        if (history k).countP (·.source = id) = 0 then (stats.silentWindows + 1) % 2 ^ 64
        else 0 := by
      simp only [through, WindowStats.rollWindow, Tally.since, counted.rolled,
        Nat.add_sub_cancel_left]
    intro i within heard mute
    rw [silentWindows]
    rcases Nat.lt_succ_iff_lt_or_eq.mp within with earlier | rfl
    · have quiet := countP_eq_zero_iff.mpr (mute k (by omega) earlier)
      have before := counted.silent i earlier heard fun j below later =>
        mute j (by omega) later
      rw [if_pos quiet, before]
      omega
    · rw [if_neg fun nothing => heard (countP_eq_zero_iff.mp nothing)]
      omega

/-! ### All sources -/

theorem foldl_hear (sources : List Watched) (window : Window) :
    window.foldl hear sources = sources.map fun src =>
      { src with stats := { src.stats with count := { src.stats.count with
        packets := src.stats.count.packets + window.countP (·.source = src.id) } } } := by
  induction window generalizing sources with
  | nil => simp
  | cons delivery rest inductionHypothesis =>
      rw [List.foldl_cons, inductionHypothesis, hear, List.map_map]
      apply List.map_congr_left
      intro src _
      by_cases own : src.id = delivery.source
      · simp [own, WindowStats.deliver, Nat.add_assoc, Nat.add_comm 1]
      · simp [own, Ne.symm own]

theorem pass_eq (sources : List Watched) (window : Window) :
    pass sources window = sources.map fun src =>
      { src with stats := through src.stats (window.countP (·.source = src.id)) } := by
  rw [pass, foldl_hear, List.map_map]
  rfl

/-- At every tick there is one record a source, and it counts that source. -/
theorem counted_atTick (count : Nat) (history : Nat → Window) (k : Nat) :
    (atTick count history k).map (·.id) = List.range count ∧
      ∀ src ∈ atTick count history k, Counted history k src.id src.stats := by
  induction k with
  | zero =>
      refine ⟨(List.map_map ..).trans (List.map_id _), ?_⟩
      intro src member
      obtain ⟨id, -, rfl⟩ := List.mem_map.mp member
      exact ⟨rfl, rfl, by simp, fun i within => absurd within (Nat.not_lt_zero i)⟩
  | succ k inductionHypothesis =>
      obtain ⟨ids, counted⟩ := inductionHypothesis
      have next : atTick count history (k + 1) = pass (atTick count history k) (history k) := by
        rw [atTick, List.range_succ, List.map_append, run_append]
        rfl
      rw [next, pass_eq]
      constructor
      · rw [List.map_map, ← ids]
        rfl
      · intro src member
        obtain ⟨before, listed, rfl⟩ := List.mem_map.mp member
        exact (counted before listed).next

theorem connected_atTick (count : Nat) (history : Nat → Window) (k : Nat) :
    ∀ src ∈ atTick count history k, src.stats.connected = true := fun src member =>
  ((counted_atTick count history k).2 src member).connected

/-- No source is taken for dead exactly when, wherever one was heard within the limit, so were
all. -/
theorem silentSources_eq_nil_iff {limit : Nat} {sources : List Watched}
    (connected : ∀ src ∈ sources, src.stats.connected = true) :
    silentSources limit sources = [] ↔
      ∀ first ∈ sources, ∀ second ∈ sources, ∀ idle ∈ first.stats.idleFor,
        ∀ other ∈ second.stats.idleFor, other ≤ limit → idle ≤ limit := by
  have all : sources.filter (·.stats.connected) = sources := List.filter_eq_self.mpr connected
  have among : ∀ idle, idle ∈ sources.filterMap (·.stats.idleFor) ↔
      ∃ src ∈ sources, src.stats.idleFor = some idle := fun _ => List.mem_filterMap
  have overdue (src : Watched) : src.stats.idleFor.any (limit < ·) = true ↔
      ∃ idle ∈ src.stats.idleFor, limit < idle := by
    simp [Option.any_eq_true]
  rw [silentSources, all]
  cases least : (sources.filterMap (·.stats.idleFor)).min? with
  | none =>
      rw [List.min?_eq_none_iff] at least
      refine iff_of_true rfl fun first member _ _ idle heard => ?_
      have listed := (among idle).mpr ⟨first, member, heard⟩
      rw [least] at listed
      exact absurd listed List.not_mem_nil
  | some freshest =>
      obtain ⟨attained, below⟩ := List.min?_eq_some_iff.mp least
      obtain ⟨freshly, present, newest⟩ := (among freshest).mp attained
      dsimp only
      split
      · next recent =>
          rw [List.map_eq_nil_iff, List.filter_eq_nil_iff]
          constructor
          · intro none_ first member second _ idle heard other _ _
            by_contra late
            exact none_ first member ((overdue first).mpr ⟨idle, heard, by omega⟩)
          · intro together src member late
            obtain ⟨idle, heard, above⟩ := (overdue src).mp late
            have within := together src member freshly present idle heard freshest newest recent
            omega
      · next old =>
          refine iff_of_true rfl fun first _ second present idle _ other heard recent => ?_
          have least := below other ((among other).mpr ⟨second, present, heard⟩)
          omega

/-! ### Falling quiet together -/

theorem delivers_iff {t : Nat} : Delivers history id t ↔
    ∃ delivery ∈ history (t / windowNs), delivery.source = id ∧ delivery.offset = t % windowNs := by
  constructor
  · rintro ⟨i, delivery, member, own, rfl⟩
    have within := delivery.within
    have window : (i * windowNs + delivery.offset) / windowNs = i := by
      unfold windowNs at within ⊢
      omega
    refine ⟨delivery, window.symm ▸ member, own, ?_⟩
    unfold windowNs at within ⊢
    omega
  · rintro ⟨delivery, member, own, offset⟩
    refine ⟨t / windowNs, delivery, member, own, ?_⟩
    rw [offset, Nat.mul_comm]
    exact (Nat.div_add_mod t windowNs).symm

/-- How long a source is taken to be silent at a tick, read off its last delivery. -/
theorem idleFor_of_isLast (counted : Counted history k id stats) {last : Option Nat}
    (quiet : IsLast history id last) (passed : ∀ t ∈ last, t < k * windowNs) :
    stats.idleFor = last.map fun t => windowNs * ((k - 1 - t / windowNs) % 2 ^ 32) := by
  cases last with
  | none =>
      have never : stats.count.packets = 0 := by
        rw [counted.unheard]
        intro i _ delivery member own
        exact quiet _ ⟨i, delivery, member, own, rfl⟩
      rw [WindowStats.idleFor, if_pos never]
      rfl
  | some t =>
      obtain ⟨delivers, latest⟩ := quiet
      obtain ⟨delivery, member, own, -⟩ := delivers_iff.mp delivers
      have before : t / windowNs < k := by
        have bound := passed t rfl
        unfold windowNs at bound ⊢
        omega
      have heard : ¬ Mute id (history (t / windowNs)) := fun mute => mute delivery member own
      have after : ∀ j < k, t / windowNs < j → Mute id (history j) := by
        intro j _ later delivery member own
        have bound := latest _ ⟨j, delivery, member, own, rfl⟩
        unfold windowNs at bound later
        omega
      have some_ : stats.count.packets ≠ 0 := fun nothing =>
        heard (counted.unheard.mp nothing _ before)
      rw [WindowStats.idleFor, if_neg some_, counted.silent _ before heard after, Option.map_some]
      congr 2
      omega

section Together

variable {count : Nat} {last : Nat → Option Nat}
  (quiet : ∀ id < count, IsLast history id (last id))
include quiet

/-- Every source's record at a tick after the last deliveries. -/
theorem idle_atTick (passed : ∀ id < count, ∀ t ∈ last id, t < k * windowNs) :
    (∀ src ∈ atTick count history k, src.id < count ∧ src.stats.idleFor =
      (last src.id).map fun t => windowNs * ((k - 1 - t / windowNs) % 2 ^ 32)) ∧
      ∀ id < count, ∃ src ∈ atTick count history k, src.id = id := by
  obtain ⟨ids, counted⟩ := counted_atTick count history k
  refine ⟨fun src member => ?_, fun id known => ?_⟩
  · have known : src.id < count := by
      rw [← List.mem_range, ← ids]
      exact List.mem_map_of_mem member
    exact ⟨known, idleFor_of_isLast (counted src member) (quiet src.id known) (passed src.id known)⟩
  · rw [← List.mem_range, ← ids] at known
    exact List.mem_map.mp known

variable (together : ∀ first < count, ∀ second < count, ∀ s ∈ last first, ∀ t ∈ last second,
  s < t + windowNs)
include together

/-- With a tick between two last deliveries, two ticks later one source is late while the other
is not. -/
theorem straddling_flagged {first second s t : Nat} (known : first < count)
    (other : second < count) (own : s ∈ last first) (its : t ∈ last second)
    (between : s / windowNs < t / windowNs) :
    ∃ k, (∀ id < count, ∀ t ∈ last id, t < k * windowNs) ∧
      silentSources silenceLimit (atTick count history k) ≠ [] := by
  have near := together second other first known t its s own
  have next : t / windowNs = s / windowNs + 1 := by
    unfold windowNs at near between ⊢
    omega
  have passed : ∀ id < count, ∀ u ∈ last id, u < (t / windowNs + 2) * windowNs := by
    intro id listed u delivered
    have close := together id listed first known u delivered s own
    unfold windowNs at close next ⊢
    omega
  refine ⟨t / windowNs + 2, passed, ?_⟩
  obtain ⟨idle, present⟩ := idle_atTick quiet passed
  obtain ⟨late, lateHere, rfl⟩ := present first known
  obtain ⟨recent, recentHere, rfl⟩ := present second other
  rw [ne_eq, silentSources_eq_nil_iff (connected_atTick count history _)]
  intro none_
  have lateIdle := (idle late lateHere).2
  have recentIdle := (idle recent recentHere).2
  rw [Option.mem_def.mp own] at lateIdle
  rw [Option.mem_def.mp its] at recentIdle
  have flagged := none_ late lateHere recent recentHere _ lateIdle _ recentIdle
  -- Two windows against one, the limit being one.
  have two : t / windowNs + 2 - 1 - s / windowNs = 2 := by omega
  have one : t / windowNs + 2 - 1 - t / windowNs = 1 := by omega
  dsimp only at flagged
  rw [two, one] at flagged
  exact absurd (flagged (by decide)) (by decide)

/-- Sources that fall quiet within one window's length of each other are all left alone, at every
tick after their last delivery, if and only if no tick came between those deliveries. -/
theorem quiet_market_iff :
    (∀ k, (∀ id < count, ∀ t ∈ last id, t < k * windowNs) →
        silentSources silenceLimit (atTick count history k) = []) ↔
      ∀ first < count, ∀ second < count, ∀ s ∈ last first, ∀ t ∈ last second,
        s / windowNs = t / windowNs := by
  constructor
  · intro leftAlone first known second other s own t its
    rcases Nat.lt_trichotomy (s / windowNs) (t / windowNs) with before | same | after
    · obtain ⟨k, passed, flagged⟩ := straddling_flagged quiet together known other own its before
      exact absurd (leftAlone k passed) flagged
    · exact same
    · obtain ⟨k, passed, flagged⟩ := straddling_flagged quiet together other known its own after
      exact absurd (leftAlone k passed) flagged
  · intro same k passed
    obtain ⟨idle, -⟩ := idle_atTick quiet passed
    rw [silentSources_eq_nil_iff (connected_atTick count history k)]
    intro first member second present idleFirst heard idleSecond heardToo recent
    obtain ⟨known, lateIdle⟩ := idle first member
    obtain ⟨other, recentIdle⟩ := idle second present
    rw [lateIdle] at heard
    rw [recentIdle] at heardToo
    obtain ⟨s, own, rfl⟩ := Option.map_eq_some_iff.mp heard
    obtain ⟨t, its, rfl⟩ := Option.map_eq_some_iff.mp heardToo
    rwa [same _ known _ other s own t its]

end Together

/-- Two sources deliver once each within the first window, and nothing follows. -/
def aligned : Nat → Window
  | 0 => [⟨0, 0, by decide⟩, ⟨1, 4999999999, by decide⟩]
  | _ => []

theorem isLast_aligned : ∀ id < 2, IsLast aligned id (some (if id = 0 then 0 else 4999999999)) := by
  intro id known
  constructor
  · refine ⟨0, ?_⟩
    rcases (by omega : id = 0 ∨ id = 1) with rfl | rfl <;> simp [aligned]
  · rintro t ⟨i, delivery, member, rfl, rfl⟩
    cases i with
    | zero =>
        simp only [aligned, List.mem_cons, List.not_mem_nil, or_false] at member
        rcases member with rfl | rfl <;> simp
    | succ i => exact absurd member List.not_mem_nil

/-- Both fell quiet within one window, so neither is flagged however long the market rests. -/
theorem quiet_market_aligned :
    silentSources silenceLimit (atTick 2 aligned 1000) = [] :=
  (quiet_market_iff isLast_aligned (by decide)).mpr (by decide) 1000 (by decide)

/-- Two deliveries a nanosecond apart, with a tick between them. -/
def straddling : Nat → Window
  | 0 => [⟨0, 4999999999, by decide⟩]
  | 1 => [⟨1, 0, by decide⟩]
  | _ => []

theorem isLast_straddling :
    ∀ id < 2, IsLast straddling id (some (if id = 0 then 4999999999 else 5000000000)) := by
  intro id known
  constructor
  · refine ⟨id, ?_⟩
    rcases (by omega : id = 0 ∨ id = 1) with rfl | rfl <;> simp [straddling, windowNs]
  · rintro t ⟨i, delivery, member, rfl, rfl⟩
    match i with
    | 0 =>
        obtain rfl := List.mem_singleton.mp member
        simp
    | 1 =>
        obtain rfl := List.mem_singleton.mp member
        simp [windowNs]
    | _ + 2 => exact absurd member List.not_mem_nil

/-- The source that spoke just before the tick is flagged two ticks later. -/
theorem not_quiet_market : ¬ ∀ (count : Nat) (history : Nat → Window) (last : Nat → Option Nat),
    (∀ id < count, IsLast history id (last id)) →
    (∀ first < count, ∀ second < count, ∀ s ∈ last first, ∀ t ∈ last second, s < t + windowNs) →
    ∀ k, (∀ id < count, ∀ t ∈ last id, t < k * windowNs) →
      silentSources silenceLimit (atTick count history k) = [] := by
  intro always
  have leftAlone := always 2 straddling _ isLast_straddling (by decide) 3 (by decide)
  exact absurd leftAlone (by decide)

end Watch

end Wsarb
