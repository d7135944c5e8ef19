import Mathlib.Data.List.Induction
import Wsarb.Library.Falls
import Wsarb.Library.Histograms
import Wsarb.State.SubKey

/-!
Owns what the load test measures of one subscription on one stream as its frames arrive: counts,
the gaps between arrivals and the stalls among them, each judged by a threshold that is derived
anew from the gaps every 256 arrivals, and the frames out of order, a snapshot starting the order
over.

Times are nanoseconds, and a span that would be negative is zero. What the source computes in
floating point is a parameter: the rank of a quantile and the multiple of a span.

Does not own: ages, which are read off elsewhere, and what is printed of all this.
-/

namespace Wsarb.LoadTest

open Wsarb.Library

def millis (count : Nat) : Nat := count * 1000000

/-- How a threshold comes from gaps: the index of the quantile,
`((len - 1) as f64 * 0.99) as usize`, from that of the last gap, and `mul_f64(stall_factor)`. -/
structure Threshold where
  rank : Nat → Nat
  mulFactor : Nat → Nat
  ranked : ∀ last, rank last ≤ last

/-- `KeyStats`, but for the ages. -/
structure KeyStats where
  msgs : Nat := 0
  bytes : Nat := 0
  lastAt : Option Nat := none
  gaps : List Nat := []
  stalls : List (Nat × Nat) := []
  stallCount : Nat := 0
  violations : List String := []
  violationCount : Nat := 0
  limit : Option Nat := none
  sinceLimit : Nat := 0
  lastSeq : Option Nat := none
  perSecond : List Nat := []

/-- One more message in its second; the counters are `u32` and wrap, as in the release build. -/
def countSecond (perSecond : List Nat) (sec : Nat) : List Nat :=
  (perSecond ++ List.replicate (sec + 1 - perSecond.length) 0).modify sec
    fun c => (c + 1) % UInt32.size

namespace KeyStats

def gapQuantile (threshold : Threshold) (gaps : List Nat) : Option Nat :=
  if gaps.length < 32 then none else (ordered gaps)[threshold.rank (gaps.length - 1)]?

def limitFrom (threshold : Threshold) (gaps : List Nat) : Option Nat :=
  (gapQuantile threshold gaps).map fun q => max (threshold.mulFactor q) (millis 250)

/-- Every 256 gaps the threshold is derived anew. -/
def refresh (threshold : Threshold) (stats : KeyStats) : KeyStats :=
  let stats := { stats with sinceLimit := stats.sinceLimit + 1 }
  if 256 ≤ stats.sinceLimit then
    { stats with sinceLimit := 0, limit := limitFrom threshold stats.gaps }
  else stats

/-- A gap above the threshold is a stall; the first 64 are kept, with when they began. -/
def judge (start prev gap : Nat) (stats : KeyStats) : KeyStats :=
  if stats.limit.any (· < gap) then
    { stats with
        stallCount := stats.stallCount + 1
        stalls :=
          if stats.stalls.length < 64 then stats.stalls ++ [(prev - start, gap)] else stats.stalls }
  else stats

/-- The first 10 000 gaps are kept. -/
def keep (gap : Nat) (stats : KeyStats) : KeyStats :=
  if stats.gaps.length < 10000 then { stats with gaps := stats.gaps ++ [gap] } else stats

def note (threshold : Threshold) (start : Nat) (stats : KeyStats) (now len : Nat) : KeyStats :=
  let stats :=
    { stats with
        msgs := stats.msgs + 1
        bytes := stats.bytes + len
        perSecond := countSecond stats.perSecond ((now - start) / millis 1000) }
  let stats :=
    match stats.lastAt with
    | some prev =>
        keep (now - prev) (judge start prev (now - prev) (refresh threshold stats))
    | none => stats
  { stats with lastAt := some now }

/-- `close`: the gap still open when the run ends. -/
def close (start : Nat) (stats : KeyStats) (stop : Nat) : KeyStats :=
  match stats.lastAt with
  | none => stats
  | some prev => judge start prev (stop - prev) stats

/-- `order`: the frame against what came before. -/
def order (label : String) (stats : KeyStats) : Seq → KeyStats
  | .snapshot _ => { stats with lastSeq := none }
  | .point v | .block v | .lead v | .sticky v =>
      let stats :=
        match stats.lastSeq with
        | some prev =>
            if v < prev then
              { stats with
                  violationCount := stats.violationCount + 1
                  violations :=
                    if stats.violations.length < 64 then
                      stats.violations ++
                        [label ++ ": " ++ toString prev ++ " -> " ++ toString v]
                    else stats.violations }
            else stats
        | none => stats
      { stats with lastSeq := some v }

/-- `note` and `order`, as `run_stream` has them of a frame. -/
def receive (threshold : Threshold) (start : Nat) (label : String) (stats : KeyStats)
    (arrival : Nat × Nat × Seq) : KeyStats :=
  ((stats.note threshold start arrival.1 arrival.2.1)).order label arrival.2.2

/-! ### What is measured -/

/-- The spans between arrivals: when each began, and how long it was. -/
def spans (start : Nat) : List Nat → List (Nat × Nat)
  | prev :: now :: rest => (prev - start, now - prev) :: spans start (now :: rest)
  | _ => []

/-- The threshold in force for a gap by its number: it was derived at the last multiple of 256, from
the gaps kept before that one, and there is none before the first. -/
def limitAt (threshold : Threshold) (gaps : List Nat) (number : Nat) : Option Nat :=
  if number < 256 then none
  else limitFrom threshold (gaps.take (min (number / 256 * 256 - 1) 10000))

/-- Whether a span by its number is a stall. One that goes on beyond the last gap is judged as that
gap was. -/
def stalled (threshold : Threshold) (gaps : List Nat) (span : (Nat × Nat) × Nat) : Bool :=
  (limitAt threshold gaps (min span.2 gaps.length)).any (· < span.1.2)

def stallsAmong (threshold : Threshold) (gaps : List Nat) (spans : List (Nat × Nat)) :
    List (Nat × Nat) :=
  ((spans.zipIdx 1).filter (stalled threshold gaps)).map (·.1)

def seconds (start : Nat) (times : List Nat) : List Nat :=
  times.map fun now => (now - start) / millis 1000

def buckets (seconds : List Nat) : Nat := seconds.foldl (fun count sec => max count (sec + 1)) 0

variable {threshold : Threshold} {start : Nat} {stats : KeyStats} {gaps : List Nat}

theorem spans_concat (start now : Nat) : ∀ times : List Nat,
    spans start (times ++ [now]) =
      spans start times ++ times.getLast?.toList.map fun prev => (prev - start, now - prev)
  | [] => rfl
  | [_] => rfl
  | prev :: next :: rest => by
      have later := spans_concat start now (next :: rest)
      show (prev - start, next - prev) :: spans start (next :: rest ++ [now]) = _
      rw [later, List.getLast?_cons_cons]
      rfl

/-- What comes after the gap itself does not change its threshold. -/
theorem limitAt_append {number : Nat} (within : number ≤ gaps.length + 1) (more : List Nat) :
    limitAt threshold (gaps ++ more) number = limitAt threshold gaps number := by
  have few : min (number / 256 * 256 - 1) 10000 ≤ gaps.length := by omega
  rw [limitAt, limitAt, List.take_append_of_le_length few]

/-- Where the number is a multiple of 256 all gaps kept before it count. -/
theorem limitAt_multiple (due : gaps.length % 256 = 255) :
    limitAt threshold gaps (gaps.length + 1) = limitFrom threshold (gaps.take 10000) := by
  have whole : (gaps.length + 1) / 256 * 256 - 1 = gaps.length := by omega
  rw [limitAt, if_neg (by omega), whole, Nat.min_comm, ← List.take_eq_take_min]

/-- Elsewhere it is the threshold of the gap before. -/
theorem limitAt_between (early : gaps.length % 256 ≠ 255) :
    limitAt threshold gaps (gaps.length + 1) = limitAt threshold gaps gaps.length := by
  have same : (gaps.length + 1) / 256 = gaps.length / 256 := by omega
  have both : gaps.length + 1 < 256 ↔ gaps.length < 256 := by omega
  simp only [limitAt, same, both]

/-- From the 256th gap on there is a threshold. -/
theorem isSome_limitAt {number : Nat} (within : number ≤ gaps.length + 1) :
    (limitAt threshold gaps number).isSome = true ↔ 256 ≤ number := by
  unfold limitAt
  split
  · next early => exact iff_of_false Bool.false_ne_true (Nat.not_le.mpr early)
  · next late =>
      have length : (gaps.take (min (number / 256 * 256 - 1) 10000)).length =
          min (number / 256 * 256 - 1) 10000 := by
        rw [List.length_take]
        omega
      have ranked := threshold.ranked (min (number / 256 * 256 - 1) 10000 - 1)
      have inRange : threshold.rank (min (number / 256 * 256 - 1) 10000 - 1) <
          (ordered (gaps.take (min (number / 256 * 256 - 1) 10000))).length := by
        rw [length_ordered, length]
        omega
      rw [limitFrom, gapQuantile, length, if_neg (by omega), List.getElem?_eq_getElem inRange]
      exact iff_of_true rfl (Nat.not_lt.mp late)

theorem stallsAmong_concat (threshold : Threshold) (gaps : List Nat) (spans : List (Nat × Nat))
    (span : Nat × Nat) :
    stallsAmong threshold gaps (spans ++ [span]) = stallsAmong threshold gaps spans ++
      if stalled threshold gaps (span, spans.length + 1) then [span] else [] := by
  rw [stallsAmong, List.zipIdx_append, List.filter_append, List.map_append, stallsAmong,
    List.zipIdx_singleton, Nat.add_comm 1, List.filter_singleton]
  cases stalled threshold gaps (span, spans.length + 1) <;> rfl

/-- The spans before a gap are judged as before it. -/
theorem stallsAmong_append {spans : List (Nat × Nat)} (each : spans.length = gaps.length)
    (gap : Nat) :
    stallsAmong threshold (gaps ++ [gap]) spans = stallsAmong threshold gaps spans := by
  unfold stallsAmong
  congr 1
  apply List.filter_congr
  intro span member
  have numbered := List.mem_zipIdx member
  have within : span.2 ≤ gaps.length := by omega
  have within' : span.2 ≤ (gaps ++ [gap]).length := by
    rw [List.length_append]
    omega
  rw [stalled, stalled, Nat.min_eq_left within, Nat.min_eq_left within',
    limitAt_append (by omega)]

/-! ### What one arrival does -/

theorem take_concat {α : Type} (count : Nat) (items : List α) (item : α) :
    (items ++ [item]).take count =
      if (items.take count).length < count then items.take count ++ [item]
      else items.take count := by
  rw [List.length_take]
  by_cases short : items.length < count
  · rw [if_pos (by omega), List.take_of_length_le (Nat.le_of_lt short), List.take_of_length_le]
    rw [List.length_append]
    exact short
  · rw [if_neg (by omega), List.take_append_of_le_length (Nat.not_lt.mp short)]

/-- What is on record of the stalls: how many, and the first 64. -/
structure Records (stats : KeyStats) (stalls : List (Nat × Nat)) : Prop where
  count : stats.stallCount = stalls.length
  first : stats.stalls = stalls.take 64

theorem Records.judge {stalls : List (Nat × Nat)} (records : Records stats stalls)
    (start prev gap : Nat) :
    Records (judge start prev gap stats)
      (stalls ++ if stats.limit.any (· < gap) then [(prev - start, gap)] else []) := by
  unfold KeyStats.judge
  split
  · constructor
    · rw [List.length_append, records.count]
      rfl
    · dsimp only
      rw [take_concat, records.first]
  · rwa [List.append_nil]

theorem note_counts (threshold : Threshold) (start : Nat) (stats : KeyStats) (now len : Nat) :
    (stats.note threshold start now len).msgs = stats.msgs + 1 ∧
      (stats.note threshold start now len).bytes = stats.bytes + len ∧
      (stats.note threshold start now len).perSecond =
        countSecond stats.perSecond ((now - start) / millis 1000) ∧
      (stats.note threshold start now len).lastAt = some now := by
  unfold note
  cases stats.lastAt with
  | none => exact ⟨rfl, rfl, rfl, rfl⟩
  | some prev =>
      dsimp only [keep, judge, refresh]
      split_ifs <;> exact ⟨rfl, rfl, rfl, rfl⟩

/-- The first arrival closes no gap. -/
theorem note_first (first : stats.lastAt = none) (threshold : Threshold) (start now len : Nat) :
    (stats.note threshold start now len).gaps = stats.gaps ∧
      (stats.note threshold start now len).sinceLimit = stats.sinceLimit ∧
      (stats.note threshold start now len).limit = stats.limit ∧
      (stats.note threshold start now len).stallCount = stats.stallCount ∧
      (stats.note threshold start now len).stalls = stats.stalls := by
  unfold note
  rw [first]
  exact ⟨rfl, rfl, rfl, rfl, rfl⟩

theorem note_later {prev : Nat} (later : stats.lastAt = some prev) (threshold : Threshold)
    (start now len : Nat) :
    (stats.note threshold start now len).gaps = (keep (now - prev) stats).gaps ∧
      (stats.note threshold start now len).sinceLimit = (refresh threshold stats).sinceLimit ∧
      (stats.note threshold start now len).limit = (refresh threshold stats).limit ∧
      (stats.note threshold start now len).stallCount =
        (judge start prev (now - prev) (refresh threshold stats)).stallCount ∧
      (stats.note threshold start now len).stalls =
        (judge start prev (now - prev) (refresh threshold stats)).stalls := by
  unfold note
  rw [later]
  dsimp only [keep, judge, refresh]
  split_ifs <;> exact ⟨rfl, rfl, rfl, rfl, rfl⟩

/-- The threshold for the next gap, where the one in force was that for the last. -/
theorem refresh_limit (kept : stats.gaps = gaps.take 10000)
    (since : stats.sinceLimit = gaps.length % 256)
    (limit : stats.limit = limitAt threshold gaps gaps.length) :
    (refresh threshold stats).sinceLimit = (gaps.length + 1) % 256 ∧
      (refresh threshold stats).limit = limitAt threshold gaps (gaps.length + 1) := by
  unfold refresh
  dsimp only
  by_cases due : gaps.length % 256 = 255
  · rw [if_pos (by omega), limitAt_multiple due, kept]
    exact ⟨by dsimp only; omega, rfl⟩
  · rw [if_neg (by omega), limitAt_between due, ← limit]
    exact ⟨by dsimp only; omega, rfl⟩

theorem refresh_records {stalls : List (Nat × Nat)} (records : Records stats stalls)
    (threshold : Threshold) : Records (refresh threshold stats) stalls := by
  unfold refresh
  dsimp only
  split <;> exact ⟨records.count, records.first⟩

theorem buckets_concat (seconds : List Nat) (sec : Nat) :
    buckets (seconds ++ [sec]) = max (buckets seconds) (sec + 1) := by
  rw [buckets, List.foldl_append]
  rfl

/-- One more message in its second, whatever seconds were counted before. -/
theorem countSecond_tally {seconds : List Nat} {count : Nat}
    (within : ∀ sec ∈ seconds, sec < count) (sec : Nat) :
    countSecond ((tally count seconds).map (· % UInt32.size)) sec =
      (tally (max count (sec + 1)) (seconds ++ [sec])).map (· % UInt32.size) := by
  have length : ((tally count seconds).map (· % UInt32.size)).length = count := by
    simp [tally]
  have wide : max count (sec + 1) = count + (sec + 1 - count) := by omega
  rw [countSecond, length, wide, ← modify_tally, tally_add within, List.map_append,
    List.map_replicate]
  rfl

/-! ### Over a run -/

/-- What is on record of the spans between the arrivals. -/
structure Watches (threshold : Threshold) (spans : List (Nat × Nat)) (stats : KeyStats) : Prop where
  gaps : stats.gaps = (spans.map (·.2)).take 10000
  sinceLimit : stats.sinceLimit = spans.length % 256
  limit : stats.limit = limitAt threshold (spans.map (·.2)) spans.length
  records : Records stats (stallsAmong threshold (spans.map (·.2)) spans)

namespace Watches

variable {between : List (Nat × Nat)}

theorem first (watches : Watches threshold between stats) (first : stats.lastAt = none)
    (start now len : Nat) : Watches threshold between (stats.note threshold start now len) := by
  obtain ⟨gaps, since, limit, count, stalls⟩ := note_first first threshold start now len
  exact ⟨gaps.trans watches.gaps, since.trans watches.sinceLimit, limit.trans watches.limit,
    count.trans watches.records.count, stalls.trans watches.records.first⟩

theorem later (watches : Watches threshold between stats) {prev : Nat}
    (later : stats.lastAt = some prev) (start now len : Nat) :
    Watches threshold (between ++ [(prev - start, now - prev)])
      (stats.note threshold start now len) := by
  obtain ⟨gaps, since, limit, count, stalls⟩ := note_later later threshold start now len
  have length : (between.map (·.2)).length = between.length := List.length_map _
  have numbers : (between ++ [(prev - start, now - prev)]).map (·.2) =
      between.map (·.2) ++ [now - prev] := List.map_append
  have next : (between ++ [(prev - start, now - prev)]).length = between.length + 1 :=
    List.length_append
  have derived := refresh_limit watches.gaps (length.symm ▸ watches.sinceLimit)
    (length.symm ▸ watches.limit)
  rw [length] at derived
  have limit' : (refresh threshold stats).limit =
      limitAt threshold (between.map (·.2) ++ [now - prev]) (between.length + 1) := by
    rw [derived.2, limitAt_append (by omega)]
  have judged := (refresh_records watches.records threshold).judge start prev (now - prev)
  have same : stallsAmong threshold (between.map (·.2)) between ++
      (if (refresh threshold stats).limit.any (· < now - prev) then [(prev - start, now - prev)]
        else []) =
      stallsAmong threshold (between.map (·.2) ++ [now - prev])
        (between ++ [(prev - start, now - prev)]) := by
    rw [stallsAmong_concat, stallsAmong_append length.symm, stalled, List.length_append, length,
      List.length_singleton, Nat.min_self, limit']
  rw [same] at judged
  refine ⟨?_, ?_, ?_, ?_⟩
  · rw [gaps, numbers, take_concat, ← watches.gaps, keep]
    split <;> rfl
  · rw [since, derived.1, next]
  · rw [limit, limit', numbers, next]
  · rw [numbers]
    exact ⟨count.trans judged.count, stalls.trans judged.first⟩

/-- The span still open is judged by the threshold of the last gap. -/
theorem closed {times : List Nat} (watches : Watches threshold (spans start times) stats)
    (last : stats.lastAt = times.getLast?) (stop : Nat) :
    Records (stats.close start stop)
      (stallsAmong threshold ((spans start times).map (·.2)) (spans start (times ++ [stop]))) := by
  have spread := spans_concat start stop times
  rw [← last] at spread
  unfold close
  cases ends : stats.lastAt with
  | none =>
      rw [ends, Option.toList_none, List.map_nil, List.append_nil] at spread
      rw [spread]
      exact watches.records
  | some prev =>
      rw [ends, Option.toList_some, List.map_singleton] at spread
      have judged := watches.records.judge start prev (stop - prev)
      rw [spread, stallsAmong_concat, stalled, List.length_map,
        Nat.min_eq_right (Nat.le_succ _), ← watches.limit]
      exact judged

end Watches

/-- What is counted of some arrivals: when, and how many bytes. -/
structure Counts (start : Nat) (arrivals : List (Nat × Nat)) (stats : KeyStats) : Prop where
  msgs : stats.msgs = arrivals.length
  bytes : stats.bytes = (arrivals.map (·.2)).sum
  within : ∀ sec ∈ seconds start (arrivals.map (·.1)),
    sec < buckets (seconds start (arrivals.map (·.1)))
  perSecond : stats.perSecond =
    (tally (buckets (seconds start (arrivals.map (·.1))))
      (seconds start (arrivals.map (·.1)))).map (· % UInt32.size)
  lastAt : stats.lastAt = (arrivals.map (·.1)).getLast?

theorem Counts.note {arrivals : List (Nat × Nat)} (counts : Counts start arrivals stats)
    (threshold : Threshold) (now len : Nat) :
    Counts start (arrivals ++ [(now, len)]) (stats.note threshold start now len) := by
  obtain ⟨msgs, bytes, perSecond, lastAt⟩ := note_counts threshold start stats now len
  have times : (arrivals ++ [(now, len)]).map (·.1) = arrivals.map (·.1) ++ [now] :=
    List.map_append
  have secs : seconds start (arrivals.map (·.1) ++ [now]) =
      seconds start (arrivals.map (·.1)) ++ [(now - start) / millis 1000] := List.map_append
  refine ⟨?_, ?_, ?_, ?_, ?_⟩
  · rw [msgs, counts.msgs, List.length_append, List.length_singleton]
  · rw [bytes, counts.bytes, List.map_append, List.sum_append, List.map_singleton,
      List.sum_singleton]
  · rw [times, secs, buckets_concat]
    intro sec member
    rcases List.mem_append.mp member with old | new
    · have below := counts.within sec old
      omega
    · have same := List.mem_singleton.mp new
      omega
  · rw [perSecond, counts.perSecond, times, secs, buckets_concat,
      countSecond_tally counts.within]
  · rw [lastAt, times, List.getLast?_concat]

/-- The order of the frames is measured apart from the rest. -/
theorem order_apart (label : String) (stats : KeyStats) (seq : Seq) :
    ∃ violations count last, stats.order label seq =
      { stats with violations := violations, violationCount := count, lastSeq := last } := by
  cases seq with
  | snapshot h => exact ⟨_, _, _, rfl⟩
  | point v | block v | lead v | sticky v =>
      simp only [order]
      cases stats.lastSeq with
      | none => exact ⟨_, _, _, rfl⟩
      | some prev =>
          dsimp only
          split <;> exact ⟨_, _, _, rfl⟩

theorem close_apart (start : Nat) (stats : KeyStats) (stop : Nat) :
    ∃ count stalls, stats.close start stop =
      { stats with stallCount := count, stalls := stalls } := by
  unfold close judge
  split
  · exact ⟨_, _, rfl⟩
  · split <;> exact ⟨_, _, rfl⟩

/-- What is measured as the frames arrive. -/
theorem measured (threshold : Threshold) (start : Nat) (label : String)
    (arrivals : List (Nat × Nat × Seq)) :
    let stats := arrivals.foldl (receive threshold start label) {}
    Counts start (arrivals.map fun arrival => (arrival.1, arrival.2.1)) stats ∧
      Watches threshold (spans start (arrivals.map (·.1))) stats := by
  induction arrivals using List.reverseRecOn with
  | nil =>
      exact ⟨⟨rfl, rfl, fun _ member => absurd member List.not_mem_nil, rfl, rfl⟩,
        ⟨rfl, rfl, rfl, ⟨rfl, rfl⟩⟩⟩
  | append_singleton before arrival inductionHypothesis =>
      obtain ⟨counts, watches⟩ := inductionHypothesis
      obtain ⟨now, len, seq⟩ := arrival
      dsimp only
      rw [List.foldl_append]
      generalize before.foldl (receive threshold start label) {} = earlier at counts watches ⊢
      have counted := counts.note threshold now len
      have last := counts.lastAt
      rw [List.map_map] at last
      have watched : Watches threshold (spans start ((before ++ [(now, len, seq)]).map (·.1)))
          (earlier.note threshold start now len) := by
        rw [List.map_append, List.map_singleton, spans_concat]
        cases ends : (before.map (·.1)).getLast? with
        | none =>
            rw [Option.toList_none, List.map_nil, List.append_nil]
            exact watches.first (last.trans ends) start now len
        | some prev => exact watches.later (last.trans ends) start now len
      obtain ⟨violations, count, lastSeq, apart⟩ :=
        order_apart label (earlier.note threshold start now len) seq
      rw [List.foldl_cons, List.foldl_nil, receive, apart, List.map_append]
      exact ⟨⟨counted.msgs, counted.bytes, counted.within, counted.perSecond, counted.lastAt⟩,
        ⟨watched.gaps, watched.sinceLimit, watched.limit,
          ⟨watched.records.count, watched.records.first⟩⟩⟩

/-- Whatever frames arrive when, once the run is closed every message is counted, in its second
too; the first 10 000 gaps between them are on record; and counted as stalls, the first 64 of them
by name, are exactly those spans, the one still open at the end among them, that are longer than
the threshold in force: there is one from the 256th gap on. -/
theorem closed_run (threshold : Threshold) (start : Nat) (label : String)
    (arrivals : List (Nat × Nat × Seq)) (stop : Nat) :
    let stats := (arrivals.foldl (receive threshold start label) {}).close start stop
    let times := arrivals.map (·.1)
    let gaps := (spans start times).map (·.2)
    let stalls := stallsAmong threshold gaps (spans start (times ++ [stop]))
    let seconds := seconds start times
    stats.msgs = arrivals.length ∧ stats.bytes = (arrivals.map (·.2.1)).sum ∧
      stats.perSecond = (tally (buckets seconds) seconds).map (· % UInt32.size) ∧
      stats.gaps = gaps.take 10000 ∧
      stats.stallCount = stalls.length ∧ stats.stalls = stalls.take 64 ∧
      ∀ number ≤ gaps.length,
        (limitAt threshold gaps number).isSome = true ↔ 256 ≤ number := by
  intro stats times gaps stalls seconds
  obtain ⟨counts, watches⟩ := measured threshold start label arrivals
  have times' : (arrivals.map fun arrival => (arrival.1, arrival.2.1)).map (·.1) = times :=
    List.map_map
  have bytes : (arrivals.map fun arrival => (arrival.1, arrival.2.1)).map (·.2) =
      arrivals.map (·.2.1) := List.map_map
  have records := watches.closed (counts.lastAt.trans (by rw [times'])) stop
  obtain ⟨count, first, apart⟩ := close_apart start
    (arrivals.foldl (receive threshold start label) {}) stop
  have perSecond := counts.perSecond
  rw [times'] at perSecond
  refine ⟨?_, ?_, ?_, ?_, records.count, records.first,
    fun number within => isSome_limitAt (Nat.le_succ_of_le within)⟩
  · show (KeyStats.close ..).msgs = _
    rw [apart, counts.msgs, List.length_map]
  · show (KeyStats.close ..).bytes = _
    rw [apart, counts.bytes, bytes]
  · show (KeyStats.close ..).perSecond = _
    rw [apart, perSecond]
  · show (KeyStats.close ..).gaps = _
    rw [apart, watches.gaps]

/-! ### The order of the frames -/

def stamps (seqs : List Seq) : List Nat := (seqs.filter fun seq => !seq.isSnapshot).map (·.stamp)

theorem order_snapshot (label : String) (stats : KeyStats) (h : Nat) :
    stats.order label (.snapshot h) = { stats with lastSeq := none } := rfl

/-- A frame below the one before it is a violation. -/
theorem order_stamp (label : String) (stats : KeyStats) {seq : Seq}
    (compared : seq.isSnapshot = false) :
    (stats.order label seq).lastSeq = some seq.stamp ∧
      (stats.order label seq).violationCount =
        stats.violationCount + if stats.lastSeq.any (seq.stamp < ·) then 1 else 0 := by
  cases seq with
  | snapshot h => cases compared
  | point v | block v | lead v | sticky v =>
      refine ⟨rfl, ?_⟩
      simp only [order, Seq.stamp]
      cases stats.lastSeq with
      | none => rfl
      | some prev => by_cases below : v < prev <;> simp [below]

theorem note_apart (threshold : Threshold) (start : Nat) (stats : KeyStats) (now len : Nat) :
    (stats.note threshold start now len).lastSeq = stats.lastSeq ∧
      (stats.note threshold start now len).violationCount = stats.violationCount := by
  unfold note
  cases stats.lastAt with
  | none => exact ⟨rfl, rfl⟩
  | some prev =>
      dsimp only [keep, judge, refresh]
      split_ifs <;> exact ⟨rfl, rfl⟩

/-- No more violations are counted than the stamps fall. -/
theorem violationCount_le (threshold : Threshold) (start : Nat) (label : String)
    (arrivals : List (Nat × Nat × Seq)) : ∀ stats : KeyStats,
    (arrivals.foldl (receive threshold start label) stats).violationCount ≤
      stats.violationCount + falls (stats.lastSeq.toList ++ stamps (arrivals.map (·.2.2))) := by
  induction arrivals with
  | nil => exact fun _ => Nat.le_add_right _ _
  | cons arrival rest inductionHypothesis =>
      intro stats
      have later := inductionHypothesis (stats.receive threshold start label arrival)
      obtain ⟨lastSeq, count⟩ := note_apart threshold start stats arrival.1 arrival.2.1
      rw [List.foldl_cons, List.map_cons]
      refine Nat.le_trans later ?_
      cases compared : arrival.2.2.isSnapshot with
      | true =>
          obtain ⟨h, seq⟩ : ∃ h, arrival.2.2 = .snapshot h := by
            cases seq : arrival.2.2 with
            | snapshot h => exact ⟨h, rfl⟩
            | _ => rw [seq] at compared; cases compared
          have fewer := falls_sublist
            (List.sublist_append_right stats.lastSeq.toList (stamps (rest.map (·.2.2))))
          have same : stamps (arrival.2.2 :: rest.map (·.2.2)) = stamps (rest.map (·.2.2)) := by
            rw [stamps, List.filter_cons_of_neg (by rw [compared]; decide), stamps]
          rw [same, receive, seq, order_snapshot, Option.toList_none, List.nil_append, count]
          omega
      | false =>
          obtain ⟨last, counted⟩ := order_stamp label
            (stats.note threshold start arrival.1 arrival.2.1) compared
          have same : stamps (arrival.2.2 :: rest.map (·.2.2)) =
              arrival.2.2.stamp :: stamps (rest.map (·.2.2)) := by
            rw [stamps, List.filter_cons_of_pos (by rw [compared]; decide), stamps, List.map_cons]
          rw [same, receive, last, counted, count, lastSeq, Option.toList_some,
            List.singleton_append]
          cases stats.lastSeq with
          | none => exact Nat.le_refl _
          | some prev =>
              rw [Option.toList_some, List.singleton_append, falls_cons_cons]
              simp only [Option.any_some, decide_eq_true_eq]
              omega

end KeyStats

end Wsarb.LoadTest
