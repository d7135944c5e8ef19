import Mathlib.Data.List.Induction
import Wsarb.Library.Accounts
import Wsarb.Library.Histograms
import Wsarb.State.Payloads
import Wsarb.Stream.Chronicle

/-!
Owns what the counters of a source add up to over a run: every frame it sends is a win, a late copy,
stale, or none of these, and is counted as that once; its delays fill the histogram.

Does not own: how often a source is charged a delay, nor the counters of the connection itself.
-/

namespace Wsarb

open Wsarb.Library

/-! ### Counting verdicts -/

def bucketOf (us : Nat) : Nat :=
  (bucketEdgesUs.findIdx? fun edge => us < edge).getD bucketEdgesUs.length

namespace SourceStats

theorem recordDelay_eq (stats : SourceStats) (delay : Nat) :
    stats.recordDelay delay =
      { stats with
        duplicates := stats.duplicates + 1
        delaySumUs := (stats.delaySumUs + delay / 1000) % UInt64.size
        delayCount := stats.delayCount + 1
        hist := stats.hist.modify (bucketOf (delay / 1000)) (· + 1) } := rfl

def score (stats : SourceStats) (verdict : Verdict) : SourceStats :=
  let stats := if verdict.win then { stats with wins := stats.wins + 1 } else stats
  let stats := match verdict.late with
    | some delay => stats.recordDelay delay
    | none => stats
  if verdict.stale then { stats with stale := stats.stale + 1 } else stats

end SourceStats

/-- The delays of late copies, in whole microseconds. -/
def delaysUs (verdicts : List Verdict) : List Nat := (verdicts.filterMap (·.late)).map (· / 1000)

theorem bucketOf_lt (us : Nat) : bucketOf us < bucketEdgesUs.length + 1 := by
  rw [bucketOf]
  cases found : bucketEdgesUs.findIdx? fun edge => us < edge with
  | none => exact Nat.lt_succ_self _
  | some index => exact Nat.lt_succ_of_lt (List.findIdx?_eq_some_iff_getElem.mp found).1

/-- What a row of verdicts leaves in the counters. -/
theorem foldl_score (verdicts : List Verdict) :
    verdicts.foldl SourceStats.score {} =
      { wins := verdicts.countP (·.win)
        duplicates := (delaysUs verdicts).length
        stale := verdicts.countP (·.stale)
        delaySumUs := (delaysUs verdicts).sum % UInt64.size
        delayCount := (delaysUs verdicts).length
        hist := tally (bucketEdgesUs.length + 1) ((delaysUs verdicts).map bucketOf) } := by
  induction verdicts using List.reverseRecOn with
  | nil => rfl
  | append_singleton before verdict inductionHypothesis =>
      have delays : delaysUs (before ++ [verdict]) =
          delaysUs before ++ (verdict.late.map (· / 1000)).toList := by
        rw [delaysUs, List.filterMap_append, List.map_append]
        cases late : verdict.late <;> simp [late, delaysUs]
      rw [List.foldl_append, inductionHypothesis, delays]
      simp only [List.foldl_cons, List.foldl_nil, List.countP_append, List.countP_singleton]
      cases verdict with
      | mk deliver win late stale =>
          cases late with
          | none =>
              cases win <;> cases stale <;> simp [SourceStats.score]
          | some delay =>
              have fills := tally_append_singleton (bucketEdgesUs.length + 1)
                ((delaysUs before).map bucketOf) (bucketOf (delay / 1000))
              cases win <;> cases stale <;>
                simp [SourceStats.score, SourceStats.recordDelay_eq, fills, Nat.mod_add_mod]

/-! ### One verdict a frame -/

namespace Verdict

/-- Neither a win, nor late, nor stale: the frame goes on with a stamp its source leads, or is one
more copy of a position charged for already. -/
def unscored (v : Verdict) : Bool := !v.win && v.late.isNone && !v.stale

def Single (v : Verdict) : Prop :=
  (v.win = true → v.late = none ∧ v.stale = false) ∧ (v.late.isSome = true → v.stale = false)

end Verdict

theorem SubEntry.arbitrate_single {β : Type} (e : SubEntry β) (key : SubKey) (now src : Nat)
    (seq : Seq) : (e.arbitrate key now src seq).2.Single := by
  cases seq with
  | point v =>
      simp only [arbitrate, arbitratePoint]
      split_ifs <;> simp [Verdict.Single]
  | lead v =>
      simp only [arbitrate, arbitrateLead]
      split_ifs <;> simp [Verdict.Single]
  | sticky v =>
      simp only [arbitrate, arbitrateSticky]
      split
      · simp [Verdict.Single]
      · split_ifs <;> simp [Verdict.Single]
  | snapshot h =>
      simp only [arbitrate, arbitrateSnapshot]
      split <;> simp [Verdict.Single]
  | block h =>
      simp only [arbitrate, arbitrateBlock]
      split_ifs <;> simp [Verdict.Single]

theorem countP_single (verdicts : List Verdict) (single : ∀ v ∈ verdicts, v.Single) :
    verdicts.countP (·.win) + (delaysUs verdicts).length + verdicts.countP (·.stale) +
      verdicts.countP (·.unscored) = verdicts.length := by
  induction verdicts with
  | nil => rfl
  | cons v rest inductionHypothesis =>
      have later := inductionHypothesis fun other member =>
        single other (List.mem_cons_of_mem _ member)
      have one := single v List.mem_cons_self
      simp only [delaysUs, List.length_map, List.countP_cons, List.length_cons,
        List.filterMap_cons] at later ⊢
      cases v with
      | mk deliver win late stale =>
          cases late <;> cases win <;> cases stale <;>
            simp_all [Verdict.Single, Verdict.unscored] <;> omega

/-! ### The scoreboard of a run -/

namespace AppState

/-- What is decided of a frame, if it is the source's. -/
def judged (st : Live) (source : Nat) : Op → Option Verdict
  | .onUpdate now message =>
      if message.source = source then
        some ((st.entryOr now message.key).arbitrate message.key now message.source message.seq).2
      else none
  | _ => none

/-- What is decided of the source's frames over a run, one after the other. -/
def verdicts (source : Nat) : Live → List Op → List Verdict
  | _, [] => []
  | st, op :: rest => (st.judged source op).toList ++ verdicts source (st.step op) rest

def board (st : Live) : List (Nat × SourceStats) := st.sources.map fun src => (src.id, src.stats)

variable {st : Live}

theorem board_of_sources {after : Live} (same : after.sources = st.sources) :
    after.board = st.board := by
  rw [board, same, board]

theorem board_broadcastCtrl (st : Live) (req : SubRequest) :
    (st.broadcastCtrl req).board = st.board := by
  simp [board, broadcastCtrl, Function.comp_def]

theorem board_detach (st : Live) (client : Nat) (key : SubKey) :
    (st.detach client key).board = st.board := by
  unfold detach detachEntry
  cases st.getEntry key with
  | none => rfl
  | some e =>
      dsimp only
      split
      · exact board_broadcastCtrl (st.setEntry key _) (.unsubscribe key)
      · rfl

theorem board_detachAll (client : Nat) (keys : List SubKey) :
    ∀ st : Live, (keys.foldl (fun st key => st.detach client key) st).board = st.board := by
  induction keys with
  | nil => exact fun _ => rfl
  | cons key rest inductionHypothesis =>
      exact fun st => (inductionHypothesis _).trans (board_detach st client key)

/-- Only a frame moves the counters, and only its source's. -/
theorem board_onUpdate (now : Nat) (message : Message) :
    (st.step (.onUpdate now message)).board = st.board.map fun row =>
      (row.1, (st.judged row.1 (.onUpdate now message)).toList.foldl SourceStats.score row.2) := by
  let decided := st.onUpdateEntry now message.source message.key message.seq message
  let counted := decided.1.countVerdict message.source decided.2.verdict
  have quiet : (st.step (.onUpdate now message)).sources = counted.sources :=
    (Alike.fanOut _ _ _ _).sources.trans (Alike.notifyKills counted decided.2.overflowed).sources
  have verdict : decided.2.verdict = ((st.entryOr now message.key).arbitrate message.key now
      message.source message.seq).2 := SubEntry.update_verdict ..
  rw [board, quiet]
  show ((st.sources.map fun src => if src.id = message.source then _ else src).map _) = _
  rw [List.map_map, board, List.map_map]
  refine List.map_congr_left fun src _ => ?_
  simp only [Function.comp_def, judged]
  by_cases own : src.id = message.source
  · simp only [if_pos own, if_pos own.symm, Option.toList_some, List.foldl_cons, List.foldl_nil,
      ← verdict]
    rfl
  · simp only [if_neg own, if_neg (Ne.symm own), Option.toList_none, List.foldl_nil]

theorem board_step (op : Op) :
    (st.step op).board = st.board.map fun row =>
      (row.1, (st.judged row.1 op).toList.foldl SourceStats.score row.2) := by
  have silent (same : (st.step op).board = st.board) (none' : ∀ id, st.judged id op = none) :
      (st.step op).board = st.board.map fun row =>
        (row.1, (st.judged row.1 op).toList.foldl SourceStats.score row.2) := by
    rw [same]
    simp [none']
  cases op with
  | onUpdate now message => exact board_onUpdate now message
  | registerClient ip => exact silent rfl fun _ => rfl
  | subscribe now client key =>
      refine silent ?_ fun _ => rfl
      show (st.subscribe now client key).1.board = _
      unfold subscribe subscribeEntry
      split
      · rfl
      · dsimp only
        split
        · exact board_broadcastCtrl _ _
        · rfl
  | pin now key =>
      refine silent ?_ fun _ => rfl
      show (st.pin now key).board = _
      unfold pin
      dsimp only
      split
      · exact board_broadcastCtrl _ _
      · rfl
  | unsubscribe client key =>
      refine silent ?_ fun _ => rfl
      show (st.unsubscribe client key).1.board = _
      unfold unsubscribe
      split
      · exact board_detach _ _ _
      · rfl
  | deliverSnapshot client fetched =>
      refine silent ?_ fun _ => rfl
      show (st.deliverSnapshot _ _ _ _ _).board = _
      unfold deliverSnapshot deliverSnapshotEntry
      cases st.getEntry fetched.key with
      | none => rfl
      | some e =>
          dsimp only
          split
          · exact board_of_sources (Alike.release client _ _).sources
          · rfl
  | failPending key client =>
      refine silent ?_ fun _ => rfl
      show (st.failPending key client).board = _
      unfold failPending
      cases st.getEntry key with
      | none => rfl
      | some e =>
          dsimp only
          split <;> rfl
  | resyncAfterSourceLoss source => exact silent rfl fun _ => rfl
  | cleanupClient client => exact silent (board_detachAll client _ _) fun _ => rfl
  | receive client => exact silent rfl fun _ => rfl
  | close client => exact silent rfl fun _ => rfl

theorem board_run (ops : List Op) :
    (run step st ops).board = st.board.map fun row =>
      (row.1, (st.verdicts row.1 ops).foldl SourceStats.score row.2) := by
  induction ops generalizing st with
  | nil => simp [verdicts]
  | cons op rest inductionHypothesis =>
      rw [run_cons, inductionHypothesis, board_step, List.map_map]
      simp only [Function.comp_def, verdicts, List.foldl_append]

def sentBy (source : Nat) : Op → Bool
  | .onUpdate _ message => message.source == source
  | _ => false

theorem length_verdicts (source : Nat) (ops : List Op) :
    (st.verdicts source ops).length = ops.countP (sentBy source) := by
  induction ops generalizing st with
  | nil => rfl
  | cons op rest inductionHypothesis =>
      have one : (st.judged source op).toList.length = if sentBy source op then 1 else 0 := by
        cases op with
        | onUpdate now message =>
            simp only [judged, sentBy, beq_iff_eq]
            split <;> rfl
        | _ => rfl
      rw [verdicts, List.length_append, inductionHypothesis, one, List.countP_cons, Nat.add_comm]

theorem single_of_mem_verdicts (source : Nat) (ops : List Op) :
    ∀ v ∈ st.verdicts source ops, v.Single := by
  induction ops generalizing st with
  | nil => exact fun _ member => absurd member List.not_mem_nil
  | cons op rest inductionHypothesis =>
      intro v member
      rcases List.mem_append.mp member with now | later
      · cases op with
        | onUpdate now message =>
            simp only [judged, Option.mem_toList, Option.ite_none_right_eq_some,
              Option.some.injEq] at now
            obtain ⟨-, rfl⟩ := now
            exact SubEntry.arbitrate_single _ _ _ _ _
        | _ => exact absurd now List.not_mem_nil
      · exact inductionHypothesis v later

/-- After any run the counters of a source are those of what was decided of its frames: each frame
was a win, a late copy, stale or none of these, exactly once, and the delays of the late copies add
up, in 64 bits, and fill the histogram. -/
theorem scoreboard (ids : List Nat) (ops : List Op) :
    let start : Live := AppState.new (ids.map ({ id := · }))
    ∀ source ∈ (run step start ops).sources,
      let decided := start.verdicts source.id ops
      decided.length = ops.countP (sentBy source.id) ∧
      source.stats.wins = decided.countP (·.win) ∧
      source.stats.duplicates = (delaysUs decided).length ∧
      source.stats.stale = decided.countP (·.stale) ∧
      source.stats.wins + source.stats.duplicates + source.stats.stale +
        decided.countP (·.unscored) = decided.length ∧
      source.stats.delayCount = source.stats.duplicates ∧
      source.stats.delaySumUs = (delaysUs decided).sum % UInt64.size ∧
      source.stats.hist = tally (bucketEdgesUs.length + 1) ((delaysUs decided).map bucketOf) ∧
      source.stats.hist.sum = source.stats.delayCount := by
  intro start source listed decided
  have stats : source.stats = decided.foldl SourceStats.score {} := by
    have row : (source.id, source.stats) ∈ (run step start ops).board :=
      List.mem_map.mpr ⟨source, listed, rfl⟩
    rw [board_run] at row
    obtain ⟨fresh, there, same⟩ := List.mem_map.mp row
    obtain ⟨src, known, rfl⟩ := List.mem_map.mp there
    obtain ⟨id, -, rfl⟩ := List.mem_map.mp known
    obtain ⟨rfl, counted⟩ := Prod.mk.inj same
    exact counted.symm
  have filled : (tally (bucketEdgesUs.length + 1) ((delaysUs decided).map bucketOf)).sum =
      (delaysUs decided).length := by
    rw [sum_tally, List.length_map]
    intro bucket member
    obtain ⟨us, -, rfl⟩ := List.mem_map.mp member
    exact bucketOf_lt us
  rw [stats, foldl_score]
  exact ⟨length_verdicts source.id ops, rfl, rfl, rfl,
    countP_single decided (single_of_mem_verdicts source.id ops), rfl, rfl, rfl, filled⟩

end AppState

end Wsarb
