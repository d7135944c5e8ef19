import Wsarb.LoadTest.KeyStats
import Wsarb.Stream.Reel
import Wsarb.Stream.Stretch

/-!
Owns how much the load test finds out of order in what the proxy sends: of a key, no more frames
than the key's stream has started over since the client's handle was handed out. It starts over
where its entry is made anew and where it loses its leader. Nothing else that the proxy does by one
operation at a time makes the load test count a violation: no source ahead of another, no snapshot
and no backlog behind one.

Does not own: that a restart makes it count one, or what operations that overlap make it count.
-/

namespace Wsarb.LoadTest

open Wsarb.Library AppState

/-- What a client is queued of a key, the stretch the key is in, and how many stretches have ended
of which a frame was let through since the client's handle was handed out. -/
structure Trial where
  reel : Reel
  stretch : Stretch
  restarts : Nat

namespace Trial

def start (sources : List Source) : Trial := ⟨Reel.start sources, Stretch.start sources, 0⟩

def ends (key : SubKey) (trial : Trial) (op : Op) : Bool :=
  trial.stretch.st.creates key op || trial.stretch.st.frees key op

def step (key : SubKey) (client : Nat) (trial : Trial) (op : Op) : Trial where
  reel := trial.reel.step key client op
  stretch := trial.stretch.step key op
  restarts :=
    if trial.reel.begins client op then 0
    else if trial.ends key op && !trial.reel.forwarded.isEmpty then trial.restarts + 1
    else trial.restarts

variable {key : SubKey} {client : Nat} {trial : Trial}

def marks (messages : List Message) : List Nat := messages.map fun message => message.seq.stamp

/-- What was let through since the handle was handed out is older frames and a part of the stretch,
and the older frames fall less often than stretches have ended. -/
structure Paced (key : SubKey) (trial : Trial) : Prop where
  same : trial.stretch.st = trial.reel.st
  rising : trial.stretch.Rising key
  parts : ∃ older recent, trial.reel.forwarded = older ++ recent ∧
    recent.Sublist trial.stretch.forwarded ∧
      (older = [] ∨ falls (marks older) + 1 ≤ trial.restarts)

namespace Paced

theorem start (key : SubKey) (sources : List Source) : Paced key (Trial.start sources) where
  same := rfl
  rising := Stretch.rising_start sources
  parts := ⟨[], [], rfl, List.Sublist.refl _, Or.inl rfl⟩

/-- So all of it falls no more often than stretches have ended. -/
theorem falls_le (paced : Paced key trial) :
    falls (marks trial.reel.forwarded) ≤ trial.restarts := by
  obtain ⟨older, recent, split, part, few⟩ := paced.parts
  have ordered : falls (marks recent) = 0 :=
    falls_of_pairwise (List.pairwise_map.mpr ((paced.rising.ordered.sublist part).imp And.left))
  rw [split, marks, List.map_append]
  rcases few with none' | few
  · rw [none', List.map_nil, List.nil_append]
    exact ordered ▸ Nat.zero_le _
  · exact (falls_append_le (marks older) (marks recent)).trans (by omega)

theorem step (paced : Paced key trial) (client : Nat) (op : Op) :
    Paced key (Trial.step key client trial op) := by
  have same : (Trial.step key client trial op).stretch.st =
      (Trial.step key client trial op).reel.st := by
    show trial.stretch.st.step op = (trial.reel.step key client op).st
    rw [Reel.st_step, paced.same]
  refine ⟨same, paced.rising.step op, ?_⟩
  by_cases begins : trial.reel.begins client op = true
  · refine ⟨[], [], ?_, List.nil_sublist _, Or.inl rfl⟩
    show (trial.reel.step key client op).forwarded = _
    rw [Reel.step_of_begins begins]
    rfl
  · have longer : (trial.reel.step key client op).forwarded =
        trial.reel.forwarded ++ trial.reel.st.forwardedBy key op := by
      rw [Reel.step_of_goes_on begins]
    have stretched : (trial.stretch.step key op).forwarded =
        trial.stretch.kept key op ++ trial.reel.st.forwardedBy key op := by
      rw [← paced.same]
      rfl
    have counted : (Trial.step key client trial op).restarts =
        if trial.ends key op && !trial.reel.forwarded.isEmpty then trial.restarts + 1
        else trial.restarts := if_neg begins
    cases ends : trial.ends key op with
    | true =>
        -- All that was let through so far is older from here on.
        refine ⟨trial.reel.forwarded, trial.reel.st.forwardedBy key op, longer, ?_, ?_⟩
        · rw [Trial.step, stretched]
          exact List.sublist_append_right _ _
        · rw [counted, ends, Bool.true_and]
          cases empty : trial.reel.forwarded.isEmpty with
          | true => exact Or.inl (List.isEmpty_iff.mp empty)
          | false =>
              right
              rw [Bool.not_false, if_pos rfl]
              exact Nat.succ_le_succ paced.falls_le
    | false =>
        obtain ⟨older, recent, split, part, few⟩ := paced.parts
        refine ⟨older, recent ++ trial.reel.st.forwardedBy key op, ?_, ?_, ?_⟩
        · rw [Trial.step, longer, split, List.append_assoc]
        · rw [Trial.step, stretched, Stretch.kept, show (trial.stretch.st.creates key op ||
            trial.stretch.st.frees key op) = false from ends, if_neg Bool.false_ne_true]
          exact part.append (List.Sublist.refl _)
        · rwa [counted, ends, Bool.false_and, if_neg Bool.false_ne_true]

end Paced

end Trial

/-- Fetched snapshots and snapshots of the stream apart, what a client is queued is some of what
came from the stream. -/
theorem stamps_sublist {queued : List (Bool × Message)}
    (fetched : ∀ item ∈ queued, item.1 = true → item.2.seq.isSnapshot = true) :
    (KeyStats.stamps (queued.map fun item => item.2.seq)).Sublist
      (Trial.marks (Reel.streamed queued)) := by
  have inner : (queued.filter fun item => !item.2.seq.isSnapshot) =
      (queued.filter fun item => !item.1).filter fun item => !item.2.seq.isSnapshot := by
    rw [List.filter_filter]
    apply List.filter_congr
    intro item member
    have both : ∀ apart snapshot : Bool, (apart = true → snapshot = true) →
        (!snapshot) = (!snapshot && !apart) := by decide
    exact both item.1 item.2.seq.isSnapshot (fetched item member)
  have stamps : KeyStats.stamps (queued.map fun item => item.2.seq) =
      (queued.filter fun item => !item.2.seq.isSnapshot).map fun item => item.2.seq.stamp := by
    rw [KeyStats.stamps, List.filter_map, List.map_map]
    rfl
  rw [stamps, inner, Trial.marks, Reel.streamed, List.map_map]
  exact List.filter_sublist.map _

/-- Whatever the proxy goes through, one operation at a time, and however much of what a client is
queued of a key has arrived when, the load test counts no more violations than the key's stream has
started over since the client's handle was handed out. -/
theorem violations_le_restarts (threshold : Threshold) (began : Nat) (label : String)
    (key : SubKey) (client : Nat) (sources : List Source) (ops : List Op)
    (handed : Throughout AppState.step Handed (AppState.new sources) ops)
    (arrivals : List (Nat × Nat × Seq))
    (arrived : arrivals.map (·.2.2) <+:
      ((run AppState.step (AppState.new sources) ops).keyLog key client).map (·.seq)) :
    (arrivals.foldl (KeyStats.receive threshold began label) {}).violationCount ≤
      (run (Trial.step key client) (Trial.start sources) ops).restarts := by
  have paced : Trial.Paced key (run (Trial.step key client) (Trial.start sources) ops) :=
    Reachable.invariant ⟨ops, rfl⟩ (Trial.Paced.start key sources)
      fun _ op paced => paced.step client op
  have reel : (run (Trial.step key client) (Trial.start sources) ops).reel =
      run (Reel.step key client) (Reel.start sources) ops :=
    run_proj Trial.reel (fun _ _ => rfl) _ _
  have few := paced.falls_le
  have spooled := Reel.spooled_run key client sources ops handed
  have fetched := Reel.fetched_run key client sources ops
  have told := spooled.told
  rw [Reel.st_run] at told
  rw [reel] at few
  generalize run (Reel.step key client) (Reel.start sources) ops = record at *
  have apart : ∀ item ∈ record.queued, item.1 = true → item.2.seq.isSnapshot = true := by
    intro item member marked
    obtain ⟨answer, -, same⟩ := fetched item member marked
    rw [same]
    rfl
  have items : ((run AppState.step (AppState.new sources) ops).keyLog key client).map (·.seq) =
      record.queued.map fun item => item.2.seq := by
    rw [← told, List.map_map]
    rfl
  have part : (KeyStats.stamps (arrivals.map (·.2.2))).Sublist (Trial.marks record.forwarded) :=
    (((items ▸ arrived).sublist.filter _).map _).trans
      ((stamps_sublist apart).trans (spooled.plain.map _))
  have counted := KeyStats.violationCount_le threshold began label arrivals {}
  have fewer := falls_sublist part
  exact (counted.trans_eq (Nat.zero_add _)).trans (fewer.trans few)

/-- A book as a source sends it. -/
def bookAt (source time : Nat) : Message :=
  ⟨source, .l2Book "BTC" none none none, .sticky time, toString time, rfl⟩

/-- The source that carries a book is lost, and the one that takes over is behind it. -/
def fallsBehind : List Op :=
  [.registerClient "127.0.0.1", .subscribe 0 1 (.l2Book "BTC" none none none),
    .onUpdate 1 (bookAt 0 10), .resyncAfterSourceLoss 0, .onUpdate 2 (bookAt 1 9)]

/-- The quantile and the multiple without rounding, for a factor of 5. -/
def fivefold : Threshold := ⟨fun last => last * 99 / 100, fun q => 5 * q, fun last => by omega⟩

/-- One restart, and one violation. -/
theorem violations_le_restarts_behind :
    let arrivals := [(1, 2, Seq.sticky 10), (2, 1, Seq.sticky 9)]
    let trial := run (Trial.step (.l2Book "BTC" none none none) 1)
      (Trial.start [{ id := 0 }, { id := 1 }]) fallsBehind
    (arrivals.foldl (KeyStats.receive fivefold 0 "l2Book:BTC") {}).violationCount = 1 ∧
      trial.restarts = 1 ∧
      (arrivals.foldl (KeyStats.receive fivefold 0 "l2Book:BTC") {}).violationCount ≤
        trial.restarts :=
  ⟨by decide, by decide, violations_le_restarts fivefold 0 "l2Book:BTC"
    (.l2Book "BTC" none none none) 1 [{ id := 0 }, { id := 1 }] fallsBehind (by decide) _
    (by decide)⟩

end Wsarb.LoadTest
