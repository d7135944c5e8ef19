import Wsarb.Stream.Arrivals

/-!
Owns the two ways the increments of one leading source reach a client of an `l2Diff` key.
Attached, it is queued every one of them. Parked, it is queued those above the height of the
snapshot it is rebuilt on. The two agree where the snapshot is not cut inside a run of equal
heights.

Does not own: which source comes to lead.
-/

namespace Wsarb

open Wsarb.Library AppState

/-- Increments of one source on one key, none below the height of the one before it. -/
structure Increments (key : SubKey) (source : Nat) (frames : List (Nat × Message)) : Prop where
  own : ∀ frame ∈ frames,
    frame.2.key = key ∧ frame.2.source = source ∧ frame.2.seq = .sticky frame.2.seq.stamp
  ascending : frames.Pairwise fun first second => first.2.seq.stamp ≤ second.2.seq.stamp

/-- The first of the frames, if there is one, goes out. -/
def Opens (st : Live) (key : SubKey) (frames : List (Nat × Message)) : Prop :=
  ∀ first ∈ frames.head?,
    (st.entryOr first.1 key).Accepts key first.2.source first.2.seq

instance (st : Live) (key : SubKey) (frames : List (Nat × Message)) :
    Decidable (Opens st key frames) :=
  inferInstanceAs (Decidable (∀ first ∈ frames.head?, _))

variable {st : Live} {key : SubKey} {source client now : Nat} {message : Message}
  {frames : List (Nat × Message)}

namespace Increments

theorem tail {frame : Nat × Message} (increments : Increments key source (frame :: frames)) :
    Increments key source frames where
  own := fun other member => increments.own other (List.mem_cons_of_mem _ member)
  ascending := (List.pairwise_cons.mp increments.ascending).2

theorem of_append {first second : List (Nat × Message)}
    (increments : Increments key source (first ++ second)) : Increments key source first where
  own := fun frame member => increments.own frame (List.mem_append_left _ member)
  ascending := (List.pairwise_append.mp increments.ascending).1

/-- A source whose increment goes out leads, and its next one is no lower. -/
theorem opens_next {frame : Nat × Message} (increments : Increments key source (frame :: frames))
    (opens : Opens st key (frame :: frames)) :
    Opens (st.step (.onUpdate frame.1 frame.2)) key frames := by
  intro next following
  have listed := List.mem_of_mem_head? following
  obtain ⟨routed, from', sticky⟩ := increments.own frame List.mem_cons_self
  obtain ⟨-, fromNext, stickyNext⟩ := increments.own next (List.mem_cons_of_mem _ listed)
  have above := (List.pairwise_cons.mp increments.ascending).1 next listed
  have accepts := opens frame rfl
  have entry : (st.step (.onUpdate frame.1 frame.2)).getEntry key =
      some ((st.entryOr frame.1 key).update key frame.1 frame.2.source frame.2.seq frame.2).1 := by
    rw [getEntry_step, entryAfter, if_pos routed]
  have ordered : ∀ v, frame.2.seq ≠ .point v := by
    intro v same
    rw [sticky] at same
    cases same
  rw [entryOr_of_some entry, stickyNext]
  refine Or.inr ⟨?_, ?_⟩
  · rw [SubEntry.update_blockLeader _ _ _ _ _ _ ordered, if_pos accepts, from', fromNext]
  · rw [SubEntry.update_last, if_pos accepts]
    exact above

/-- Every one of them goes out once the first does. -/
theorem goOut (increments : Increments key source frames) (opens : Opens st key frames) :
    GoOut key st frames := by
  induction frames generalizing st with
  | nil => trivial
  | cons frame rest inductionHypothesis =>
      have routed := (increments.own frame List.mem_cons_self).1
      exact ⟨⟨routed, opens frame rfl⟩,
        inductionHypothesis increments.tail (increments.opens_next opens)⟩

end Increments

/-! ### The two paths -/

/-- As much as fits of an item and of some of the rest is the item and all the rest exactly if
none of the rest is left out and all of it fits. -/
theorem take_cons_filter_eq_iff {α : Type} (keep : α → Bool) (item : α) (rest : List α)
    (room : Nat) :
    (item :: rest.filter keep).take room = item :: rest ↔
      (∀ other ∈ rest, keep other = true) ∧ rest.length < room := by
  have short := List.length_filter_le keep rest
  constructor
  · intro same
    have lengths := congrArg List.length same
    rw [List.length_take, List.length_cons, List.length_cons] at lengths
    refine ⟨List.length_filter_eq_length_iff.mp ?_, ?_⟩
    · omega
    · omega
  · rintro ⟨all, fits⟩
    rw [List.filter_eq_self.mpr all]
    exact List.take_of_length_le fits

section Cut

variable {early late : List (Nat × Message)} {cut : Nat × Message}
  (increments : Increments key source (early ++ cut :: late))

include increments

/-- What is above the height at the cut comes after it. -/
theorem Increments.filter_above :
    ((early ++ cut :: late).map (·.2)).filter (fun message =>
        decide (cut.2.seq.stamp < message.seq.stamp) && (message.source == source)) =
      (late.map (·.2)).filter fun message => decide (cut.2.seq.stamp < message.seq.stamp) := by
  obtain ⟨-, ascending, below⟩ := List.pairwise_append.mp increments.ascending
  have nothing : (early.map (·.2)).filter (fun message =>
      decide (cut.2.seq.stamp < message.seq.stamp) && (message.source == source)) = [] := by
    rw [List.filter_eq_nil_iff]
    intro message member
    obtain ⟨frame, listed, rfl⟩ := List.mem_map.mp member
    have under := below frame listed cut List.mem_cons_self
    simp only [Bool.and_eq_true, decide_eq_true_eq]
    omega
  rw [List.map_append, List.filter_append, nothing, List.map_cons, List.filter_cons_of_neg]
  · apply List.filter_congr
    intro message member
    obtain ⟨frame, listed, rfl⟩ := List.mem_map.mp member
    have own := increments.own frame
      (List.mem_append_right _ (List.mem_cons_of_mem _ listed))
    rw [own.2.1, beq_self_eq_true, Bool.and_true]
  · simp

/-- All that comes after the cut is above its height exactly if the next increment is. -/
theorem Increments.all_above_iff :
    (∀ message ∈ late.map (·.2), decide (cut.2.seq.stamp < message.seq.stamp) = true) ↔
      ∀ next ∈ late.head?, cut.2.seq.stamp < next.2.seq.stamp := by
  obtain ⟨-, ascending, -⟩ := List.pairwise_append.mp increments.ascending
  have rising := (List.pairwise_cons.mp ascending).2
  constructor
  · intro above next following
    exact of_decide_eq_true
      (above _ (List.mem_map.mpr ⟨next, List.mem_of_mem_head? following, rfl⟩))
  · intro above message member
    obtain ⟨frame, listed, rfl⟩ := List.mem_map.mp member
    apply decide_eq_true
    cases late with
    | nil => exact absurd listed List.not_mem_nil
    | cons next rest =>
        have first := above next rfl
        rcases List.mem_cons.mp listed with rfl | later
        · exact first
        · exact Nat.lt_of_lt_of_le first ((List.pairwise_cons.mp rising).1 frame later)

/-- A client attached throughout is queued after the cut all that comes after it. -/
theorem Increments.rest_reaches_attached (opens : Opens st key (early ++ cut :: late))
    (seated : st.Seated) (attached : st.attached key client = true)
    (roomy : (early ++ cut :: late).length ≤ (st.heap client).tx.room) :
    (run step st (arrivals (early ++ cut :: late))).logOf client key =
      (run step st (arrivals (early ++ [cut]))).logOf client key ++ late.map (·.2) := by
  have whole : early ++ cut :: late = (early ++ [cut]) ++ late := by
    rw [List.append_assoc, List.singleton_append]
  have upToCut : Opens st key (early ++ [cut]) := by
    intro first heads
    apply opens first
    rw [whole, List.head?_append, heads]
    rfl
  have short : (early ++ [cut]).length ≤ (st.heap client).tx.room := by
    rw [whole, List.length_append] at roomy
    omega
  have part : Increments key source (early ++ [cut]) := by
    rw [whole] at increments
    exact increments.of_append
  rw [seated.logOf_arrivals (increments.goOut opens) attached roomy,
    seated.logOf_arrivals (part.goOut upToCut) attached short, whole, List.map_append,
    List.append_assoc]

/-- What the parked client is to be queued once they have all arrived: nothing if they outgrew the
cap, and else the snapshot and what comes after the cut above its height. -/
theorem Increments.offered_at_cut (opens : Opens st key (early ++ cut :: late))
    (settled : st.Settled client) (waits : Behind st key client []) {fetched : Fetched}
    (routed : fetched.key = key) (single : key.singleSourced = true)
    (own : fetched.source = source) (height : fetched.height = cut.2.seq.stamp) :
    (run step st (arrivals (early ++ cut :: late))).offered client
        (.deliverSnapshot client fetched) =
      if bytesOf ((early ++ cut :: late).map (·.2)) ≤ pendingMaxBytes then
        fetched.message :: (late.map (·.2)).filter fun message =>
          decide (cut.2.seq.stamp < message.seq.stamp)
      else [] := by
  have incremental : key.isIncremental = true := routed ▸ fetched.incremental
  have stands := settled.behind_arrivals incremental waits (increments.goOut opens)
  rw [← routed] at stands
  split
  · next fits =>
      rw [if_pos fits] at stands
      rw [(settled.run_arrivals _).offered_of_behind stands, routed, single, own, height,
        ← increments.filter_above]
      rfl
  · next outgrown =>
      -- The client was evicted on the way, and no snapshot reaches it.
      rw [if_neg outgrown] at stands
      exact offered_of_not_parked stands

end Cut

/-- From any run, a client parked on an `l2Diff` key with nothing held behind it yet, any
increments of a source that leads, and its snapshot as it stood after any one of them. A client
attached throughout applies after that one all that come after it. The parked client is queued
exactly these behind its snapshot if and only if the next one is above the height at the cut, the
increments fit under the cap and the client has room for what it is sent. -/
theorem rebuilt_as_attached_iff (coin : String) (nSigFigs : Option UInt32)
    (nLevels mantissa : Option UInt64) (sources : List Source) (before : List Op)
    (handed : Throughout step Handed (AppState.new sources) before) (client source : Nat)
    (text : String) (early late : List (Nat × Message)) (cut : Nat × Message)
    (waits : Behind (run step (AppState.new sources) before)
      (.l2Diff coin nSigFigs nLevels mantissa) client [])
    (increments : Increments (.l2Diff coin nSigFigs nLevels mantissa) source
      (early ++ cut :: late))
    (opens : Opens (run step (AppState.new sources) before)
      (.l2Diff coin nSigFigs nLevels mantissa) (early ++ cut :: late)) :
    let key := SubKey.l2Diff coin nSigFigs nLevels mantissa
    let st := run step (AppState.new sources) before
    let now := run step st (arrivals (early ++ cut :: late))
    let fetched : Fetched := ⟨source, key, cut.2.seq.stamp, text, rfl⟩
    (∀ peer, st.attached key peer = true →
        (early ++ cut :: late).length ≤ (st.heap peer).tx.room →
        now.logOf peer key =
          (run step st (arrivals (early ++ [cut]))).logOf peer key ++ late.map (·.2)) ∧
      ((now.step (.deliverSnapshot client fetched)).logOf client key =
          st.logOf client key ++ fetched.message :: late.map (·.2) ↔
        (∀ next ∈ late.head?, cut.2.seq.stamp < next.2.seq.stamp) ∧
          bytesOf ((early ++ cut :: late).map (·.2)) ≤ pendingMaxBytes ∧
          late.length < (st.heap client).tx.room) := by
  intro key st now fetched
  obtain ⟨seated, tagged⟩ := seated_after sources before handed
  refine ⟨fun peer => increments.rest_reaches_attached opens seated, ?_⟩
  have parked := parked_of_behind waits
  have settled : st.Settled client := ⟨seated, tagged, seated.old_of_parked parked⟩
  have untouched : (now.heap client).tx = (st.heap client).tx := by
    rw [seated.tx_arrivals (increments.goOut opens), seated.not_attached_of_parked parked]
    rfl
  have quiet : now.logOf client key = st.logOf client key := by
    rw [logOf, logOf, log, log, untouched]
  have offers : now.offered client (.deliverSnapshot client fetched) = _ :=
    increments.offered_at_cut opens settled waits rfl rfl rfl rfl
  have delivers := (settled.run_arrivals (early ++ cut :: late)).logOf_deliverSnapshot fetched
  change (now.step _).logOf client key = now.logOf client key ++ _ at delivers
  rw [delivers, quiet, List.append_cancel_left_eq, offers, untouched]
  split
  · next fits =>
      rw [take_cons_filter_eq_iff, increments.all_above_iff, List.length_map]
      exact and_congr_right fun _ => (and_iff_right fits).symm
  · next outgrown =>
      rw [List.take_nil]
      exact iff_of_false (List.cons_ne_nil _ _).symm fun all => outgrown all.2.1

/-- Client 1 is attached to the plain stream, source 0 leads it at height 20, and client 2 is parked
with nothing held behind it. -/
def joining : List Op :=
  [.registerClient "a", .registerClient "b", .subscribe 0 1 (.l2Diff "BTC" none none none),
    .onUpdate 1 (.l2Increment 0 "BTC" 20 "to 20"), .subscribe 2 2 (.l2Diff "BTC" none none none)]

theorem behind_joining :
    Behind (run step (AppState.new [{ id := 0 }]) joining) (.l2Diff "BTC" none none none) 2 [] :=
  ⟨_, _, rfl, List.mem_singleton.mpr rfl, rfl, rfl, rfl, Nat.zero_le _⟩

/-- Three increments whose heights never go down. -/
theorem increments_joining (first second third : Nat)
    (rising : first ≤ second ∧ second ≤ third) :
    Increments (.l2Diff "BTC" none none none) 0
      [(3, .l2Increment 0 "BTC" first "x"), (4, .l2Increment 0 "BTC" second "y"),
        (5, .l2Increment 0 "BTC" third "z")] where
  own := by simp [Message.l2Increment, Seq.stamp]
  ascending := by
    simp [Message.l2Increment, Seq.stamp]
    omega

/-- The snapshot is taken after the second increment of block 21. -/
theorem rebuilt_as_attached_iff_whole_block :
    ((run step (run step (AppState.new [{ id := 0 }]) joining)
        (arrivals [(3, .l2Increment 0 "BTC" 21 "x"), (4, .l2Increment 0 "BTC" 21 "y"),
          (5, .l2Increment 0 "BTC" 22 "z")])).step
      (.deliverSnapshot 2 ⟨0, .l2Diff "BTC" none none none, 21, "book", rfl⟩)).logOf 2
        (.l2Diff "BTC" none none none) =
      [⟨0, .l2Diff "BTC" none none none, .snapshot 21, "book", rfl⟩,
        .l2Increment 0 "BTC" 22 "z"] :=
  (rebuilt_as_attached_iff "BTC" none none none [{ id := 0 }] joining (by decide) 2 0 "book"
    [(3, .l2Increment 0 "BTC" 21 "x")] [(5, .l2Increment 0 "BTC" 22 "z")]
    (4, .l2Increment 0 "BTC" 21 "y") behind_joining (increments_joining 21 21 22 (by decide))
    (by decide)).2.mpr (by decide)

/-- The snapshot is taken after the first increment of block 21, and the second is lost. -/
theorem not_rebuilt_as_attached :
    ¬ ∀ (sources : List Source) (before : List Op) (client source : Nat) (text : String)
      (early late : List (Nat × Message)) (cut : Nat × Message),
      Throughout step Handed (AppState.new sources) before →
      Behind (run step (AppState.new sources) before) (.l2Diff "BTC" none none none) client [] →
      Increments (.l2Diff "BTC" none none none) source (early ++ cut :: late) →
      Opens (run step (AppState.new sources) before) (.l2Diff "BTC" none none none)
        (early ++ cut :: late) →
      bytesOf ((early ++ cut :: late).map (·.2)) ≤ pendingMaxBytes →
      late.length < ((run step (AppState.new sources) before).heap client).tx.room →
      ((run step (run step (AppState.new sources) before)
          (arrivals (early ++ cut :: late))).step
        (.deliverSnapshot client
          ⟨source, .l2Diff "BTC" none none none, cut.2.seq.stamp, text, rfl⟩)).logOf client
            (.l2Diff "BTC" none none none) =
        (run step (AppState.new sources) before).logOf client (.l2Diff "BTC" none none none) ++
          ⟨source, .l2Diff "BTC" none none none, .snapshot cut.2.seq.stamp, text, rfl⟩ ::
            late.map (·.2) := by
  intro always
  have served := always [{ id := 0 }] joining 2 0 "book" []
    [(4, .l2Increment 0 "BTC" 21 "y"), (5, .l2Increment 0 "BTC" 22 "z")]
    (3, .l2Increment 0 "BTC" 21 "x") (by decide) behind_joining
    (increments_joining 21 21 22 (by decide)) (by decide) (by decide) (by decide)
  exact absurd served (by decide)

end Wsarb
