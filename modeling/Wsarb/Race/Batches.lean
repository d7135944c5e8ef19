import Mathlib.Order.Bounds.Basic
import Wsarb.Race.Hearing
import Wsarb.Upstream.Route

/-!
Owns one coin's trades as several sources send them: the same sequence of trade ids, cut by
each into batches of its own, every batch routed and heard in any order of turns. A batch
goes out exactly when its newest id is above the newest seen, so no trade is lost; a batch
that lies on both sides of the newest seen is forwarded whole, and what lies below it goes
out again.

Does not own: batches that are cut from different sequences.
-/

namespace Wsarb

open Wsarb.Library

variable {β : Type}

/-- A frame of the `trades` channel: what is read of it, and its text. -/
structure Batch (β : Type) where
  trades : List TradeHead
  text : β

def tids (batches : List (Batch β)) : List Nat :=
  (batches.flatMap (·.trades)).map (·.tid)

/-- The shared state, and every batch that has been forwarded. -/
structure Tape (β : Type) where
  st : AppState β
  forwarded : List (Batch β)

def AppState.newest (st : AppState β) (coin : String) : Nat :=
  (st.entryOr 0 (.trades coin)).last

/-- The batches cut the sequence from its start on, one piece after another; the order inside
a batch is its source's own. -/
def Cuts (coin : String) (ids : List Nat) (batches : List (Batch β)) : Prop :=
  (∀ batch ∈ batches, ∀ trade ∈ batch.trades, trade.coin = coin) ∧
    ∃ pieces : List (List Nat), pieces.flatten <+: ids ∧
      List.Forall₂ (fun batch piece => (batch.trades.map (·.tid)).Perm piece) batches pieces

/-- Route one batch and hear it, writing down whether it went out. -/
def hearBatch [Payload β] (tape : Tape β) (turn : Turn) (batch : Batch β) : Tape β :=
  match route (.trades batch.trades) with
  | none => tape
  | some (key, seq) =>
      { st := tape.st.onUpdate turn.now turn.source key seq batch.text
        forwarded :=
          if tape.st.forwards turn.now turn.source key seq batch.text then
            tape.forwarded ++ [batch]
          else tape.forwarded }

/-- The sources read their batches out. -/
abbrev batchStep [Payload β] (scripts : Nat → List (Batch β)) :
    Talk Nat (Tape β) → Turn → Talk Nat (Tape β) :=
  Talk.step scripts Turn.source hearBatch

def Sent (scripts : Nat → List (Batch β)) (talk : Talk Nat (Tape β)) (id : Nat) : Prop :=
  ∃ source, id ∈ tids ((scripts source).take (talk.said source))

/-! ### Cutting -/

@[simp] theorem tids_append (first second : List (Batch β)) :
    tids (first ++ second) = tids first ++ tids second := by
  simp [tids]

@[simp] theorem tids_singleton (batch : Batch β) : tids [batch] = batch.trades.map (·.tid) := by
  simp [tids]

section Cutting

variable {coin : String} {ids : List Nat} {batches : List (Batch β)}

/-- What a source has read out so far is a part of the sequence from its start on. -/
theorem Cuts.take_perm (cuts : Cuts coin ids batches) (count : Nat) :
    ∃ part, part <+: ids ∧ (tids (batches.take count)).Perm part := by
  obtain ⟨-, pieces, fits, each⟩ := cuts
  refine ⟨(pieces.take count).flatten, ?_, ?_⟩
  · apply List.IsPrefix.trans _ fits
    refine ⟨(pieces.drop count).flatten, ?_⟩
    rw [← List.flatten_append, List.take_append_drop]
  · clear fits
    induction each generalizing count with
    | nil => simp [tids]
    | cons first rest inductionHypothesis =>
        cases count with
        | zero => simp [tids]
        | succ count =>
            have later := inductionHypothesis count
            simp only [tids, List.take_succ_cons, List.flatMap_cons, List.map_append,
              List.flatten_cons] at later ⊢
            exact first.append later

/-- Whoever has read a trade out has read every trade before it. -/
theorem Cuts.older_read (cuts : Cuts coin ids batches) (rising : ids.Pairwise (· < ·))
    {count id read : Nat} (member : read ∈ tids (batches.take count)) (listed : id ∈ ids)
    (older : id ≤ read) : id ∈ tids (batches.take count) := by
  obtain ⟨part, ⟨rest, rfl⟩, permutation⟩ := cuts.take_perm count
  rw [permutation.mem_iff] at member ⊢
  rcases List.mem_append.mp listed with inside | outside
  · exact inside
  · have above := (List.pairwise_append.mp rising).2.2 read member id outside
    omega

theorem Cuts.listed (cuts : Cuts coin ids batches) {count read : Nat}
    (member : read ∈ tids (batches.take count)) : read ∈ ids := by
  obtain ⟨part, fits, permutation⟩ := cuts.take_perm count
  exact fits.subset (permutation.mem_iff.mp member)

end Cutting

/-! ### One batch -/

section Frame

variable [Payload β] {batch : Batch β} {coin : String}

theorem AppState.newest_onUpdate (st : AppState β) (now src v : Nat) (text : β) :
    (st.onUpdate now src (.trades coin) (.point v) text).newest coin =
      max (st.newest coin) v := by
  have same : (st.entryOr now (.trades coin)).last = st.newest coin := by
    unfold newest entryOr
    cases st.getEntry (.trades coin) <;> rfl
  unfold newest at same ⊢
  rw [entryOr, getEntry_onUpdate, if_pos rfl, Option.getD_some, SubEntry.update_last]
  simp only [SubEntry.Accepts, Seq.stamp, same]
  split <;> omega

theorem AppState.forwards_point_iff (st : AppState β) (now src v : Nat) (text : β) :
    st.forwards now src (.trades coin) (.point v) text = true ↔ st.newest coin < v := by
  rw [forwards_iff, SubEntry.Accepts, newest, entryOr, entryOr]
  cases st.getEntry (.trades coin) <;> rfl

omit [Payload β] in
/-- A batch is routed under its newest id. -/
theorem route_trades (own : ∀ trade ∈ batch.trades, trade.coin = coin)
    (some : batch.trades ≠ []) :
    ∃ newest ∈ tids [batch], (∀ id ∈ tids [batch], id ≤ newest) ∧
      route (.trades batch.trades) = .some (.trades coin, .point newest) := by
  obtain ⟨first, rest, shape⟩ := List.exists_cons_of_ne_nil some
  obtain ⟨newest, found⟩ : ∃ newest, (batch.trades.map (·.tid)).max? = .some newest := by
    rw [← Option.isSome_iff_exists, List.isSome_max?_iff]
    simpa using some
  obtain ⟨member, above⟩ := List.max?_eq_some_iff.mp found
  rw [tids_singleton]
  refine ⟨newest, member, above, ?_⟩
  have head : batch.trades.head? = .some first := by rw [shape]; rfl
  have coin := own first (by rw [shape]; exact List.mem_cons_self)
  simp [route, routeRaw, head, found, coin, SubKey.normalized]

/-- A batch goes out exactly when it brings a trade above the newest seen, and the newest seen
then covers it. -/
theorem hearBatch_spec (tape : Tape β) (turn : Turn)
    (own : ∀ trade ∈ batch.trades, trade.coin = coin) :
    (hearBatch tape turn batch).forwarded =
        (if ∃ id ∈ tids [batch], tape.st.newest coin < id then tape.forwarded ++ [batch]
          else tape.forwarded) ∧
      (∀ id ∈ tids [batch], id ≤ (hearBatch tape turn batch).st.newest coin) ∧
      tape.st.newest coin ≤ (hearBatch tape turn batch).st.newest coin ∧
      ((hearBatch tape turn batch).st.newest coin = tape.st.newest coin ∨
        (hearBatch tape turn batch).st.newest coin ∈ tids [batch]) := by
  by_cases empty : batch.trades = []
  · have silent : hearBatch tape turn batch = tape := by
      simp [hearBatch, route, routeRaw, empty]
    simp [silent, empty]
  · obtain ⟨newest, member, above, routed⟩ := route_trades own empty
    have goesOut : (∃ id ∈ tids [batch], tape.st.newest coin < id) ↔
        tape.st.newest coin < newest := by
      constructor
      · rintro ⟨id, listed, newer⟩
        exact newer.trans_le (above id listed)
      · exact fun newer => ⟨newest, member, newer⟩
    simp only [hearBatch, routed, AppState.newest_onUpdate, AppState.forwards_point_iff, goesOut]
    refine ⟨trivial, fun id listed => ?_, Nat.le_max_left _ _, ?_⟩
    · exact (above id listed).trans (Nat.le_max_right _ _)
    · rcases Nat.le_total (tape.st.newest coin) newest with newer | older
      · rw [Nat.max_eq_right newer]
        exact Or.inr member
      · exact Or.inl (Nat.max_eq_left older)

end Frame

/-! ### The whole talk -/

section Talking

variable [Payload β] {coin : String} {ids : List Nat} {scripts : Nat → List (Batch β)}
  {talk : Talk Nat (Tape β)} {turn : Turn}

/-- Every trade up to the newest seen is out, and the newest seen was sent. -/
structure Covered (coin : String) (ids : List Nat) (scripts : Nat → List (Batch β))
    (talk : Talk Nat (Tape β)) : Prop where
  atLeast : ∀ id, Sent scripts talk id → id ≤ talk.state.st.newest coin
  sent : talk.state.st.newest coin = 0 ∨ Sent scripts talk (talk.state.st.newest coin)
  out : ∀ id ∈ ids, id ≤ talk.state.st.newest coin →
    ∃ batch ∈ talk.state.forwarded, id ∈ tids [batch]
  atMost : ∀ batch ∈ talk.state.forwarded, ∀ id ∈ tids [batch], id ≤ talk.state.st.newest coin

omit [Payload β] in
theorem covered_start (positive : ∀ id ∈ ids, 0 < id) {st : AppState β}
    (fresh : st.newest coin = 0) : Covered coin ids scripts (Talk.start ⟨st, []⟩) where
  atLeast := by
    rintro id ⟨source, member⟩
    simp [Talk.start, tids] at member
  sent := Or.inl fresh
  out := by
    intro id listed low
    have above := positive id listed
    simp only [Talk.start, fresh] at low
    omega
  atMost := fun _ member => nomatch member

/-- What a turn makes of what has been sent. -/
theorem sent_step {batch : Batch β} (next : talk.nextLine scripts Turn.source turn = some batch)
    (id : Nat) :
    Sent scripts (batchStep scripts talk turn) id ↔ Sent scripts talk id ∨ id ∈ tids [batch] := by
  have line : (scripts turn.source)[talk.said turn.source]? = some batch := next
  have read : ∀ source, tids ((scripts source).take ((batchStep scripts talk turn).said source)) =
      tids ((scripts source).take (talk.said source)) ++
        if source = turn.source then tids [batch] else [] := by
    intro source
    rw [batchStep, Talk.step_of_line next]
    by_cases own : source = turn.source
    · subst own
      simp only [Function.update_self, List.take_add_one, line, tids_append, if_true]
      rfl
    · simp [own]
  simp only [Sent, read, List.mem_append, exists_or]
  apply or_congr_right
  constructor
  · rintro ⟨source, member⟩
    split at member
    · exact member
    · exact absurd member List.not_mem_nil
  · intro member
    exact ⟨turn.source, by rwa [if_pos rfl]⟩

variable (rising : ids.Pairwise (· < ·)) (cuts : ∀ source, Cuts coin ids (scripts source))

include cuts in
/-- A batch that comes next is cut from the sequence. -/
theorem own_of_next {batch : Batch β}
    (next : talk.nextLine scripts Turn.source turn = some batch) :
    (∀ trade ∈ batch.trades, trade.coin = coin) ∧ ∀ id ∈ tids [batch], id ∈ ids := by
  have listed : batch ∈ scripts turn.source := List.mem_of_getElem? next
  refine ⟨(cuts turn.source).1 batch listed, fun id member => ?_⟩
  obtain ⟨source, sent⟩ := (sent_step next id).mpr (Or.inr member)
  exact (cuts source).listed sent

include rising cuts in
/-- A trade no newer than one of a batch is in the batch or was sent before it. -/
theorem sent_or_mem_of_le {batch : Batch β}
    (next : talk.nextLine scripts Turn.source turn = some batch) {id newer : Nat}
    (member : newer ∈ tids [batch]) (listed : id ∈ ids) (older : id ≤ newer) :
    Sent scripts talk id ∨ id ∈ tids [batch] := by
  rw [← sent_step next]
  obtain ⟨source, sent⟩ := (sent_step next newer).mpr (Or.inr member)
  exact ⟨source, (cuts source).older_read rising sent listed older⟩

include rising cuts in
/-- Every turn keeps every trade up to the newest seen out. -/
theorem Covered.step (covered : Covered coin ids scripts talk) (turn : Turn) :
    Covered coin ids scripts (batchStep scripts talk turn) := by
  cases next : talk.nextLine scripts Turn.source turn with
  | none => rwa [batchStep, Talk.step_of_silent next]
  | some batch =>
      obtain ⟨own, listed⟩ := own_of_next cuts next
      have sent := sent_step next
      obtain ⟨forwarded, above, grows, newest⟩ := hearBatch_spec talk.state turn own
      have shape : (batchStep scripts talk turn).state = hearBatch talk.state turn batch := by
        rw [batchStep, Talk.step_of_line next]
      rw [← shape] at forwarded above grows newest
      refine ⟨?_, ?_, ?_, ?_⟩
      · intro id read
        rcases (sent id).mp read with old | new
        · exact (covered.atLeast id old).trans grows
        · exact above id new
      · rcases newest with same | new
        · rw [same]
          exact covered.sent.imp id fun old => (sent _).mpr (Or.inl old)
        · exact Or.inr ((sent _).mpr (Or.inr new))
      · intro id member low
        have old : id ≤ talk.state.st.newest coin →
            ∃ batch ∈ (batchStep scripts talk turn).state.forwarded, id ∈ tids [batch] := by
          intro seen
          obtain ⟨first, goesOut, inside⟩ := covered.out id member seen
          refine ⟨first, ?_, inside⟩
          rw [forwarded]
          split
          · exact List.mem_append_left _ goesOut
          · exact goesOut
        rcases newest with same | new
        · exact old (same ▸ low)
        · rcases sent_or_mem_of_le rising cuts next new member low with read | inside
          · exact old (covered.atLeast id read)
          · by_cases seen : id ≤ talk.state.st.newest coin
            · exact old seen
            · refine ⟨batch, ?_, inside⟩
              rw [forwarded, if_pos ⟨id, inside, Nat.not_le.mp seen⟩]
              exact List.mem_append_right _ (List.mem_singleton_self _)
      · intro first goesOut id inside
        have old : first ∈ talk.state.forwarded →
            id ≤ (batchStep scripts talk turn).state.st.newest coin :=
          fun before => (covered.atMost first before id inside).trans grows
        rw [forwarded] at goesOut
        split at goesOut
        · rcases List.mem_append.mp goesOut with before | now
          · exact old before
          · obtain rfl := List.mem_singleton.mp now
            exact above id inside
        · exact old goesOut

/-! ### Trades that go out twice -/

/-- No trade is in two of the batches. -/
def Apart (batches : List (Batch β)) : Prop :=
  batches.Pairwise fun first second => (tids [first]).Disjoint (tids [second])

/-- The batch a turn brings does not lie on both sides of the newest trade seen. -/
def Clean (coin : String) (scripts : Nat → List (Batch β)) (talk : Talk Nat (Tape β))
    (turn : Turn) : Prop :=
  ∀ batch, talk.nextLine scripts Turn.source turn = some batch →
    (∃ id ∈ tids [batch], talk.state.st.newest coin < id) →
      ∀ id ∈ tids [batch], talk.state.st.newest coin < id

include cuts in
/-- What a turn adds to the batches forwarded. -/
theorem forwarded_step {batch : Batch β}
    (next : talk.nextLine scripts Turn.source turn = some batch) :
    (batchStep scripts talk turn).state.forwarded =
      if ∃ id ∈ tids [batch], talk.state.st.newest coin < id then
        talk.state.forwarded ++ [batch]
      else talk.state.forwarded := by
  rw [batchStep, Talk.step_of_line next]
  exact (hearBatch_spec talk.state turn (own_of_next cuts next).1).1

include cuts in
/-- Nothing forwarded is taken back. -/
theorem forwarded_isPrefix_run (turns : List Turn) :
    talk.state.forwarded <+: (run (batchStep scripts) talk turns).state.forwarded := by
  induction turns generalizing talk with
  | nil => exact List.prefix_refl _
  | cons turn rest inductionHypothesis =>
      apply List.IsPrefix.trans _ inductionHypothesis
      cases next : talk.nextLine scripts Turn.source turn with
      | none =>
          have same : batchStep scripts talk turn = talk := Talk.step_of_silent next
          exact same.symm ▸ List.prefix_refl _
      | some batch =>
          rw [forwarded_step cuts next]
          split
          · exact List.prefix_append _ _
          · exact List.prefix_refl _

include cuts in
/-- A clean batch shares nothing with what went out before. -/
theorem Covered.apart_step (covered : Covered coin ids scripts talk)
    (apart : Apart talk.state.forwarded) (clean : Clean coin scripts talk turn) :
    Apart (batchStep scripts talk turn).state.forwarded := by
  cases next : talk.nextLine scripts Turn.source turn with
  | none => rwa [batchStep, Talk.step_of_silent next]
  | some batch =>
      rw [forwarded_step cuts next]
      split
      · next newer =>
          rw [Apart, List.pairwise_append]
          refine ⟨apart, List.pairwise_singleton _ _, fun first before second now => ?_⟩
          obtain rfl := List.mem_singleton.mp now
          intro id old new
          have low := covered.atMost first before id old
          have high := clean second next newer id new
          omega
      · exact apart

include cuts in
/-- A batch on both sides of the newest seen brings a trade that is out already. -/
theorem Covered.clean_of_apart (covered : Covered coin ids scripts talk)
    (apart : Apart (batchStep scripts talk turn).state.forwarded) :
    Clean coin scripts talk turn := by
  intro batch next newer id member
  by_contra old
  obtain ⟨first, before, inside⟩ :=
    covered.out id ((own_of_next cuts next).2 id member) (Nat.not_lt.mp old)
  rw [forwarded_step cuts next, if_pos newer, Apart, List.pairwise_append] at apart
  exact apart.2.2 first before batch (List.mem_singleton_self _) inside member

end Talking

/-- However the sources cut the sequence and whoever speaks when, every trade up to the newest
seen is in a batch that was forwarded, and the newest seen is the newest any source has
sent. -/
theorem every_trade_forwarded [Payload β] (coin : String) (ids : List Nat)
    (rising : ids.Pairwise (· < ·)) (positive : ∀ id ∈ ids, 0 < id)
    (scripts : Nat → List (Batch β)) (cuts : ∀ source, Cuts coin ids (scripts source))
    (st : AppState β) (fresh : st.newest coin = 0) (turns : List Turn) :
    let talk := run (batchStep scripts) (Talk.start ⟨st, []⟩) turns
    (∀ id ∈ ids, id ≤ talk.state.st.newest coin →
        ∃ batch ∈ talk.state.forwarded, id ∈ tids [batch]) ∧
      ((∃ id, Sent scripts talk id) →
        IsGreatest {id | Sent scripts talk id} (talk.state.st.newest coin)) := by
  intro talk
  have covered : Covered coin ids scripts talk :=
    Reachable.invariant ⟨turns, rfl⟩ (covered_start positive fresh)
      fun _ turn covered => covered.step rising cuts turn
  refine ⟨covered.out, ?_⟩
  rintro ⟨id, source, member⟩
  have above := positive id ((cuts source).listed member)
  have low := covered.atLeast id ⟨source, member⟩
  refine ⟨covered.sent.resolve_left (by omega), fun id read => covered.atLeast id read⟩

/-- Source 0 cuts after the second trade and source 1 after the first. -/
def unevenCuts : Nat → List (Batch String)
  | 0 => [⟨[⟨"BTC", 1⟩, ⟨"BTC", 2⟩], "1-2"⟩]
  | 1 => [⟨[⟨"BTC", 1⟩], "1"⟩, ⟨[⟨"BTC", 2⟩, ⟨"BTC", 3⟩], "2-3"⟩]
  | _ => []

theorem cuts_unevenCuts (source : Nat) : Cuts "BTC" [1, 2, 3] (unevenCuts source) := by
  match source with
  | 0 => exact ⟨by simp [unevenCuts], [[1, 2]], by decide, by simp [unevenCuts]⟩
  | 1 => exact ⟨by simp [unevenCuts], [[1], [2, 3]], by decide, by simp [unevenCuts]⟩
  | _ + 2 => exact ⟨by simp [unevenCuts], [], by decide, by simp [unevenCuts]⟩

theorem every_trade_forwarded_uneven :
    ∃ batch ∈ (run (batchStep unevenCuts)
        (Talk.start ⟨AppState.new [{ id := 0 }, { id := 1 }], []⟩)
        [⟨0, 1⟩, ⟨1, 2⟩, ⟨1, 3⟩]).state.forwarded, 3 ∈ tids [batch] :=
  (every_trade_forwarded "BTC" [1, 2, 3] (by decide) (by decide) unevenCuts cuts_unevenCuts
    (AppState.new [{ id := 0 }, { id := 1 }]) rfl [⟨0, 1⟩, ⟨1, 2⟩, ⟨1, 3⟩]).1 3 (by decide)
    (Nat.le_refl 3)

/-- No trade is in two forwarded batches exactly when no batch arrives that lies on both sides
of the newest trade seen. -/
theorem each_trade_once_iff [Payload β] (coin : String) (ids : List Nat)
    (rising : ids.Pairwise (· < ·)) (positive : ∀ id ∈ ids, 0 < id)
    (scripts : Nat → List (Batch β)) (cuts : ∀ source, Cuts coin ids (scripts source))
    (st : AppState β) (fresh : st.newest coin = 0) (turns : List Turn) :
    Apart (run (batchStep scripts) (Talk.start ⟨st, []⟩) turns).state.forwarded ↔
      Throughout (batchStep scripts) (Clean coin scripts) (Talk.start ⟨st, []⟩) turns := by
  have keeps : ∀ talk turn, Covered coin ids scripts talk ∧ Apart talk.state.forwarded →
      Clean coin scripts talk turn →
      Covered coin ids scripts (batchStep scripts talk turn) ∧
        Apart (batchStep scripts talk turn).state.forwarded :=
    fun talk turn holds clean =>
      ⟨holds.1.step rising cuts turn, holds.1.apart_step cuts holds.2 clean⟩
  have breaks : ∀ talk turn, Covered coin ids scripts talk ∧ Apart talk.state.forwarded →
      Apart (batchStep scripts talk turn).state.forwarded → Clean coin scripts talk turn :=
    fun talk turn holds apart => holds.1.clean_of_apart cuts apart
  have exact := throughout_iff_prefixes (fun _ => And.right) keeps breaks turns
    ⟨covered_start positive fresh, List.Pairwise.nil⟩
  rw [← exact]
  constructor
  · rintro apart part ⟨rest, rfl⟩
    rw [run_append] at apart
    exact apart.sublist (forwarded_isPrefix_run cuts rest).sublist
  · exact fun always => always turns (List.prefix_refl turns)

/-- After trades 1 and 2 of source 0, trade 1 of source 1 is refused. -/
theorem each_trade_once_iff_level :
    Throughout (batchStep unevenCuts) (Clean "BTC" unevenCuts)
      (Talk.start ⟨AppState.new [{ id := 0 }, { id := 1 }], []⟩) [⟨0, 1⟩, ⟨1, 2⟩] :=
  (each_trade_once_iff "BTC" [1, 2, 3] (by decide) (by decide) unevenCuts cuts_unevenCuts
    (AppState.new [{ id := 0 }, { id := 1 }]) rfl [⟨0, 1⟩, ⟨1, 2⟩]).mp (List.pairwise_singleton _ _)

/-- After trades 1 and 2 of source 0, trades 2 and 3 of source 1 go out in one batch. -/
theorem trade_forwarded_twice :
    ¬ ∀ (coin : String) (ids : List Nat) (scripts : Nat → List (Batch String))
      (sources : List Source) (turns : List Turn),
      ids.Pairwise (· < ·) → (∀ id ∈ ids, 0 < id) →
      (∀ source, Cuts coin ids (scripts source)) →
      Apart (run (batchStep scripts) (Talk.start ⟨AppState.new sources, []⟩)
        turns).state.forwarded := by
  intro always
  have apart := always "BTC" [1, 2, 3] unevenCuts [{ id := 0 }, { id := 1 }]
    [⟨0, 1⟩, ⟨1, 2⟩, ⟨1, 3⟩] (by decide) (by decide) cuts_unevenCuts
  have forwarded : (run (batchStep unevenCuts)
      (Talk.start ⟨AppState.new [{ id := 0 }, { id := 1 }], []⟩)
      [⟨0, 1⟩, ⟨1, 2⟩, ⟨1, 3⟩]).state.forwarded =
      [⟨[⟨"BTC", 1⟩, ⟨"BTC", 2⟩], "1-2"⟩, ⟨[⟨"BTC", 2⟩, ⟨"BTC", 3⟩], "2-3"⟩] := rfl
  rw [forwarded, Apart, List.pairwise_pair] at apart
  exact apart (List.mem_cons_of_mem _ List.mem_cons_self) List.mem_cons_self

end Wsarb
