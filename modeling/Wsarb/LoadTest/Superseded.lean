import Wsarb.LoadTest.Sweeper

/-!
Owns when a frame wsarb did not deliver, though it delivered another of the same stamp, is counted
as superseded: exactly if the record of that stamp is still there when the frame is judged. The
record ages from the stamp's first frame, the judged one from its own, so a stamp whose frames
arrive over a stretch of time can be forgotten before the last of them is judged.
-/

namespace Wsarb.LoadTest

open Wsarb.Library

variable {cfg : Setup} {st : Tables} {stamp : Nat × Nat} {step : Step}

/-- The frame is of a known subscription and a counted channel, and of this stamp. -/
def Arrival.CountedUnder (cfg : Setup) (stamp : Nat × Nat) (a : Arrival) : Prop :=
  stamp.1 = cfg.keyIdx a.label ∧ stamp.1 ≠ u32Max ∧ (counted a.seq).map Prod.fst = some stamp.2

/-- wsarb's delivery of a frame of the stamp is noted. -/
def Delivers (cfg : Setup) (stamp : Nat × Nat) : Step → Prop
  | .noteBlock a => a.slot = 0 ∧ a.CountedUnder cfg stamp
  | _ => False

/-- When the pass over `blocks` began, while the sweeper is on one. -/
def Pass.cuttingSince : Pass → Option Nat
  | .cutting now _ => some now
  | _ => none

/-- The sweeper comes to the stamp's record on a pass begun a window or more after the record. -/
def ComesLate (cfg : Setup) (stamp : Nat × Nat) (born : Nat) (st : Tables) : Step → Prop
  | .cut other => other = stamp ∧ ∃ now ∈ st.pass.cuttingSince, cfg.window ≤ now - born
  | _ => False

instance (stamp : Nat × Nat) (a : Arrival) : Decidable (a.CountedUnder cfg stamp) :=
  inferInstanceAs (Decidable (_ ∧ _))

instance (stamp : Nat × Nat) : ∀ step, Decidable (Delivers cfg stamp step)
  | .noteBlock _ => inferInstanceAs (Decidable (_ ∧ _))
  | .raiseMax _ | .noteSeen _ | .tick _ _ | .judge _ | .turn | .cut _ | .rest => isFalse id

instance (stamp : Nat × Nat) (born : Nat) (st : Tables) :
    ∀ step, Decidable (ComesLate cfg stamp born st step)
  | .cut _ => inferInstanceAs (Decidable (_ ∧ _))
  | .raiseMax _ | .noteSeen _ | .noteBlock _ | .tick _ _ | .judge _ | .turn | .rest => isFalse id

def Verdict.absent (v : Verdict) : Absence → Nat
  | .staleDropped => v.staleDropped
  | .superseded => v.superseded
  | .skipped => v.skipped
  | .lost => v.lost

/-- One frame more has been counted as that, and none as the others. -/
def CountedAs (kind : Absence) (before after : Verdict) : Prop :=
  ∀ other, after.absent other = before.absent other + if other = kind then 1 else 0

instance (kind : Absence) (before after : Verdict) : Decidable (CountedAs kind before after) :=
  decidable_of_iff
    (∀ other ∈ [Absence.staleDropped, .superseded, .skipped, .lost],
      after.absent other = before.absent other + if other = kind then 1 else 0)
    ⟨fun each other => each other (by cases other <;> simp), fun each other _ => each other⟩

/-! ### The record of a stamp -/

/-- wsarb is on the record of the stamp. -/
def Tables.Carried (st : Tables) (stamp : Nat × Nat) : Prop :=
  ∃ b, st.blocks.lookup stamp = some b ∧ 0 < b.n 0

/-- A frame of the stamp is counted in its record, which is made for the first. -/
theorem lookup_noteBlock (st : Tables) {a : Arrival} (tagged : a.CountedUnder cfg stamp) :
    ∃ raced, (st.noteBlock cfg a).blocks.lookup stamp =
      some (((st.blocks.lookup stamp).getD { born := a.now, raced := raced }).count a.slot) := by
  obtain ⟨key, h⟩ := stamp
  obtain ⟨rfl, known, same⟩ := tagged
  obtain ⟨⟨stamp, raced⟩, mode, rfl⟩ := Option.map_eq_some_iff.mp same
  refine ⟨raced, ?_⟩
  have here : (st.noteBlock cfg a).blocks = st.blocks.insert (cfg.keyIdx a.label, stamp)
      (((st.blocks.lookup (cfg.keyIdx a.label, stamp)).getD
        { born := a.now, raced := raced }).count a.slot) := by
    simp only [Tables.noteBlock, mode, if_neg known]
  rw [here, AList.lookup_insert]

/-- Any other frame leaves the record alone. -/
theorem lookup_noteBlock_of_not {a : Arrival} (other : ¬ a.CountedUnder cfg stamp) :
    (st.noteBlock cfg a).blocks.lookup stamp = st.blocks.lookup stamp := by
  rw [Tables.noteBlock]
  split
  · rfl
  · next h raced count =>
      simp only
      split
      · rfl
      · next known =>
          apply AList.lookup_insert_ne
          rintro rfl
          exact other ⟨rfl, known, by rw [count]; rfl⟩

/-- The sweeper drops a record that is old, and on the last pass any it comes to. -/
def Drops (cfg : Setup) (stamp : Nat × Nat) (born : Nat) (st : Tables) (step : Step) : Prop :=
  step = .cut stamp ∧ ∃ now finishing, st.pass = .cutting now finishing ∧
    (cfg.window ≤ now - born ∨ finishing = true)

/-- Every step but these two leaves the records alone. -/
theorem blocks_step (frame : ∀ a, step ≠ .noteBlock a) (visit : ∀ other, step ≠ .cut other) :
    (cfg.step st step).blocks = st.blocks := by
  cases step with
  | noteBlock a => exact absurd rfl (frame a)
  | cut other => exact absurd rfl (visit other)
  | raiseMax a =>
      rw [Setup.step, Tables.raiseMax]
      split <;> rfl
  | noteSeen a => rfl
  | judge hash =>
      simp only [Setup.step, Tables.judge]
      split
      · split
        · rfl
        · split
          · split <;> rfl
          · rfl
      · rfl
  | tick now finishing | turn | rest =>
      simp only [Setup.step]
      split <;> rfl

theorem lookup_cut_of_ne {other : Nat × Nat} (distinct : stamp ≠ other) (now : Nat)
    (finishing : Bool) :
    (st.cut cfg now finishing other).blocks.lookup stamp = st.blocks.lookup stamp := by
  rw [Tables.cut]
  split
  · rfl
  · split
    · split
      · exact AList.lookup_erase_ne distinct
      · rfl
    · exact AList.lookup_erase_ne distinct

theorem lookup_cut {b : Block} (there : st.blocks.lookup stamp = some b) (now : Nat)
    (finishing : Bool) :
    (st.cut cfg now finishing stamp).blocks.lookup stamp =
      if cfg.window ≤ now - b.born ∨ finishing = true then none else some b := by
  rw [Tables.cut, there]
  by_cases young : now - b.born < cfg.window
  · cases finishing with
    | false => simp [young, there]
    | true => simp [young]
  · simp [young, Nat.not_lt.mp young]

/-- The record stays, of the same birth and with the same count of wsarb's frames, until wsarb
delivers the stamp again or the sweeper drops it. -/
theorem record_stays {b : Block} (there : st.blocks.lookup stamp = some b)
    (quiet : ¬ Delivers cfg stamp step) (kept : ¬ Drops cfg stamp b.born st step) :
    ∃ b', (cfg.step st step).blocks.lookup stamp = some b' ∧ b'.born = b.born ∧
      b'.n 0 = b.n 0 := by
  by_cases frame : ∃ a, step = .noteBlock a
  · obtain ⟨a, rfl⟩ := frame
    by_cases tagged : a.CountedUnder cfg stamp
    · obtain ⟨raced, counts⟩ := lookup_noteBlock st tagged
      have slot : (0 : Nat) ≠ a.slot := fun zero => quiet ⟨zero.symm, tagged⟩
      rw [there, Option.getD_some] at counts
      exact ⟨_, counts, rfl, Function.update_of_ne slot _ _⟩
    · exact ⟨b, (lookup_noteBlock_of_not tagged).trans there, rfl, rfl⟩
  · by_cases visit : ∃ other, step = .cut other
    · obtain ⟨other, rfl⟩ := visit
      refine ⟨b, ?_, rfl, rfl⟩
      rw [Setup.step]
      split
      · next now finishing cutting =>
          by_cases same : stamp = other
          · subst same
            rw [lookup_cut there, if_neg fun drops => kept ⟨rfl, now, finishing, cutting, drops⟩]
          · rw [lookup_cut_of_ne same, there]
      · exact there
    · exact ⟨b, by rw [blocks_step (not_exists.mp frame) (not_exists.mp visit), there], rfl, rfl⟩

/-- A record the sweeper drops is gone. -/
theorem record_drops {b : Block} (there : st.blocks.lookup stamp = some b)
    (drops : Drops cfg stamp b.born st step) :
    (cfg.step st step).blocks.lookup stamp = none := by
  obtain ⟨rfl, now, finishing, cutting, old⟩ := drops
  simp only [Setup.step, cutting, lookup_cut there, if_pos old]

/-- Only wsarb's own delivery puts it on the record. -/
theorem not_carried_step (absent : ¬ st.Carried stamp) (quiet : ¬ Delivers cfg stamp step) :
    ¬ (cfg.step st step).Carried stamp := by
  rintro ⟨b', there', delivered⟩
  cases there : st.blocks.lookup stamp with
  | some b =>
      by_cases drops : Drops cfg stamp b.born st step
      · simp [record_drops there drops] at there'
      · obtain ⟨_, stays, -, count⟩ := record_stays there quiet drops
        obtain rfl := Option.some.inj (stays.symm.trans there')
        exact absent ⟨b, there, count ▸ delivered⟩
  | none =>
      by_cases frame : ∃ a, step = .noteBlock a
      · obtain ⟨a, rfl⟩ := frame
        by_cases tagged : a.CountedUnder cfg stamp
        · obtain ⟨raced, counts⟩ := lookup_noteBlock st tagged
          have slot : (0 : Nat) ≠ a.slot := fun zero => quiet ⟨zero.symm, tagged⟩
          rw [there, Option.getD_none] at counts
          obtain rfl := Option.some.inj (counts.symm.trans there')
          simp [Block.count, Function.update_of_ne slot] at delivered
        · simp [Setup.step, lookup_noteBlock_of_not tagged, there] at there'
      · by_cases visit : ∃ other, step = .cut other
        · obtain ⟨other, rfl⟩ := visit
          rw [Setup.step] at there'
          split at there'
          · by_cases same : stamp = other
            · subst same
              simp [Tables.cut, there] at there'
            · simp [lookup_cut_of_ne same, there] at there'
          · simp [there] at there'
        · simp [blocks_step (not_exists.mp frame) (not_exists.mp visit), there] at there'

/-! ### From wsarb's delivery to the judgement -/

/-- The sweeper is past its last judgement. -/
def Pass.Ending : Pass → Prop
  | .cutting _ finishing => finishing = true
  | .ended => True
  | _ => False

theorem ending_step (ending : st.pass.Ending) (step : Step) : (cfg.step st step).pass.Ending := by
  have same : (cfg.step st step).pass = st.pass ∨ (cfg.step st step).pass = .ended := by
    cases step with
    | raiseMax a =>
        rw [Setup.step, Tables.raiseMax]
        split <;> exact .inl rfl
    | noteSeen a => exact .inl rfl
    | noteBlock a =>
        rw [Setup.step, Tables.noteBlock]
        split
        · exact .inl rfl
        · split <;> exact .inl rfl
    | cut stamp =>
        simp only [Setup.step, Tables.cut]
        repeat' split
        all_goals exact .inl rfl
    | tick now finishing | judge hash | turn =>
        cases pass : st.pass <;> simp_all [Setup.step, Pass.Ending]
    | rest =>
        cases pass : st.pass <;> simp_all [Setup.step, Pass.Ending]
  rcases same with same | same
  · rwa [same]
  · rw [same]
    trivial

theorem not_ending_of_run (steps : List Step)
    (later : ¬ (run cfg.step st steps).pass.Ending) : ¬ st.pass.Ending := by
  induction steps generalizing st with
  | nil => exact later
  | cons step rest inductionHypothesis =>
      exact fun ending => inductionHypothesis later (ending_step ending step)

/-- Before the last judgement, the sweeper drops a record exactly if it comes to it late. -/
theorem drops_iff {born : Nat} (more : ¬ (cfg.step st step).pass.Ending) :
    Drops cfg stamp born st step ↔ ComesLate cfg stamp born st step := by
  constructor
  · rintro ⟨rfl, now, finishing, cutting, drops⟩
    refine ⟨rfl, now, by rw [cutting]; rfl, drops.resolve_right ?_⟩
    rintro rfl
    exact more (ending_step (by rw [cutting]; rfl) _)
  · intro comes
    cases step with
    | cut other =>
        obtain ⟨rfl, now, cutting, late⟩ := comes
        cases pass : st.pass with
        | cutting since finishing =>
            rw [pass] at cutting
            obtain rfl := Option.some.inj cutting
            exact ⟨rfl, since, finishing, pass, .inl late⟩
        | resting | judging _ _ | ended => simp [pass, Pass.cuttingSince] at cutting
    | _ => exact comes.elim

/-- Without another delivery of wsarb's it does not come on the record again. -/
theorem not_carried_run (absent : ¬ st.Carried stamp) (steps : List Step)
    (quiet : ∀ step ∈ steps, ¬ Delivers cfg stamp step) :
    ¬ (run cfg.step st steps).Carried stamp := by
  induction steps generalizing st with
  | nil => exact absent
  | cons step rest inductionHypothesis =>
      obtain ⟨first, later⟩ := List.forall_mem_cons.mp quiet
      exact inductionHypothesis (not_carried_step absent first) later

/-- A record with wsarb on it is there at the judgement exactly if the sweeper came to it late at
no point. -/
theorem carried_run_iff {b : Block} (there : st.blocks.lookup stamp = some b)
    (delivered : 0 < b.n 0) (steps : List Step)
    (quiet : ∀ step ∈ steps, ¬ Delivers cfg stamp step)
    (more : ¬ (run cfg.step st steps).pass.Ending) :
    (run cfg.step st steps).Carried stamp ↔
      Throughout cfg.step (fun st step => ¬ ComesLate cfg stamp b.born st step) st steps := by
  induction steps generalizing st b with
  | nil => exact iff_of_true ⟨b, there, delivered⟩ trivial
  | cons step rest inductionHypothesis =>
      obtain ⟨first, later⟩ := List.forall_mem_cons.mp quiet
      have atOnce : Drops cfg stamp b.born st step ↔ ComesLate cfg stamp b.born st step :=
        drops_iff (not_ending_of_run rest more)
      rw [run_cons, throughout_cons, ← atOnce]
      by_cases drops : Drops cfg stamp b.born st step
      · refine iff_of_false (not_carried_run ?_ rest later) fun both => both.1 drops
        rintro ⟨b', there', -⟩
        rw [record_drops there drops] at there'
        exact Option.some_ne_none b' there'.symm
      · obtain ⟨b', there', sameBirth, sameCount⟩ := record_stays there first drops
        rw [inductionHypothesis there' (sameCount ▸ delivered) later more, sameBirth]
        exact ⟨fun onwards => ⟨drops, onwards⟩, fun both => both.2⟩

/-! ### The judgement -/

theorem absent_add (v : Verdict) (kind : Absence) : CountedAs kind v (v.add kind) := by
  intro other
  cases kind <;> cases other <;> rfl

theorem absent_judgeTwins (v : Verdict) (e : Seen) : (v.judgeTwins cfg e).absent = v.absent := by
  rw [Verdict.judgeTwins]
  funext kind
  split
  · rfl
  · split <;> cases kind <;> rfl

/-- A frame a compared node had and wsarb did not is counted as what it is found to be. -/
theorem countedAs_judge {now hash : Nat} {finishing : Bool} {e : Seen}
    (judging : st.pass = .judging now finishing) (entry : st.seen.lookup hash = some e)
    (aged : cfg.window ≤ now - e.born) (ours : e.firstAt 0 = none)
    (theirs : (cfg.theirs e).isSome) :
    CountedAs (st.absence e) st.verdict (cfg.step st (.judge hash)).verdict := by
  obtain ⟨t, had⟩ := Option.isSome_iff_exists.mp theirs
  have judged : (cfg.step st (.judge hash)).verdict =
      (st.verdict.judgeTwins cfg e).add (st.absence e) := by
    simp only [Setup.step, judging, Tables.judge, entry, if_neg (Nat.not_lt.mpr aged),
      Tables.judgeFrame, ours, had]
  intro other
  rw [judged, absent_add, absent_judgeTwins]

theorem CountedAs.unique {kind other : Absence} {before after : Verdict}
    (counted : CountedAs kind before after) (also : CountedAs other before after) :
    kind = other := by
  by_contra distinct
  have first := counted kind
  rw [also kind, if_pos rfl, if_neg distinct] at first
  omega

/-- A frame of a known key, not behind wsarb when it appeared, is superseded exactly if wsarb is
on the record of its stamp; if not, it is skipped or lost. -/
theorem absence_eq_superseded_iff (st : Tables) {e : Seen} (known : e.key ≠ u32Max)
    (fresh : e.bornMax ≤ e.seq) :
    (st.absence e = .superseded ↔ st.Carried (e.key, e.seq)) ∧
      (¬ st.Carried (e.key, e.seq) → st.absence e = .skipped ∨ st.absence e = .lost) := by
  have carried : (st.blocks.lookup (e.key, e.seq)).any (fun b => decide (0 < b.n 0)) = true ↔
      st.Carried (e.key, e.seq) := by
    simp [Option.any_eq_true, Tables.Carried]
  have onTime : ¬ (e.key ≠ u32Max ∧ e.seq < e.bornMax) := fun stale => Nat.not_lt.mpr fresh stale.2
  have opened : st.absence e =
      if (st.blocks.lookup (e.key, e.seq)).any (fun b => decide (0 < b.n 0)) = true
      then .superseded
      else if e.seq < st.wsarbMax e.key then .skipped
      else .lost := by
    simp only [Tables.absence, if_neg onTime]
    simp [known]
  rw [opened]
  by_cases onRecord : st.Carried (e.key, e.seq)
  · rw [if_pos (carried.mpr onRecord)]
    simp [onRecord]
  · rw [if_neg fun found => onRecord (carried.mp found)]
    by_cases ahead : e.seq < st.wsarbMax e.key <;> simp [onRecord, ahead]

/-- For every run in which wsarb delivered a frame of some stamp, was done with that stamp, and the
sweeper then comes to a frame of the same stamp, aged, that a compared node had and wsarb did not,
whose subscription is known and which was not behind wsarb when it appeared: the frame is counted
as superseded exactly if, since wsarb's delivery, the sweeper has not come to the stamp's record a
window or more after its first frame (and wsarb's count on it, a `u32`, did not wrap to 0 with that
delivery). If it has, the frame is counted as skipped or as lost. -/
theorem superseded_iff (cfg : Setup) (before after : List Step) (delivery : Arrival)
    (now hash : Nat) (finishing : Bool) (e : Seen)
    (delivers : Delivers cfg (e.key, e.seq) (.noteBlock delivery))
    (last : ∀ step ∈ after, ¬ Delivers cfg (e.key, e.seq) step)
    (judging : (run cfg.step cfg.start (before ++ .noteBlock delivery :: after)).pass =
      .judging now finishing)
    (entry : (run cfg.step cfg.start (before ++ .noteBlock delivery :: after)).seen.lookup hash =
      some e)
    (aged : cfg.window ≤ now - e.born) (ours : e.firstAt 0 = none)
    (theirs : (cfg.theirs e).isSome) (known : e.key ≠ u32Max) (fresh : e.bornMax ≤ e.seq) :
    let delivered := cfg.step (run cfg.step cfg.start before) (.noteBlock delivery)
    let st := run cfg.step cfg.start (before ++ .noteBlock delivery :: after)
    let judged := (cfg.step st (.judge hash)).verdict
    ∃ b, delivered.blocks.lookup (e.key, e.seq) = some b ∧
      (CountedAs .superseded st.verdict judged ↔
        0 < b.n 0 ∧
          Throughout cfg.step (fun st step => ¬ ComesLate cfg (e.key, e.seq) b.born st step)
            delivered after) ∧
      (¬ CountedAs .superseded st.verdict judged →
        CountedAs .skipped st.verdict judged ∨ CountedAs .lost st.verdict judged) := by
  intro delivered st judged
  have onwards : st = run cfg.step delivered after := run_append cfg.step cfg.start before _
  obtain ⟨b, there⟩ : ∃ b, delivered.blocks.lookup (e.key, e.seq) = some b := by
    obtain ⟨raced, counts⟩ := lookup_noteBlock (run cfg.step cfg.start before) delivers.2
    exact ⟨_, counts⟩
  have counts : CountedAs (st.absence e) st.verdict judged :=
    countedAs_judge judging entry aged ours theirs
  obtain ⟨supersedes, otherwise⟩ := absence_eq_superseded_iff st known fresh
  have asFound : CountedAs .superseded st.verdict judged ↔ st.Carried (e.key, e.seq) := by
    rw [← supersedes]
    exact ⟨fun also => counts.unique also, fun same => same ▸ counts⟩
  refine ⟨b, there, ?_, ?_⟩
  · rw [asFound, onwards]
    by_cases onIt : 0 < b.n 0
    · have more : ¬ (run cfg.step delivered after).pass.Ending := by
        rw [← onwards, judging]
        exact id
      rw [carried_run_iff there onIt after last more]
      simp [onIt]
    · refine iff_of_false (not_carried_run ?_ after last) fun both => onIt both.1
      rintro ⟨b', there', positive⟩
      obtain rfl := Option.some.inj (there.symm.trans there')
      exact onIt positive
  · intro not
    rw [asFound] at not
    rcases otherwise not with kind | kind
    · exact .inl (kind ▸ counts)
    · exact .inr (kind ▸ counts)

/-! ### wsarb and a node, one subscription -/

/-- wsarb and one node, a window of thirty seconds. -/
def twoStreams : Setup where
  keys := AList.insert "bbo:BTC" 0 ∅
  window := 30000000000
  compareStart := 1
  compareEnd := 2
  noiseSlot := none
  usedSlots := 2

/-- wsarb's frame of stamp 5, as the run begins. -/
def ours : Arrival where
  slot := 0
  now := 0
  hash := 1
  label := "bbo:BTC"
  seq := .lead 5
  age := some 40

def theirsAt (now : Nat) : Arrival where
  slot := 1
  now := now
  hash := 2
  label := "bbo:BTC"
  seq := .lead 5
  age := some 640

/-- A pass that comes to both frames and then to the record of their stamp. -/
def wholePass (now : Nat) : List Step :=
  [.tick now false, .judge 1, .judge 2, .turn, .cut (0, 5), .rest]

def nodeOnly (now : Nat) : Seen where
  firstAt := Function.update (fun _ => none) 1 (some now)
  ages := Function.update (fun _ => u32Max) 1 640
  born := now
  key := 0
  seq := 5
  bornMax := 5

/-- Where both frames arrive between the same two passes, the node's is superseded. -/
theorem superseded_iff_same_pass :
    CountedAs .superseded
      (run twoStreams.step twoStreams.start
        ([.raiseMax ours, .noteSeen ours] ++ .noteBlock ours ::
          ((theirsAt 100000000).steps ++ wholePass 500000000 ++
            [.tick 30500000000 false, .judge 1]))).verdict
      (twoStreams.step (run twoStreams.step twoStreams.start
        ([.raiseMax ours, .noteSeen ours] ++ .noteBlock ours ::
          ((theirsAt 100000000).steps ++ wholePass 500000000 ++
            [.tick 30500000000 false, .judge 1]))) (.judge 2)).verdict := by
  obtain ⟨b, there, exactly, -⟩ := superseded_iff twoStreams
    [.raiseMax ours, .noteSeen ours]
    ((theirsAt 100000000).steps ++ wholePass 500000000 ++ [.tick 30500000000 false, .judge 1])
    ours 30500000000 2 false (nodeOnly 100000000)
    (by decide) (by decide) rfl rfl (by decide) rfl rfl (by decide) (by decide)
  have same : b = Block.count { born := 0, raced := false } 0 := Option.some.inj there.symm
  subst same
  exact exactly.mpr (by decide)

/-- wsarb delivers at once, the node 600 ms later, and the sweeper passes at 30 and at 30.5 s;
then it begins the pass of 31 s. -/
def apart : List Step :=
  ours.steps ++ (theirsAt 600000000).steps ++ wholePass 30000000000 ++ wholePass 30500000000 ++
    [.tick 31000000000 false]

/-- The pass of 30 s drops the record of the stamp and leaves the node's frame for the pass of
31 s, which counts it as lost, though wsarb delivered a frame of that stamp. -/
theorem not_superseded :
    (∃ step ∈ apart, Delivers twoStreams (0, 5) step) ∧
      (run twoStreams.step twoStreams.start apart).pass = .judging 31000000000 false ∧
      (run twoStreams.step twoStreams.start apart).seen.lookup 2 = some (nodeOnly 600000000) ∧
      twoStreams.window ≤ 31000000000 - (nodeOnly 600000000).born ∧
      (nodeOnly 600000000).firstAt 0 = none ∧ (twoStreams.theirs (nodeOnly 600000000)).isSome ∧
      (nodeOnly 600000000).key ≠ u32Max ∧
      (nodeOnly 600000000).bornMax ≤ (nodeOnly 600000000).seq ∧
      CountedAs .lost (run twoStreams.step twoStreams.start apart).verdict
        (twoStreams.step (run twoStreams.step twoStreams.start apart) (.judge 2)).verdict ∧
      ¬ CountedAs .superseded (run twoStreams.step twoStreams.start apart).verdict
        (twoStreams.step (run twoStreams.step twoStreams.start apart) (.judge 2)).verdict :=
  ⟨⟨.noteBlock ours, by simp [apart, Arrival.steps], by decide⟩, rfl, rfl, by decide, rfl, rfl,
    by decide, by decide, by decide, by decide⟩

end Wsarb.LoadTest
