import Wsarb.Library.Accounts
import Wsarb.LoadTest.Sweeper

/-!
Owns that the sweeper's counters add up: every message that was ever put on record is on record
still or was counted as exactly one thing when it was judged, in whatever order the streams and the
sweeper take their steps.

Does not own: whether a message was judged rightly.
-/

namespace Wsarb.LoadTest

open Wsarb.Library

/-- The slots as `main` hands them out: wsarb, the compared nodes, and a twin of the first. -/
def Setup.ofArgs (keys : KeyedMap String Nat) (window comparisons : Nat) (noiseFloor : Bool) :
    Setup where
  keys := keys
  window := window
  compareStart := 1
  compareEnd := 1 + comparisons
  noiseSlot := if noiseFloor && decide (comparisons ≠ 0) then some (1 + comparisons) else none
  usedSlots := 1 + comparisons + (if noiseFloor && decide (comparisons ≠ 0) then 1 else 0)

def size {κ ν : Type} (table : KeyedMap κ ν) : Nat := table.entries.length

section Size

variable {κ ν : Type} [DecidableEq κ] {table : KeyedMap κ ν} {key : κ}

theorem size_erase_eq (table : KeyedMap κ ν) (key : κ) :
    size (table.erase key) = size table - if (table.lookup key).isSome then 1 else 0 := by
  have listed : (table.entries.any fun entry => decide (key = entry.1)) =
      (table.lookup key).isSome := by
    rw [Bool.eq_iff_iff, AList.lookup_isSome, List.any_eq_true, AList.mem_keys, AList.keys,
      List.keys, List.mem_map]
    simp [eq_comm]
  show (table.entries.eraseP fun entry => decide (key = entry.1)).length = _
  rw [List.length_eraseP, listed, size]
  split <;> simp

theorem size_erase {value : ν} (there : table.lookup key = some value) :
    size (table.erase key) + 1 = size table := by
  have listed := AList.mem_lookup_iff.mp there
  have some' : 0 < size table := List.length_pos_of_mem listed
  rw [size_erase_eq, there]
  simp only [Option.isSome_some, if_true]
  omega

theorem size_insert (value : ν) :
    size (table.insert key value) = size table + if (table.lookup key).isNone then 1 else 0 := by
  have inserted : size (table.insert key value) = size (table.erase key) + 1 := by
    rw [size, AList.entries_insert]
    rfl
  rw [inserted]
  cases there : table.lookup key with
  | none => simp [size_erase_eq, there]
  | some old => exact size_erase there

end Size

namespace Verdict

def judged (v : Verdict) : Nat :=
  v.undecided + v.matched + v.staleDropped + v.superseded + v.skipped + v.lost + v.invented

/-- The counters that break others down agree with them. -/
structure Consistent (cfg : Setup) (v : Verdict) : Prop where
  matched : v.matched = v.behindN + v.aheadN
  twins : v.noiseN = v.twinBoth
  order : v.twinBoth = v.twinFirst + v.twinSecond
  alone : cfg.noiseSlot = none → v.twinOnly = 0
  same : cfg.noiseSlot ≠ none →
    ∀ mode, v.blkSeen mode = v.blkSameAgree mode + v.blkSameDiffer mode
  cross : cfg.compareStart + 1 < cfg.compareEnd →
    ∀ mode, v.blkSeen mode = v.blkCrossAgree mode + v.blkCrossDiffer mode
  short : v.blkShort ≤ v.blkSeen false + v.blkSeen true
  shortFrames : v.blkShort ≤ v.blkShortFrames

variable {cfg : Setup} {st : Tables}

theorem judged_judgeTwins (v : Verdict) (e : Seen) : (v.judgeTwins cfg e).judged = v.judged := by
  rw [judgeTwins]
  split
  · rfl
  · split <;> rfl

theorem judged_judgeBlock (v : Verdict) (b : Block) : (v.judgeBlock cfg b).judged = v.judged := by
  rw [judgeBlock]
  split
  · rfl
  · dsimp only
    split_ifs <;> split <;> (try split_ifs) <;> rfl

theorem judged_add (v : Verdict) (kind : Absence) : (v.add kind).judged = v.judged + 1 := by
  cases kind <;> simp only [add, judged] <;> omega

theorem judged_judgeFrame (v : Verdict) (e : Seen) :
    (st.judgeFrame cfg v e).judged =
      v.judged + if e.firstAt 0 = none ∧ cfg.theirs e = none then 0 else 1 := by
  rw [Tables.judgeFrame]
  cases e.firstAt 0 with
  | none =>
      cases cfg.theirs e with
      | none => rfl
      | some theirs => exact judged_add v _
  | some ours =>
      cases cfg.theirs e with
      | none => simp only [judged]; simp; omega
      | some theirs =>
          dsimp only
          split <;> simp only [judged] <;> simp <;> omega

end Verdict

/-! ### Counters that break others down -/

namespace Verdict

variable {cfg : Setup} {st : Tables} {v : Verdict}

theorem Consistent.judgeTwins (consistent : v.Consistent cfg) (e : Seen) :
    (v.judgeTwins cfg e).Consistent cfg := by
  rw [Verdict.judgeTwins]
  split
  · exact consistent
  · next twin noise =>
      have together : cfg.noiseSlot ≠ none := by
        rw [noise]
        exact fun same => nomatch same
      split
      · have twins := consistent.twins
        have order := consistent.order
        refine ⟨consistent.matched, ?_, ?_, consistent.alone, consistent.same, consistent.cross,
          consistent.short, consistent.shortFrames⟩
        · show v.noiseN + 1 = v.twinBoth + 1
          omega
        · dsimp only
          split_ifs <;> omega
      · exact ⟨consistent.matched, consistent.twins, consistent.order, consistent.alone,
          consistent.same, consistent.cross, consistent.short, consistent.shortFrames⟩
      · exact ⟨consistent.matched, consistent.twins, consistent.order,
          fun alone => absurd alone together, consistent.same, consistent.cross, consistent.short,
          consistent.shortFrames⟩
      · exact consistent

/-- What the counters of `Consistent` are untouched by. -/
theorem Consistent.congr (consistent : v.Consistent cfg) {next : Verdict}
    (matched : next.matched + v.behindN + v.aheadN = v.matched + next.behindN + next.aheadN)
    (rest : { next with
        matched := v.matched
        behindN := v.behindN
        aheadN := v.aheadN
        undecided := v.undecided
        staleDropped := v.staleDropped
        superseded := v.superseded
        skipped := v.skipped
        lost := v.lost
        invented := v.invented
        behindUs := v.behindUs
        aheadUs := v.aheadUs } = v) : next.Consistent cfg := by
  have before := consistent.matched
  rw [← rest] at consistent
  exact ⟨by omega, consistent.twins, consistent.order, consistent.alone, consistent.same,
    consistent.cross, consistent.short, consistent.shortFrames⟩

theorem Consistent.judgeFrame (consistent : v.Consistent cfg) (e : Seen) :
    (st.judgeFrame cfg v e).Consistent cfg := by
  rw [Tables.judgeFrame]
  split
  · split
    · exact consistent.congr (by dsimp only; omega) rfl
    · exact consistent.congr (by dsimp only; omega) rfl
  · cases st.absence e <;> exact consistent.congr rfl rfl
  · exact consistent.congr rfl rfl
  · exact consistent

theorem tick_same (counter : Bool → Nat) (mode : Bool) :
    tick counter mode mode = counter mode + 1 :=
  Function.update_self mode _ counter

theorem tick_sum (counter : Bool → Nat) (mode : Bool) :
    tick counter mode false + tick counter mode true = counter false + counter true + 1 := by
  cases mode <;> simp [tick] <;> omega

/-- A stamp counted under one of two headings keeps their sum. -/
theorem tick_first {whole one other : Bool → Nat} (mode : Bool)
    (sum : ∀ mode, whole mode = one mode + other mode) (at' : Bool) :
    tick whole mode at' = tick one mode at' + other at' := by
  have before := sum at'
  by_cases same : at' = mode
  · subst same
    rw [tick_same, tick_same]
    omega
  · rw [tick, tick, Function.update_of_ne same, Function.update_of_ne same, before]

theorem tick_second {whole one other : Bool → Nat} (mode : Bool)
    (sum : ∀ mode, whole mode = one mode + other mode) (at' : Bool) :
    tick whole mode at' = one at' + tick other mode at' := by
  have swapped := tick_first mode (fun mode => (sum mode).trans (Nat.add_comm _ _)) at'
  omega

theorem Consistent.judgeBlock (consistent : v.Consistent cfg) (b : Block) :
    (v.judgeBlock cfg b).Consistent cfg := by
  have seen := tick_sum v.blkSeen b.raced
  have short := consistent.short
  have frames := consistent.shortFrames
  by_cases shared : (List.range cfg.usedSlots).any fun s => b.n s = 0
  · rw [Verdict.judgeBlock, if_pos shared]
    exact consistent
  · rw [Verdict.judgeBlock, if_neg shared]
    dsimp only
    refine ⟨?_, ?_, ?_, ?_, ?_, ?_, ?_, ?_⟩
    · split_ifs <;> split <;> (try split_ifs) <;> exact consistent.matched
    · split_ifs <;> split <;> (try split_ifs) <;> exact consistent.twins
    · split_ifs <;> split <;> (try split_ifs) <;> exact consistent.order
    · intro alone
      split_ifs <;> split <;> (try split_ifs) <;> exact consistent.alone alone
    · intro together
      obtain ⟨twin, noise⟩ := Option.ne_none_iff_exists'.mp together
      have sum := consistent.same together
      simp only [noise]
      split_ifs <;> first | exact tick_first b.raced sum | exact tick_second b.raced sum
    · intro several
      have sum := consistent.cross several
      simp only [if_pos several]
      split_ifs <;> split <;> (try split_ifs) <;>
        first | exact tick_first b.raced sum | exact tick_second b.raced sum
    · split_ifs <;> split <;> (try split_ifs) <;> dsimp only <;> omega
    · split_ifs <;> split <;> (try split_ifs) <;> dsimp only <;> omega

end Verdict

/-- A record is made: the bytes are new. -/
def made (st : Tables) : Step → Nat
  | .noteSeen a => if (st.seen.lookup a.hash).isNone then 1 else 0
  | _ => 0

/-- A record is judged that neither wsarb nor a compared node ever had. -/
def overheard (cfg : Setup) (st : Tables) : Step → Nat
  | .judge hash =>
      match st.pass, st.seen.lookup hash with
      | .judging now _, some e =>
          if cfg.window ≤ now - e.born ∧ e.firstAt 0 = none ∧ cfg.theirs e = none then 1
          else 0
      | _, _ => 0
  | _ => 0

/-- What one step can do to the record of messages and to the verdict. -/
inductive Does (cfg : Setup) (st next : Tables) (step : Step) : Prop
  | neither (unmade : made st step = 0) (heard : overheard cfg st step = 0)
      (seen : next.seen = st.seen) (verdict : next.verdict = st.verdict)
  | noted (a : Arrival) (noting : step = .noteSeen a) (next_eq : next = st.noteSeen cfg a)
  | dropped (hash : Nat) (e : Seen) (unmade : made st step = 0) (heard : overheard cfg st step = 0)
      (there : st.seen.lookup hash = some e) (seen : next.seen = st.seen.erase hash)
      (verdict : next.verdict = { st.verdict with undecided := st.verdict.undecided + 1 })
  | judged (hash : Nat) (e : Seen) (unmade : made st step = 0)
      (heard : overheard cfg st step = if e.firstAt 0 = none ∧ cfg.theirs e = none then 1 else 0)
      (there : st.seen.lookup hash = some e) (seen : next.seen = st.seen.erase hash)
      (verdict : next.verdict = st.judgeFrame cfg (st.verdict.judgeTwins cfg e) e)
  | cut (b : Block) (unmade : made st step = 0) (heard : overheard cfg st step = 0)
      (seen : next.seen = st.seen) (verdict : next.verdict = st.verdict.judgeBlock cfg b)

theorem does_judge {cfg : Setup} {st : Tables} {now : Nat} {finishing : Bool} (hash : Nat)
    (judging : st.pass = .judging now finishing) :
    Does cfg st (st.judge cfg now finishing hash) (.judge hash) := by
  cases there : st.seen.lookup hash with
  | none =>
      have heard : overheard cfg st (.judge hash) = 0 := by
        rw [overheard, judging, there]
      rw [Tables.judge, there]
      exact .neither rfl heard rfl rfl
  | some e =>
      have weighed : overheard cfg st (.judge hash) =
          if cfg.window ≤ now - e.born ∧ e.firstAt 0 = none ∧ cfg.theirs e = none then 1
          else 0 := by
        rw [overheard, judging, there]
      rw [Tables.judge, there]
      dsimp only
      by_cases young : now - e.born < cfg.window
      · have heard : overheard cfg st (.judge hash) = 0 := by
          rw [weighed, if_neg fun all => absurd all.1 (Nat.not_le.mpr young)]
        rw [if_pos young]
        split
        · exact .dropped hash e rfl heard there rfl rfl
        · exact .neither rfl heard rfl rfl
      · have heard : overheard cfg st (.judge hash) =
            if e.firstAt 0 = none ∧ cfg.theirs e = none then 1 else 0 := by
          simp only [weighed, Nat.not_lt.mp young, true_and]
        rw [if_neg young]
        exact .judged hash e rfl heard there rfl rfl

theorem does_step (cfg : Setup) (st : Tables) (step : Step) :
    Does cfg st (cfg.step st step) step := by
  cases step with
  | raiseMax a =>
      simp only [Setup.step, Tables.raiseMax]
      split <;> exact .neither rfl rfl rfl rfl
  | noteSeen a => exact .noted a rfl rfl
  | noteBlock a =>
      simp only [Setup.step, Tables.noteBlock]
      split
      · exact .neither rfl rfl rfl rfl
      · split <;> exact .neither rfl rfl rfl rfl
  | tick now finishing =>
      simp only [Setup.step]
      split <;> exact .neither rfl rfl rfl rfl
  | judge hash =>
      simp only [Setup.step]
      split
      · next now finishing judging => exact does_judge hash judging
      · next other =>
          have heard : overheard cfg st (.judge hash) = 0 := by
            rw [overheard]
            split
            · next now _ _ judging _ => exact absurd judging (other now _)
            · rfl
          exact .neither rfl heard rfl rfl
  | turn =>
      simp only [Setup.step]
      split <;> exact .neither rfl rfl rfl rfl
  | cut stamp =>
      simp only [Setup.step]
      split
      · rw [Tables.cut]
        split
        · exact .neither rfl rfl rfl rfl
        · next b _ =>
            split_ifs
            · exact .neither rfl rfl rfl rfl
            · exact .neither rfl rfl rfl rfl
            · exact .cut b rfl rfl rfl rfl
      · exact .neither rfl rfl rfl rfl
  | rest =>
      simp only [Setup.step]
      split <;> exact .neither rfl rfl rfl rfl

/-- The messages on record, and those judged. -/
def stock (st : Tables) : Nat := size st.seen + st.verdict.judged

/-- A step keeps the balance. -/
theorem stock_step (cfg : Setup) (st : Tables) (step : Step) :
    stock (cfg.step st step) + overheard cfg st step = stock st + made st step := by
  cases does_step cfg st step with
  | neither unmade heard seen verdict => rw [stock, seen, verdict, unmade, heard, stock]
  | noted a noting next_eq =>
      subst noting
      rw [next_eq]
      simp only [Tables.noteSeen, stock, made, overheard, size_insert]
      omega
  | dropped hash e unmade heard there seen verdict =>
      have erased := size_erase there
      rw [stock, seen, verdict, unmade, heard, stock]
      simp only [Verdict.judged]
      omega
  | judged hash e unmade heard there seen verdict =>
      have erased := size_erase there
      rw [stock, seen, verdict, unmade, heard, stock, Verdict.judged_judgeFrame,
        Verdict.judged_judgeTwins]
      split <;> omega
  | cut b unmade heard seen verdict =>
      rw [stock, seen, verdict, unmade, heard, stock, Verdict.judged_judgeBlock]

/-! ### What only the twin had -/

/-- Every message on record was carried by a stream of the run. -/
def Tables.Attested (cfg : Setup) (st : Tables) : Prop :=
  ∀ hash e, st.seen.lookup hash = some e → ∃ slot < cfg.usedSlots, (e.firstAt slot).isSome

/-- A frame that arrives is a used stream's. -/
def Used (cfg : Setup) : Step → Prop
  | .raiseMax a | .noteSeen a | .noteBlock a => a.slot < cfg.usedSlots
  | _ => True

variable {cfg : Setup} {st : Tables}

/-- Once a stream's first sight of a message is noted, there is one. -/
theorem isSome_firstAt (e : Seen) (slot now : Nat) (ages : Nat → Nat) :
    ((if (e.firstAt slot).isNone then
        { e with firstAt := Function.update e.firstAt slot (some now), ages := ages }
      else e).firstAt slot).isSome := by
  split
  · simp
  · next kept =>
      rw [Option.isNone_iff_eq_none] at kept
      exact Option.isSome_iff_ne_none.mpr kept

theorem Tables.Attested.noteSeen (carried : st.Attested cfg) {a : Arrival}
    (used : a.slot < cfg.usedSlots) : (st.noteSeen cfg a).Attested cfg := by
  intro hash e there
  simp only [Tables.noteSeen] at there
  by_cases same : hash = a.hash
  · subst same
    rw [AList.lookup_insert, Option.some.injEq] at there
    subst there
    exact ⟨a.slot, used, isSome_firstAt _ _ _ _⟩
  · rw [AList.lookup_insert_ne same] at there
    exact carried hash e there

theorem Tables.Attested.erase (carried : st.Attested cfg) {hash : Nat} {next : Tables}
    (seen : next.seen = st.seen.erase hash) : next.Attested cfg := by
  intro other e there
  rw [seen] at there
  by_cases same : other = hash
  · subst same
    rw [AList.lookup_erase] at there
    exact nomatch there
  · rw [AList.lookup_erase_ne same] at there
    exact carried other e there

theorem Tables.Attested.of_seen (carried : st.Attested cfg) {next : Tables}
    (seen : next.seen = st.seen) : next.Attested cfg := by
  intro hash e there
  rw [seen] at there
  exact carried hash e there

theorem Tables.Attested.step (carried : st.Attested cfg) {step : Step} (used : Used cfg step) :
    (cfg.step st step).Attested cfg := by
  cases does_step cfg st step with
  | neither _ _ seen _ => exact carried.of_seen seen
  | noted a noting next_eq =>
      subst noting
      exact next_eq ▸ carried.noteSeen used
  | dropped hash e _ _ _ seen _ => exact carried.erase seen
  | judged hash e _ _ _ seen _ => exact carried.erase seen
  | cut b _ _ seen _ => exact carried.of_seen seen

/-! ### The sweeper's books balance -/

theorem Verdict.Consistent.step (consistent : st.verdict.Consistent cfg) (step : Step) :
    (cfg.step st step).verdict.Consistent cfg := by
  cases does_step cfg st step with
  | neither _ _ _ verdict => exact verdict ▸ consistent
  | noted a _ next_eq => exact next_eq ▸ consistent
  | dropped hash e _ _ _ _ verdict => exact verdict ▸ consistent.congr rfl rfl
  | judged hash e _ _ _ _ verdict => exact verdict ▸ (consistent.judgeTwins e).judgeFrame e
  | cut b _ _ _ verdict => exact verdict ▸ consistent.judgeBlock b

theorem Setup.theirs_eq_none_iff (cfg : Setup) (e : Seen) :
    cfg.theirs e = none ↔
      ∀ slot, cfg.compareStart ≤ slot → slot < cfg.compareEnd → e.firstAt slot = none := by
  rw [Setup.theirs, List.min?_eq_none_iff, List.filterMap_eq_nil_iff]
  constructor
  · intro none' slot least most
    exact none' slot (List.mem_range'_1.mpr (by omega))
  · intro none' slot listed
    have bounds := List.mem_range'_1.mp listed
    exact none' slot (by omega) (by omega)

theorem Verdict.twinOnly_judgeFrame (v : Verdict) (e : Seen) :
    (st.judgeFrame cfg v e).twinOnly = v.twinOnly := by
  rw [Tables.judgeFrame]
  split
  · split <;> rfl
  · cases st.absence e <;> rfl
  · rfl
  · rfl

theorem Verdict.twinOnly_judgeBlock (v : Verdict) (b : Block) :
    (v.judgeBlock cfg b).twinOnly = v.twinOnly := by
  rw [Verdict.judgeBlock]
  split
  · rfl
  · dsimp only
    split_ifs <;> split <;> (try split_ifs) <;> rfl

theorem Verdict.twinOnly_le_judgeTwins (v : Verdict) (e : Seen) :
    v.twinOnly ≤ (v.judgeTwins cfg e).twinOnly := by
  rw [Verdict.judgeTwins]
  split
  · exact Nat.le_refl _
  · split
    · exact Nat.le_refl _
    · exact Nat.le_refl _
    · exact Nat.le_succ _
    · exact Nat.le_refl _

section OfArgs

variable {keys : KeyedMap String Nat} {window comparisons : Nat} {noiseFloor : Bool}

/-- Of the streams `main` starts, the twin alone is neither wsarb nor a compared node. -/
theorem slot_eq_twin {slot : Nat}
    (used : slot < (Setup.ofArgs keys window comparisons noiseFloor).usedSlots)
    (compared : ¬ slot < 1 + comparisons) :
    slot = 1 + comparisons ∧ comparisons ≠ 0 ∧
      (Setup.ofArgs keys window comparisons noiseFloor).noiseSlot = some (1 + comparisons) := by
  simp only [Setup.ofArgs] at used ⊢
  split at used
  · next twin =>
      have node : comparisons ≠ 0 := of_decide_eq_true (Bool.and_eq_true_iff.mp twin).2
      exact ⟨by omega, node, if_pos twin⟩
  · omega

/-- A message that neither wsarb nor a compared node had is one only the twin had. -/
theorem twinOnly_judgeTwins (v : Verdict) {e : Seen}
    (carried : ∃ slot < (Setup.ofArgs keys window comparisons noiseFloor).usedSlots,
      (e.firstAt slot).isSome)
    (wsarb : e.firstAt 0 = none)
    (nodes : (Setup.ofArgs keys window comparisons noiseFloor).theirs e = none) :
    (v.judgeTwins (Setup.ofArgs keys window comparisons noiseFloor) e).twinOnly =
      v.twinOnly + 1 := by
  obtain ⟨slot, used, had⟩ := carried
  have absent := (Setup.theirs_eq_none_iff _ e).mp nodes
  have notWsarb : slot ≠ 0 := by
    intro zero
    rw [zero, wsarb] at had
    exact nomatch had
  have notCompared : ¬ slot < 1 + comparisons := by
    intro below
    rw [absent slot (show 1 ≤ slot by omega) below] at had
    exact nomatch had
  obtain ⟨twin, node, noise⟩ := slot_eq_twin used notCompared
  have first : e.firstAt (Setup.ofArgs keys window comparisons noiseFloor).compareStart = none :=
    absent 1 (Nat.le_refl 1) (show 1 < 1 + comparisons by omega)
  obtain ⟨at', heard⟩ := Option.isSome_iff_exists.mp had
  rw [twin] at heard
  simp only [Verdict.judgeTwins, noise, first, heard]

theorem overheard_le_twinOnly {st : Tables} (step : Step)
    (carried : st.Attested (Setup.ofArgs keys window comparisons noiseFloor)) :
    st.verdict.twinOnly + overheard (Setup.ofArgs keys window comparisons noiseFloor) st step ≤
      ((Setup.ofArgs keys window comparisons noiseFloor).step st step).verdict.twinOnly := by
  cases does_step (Setup.ofArgs keys window comparisons noiseFloor) st step with
  | neither _ heard _ verdict => rw [heard, verdict]; exact Nat.le_refl _
  | noted a noting next_eq =>
      subst noting
      rw [next_eq]
      exact Nat.le_refl _
  | dropped hash e _ heard _ _ verdict => rw [heard, verdict]; exact Nat.le_refl _
  | judged hash e _ heard there _ verdict =>
      rw [heard, verdict, Verdict.twinOnly_judgeFrame]
      split
      · next neither =>
          exact (twinOnly_judgeTwins _ (carried hash e there) neither.1 neither.2).ge
      · exact Verdict.twinOnly_le_judgeTwins _ e
  | cut b _ heard _ verdict =>
      rw [heard, verdict, Verdict.twinOnly_judgeBlock]
      exact Nat.le_refl _

end OfArgs

/-- However the streams and the sweeper take their turns: each message put on record is on record
still, or was judged to be one thing, once, or was a frame only the twin connection had; and the
counters that break others down agree with them. -/
theorem sweeper_balances (keys : KeyedMap String Nat) (window comparisons : Nat)
    (noiseFloor : Bool) (steps : List Step)
    (used : ∀ step ∈ steps, Used (Setup.ofArgs keys window comparisons noiseFloor) step) :
    let cfg := Setup.ofArgs keys window comparisons noiseFloor
    let st := run cfg.step cfg.start steps
    let unheard := total cfg.step (overheard cfg) cfg.start steps
    size st.seen + st.verdict.judged + unheard = total cfg.step made cfg.start steps ∧
      unheard ≤ st.verdict.twinOnly ∧ st.verdict.Consistent cfg := by
  intro cfg st unheard
  have throughout : Throughout cfg.step (fun _ step => Used cfg step) cfg.start steps :=
    throughout_of_forall cfg.start fun step listed _ => used step listed
  have balance := stock_balance (stock_step cfg) cfg.start steps
  have empty : cfg.start.Attested cfg := by
    intro hash e there
    rw [show cfg.start.seen = ∅ from rfl, AList.lookup_empty] at there
    exact nomatch there
  let twins := fun st : Tables => st.verdict.twinOnly
  have covered : twins cfg.start + unheard ≤ twins st :=
    total_le_stock
      (fun (state : Tables) _ (carried : state.Attested cfg) used => carried.step used)
      (fun _ step carried _ => overheard_le_twinOnly step carried) steps empty throughout
  have fresh : cfg.start.verdict.Consistent cfg :=
    ⟨rfl, rfl, rfl, fun _ => rfl, fun _ _ => rfl, fun _ _ => rfl, Nat.le_refl _, Nat.le_refl _⟩
  let agrees := fun st : Tables => st.verdict.Consistent cfg
  have consistent : agrees st :=
    @run_keeps _ _ cfg.step (fun _ step => Used cfg step) agrees
      (fun _ step kept _ => Verdict.Consistent.step kept step) cfg.start steps fresh throughout
  exact ⟨balance.trans (Nat.zero_add _), (Nat.le_add_left _ _).trans covered, consistent⟩

/-- The twin alone carries a frame, which is judged after the window. -/
def overheardOnce : List Step :=
  Arrival.steps
      { slot := 2, now := 0, hash := 7, label := "bbo:BTC", seq := .lead 5, age := none } ++
    [.tick 60 false, .judge 7, .turn, .rest]

theorem sweeper_balances_overheard :
    let cfg := Setup.ofArgs ∅ 30 1 true
    let st := run cfg.step cfg.start overheardOnce
    let unheard := total cfg.step (overheard cfg) cfg.start overheardOnce
    unheard = 1 ∧
      size st.seen + st.verdict.judged + unheard = total cfg.step made cfg.start overheardOnce ∧
      unheard ≤ st.verdict.twinOnly ∧ st.verdict.Consistent cfg :=
  ⟨by decide, sweeper_balances ∅ 30 1 true overheardOnce
    (by simp [overheardOnce, Arrival.steps, Used, Setup.ofArgs])⟩

end Wsarb.LoadTest
