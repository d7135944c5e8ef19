import Mathlib.Data.List.Chain
import Mathlib.Data.List.Sort
import Mathlib.Logic.Function.Basic
import Wsarb.Library.NameSearch
import Wsarb.Library.Run

/-!
Owns the checker of an `l4Book` stream: what it reads off each text, the report it keeps as the
texts come in, and its comparison of a client that joined late with one that was there first. A
stream passes exactly if it opens with a snapshot and nothing but a snapshot is below what came
before it; a late joiner passes exactly if the first client has the blocks at the ends of what it
saw, and as many messages as it has of every block in between.

The clock, the progress line and the printed lines are left out: a report is of the texts received
until the run ended. Digits are the ten of ASCII; the checker's `isdigit` takes those of other
scripts too, which no JSON number is written in.

Does not own: what the proxy sends.
-/

namespace Wsarb.StreamCheck

open Wsarb.Library Wsarb.Library.Json

/-! ### What is read off a text -/

/-- Pull the block height out without parsing the whole frame: the ASCII digits after the name. -/
def heightOf (msg : String) : Option Nat :=
  (search (written ['h', 'e', 'i', 'g', 'h', 't']) msg.toList).bind fun rest =>
    let digits := rest.takeWhile Char.isDigit
    if digits.isEmpty then none else some (Nat.ofDigitChars 10 digits 0)

/-- Whether a word in quotation marks stands in the first 64 characters. -/
def inHead (word : String) (msg : String) : Bool :=
  (search (quote :: (word.toList ++ [quote])) (msg.toList.take 64)).isSome

/-- What is taken from a frame that has a height. -/
structure Item where
  isSnapshot : Bool
  height : Nat
  deriving DecidableEq

/-- Whether a text is more than an acknowledgement. -/
def isFrame (msg : String) : Bool := !inHead "subscriptionResponse" msg

/-- What is taken from a text, if it is a frame with a height. -/
def item? (msg : String) : Option Item :=
  if isFrame msg then (heightOf msg).map (⟨inHead "Snapshot" msg, ·⟩) else none

/-! ### The report -/

/-- What the checker complains of. -/
inductive Violation
  | wentBackwards (last h : Nat)
  | reopened (h last : Nat)
  deriving DecidableEq

def Violation.text : Violation → String
  | .wentBackwards last h => s!"height went backwards: {last} -> {h}"
  | .reopened h last => s!"block {h} reopened after {last}"

structure Report where
  msgs : Nat := 0
  bytes : Nat := 0
  /-- Distinct heights, in the order first seen. -/
  blocks : List Nat := []
  /-- Messages received for each height. -/
  counts : Nat → Nat := fun _ => 0
  snapshotHeight : Option Nat := none
  updatesBeforeSnapshot : Nat := 0
  /-- The height before and that of the new snapshot. -/
  resyncs : List (Option Nat × Nat) := []
  violations : List Violation := []
  closedEarly : Option String := none

def Report.ok (rep : Report) : Bool :=
  rep.violations.isEmpty && rep.updatesBeforeSnapshot == 0 && rep.snapshotHeight.isSome &&
    rep.closedEarly.isNone

/-- The report with the heights seen since the stream last started over, and the last of them. -/
structure Checker where
  rep : Report := {}
  seen : List Nat := []
  last : Option Nat := none

namespace Checker

/-- Whether the frame opens the stream, starts it over, or comes too early. -/
def announce (c : Checker) (item : Item) : Checker :=
  if item.isSnapshot then
    if c.rep.snapshotHeight.isNone then
      { c with rep := { c.rep with snapshotHeight := some item.height } }
    else
      -- A reset, not an increment: the continuity checks restart with it.
      { rep := { c.rep with resyncs := c.rep.resyncs ++ [(c.last, item.height)] } }
  else if c.rep.snapshotHeight.isNone then
    { c with rep := { c.rep with updatesBeforeSnapshot := c.rep.updatesBeforeSnapshot + 1 } }
  else c

def count (c : Checker) (h : Nat) : Checker :=
  { c with rep := { c.rep with counts := Function.update c.rep.counts h (c.rep.counts h + 1) } }

def complain (c : Checker) (violation : Violation) : Checker :=
  { c with rep := { c.rep with violations := c.rep.violations ++ [violation] } }

def enter (c : Checker) (h : Nat) : Checker where
  rep := { c.rep with blocks := c.rep.blocks ++ [h] }
  seen := h :: c.seen
  last := some h

/-- The frame against the one before it. -/
def follow (c : Checker) (h : Nat) : Checker :=
  match c.last with
  | none => c.enter h
  | some last =>
      if h = last then c
      else if h < last then (c.complain (.wentBackwards last h)).enter h
      else if h ∈ c.seen then (c.complain (.reopened h last)).enter h
      else c.enter h

def place (c : Checker) (item : Item) : Checker :=
  ((c.announce item).count item.height).follow item.height

def receive (c : Checker) (msg : String) : Checker :=
  let c := { c with rep := { c.rep with bytes := c.rep.bytes + msg.length } }
  let c := if isFrame msg then { c with rep := { c.rep with msgs := c.rep.msgs + 1 } } else c
  match item? msg with
  | none => c
  | some item => c.place item

end Checker

/-- The report on a client that received these texts, and whose connection failed if it did. -/
def runClient (texts : List String) (closedEarly : Option String) : Report :=
  { (run Checker.receive {} texts).rep with closedEarly := closedEarly }

/-! ### The late joiner -/

inductive Comparison
  /-- The late joiner never got a snapshot, nothing to compare. -/
  | nothing
  /-- Both clients resynced too near the end to compare. -/
  | tooLate
  /-- The same blocks over the window, and the blocks whose message counts differ. -/
  | tracked (shared : List Nat) (short : List (Nat × Nat × Nat))
  /-- What only one of the two saw. -/
  | disagree (onlyFirst onlyLate : List Nat)
  deriving DecidableEq

/-- Whether a line of the comparison starts with `FAIL`. -/
def Comparison.failed : Comparison → Bool
  | .nothing => true
  | .tooLate => false
  | .tracked _ short => !short.isEmpty
  | .disagree _ _ => true

/-- The late joiner must have tracked the first client exactly. -/
def compare (first late : Report) : Comparison :=
  if late.snapshotHeight.isNone ∨ late.blocks = [] then .nothing
  else
    -- Only where both ran unbroken.
    let floor := ((first.resyncs ++ late.resyncs).map (·.2)).foldl max 0
    let firstBlocks := if floor = 0 then first.blocks else first.blocks.filter (floor ≤ ·)
    let lateBlocks := if floor = 0 then late.blocks else late.blocks.filter (floor ≤ ·)
    match lateBlocks.head?, lateBlocks.getLast? with
    | some lo, some hi =>
        let a := firstBlocks.filter fun h => lo ≤ h ∧ h ≤ hi
        let b := lateBlocks.filter fun h => lo ≤ h ∧ h ≤ hi
        if a = b then
          -- The first and the last shared block are legitimately partial.
          let interior := b.tail.dropLast
          .tracked b ((interior.filter fun h => first.counts h ≠ late.counts h).map fun h =>
            (h, first.counts h, late.counts h))
        else
          .disagree (a.filter (· ∉ b)).dedup.mergeSort (b.filter (· ∉ a)).dedup.mergeSort
    | _, _ => .tooLate

/-! ### What one frame does -/

/-- A frame that is not below the one before it, unless it is a snapshot. -/
def Steady (before item : Item) : Prop := item.isSnapshot = true ∨ before.height ≤ item.height

namespace Checker

variable {c : Checker} {item : Item} {h : Nat}

/-- The stream has failed, and stays so. -/
def Failed (c : Checker) : Prop := c.rep.violations ≠ [] ∨ 0 < c.rep.updatesBeforeSnapshot

/-- The stream has opened with a snapshot and risen since to this height. -/
structure Sound (c : Checker) (h : Nat) : Prop where
  violations : c.rep.violations = []
  updates : c.rep.updatesBeforeSnapshot = 0
  opened : c.rep.snapshotHeight.isSome = true
  last : c.last = some h
  seen : ∀ height ∈ c.seen, height ≤ h

theorem Failed.follow (failed : c.Failed) (h : Nat) : (c.follow h).Failed := by
  have listed (violation : Violation) : c.rep.violations ++ [violation] ≠ [] := by simp
  rw [Checker.follow]
  split
  · exact failed
  · split_ifs
    · exact failed
    · exact .inl (listed _)
    · exact .inl (listed _)
    · exact failed

theorem Failed.place (failed : c.Failed) (item : Item) : (c.place item).Failed := by
  refine Failed.follow ?_ item.height
  rw [announce]
  split_ifs
  · exact failed
  · exact failed
  · exact .inr (Nat.succ_pos _)
  · exact failed

theorem Sound.not_isNone (sound : c.Sound h) : ¬ c.rep.snapshotHeight.isNone = true := by
  have opened := sound.opened
  cases there : c.rep.snapshotHeight with
  | none => exact nomatch there ▸ opened
  | some height => exact Bool.false_ne_true

theorem Sound.announce_snapshot (sound : c.Sound h) (snapshot : item.isSnapshot = true) :
    c.announce item =
      { rep := { c.rep with resyncs := c.rep.resyncs ++ [(some h, item.height)] } } := by
  rw [announce, if_pos snapshot, if_neg sound.not_isNone, sound.last]

theorem Sound.announce_update (sound : c.Sound h) (update : item.isSnapshot = false) :
    c.announce item = c := by
  rw [announce, if_neg (Bool.not_eq_true _ ▸ update), if_neg sound.not_isNone]

/-- A sound stream goes on soundly with a steady frame. -/
theorem Sound.place (sound : c.Sound h) {flag : Bool} (steady : Steady ⟨flag, h⟩ item) :
    (c.place item).Sound item.height := by
  cases snapshot : item.isSnapshot with
  | true =>
      rw [Checker.place, sound.announce_snapshot snapshot]
      exact ⟨sound.violations, sound.updates, sound.opened, rfl, by simp [count, follow, enter]⟩
  | false =>
      have above : h ≤ item.height := steady.resolve_left fun other =>
        Bool.false_ne_true (snapshot ▸ other)
      rw [Checker.place, sound.announce_update snapshot, follow]
      simp only [count, sound.last]
      split_ifs with same below again
      · exact ⟨sound.violations, sound.updates, sound.opened, congrArg some same.symm,
          fun height member => (sound.seen height member).trans above⟩
      · omega
      · exact absurd (sound.seen _ again) (by omega)
      · refine ⟨sound.violations, sound.updates, sound.opened, rfl, fun height member => ?_⟩
        rcases List.mem_cons.mp member with new | old
        · exact new.le
        · exact (sound.seen height old).trans above

/-- Any other frame fails it. -/
theorem Sound.fails (sound : c.Sound h) {flag : Bool} (unsteady : ¬ Steady ⟨flag, h⟩ item) :
    (c.place item).Failed := by
  obtain ⟨update, below⟩ := not_or.mp unsteady
  have below : item.height < h := Nat.not_le.mp below
  rw [Checker.place, sound.announce_update (Bool.not_eq_true _ ▸ update), follow]
  simp only [count, sound.last]
  rw [if_neg (Nat.ne_of_lt below), if_pos below]
  exact .inl (by simp [complain, enter])

/-- The stream starts soundly with a snapshot and fails with anything else. -/
theorem sound_first (snapshot : item.isSnapshot = true) :
    (place {} item).Sound item.height := by
  simp only [place, announce, snapshot, count, follow, enter]
  exact ⟨rfl, rfl, rfl, rfl, by simp⟩

theorem fails_first (update : item.isSnapshot = false) : (place {} item).Failed := by
  simp only [place, announce, update, count, follow, enter]
  exact .inr Nat.one_pos

theorem failed_run (failed : c.Failed) (items : List Item) :
    (run Checker.place c items).Failed := by
  induction items generalizing c with
  | nil => exact failed
  | cons item rest inductionHypothesis => exact inductionHypothesis (failed.place item)

/-- A run of frames from a sound stream stays sound if each frame is steady, and fails if not. -/
theorem Sound.run_iff (sound : c.Sound h) (flag : Bool) (items : List Item) :
    ¬ (run Checker.place c items).Failed ↔ List.IsChain Steady (⟨flag, h⟩ :: items) := by
  induction items generalizing c h flag with
  | nil => simp [Failed, sound.violations, sound.updates]
  | cons item rest inductionHypothesis =>
      rw [run_cons, List.isChain_cons_cons]
      by_cases steady : Steady ⟨flag, h⟩ item
      · have further := inductionHypothesis (sound.place steady) item.isSnapshot
        exact further.trans (and_iff_right steady).symm
      · exact iff_of_false (not_not_intro (failed_run (sound.fails steady) rest))
          fun both => steady both.1

theorem Sound.run (sound : c.Sound h) (items : List Item)
    (intact : ¬ (Library.run Checker.place c items).Failed) :
    ∃ last, (Library.run Checker.place c items).Sound last := by
  induction items generalizing c h with
  | nil => exact ⟨h, sound⟩
  | cons item rest inductionHypothesis =>
      by_cases steady : Steady ⟨false, h⟩ item
      · exact inductionHypothesis (sound.place steady) intact
      · exact absurd (failed_run (sound.fails steady) rest) intact

/-! ### Texts and frames -/

/-- The checker but for what it counts of every text. -/
def core (c : Checker) : Checker := { c with rep := { c.rep with msgs := 0, bytes := 0 } }

theorem core_place (c : Checker) (item : Item) : (c.place item).core = c.core.place item := by
  have announced : (c.announce item).core = c.core.announce item := by
    have same : c.core.rep.snapshotHeight = c.rep.snapshotHeight := rfl
    rw [announce, announce, same]
    split_ifs <;> rfl
  have followed (c : Checker) (h : Nat) : (c.follow h).core = c.core.follow h := by
    have same : c.core.last = c.last := rfl
    rw [follow, follow, same]
    split
    · rfl
    · show _ = if _ then _ else if _ then _ else if _ ∈ c.seen then _ else _
      split_ifs <;> rfl
  rw [place, place, followed, ← announced]
  rfl

theorem core_receive (c : Checker) (msg : String) :
    (c.receive msg).core = (item? msg).elim c.core c.core.place := by
  rw [receive]
  cases item? msg with
  | none =>
      dsimp only
      split_ifs <;> rfl
  | some item =>
      dsimp only [Option.elim_some]
      rw [core_place]
      split_ifs <;> rfl

/-- What the checker makes of texts is what it makes of the frames they carry. -/
theorem core_run (c : Checker) (texts : List String) :
    (Library.run receive c texts).core =
      Library.run Checker.place c.core (texts.filterMap item?) := by
  induction texts generalizing c with
  | nil => rfl
  | cons msg rest inductionHypothesis =>
      rw [run_cons, inductionHypothesis, core_receive, List.filterMap_cons]
      cases item? msg <;> rfl

end Checker

theorem ok_core (texts : List String) (closedEarly : Option String) :
    (runClient texts closedEarly).ok = true ↔ closedEarly = none ∧
      ¬ (run Checker.place {} (texts.filterMap item?)).Failed ∧
      (run Checker.place {} (texts.filterMap item?)).rep.snapshotHeight.isSome = true := by
  rw [show ({} : Checker) = Checker.core {} from rfl, ← Checker.core_run]
  simp only [runClient, Report.ok, Checker.Failed, Checker.core, Bool.and_eq_true, beq_iff_eq,
    List.isEmpty_iff, Option.isNone_iff_eq_none, not_or, not_not, Nat.not_lt, Nat.le_zero]
  tauto

/-- A stream passes exactly if it ran to its end, its first frame was a snapshot, and no frame but
a snapshot was below the frame before it: that no block reopened needs no check of its own. -/
theorem ok_iff (texts : List String) (closedEarly : Option String) :
    (runClient texts closedEarly).ok = true ↔ closedEarly = none ∧
      ∃ first rest, texts.filterMap item? = first :: rest ∧ first.isSnapshot = true ∧
        (first :: rest).IsChain Steady := by
  rw [ok_core]
  refine and_congr_right fun _ => ?_
  cases texts.filterMap item? with
  | nil => simp
  | cons first rest =>
      cases snapshot : first.isSnapshot with
      | false =>
          refine iff_of_false (fun both => both.1 ?_) ?_
          · exact Checker.failed_run (Checker.fails_first snapshot) rest
          · simp [snapshot]
      | true =>
          have sound := Checker.sound_first snapshot
          have steady := sound.run_iff true rest
          have opens : (⟨true, first.height⟩ : Item) = first := by rw [← snapshot]
          rw [opens] at steady
          rw [run_cons, steady]
          constructor
          · intro both
            exact ⟨first, rest, rfl, snapshot, both.1⟩
          · intro ⟨_, _, same, _, chain⟩
            obtain ⟨rfl, rfl⟩ := List.cons.inj same
            obtain ⟨_, ends⟩ := sound.run rest (steady.mpr chain)
            exact ⟨chain, ends.opened⟩

/-! ### The blocks of a stream that never started over -/

def heights (texts : List String) : List Nat := (texts.filterMap item?).map (·.height)

namespace Checker

variable {c : Checker} {item : Item} {h : Nat} {items : List Item}

/-- The blocks are those of the frames so far, rising to the last. -/
structure Tracks (c : Checker) (items : List Item) : Prop where
  counts : ∀ h, c.rep.counts h = (items.map (·.height)).count h
  blocks : ∀ h, h ∈ c.rep.blocks ↔ h ∈ items.map (·.height)
  rising : c.rep.blocks.Pairwise (· < ·)
  first : c.rep.blocks.head? = (items.map (·.height)).head?
  last : c.rep.blocks.getLast? = (items.map (·.height)).getLast?
  latest : c.last = (items.map (·.height)).getLast?

theorem tracks_first (snapshot : item.isSnapshot = true) : (place {} item).Tracks [item] := by
  have same : place {} item =
      { rep := { blocks := [item.height], counts := Function.update (fun _ => 0) item.height 1,
                 snapshotHeight := some item.height }
        seen := [item.height], last := some item.height } := by
    simp only [place, announce, snapshot, count, follow, enter]
    rfl
  rw [same]
  refine ⟨fun h => ?_, fun h => Iff.rfl, List.pairwise_singleton _ _, rfl, rfl, rfl⟩
  show Function.update (fun _ => 0) item.height 1 h = _
  by_cases own : h = item.height
  · subst own
    simp
  · rw [Function.update_of_ne own]
    simp [Ne.symm own]

/-- Up to the last block, every block is at most as high. -/
theorem Tracks.under (tracks : c.Tracks items) (sound : c.Sound h) :
    ∀ block ∈ c.rep.blocks, block ≤ h := by
  intro block member
  have ends : c.rep.blocks.getLast? = some h := tracks.last.trans (tracks.latest ▸ sound.last)
  obtain ⟨before, split⟩ := List.getLast?_eq_some_iff.mp ends
  have rising := tracks.rising
  rw [split] at rising member
  rcases List.mem_append.mp member with earlier | same
  · exact ((List.pairwise_append.mp rising).2.2 block earlier h List.mem_cons_self).le
  · exact (List.mem_singleton.mp same).le

theorem Tracks.place (tracks : c.Tracks items) (sound : c.Sound h)
    (steady : Steady ⟨false, h⟩ item) (whole : (c.place item).rep.resyncs = []) :
    (c.place item).Tracks (items ++ [item]) := by
  have update : item.isSnapshot = false := by
    cases snapshot : item.isSnapshot with
    | false => rfl
    | true =>
        rw [Checker.place, sound.announce_snapshot snapshot] at whole
        simp [count, follow, enter] at whole
  have above : h ≤ item.height := steady.resolve_left fun other =>
    Bool.false_ne_true (update ▸ other)
  have there : items.map (·.height) ≠ [] := by
    intro none'
    have latest := tracks.latest
    rw [none', sound.last] at latest
    exact nomatch latest
  have counted (height : Nat) :
      Function.update c.rep.counts item.height (c.rep.counts item.height + 1) height =
        ((items ++ [item]).map (·.height)).count height := by
    rw [List.map_append, List.count_append, ← tracks.counts height]
    by_cases own : height = item.height
    · subst own
      simp
    · rw [Function.update_of_ne own]
      simp [Ne.symm own]
  have opens : ((items ++ [item]).map (·.height)).head? = (items.map (·.height)).head? := by
    rw [List.map_append, List.head?_append_of_ne_nil _ there]
  have ends : ((items ++ [item]).map (·.height)).getLast? = some item.height := by simp
  rw [Checker.place, sound.announce_update update, follow]
  simp only [count, sound.last]
  split_ifs with same below again
  · have known : item.height ∈ items.map (·.height) := by
      rw [same]
      exact List.mem_of_getLast? (tracks.latest ▸ sound.last)
    have last : (items.map (·.height)).getLast? = some item.height := by
      rw [← tracks.latest, sound.last, same]
    refine ⟨counted, fun height => ?_, tracks.rising, tracks.first.trans opens.symm,
      (tracks.last.trans last).trans ends.symm, (congrArg some same.symm).trans ends.symm⟩
    rw [tracks.blocks height, List.map_append, List.mem_append]
    constructor
    · exact Or.inl
    · rintro (old | new)
      · exact old
      · exact (List.mem_singleton.mp new) ▸ known
  · omega
  · exact absurd (sound.seen _ again) (by omega)
  · have nonempty : c.rep.blocks ≠ [] := by
      intro none'
      have first := tracks.first
      rw [none'] at first
      exact there (List.head?_eq_none_iff.mp first.symm)
    refine ⟨counted, fun height => ?_, ?_, ?_, ?_, ends.symm⟩
    · simp [enter, tracks.blocks height]
    · refine List.pairwise_append.mpr ⟨tracks.rising, List.pairwise_singleton _ _, ?_⟩
      intro block member last same
      have under := tracks.under sound block member
      rw [List.mem_singleton.mp same]
      omega
    · rw [opens, ← tracks.first]
      exact List.head?_append_of_ne_nil _ nonempty
    · rw [ends]
      exact List.getLast?_concat

theorem resyncs_place (c : Checker) (item : Item) :
    ∃ more, (c.place item).rep.resyncs = c.rep.resyncs ++ more := by
  have followed (c : Checker) (h : Nat) : (c.follow h).rep.resyncs = c.rep.resyncs := by
    rw [follow]
    split
    · rfl
    · split_ifs <;> rfl
  rw [Checker.place, followed]
  simp only [count, announce]
  split_ifs
  · exact ⟨[], (List.append_nil _).symm⟩
  · exact ⟨_, rfl⟩
  · exact ⟨[], (List.append_nil _).symm⟩
  · exact ⟨[], (List.append_nil _).symm⟩

theorem whole_of_run {items : List Item}
    (whole : (Library.run Checker.place c items).rep.resyncs = []) : c.rep.resyncs = [] := by
  induction items generalizing c with
  | nil => exact whole
  | cons item rest inductionHypothesis =>
      obtain ⟨more, grown⟩ := c.resyncs_place item
      have none' := inductionHypothesis whole
      rw [grown] at none'
      exact (List.append_eq_nil_iff.mp none').1

theorem Tracks.run (tracks : c.Tracks items) (sound : c.Sound h) (rest : List Item)
    (intact : ¬ (Library.run Checker.place c rest).Failed)
    (whole : (Library.run Checker.place c rest).rep.resyncs = []) :
    (Library.run Checker.place c rest).Tracks (items ++ rest) := by
  induction rest generalizing c h items with
  | nil => rwa [List.append_nil]
  | cons item rest inductionHypothesis =>
      by_cases steady : Steady ⟨false, h⟩ item
      · have next := tracks.place sound steady (whole_of_run whole)
        have further := inductionHypothesis next (sound.place steady) intact whole
        rwa [List.append_assoc] at further
      · exact absurd (failed_run (sound.fails steady) rest) intact

end Checker

/-- What a report says of a stream's heights: the blocks are those of the frames, rising to the
last, and the counts are the frames'. -/
structure Reports (rep : Report) (heights : List Nat) : Prop where
  counts : ∀ h, rep.counts h = heights.count h
  blocks : ∀ h, h ∈ rep.blocks ↔ h ∈ heights
  rising : rep.blocks.Pairwise (· < ·)
  first : rep.blocks.head? = heights.head?
  last : rep.blocks.getLast? = heights.getLast?

/-- What the report on a stream that passed, and never started over, says of its frames. -/
theorem reports_of_ok {texts : List String} {closedEarly : Option String}
    (ok : (runClient texts closedEarly).ok = true)
    (whole : (runClient texts closedEarly).resyncs = []) :
    Reports (runClient texts closedEarly) (heights texts) := by
  obtain ⟨-, intact, -⟩ := (ok_core texts closedEarly).mp ok
  have cores : (run Checker.receive {} texts).core =
      run Checker.place {} (texts.filterMap item?) := Checker.core_run {} texts
  have none' : (run Checker.place {} (texts.filterMap item?)).rep.resyncs = [] := by
    rw [← cores]
    exact whole
  obtain ⟨-, first, rest, items, snapshot, -⟩ := (ok_iff texts closedEarly).mp ok
  have tracks : (run Checker.receive {} texts).core.Tracks (texts.filterMap item?) := by
    rw [cores]
    rw [items] at intact none' ⊢
    exact (Checker.tracks_first snapshot).run (Checker.sound_first snapshot) rest intact none'
  exact ⟨tracks.counts, tracks.blocks, tracks.rising, tracks.first, tracks.last⟩

/-! ### A late joiner -/

/-- Of a rising list the members but for the ends are those strictly between the ends. -/
theorem mem_interior {blocks : List Nat} (rising : blocks.Pairwise (· < ·)) {lo hi : Nat}
    (first : blocks.head? = some lo) (last : blocks.getLast? = some hi) (h : Nat) :
    h ∈ blocks.tail.dropLast ↔ h ∈ blocks ∧ lo < h ∧ h < hi := by
  obtain ⟨rest, rfl⟩ := List.head?_eq_some_iff.mp first
  have above := (List.pairwise_cons.mp rising).1
  rcases List.eq_nil_or_concat' rest with rfl | ⟨middle, top, rfl⟩
  · have same : lo = hi := by simpa using last
    simp only [List.tail_cons, List.dropLast_nil, List.not_mem_nil, List.mem_singleton, false_iff]
    omega
  · have same : top = hi := by simpa [List.getLast?_cons] using last
    have below := (List.pairwise_append.mp (List.pairwise_cons.mp rising).2).2.2
    simp only [List.tail_cons, List.dropLast_concat, List.mem_cons, List.mem_append,
      List.not_mem_nil, or_false]
    constructor
    · intro member
      have low := above h (List.mem_append_left _ member)
      have high := below h member top List.mem_cons_self
      exact ⟨.inr (.inl member), low, same ▸ high⟩
    · intro ⟨there, low, high⟩
      rcases there with ends | member | ends
      · omega
      · exact member
      · omega

/-- The members of a rising list lie between its ends. -/
theorem within_ends {blocks : List Nat} (rising : blocks.Pairwise (· < ·)) {lo hi : Nat}
    (first : blocks.head? = some lo) (last : blocks.getLast? = some hi) :
    ∀ h ∈ blocks, lo ≤ h ∧ h ≤ hi := by
  intro h member
  obtain ⟨rest, split⟩ := List.head?_eq_some_iff.mp first
  obtain ⟨before, ends⟩ := List.getLast?_eq_some_iff.mp last
  constructor
  · rw [split] at rising member
    rcases List.mem_cons.mp member with same | later
    · exact same.ge
    · exact ((List.pairwise_cons.mp rising).1 h later).le
  · rw [ends] at rising member
    rcases List.mem_append.mp member with earlier | same
    · exact ((List.pairwise_append.mp rising).2.2 h earlier hi List.mem_cons_self).le
    · exact (List.mem_singleton.mp same).le

/-- The comparison of two reports with nothing started over: it passes exactly if both have the
same blocks over the late joiner's window, and the same counts of those inside it. -/
theorem compare_whole {first late : Report} {lo hi : Nat}
    (opened : late.snapshotHeight.isSome = true) (whole : first.resyncs = [])
    (wholeLate : late.resyncs = []) (rising : late.blocks.Pairwise (· < ·))
    (starts : late.blocks.head? = some lo) (ends : late.blocks.getLast? = some hi) :
    (compare first late).failed = false ↔
      (first.blocks.filter fun h => lo ≤ h ∧ h ≤ hi) = late.blocks ∧
        ∀ h ∈ late.blocks.tail.dropLast, first.counts h = late.counts h := by
  have nonempty : late.blocks ≠ [] := by
    intro none'
    rw [none'] at starts
    exact nomatch starts
  have there : ¬ (late.snapshotHeight.isNone = true ∨ late.blocks = []) := by
    intro either
    rcases either with closed | none'
    · rw [Option.isNone_iff_eq_none.mp closed] at opened
      exact nomatch opened
    · exact nonempty none'
  have all : (late.blocks.filter fun h => lo ≤ h ∧ h ≤ hi) = late.blocks :=
    List.filter_eq_self.mpr fun h member => decide_eq_true (within_ends rising starts ends h member)
  rw [compare, if_neg there, whole, wholeLate]
  simp only [List.append_nil, List.map_nil, List.foldl_nil, if_true, starts, ends, all]
  split
  · next same =>
      simp only [same, true_and, Comparison.failed, Bool.not_eq_false', List.isEmpty_iff,
        List.map_eq_nil_iff, List.filter_eq_nil_iff, decide_eq_true_eq, not_not]
  · next other => exact iff_of_false (fun failed => nomatch failed) fun both => other both.1

/-- Two clients whose streams passed and never started over: the late joiner tracked the first one
exactly if the first one has the blocks at the ends of what the late joiner saw, and both have as
many messages of every height in between. -/
theorem compare_passes_iff (first late : List String)
    (ok : (runClient first none).ok = true) (okLate : (runClient late none).ok = true)
    (whole : (runClient first none).resyncs = []) (wholeLate : (runClient late none).resyncs = []) :
    (compare (runClient first none) (runClient late none)).failed = false ↔
      ∃ lo hi, (heights late).head? = some lo ∧ (heights late).getLast? = some hi ∧
        lo ∈ heights first ∧ hi ∈ heights first ∧
        ∀ h, lo < h → h < hi → (heights first).count h = (heights late).count h := by
  have reports := reports_of_ok ok whole
  have reportsLate := reports_of_ok okLate wholeLate
  obtain ⟨-, item, rest, items, -⟩ := (ok_iff late none).mp okLate
  have starts : (heights late).head? = some item.height := by rw [heights, items]; rfl
  obtain ⟨hi, ends⟩ : ∃ hi, (heights late).getLast? = some hi := by
    rw [heights, items, List.map_cons, List.getLast?_cons]
    exact ⟨_, rfl⟩
  have opened : (runClient late none).snapshotHeight.isSome = true := by
    simp only [Report.ok, Bool.and_eq_true] at okLate
    exact okLate.1.2
  rw [compare_whole opened whole wholeLate reportsLate.rising (reportsLate.first.trans starts)
    (reportsLate.last.trans ends)]
  have inside := mem_interior reportsLate.rising (reportsLate.first.trans starts)
    (reportsLate.last.trans ends)
  have within := within_ends reportsLate.rising (reportsLate.first.trans starts)
    (reportsLate.last.trans ends)
  have lowest : item.height ∈ (runClient late none).blocks :=
    List.mem_of_mem_head? (reportsLate.first.trans starts)
  have highest : hi ∈ (runClient late none).blocks :=
    List.mem_of_getLast? (reportsLate.last.trans ends)
  constructor
  · intro ⟨same, counts⟩
    have shared (h : Nat) (member : h ∈ (runClient late none).blocks) : h ∈ heights first := by
      rw [← same, List.mem_filter] at member
      exact (reports.blocks h).mp member.1
    refine ⟨item.height, hi, starts, ends, shared _ lowest, shared _ highest, ?_⟩
    intro h low high
    by_cases there : h ∈ (runClient late none).blocks
    · have equal := counts h ((inside h).mpr ⟨there, low, high⟩)
      rwa [reports.counts, reportsLate.counts] at equal
    · have absent : h ∉ heights first := by
        intro member
        apply there
        rw [← same, List.mem_filter]
        exact ⟨(reports.blocks h).mpr member, decide_eq_true ⟨low.le, high.le⟩⟩
      rw [List.count_eq_zero.mpr absent,
        List.count_eq_zero.mpr fun member => there ((reportsLate.blocks h).mpr member)]
  · intro ⟨lo, top, starts', ends', lowest', highest', counts⟩
    obtain rfl := Option.some.inj (starts.symm.trans starts')
    obtain rfl := Option.some.inj (ends.symm.trans ends')
    have agree (h : Nat) (low : item.height ≤ h) (high : h ≤ hi) :
        h ∈ heights first ↔ h ∈ heights late := by
      by_cases least : h = item.height
      · exact iff_of_true (least ▸ lowest') (least ▸ (reportsLate.blocks _).mp lowest)
      · by_cases most : h = hi
        · exact iff_of_true (most ▸ highest') (most ▸ (reportsLate.blocks _).mp highest)
        · rw [← List.count_pos_iff, ← List.count_pos_iff, counts h (by omega) (by omega)]
    constructor
    · refine (reports.rising.filter _).eq_of_mem_iff reportsLate.rising fun h => ?_
      rw [List.mem_filter, reports.blocks, decide_eq_true_eq]
      constructor
      · intro both
        exact (reportsLate.blocks h).mpr ((agree h both.2.1 both.2.2).mp both.1)
      · intro member
        have bounds := within h member
        exact ⟨(agree h bounds.1 bounds.2).mpr ((reportsLate.blocks h).mp member), bounds⟩
    · intro h member
      obtain ⟨-, low, high⟩ := (inside h).mp member
      rw [reports.counts, reportsLate.counts, counts h low high]

/-- A frame of the channel, as far as the checker reads it. -/
def l4Frame (kind : String) (height : Nat) : String :=
  "\x7b\"channel\":\"l4Book\",\"data\":\x7b\"" ++ kind ++ "\":\x7b\"height\":" ++ toString height ++
    "\x7d\x7d\x7d"

/-- A client that was there first. -/
def firstTexts : List String :=
  [l4Frame "Snapshot" 9, l4Frame "Updates" 10, l4Frame "Updates" 11, l4Frame "Updates" 12]

/-- One that joined at block 10. -/
def lateTexts : List String :=
  [l4Frame "Snapshot" 10, l4Frame "Updates" 11, l4Frame "Updates" 12, l4Frame "Updates" 12]

/-- It tracked the first client, though it got one message more of its last block. -/
theorem compare_passes_iff_late :
    (compare (runClient firstTexts none) (runClient lateTexts none)).failed = false := by
  refine (compare_passes_iff firstTexts lateTexts (by decide) (by decide) (by decide)
    (by decide)).mpr ⟨10, 12, by decide, by decide, by decide, by decide, ?_⟩
  intro h low high
  obtain rfl : h = 11 := by omega
  decide

end Wsarb.StreamCheck
