import Mathlib.Data.List.DropRight
import Mathlib.Data.List.MinMax
import Wsarb.Library.Ranking
import Wsarb.Tools.SideDiff

/-!
Owns one panel of the book page on one connection: the frames it takes, the book it keeps, what it
reports, and the frames it keeps for Sync; and Sync itself, which holds every panel at the first
kept frame nearest to the moment the slowest one has reached.

A text is no JSON, or a frame as the upstream shapes them on its channel: a frame that lacks what
`onFrame` reads of it, and stops it half way, does not come. A panel has been connected to one of
the two book channels. What is drawn is the kept frame; the drawing is not modelled.

Does not own: where the frames come from.
-/

namespace Wsarb

open Wsarb.Library

/-- The two sides of a book as frames carry them. -/
structure Levels (Px Sz Count : Type) where
  bids : List (Level Px Sz Count)
  asks : List (Level Px Sz Count)

/-- The data of an `l2Diff` frame: a whole book, or what changed since another height. -/
inductive DiffData (Px Sz Count : Type)
  | snapshot (time height : Nat) (levels : Levels Px Sz Count)
  | updates (time height prevHeight : Nat) (bids asks : SideDiff Px Sz Count)
  | neither

inductive PanelFrame (Px Sz Count : Type)
  | error (data : String)
  | l2Book (time : Nat) (levels : Levels Px Sz Count)
  | l2Diff (data : DiffData Px Sz Count)
  | other

inductive BookChannel
  | l2Book
  | l2Diff
  deriving DecidableEq

/-- Frames kept per source for Sync. -/
def HISTORY : Nat := 400

namespace Panel

variable (Px Sz Count : Type) [DecidableEq Px]

structure Book where
  bids : Side Px Sz Count
  asks : Side Px Sz Count

/-- A frame kept for Sync: the book as it was put up. -/
structure Shot where
  time : Nat
  height : Option Nat
  book : Book Px Sz Count

end Panel

/-- One source of the page, without what it draws. -/
structure Panel (Px Sz Count : Type) [DecidableEq Px] where
  chan : BookChannel
  book : Panel.Book Px Sz Count := ⟨∅, ∅⟩
  history : List (Panel.Shot Px Sz Count) := []
  lastTime : Option Nat := none
  lastHeight : Option Nat := none
  frames : Nat := 0
  err : String := ""

namespace Panel

variable {Px Sz Count : Type} [DecidableEq Px]

/-- What a panel says when a second snapshot starts its book over. -/
def restarted : String := "снимок посреди потока — книга перестроена (смена узла)"

/-- What it says when an increment does not follow on the height it stands at. -/
def gap (prevHeight applied : Nat) : String :=
  "разрыв: prevHeight " ++ (toString prevHeight ++ ", применена " ++ toString applied ++
    " — пропущено обновление")

/-- `connect`, as far as the state of the panel goes. -/
def connect (chan : BookChannel) : Panel Px Sz Count where
  chan := chan

/-- Keep the frame just put up, dropping the oldest beyond the limit. -/
def keep (p : Panel Px Sz Count) (time : Nat) : Panel Px Sz Count :=
  let history := p.history ++ [⟨time, p.lastHeight, p.book⟩]
  { p with history := if HISTORY < history.length then history.tail else history }

def onFrame (p : Panel Px Sz Count) : PanelFrame Px Sz Count → Panel Px Sz Count
  | .error data => { p with err := "upstream error: " ++ data }
  | .l2Book time levels =>
      if p.chan = .l2Book then
        { p with
            frames := p.frames + 1
            book := ⟨Panel.side levels.bids, Panel.side levels.asks⟩
            lastTime := some time, lastHeight := none }.keep time
      else p
  | .l2Diff data =>
      if p.chan = .l2Diff then
        let p := { p with frames := p.frames + 1 }
        match data with
        | .snapshot time height levels =>
            -- A second snapshot is the proxy moving to another node: never merged.
            { p with
                book := ⟨Panel.side levels.bids, Panel.side levels.asks⟩
                lastTime := some time, lastHeight := some height
                err := if 1 < p.frames then restarted else "" }.keep time
        | .updates time height prevHeight bids asks =>
            match p.lastHeight with
            | none => p
            | some applied =>
                let p :=
                  if prevHeight ≠ applied then { p with err := gap prevHeight applied } else p
                { p with
                    book := ⟨Panel.apply p.book.bids bids, Panel.apply p.book.asks asks⟩
                    lastTime := some time, lastHeight := some height }.keep time
        | .neither => p
      else p
  | .other => p

/-- What happens on the connection of a panel. -/
inductive Event (Px Sz Count : Type)
  | message (frame : PanelFrame Px Sz Count)
  /-- A text that `JSON.parse` throws on. -/
  | bad (thrown : String)
  | error
  | close

/-- One event: `onmessage`, `onerror`, `onclose`. -/
def on (p : Panel Px Sz Count) : Event Px Sz Count → Panel Px Sz Count
  | .message frame => p.onFrame frame
  | .bad thrown => { p with err := "bad frame: " ++ thrown }
  | .error => { p with err := "ошибка соединения" }
  | .close => { p with err := if p.err = "" then "соединение закрыто" else p.err }

/-- The kept frame whose block time is nearest to `t`. -/
def nearest (p : Panel Px Sz Count) (t : Nat) : Option (Shot Px Sz Count) :=
  p.history.foldl
    (fun best h =>
      match best with
      | none => some h
      | some b =>
          if ((h.time : Int) - t).natAbs < ((b.time : Int) - t).natAbs then some h else some b)
    none

end Panel

/-- What Sync holds the panels at: the moment, and each panel's frame, if it has any. -/
structure Held (Px Sz Count : Type) [DecidableEq Px] where
  time : Nat
  frames : List (Option (Panel.Shot Px Sz Count))

/-- `sync`: nothing without data from two panels at least; else the slower source sets the moment.
(A missing time compares as zero.) -/
def sync {Px Sz Count : Type} [DecidableEq Px] (panels : List (Panel Px Sz Count)) :
    Option (Held Px Sz Count) :=
  match panels.filter (·.history ≠ []) with
  | first :: second :: rest =>
      let anchor := (second :: rest).foldl
        (fun a p => if p.lastTime.getD 0 < a.lastTime.getD 0 then p else a) first
      let t := anchor.lastTime.getD 0
      some { time := t, frames := panels.map (·.nearest t) }
  | _ => none

namespace Panel

variable {Px Sz Count : Type} [DecidableEq Px] {p : Panel Px Sz Count}
  {shot : Shot Px Sz Count}

/-! ### What is kept -/

def Up (p : Panel Px Sz Count) (shot : Shot Px Sz Count) : Prop :=
  p.lastTime = some shot.time ∧ p.lastHeight = shot.height ∧ p.book = shot.book

/-- An event puts up a frame and keeps it, or leaves what was up and what is kept alone. -/
theorem on_cases (p : Panel Px Sz Count) (event : Event Px Sz Count) :
    ((p.on event).history = p.history ∧ (p.on event).lastTime = p.lastTime) ∨
      ∃ (q : Panel Px Sz Count) (time : Nat), p.on event = q.keep time ∧ q.history = p.history ∧
        q.lastTime = some time := by
  cases event with
  | bad thrown => exact .inl ⟨rfl, rfl⟩
  | error => exact .inl ⟨rfl, rfl⟩
  | close => exact .inl ⟨rfl, rfl⟩
  | message frame =>
      cases frame with
      | error data => exact .inl ⟨rfl, rfl⟩
      | other => exact .inl ⟨rfl, rfl⟩
      | l2Book time levels =>
          simp only [on, onFrame]
          split
          · exact .inr ⟨_, time, rfl, rfl, rfl⟩
          · exact .inl ⟨rfl, rfl⟩
      | l2Diff data =>
          simp only [on, onFrame]
          split
          · cases data with
            | neither => exact .inl ⟨rfl, rfl⟩
            | snapshot time height levels => exact .inr ⟨_, time, rfl, rfl, rfl⟩
            | updates time height prevHeight bids asks =>
                cases p.lastHeight with
                | none => exact .inl ⟨rfl, rfl⟩
                | some applied =>
                    refine .inr ⟨_, time, rfl, ?_, rfl⟩
                    dsimp only
                    split <;> rfl
          · exact .inl ⟨rfl, rfl⟩

theorem up_keep (time : Nat) (up : p.lastTime = some time) :
    Up (p.keep time) ⟨time, p.lastHeight, p.book⟩ := ⟨up, rfl, rfl⟩

theorem mem_keep (time : Nat) (member : shot ∈ (p.keep time).history) :
    shot ∈ p.history ∨ shot = ⟨time, p.lastHeight, p.book⟩ := by
  have grown : shot ∈ p.history ++ [⟨time, p.lastHeight, p.book⟩] := by
    simp only [keep] at member
    split at member
    · exact List.mem_of_mem_tail member
    · exact member
  simpa using grown

theorem getLast_keep (time : Nat) :
    (p.keep time).history.getLast? = some ⟨time, p.lastHeight, p.book⟩ := by
  simp only [keep]
  split
  · next long =>
      rw [List.getLast?_tail, if_neg (by simp only [HISTORY] at long; omega),
        List.getLast?_concat]
  · exact List.getLast?_concat

theorem length_keep (time : Nat) (within : p.history.length ≤ HISTORY) :
    (p.keep time).history.length ≤ HISTORY := by
  simp only [keep]
  split
  · rw [List.length_tail, List.length_append, List.length_singleton]
    omega
  · omega

/-- The kept frames were up, one after the other, the last of them still; and they are not many. -/
structure Keeps (chan : BookChannel) (events : List (Event Px Sz Count)) (p : Panel Px Sz Count) :
    Prop where
  length_le : p.history.length ≤ HISTORY
  last : p.lastTime = p.history.getLast?.map (·.time)
  past : ∀ shot ∈ p.history, ∃ before, before <+: events ∧ Up (run on (connect chan) before) shot

theorem keeps_run (chan : BookChannel) (events : List (Event Px Sz Count)) :
    Keeps chan events (run on (connect chan) events) := by
  induction events using List.reverseRecOn with
  | nil => exact ⟨Nat.zero_le _, rfl, fun _ member => absurd member List.not_mem_nil⟩
  | append_singleton before event inductionHypothesis =>
      have ends : run on (connect chan) (before ++ [event]) =
          (run on (connect chan) before).on event := run_append _ _ _ _
      have older : ∀ shot ∈ (run on (connect chan) before).history, ∃ some, some <+:
          before ++ [event] ∧ Up (run on (connect chan) some) shot := by
        intro shot member
        obtain ⟨some, isPrefix, up⟩ := inductionHypothesis.past shot member
        exact ⟨some, isPrefix.trans (List.prefix_append _ _), up⟩
      rw [ends]
      rcases on_cases (run on (connect chan) before) event with ⟨same, still⟩ | ⟨q, time, puts⟩
      · refine ⟨?_, ?_, ?_⟩
        · rw [same]
          exact inductionHypothesis.length_le
        · rw [same, still]
          exact inductionHypothesis.last
        · rw [same]
          exact older
      · obtain ⟨puts, kept, up⟩ := puts
        refine ⟨?_, ?_, fun shot member => ?_⟩
        · rw [puts]
          exact length_keep time (kept ▸ inductionHypothesis.length_le)
        · rw [puts, getLast_keep]
          exact up
        · rw [puts] at member
          rcases mem_keep time member with old | rfl
          · exact older shot (kept ▸ old)
          · exact ⟨_, List.prefix_rfl, by rw [ends, puts]; exact up_keep time up⟩

/-! ### Sync -/

def distance (t : Nat) (shot : Shot Px Sz Count) : Nat := ((shot.time : Int) - t).natAbs

theorem nearest_eq_argmin (p : Panel Px Sz Count) (t : Nat) :
    p.nearest t = p.history.argmin (distance t) := by
  unfold nearest List.argmin
  congr 1
  funext best h
  cases best <;> rfl

theorem nearest_eq_none {t : Nat} : p.nearest t = none ↔ p.history = [] := by
  rw [nearest_eq_argmin, List.argmin_eq_none]

/-- What Sync shows of a panel is the first frame it has kept that is as near as any. -/
theorem split_of_nearest {t : Nat} (shown : p.nearest t = some shot) :
    ∃ before after, p.history = before ++ shot :: after ∧
      (∀ kept ∈ before, distance t shot < distance t kept) ∧
      ∀ kept ∈ after, distance t shot ≤ distance t kept :=
  argmin_split (nearest_eq_argmin p t ▸ shown)

end Panel

open Panel

variable {Px Sz Count : Type} [DecidableEq Px]

/-- Sync takes its moment from a panel with data whose last time is the least there is. -/
theorem anchor_of_sync {panels : List (Panel Px Sz Count)} {held : Held Px Sz Count}
    (holds : sync panels = some held) :
    (∃ anchor ∈ panels, anchor.history ≠ [] ∧ anchor.lastTime.getD 0 = held.time) ∧
      held.frames = panels.map (·.nearest held.time) ∧
      ∀ p ∈ panels, p.history ≠ [] → held.time ≤ p.lastTime.getD 0 := by
  simp only [sync] at holds
  split at holds
  · next first second rest filtered =>
      obtain ⟨member, least⟩ := foldl_least (fun p : Panel Px Sz Count => p.lastTime.getD 0) first
        (second :: rest)
      rw [← filtered] at member least
      obtain ⟨listed, data⟩ := List.mem_filter.mp member
      obtain rfl := Option.some.inj holds
      exact ⟨⟨_, listed, of_decide_eq_true data, rfl⟩, rfl, fun p there some =>
        least p (List.mem_filter.mpr ⟨there, decide_eq_true some⟩)⟩
  · cases holds

/-- Sync takes its moment from the panel that is furthest behind, and shows of it the first frame it
has kept of that very time. Of every panel it shows the first frame that is as near to the moment as
any the panel has kept, as it was up there once; and nothing only of panels that have had nothing
up. -/
theorem sync_holds (runs : List (BookChannel × List (Event Px Sz Count)))
    (held : Held Px Sz Count)
    (holds : sync (runs.map fun r => run on (connect r.1) r.2) = some held) :
    held.frames = runs.map (fun r => (run on (connect r.1) r.2).nearest held.time) ∧
      (∃ r ∈ runs, (run on (connect r.1) r.2).lastTime = some held.time ∧
        ∃ shot, (run on (connect r.1) r.2).nearest held.time = some shot ∧
          shot.time = held.time) ∧
      ∀ r ∈ runs,
        (∀ t, (run on (connect r.1) r.2).lastTime = some t → held.time ≤ t) ∧
        ((run on (connect r.1) r.2).nearest held.time = none ↔
          (run on (connect r.1) r.2).lastTime = none) ∧
        ∀ shot, (run on (connect r.1) r.2).nearest held.time = some shot →
          (∃ before, before <+: r.2 ∧ Up (run on (connect r.1) before) shot) ∧
          ∃ earlier later, (run on (connect r.1) r.2).history = earlier ++ shot :: later ∧
            (∀ kept ∈ earlier, distance held.time shot < distance held.time kept) ∧
            ∀ kept ∈ later, distance held.time shot ≤ distance held.time kept := by
  have keeps (r : BookChannel × List (Event Px Sz Count)) := keeps_run r.1 r.2
  have empty (r : BookChannel × List (Event Px Sz Count)) :
      (run on (connect r.1) r.2).history = [] ↔ (run on (connect r.1) r.2).lastTime = none := by
    rw [(keeps r).last, Option.map_eq_none_iff, List.getLast?_eq_none_iff]
  obtain ⟨⟨anchor, listed, data, moment⟩, frames, least⟩ := anchor_of_sync holds
  refine ⟨by rw [frames, List.map_map]; rfl, ?_, fun r member => ⟨fun t last => ?_, ?_, ?_⟩⟩
  · obtain ⟨r, member, rfl⟩ := List.mem_map.mp listed
    obtain ⟨last, ends⟩ := Option.ne_none_iff_exists'.mp
      (mt List.getLast?_eq_none_iff.mp data)
    have up : (run on (connect r.1) r.2).lastTime = some last.time := by
      rw [(keeps r).last, ends, Option.map_some]
    rw [up, Option.getD_some] at moment
    obtain ⟨shot, shown⟩ := Option.ne_none_iff_exists'.mp (mt nearest_eq_none.mp data)
    -- The last frame is at no distance, so that the one shown is at none either.
    have near : distance last.time shot ≤ distance last.time last := by
      obtain ⟨earlier, later, split, closer, near⟩ := split_of_nearest shown
      have among := List.mem_of_getLast? ends
      rw [split] at among
      rcases List.mem_append.mp among with before | after
      · exact (closer last before).le
      · exact (List.mem_cons.mp after).elim (fun same => same ▸ Nat.le_refl _) (near last)
    refine ⟨r, member, moment ▸ up, shot, moment ▸ shown, ?_⟩
    simp only [distance] at near
    omega
  · have data : (run on (connect r.1) r.2).history ≠ [] := by
      rw [ne_eq, empty, last]
      exact Option.some_ne_none t
    have behind := least _ (List.mem_map.mpr ⟨r, member, rfl⟩) data
    rwa [last] at behind
  · rw [nearest_eq_none, empty]
  · intro shot shown
    obtain ⟨earlier, later, split, near⟩ := split_of_nearest shown
    have kept : shot ∈ (run on (connect r.1) r.2).history := by simp [split]
    exact ⟨(keeps r).past shot kept, earlier, later, split, near⟩

/-- A panel on `l2Book`, and one on `l2Diff` that is a millisecond behind and has had two frames of
that time. -/
def twoRuns : List (BookChannel × List (Event Nat Nat Nat)) :=
  [(.l2Book, [.message (.l2Book 5 ⟨[⟨100, 1, 1⟩], []⟩), .message (.l2Book 9 ⟨[⟨101, 1, 1⟩], []⟩)]),
    (.l2Diff, [.message .other, .message (.l2Diff (.snapshot 6 70 ⟨[⟨100, 1, 1⟩], []⟩)),
      .bad "SyntaxError",
      .message (.l2Diff (.updates 8 71 70 ⟨some [(101, 1, 1)], some [100]⟩ ⟨none, none⟩)),
      .message (.l2Diff (.updates 8 71 71 ⟨some [(102, 1, 1)], none⟩ ⟨none, none⟩))])]

/-- Of the two it shows the first. -/
theorem sync_holds_two :
    ∃ held, sync (twoRuns.map fun r => run on (connect r.1) r.2) = some held ∧
      held.time = 8 ∧
      held.frames.map (·.map fun shot => (shot.time, shot.book.bids.keys)) =
        [some (9, [101]), some (8, [101])] ∧
      ∃ r ∈ twoRuns, (run on (connect r.1) r.2).lastTime = some held.time :=
  ⟨_, rfl, rfl, rfl, (sync_holds twoRuns _ rfl).2.1.imp fun _ both => ⟨both.1, both.2.1⟩⟩

end Wsarb
