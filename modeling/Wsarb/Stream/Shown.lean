import Wsarb.Stream.Checked
import Wsarb.Stream.Splicing
import Wsarb.Tools.Panel

/-!
Owns what a panel of the book page shows of an `l2Diff` stream as the proxy queues it: as long as
the proxy keeps the books and the nodes describe their own, a panel that reports no gap shows the
book of the node it was last given a snapshot of, as of the last frame it got.

A node flushes its book more than once at a height, so that its books are told apart by how many
flushes there have been. A panel compares heights and cannot see that a flush of the height it
stands at is missing; that none is, is assumed.

Does not own: when the proxy keeps the books, or when it leaves a flush out.
-/

namespace Wsarb

open Wsarb.Library AppState Panel

variable {Px Sz Count : Type} [DecidableEq Px]

/-! ### What nodes say -/

/-- The increment turns a side like the old one into a side like the new one. -/
def SideDiff.Turns (diff : SideDiff Px Sz Count) (old new : List (Level Px Sz Count)) : Prop :=
  ∀ book, KeyedMap.Alike book (byPx old) → KeyedMap.Alike (Panel.apply book diff) (byPx new)

/-- The increment the measuring tool builds does. -/
theorem turns_diffSide [DecidableEq Sz] [DecidableEq Count] (old new : List (Level Px Sz Count)) :
    (frameSide (diffSide old new)).Turns old new := by
  intro book alike
  rw [panelApply_eq_applySide, applySide_diffSide]
  exact Patch.apply_between alike

/-- What a node has flushed: its book, and the height it was at, after so many flushes. -/
structure Flushes (Px Sz Count : Type) where
  book : Nat → Levels Px Sz Count
  height : Nat → Nat

/-- The frame tells of the node's book at a flush, as a whole or as what changed since the flush
before, and is of the kind and the height it was routed as. -/
def Describes (node : Flushes Px Sz Count) (seq : Seq) (flush : Nat) :
    DiffData Px Sz Count → Prop
  | .snapshot _ height levels =>
      seq = .snapshot height ∧ height = node.height flush ∧ levels = node.book flush
  | .updates _ height prevHeight bids asks =>
      ∃ before, flush = before + 1 ∧ seq = .sticky height ∧ height = node.height flush ∧
        prevHeight = node.height before ∧
        bids.Turns (node.book before).bids (node.book flush).bids ∧
        asks.Turns (node.book before).asks (node.book flush).asks
  | .neither => False

/-- Between two frames, each with its flush, no flush of the first one's height is missing: an
increment of the same node that starts from that height is the next. -/
def Seamless (nodes : Nat → Flushes Px Sz Count) (last next : Message × Nat) : Prop :=
  next.1.seq.isSnapshot = false → next.1.source = last.1.source → ∀ before, next.2 = before + 1 →
    (nodes last.1.source).height before = (nodes last.1.source).height last.2 → before = last.2

/-- The `l2Diff` data that came with an event, if any did. -/
def Panel.Event.diff? : Event Px Sz Count → Option (DiffData Px Sz Count)
  | .message (.l2Diff data) => some data
  | _ => none

/-! ### What a panel shows -/

/-- The panel has nothing wrong to report, a book started over apart. -/
def Panel.Sound (p : Panel Px Sz Count) : Prop := p.err = "" ∨ p.err = restarted

/-- The book on the panel is the one of these levels. -/
def Panel.ShowsLevels (p : Panel Px Sz Count) (levels : Levels Px Sz Count) : Prop :=
  KeyedMap.Alike p.book.bids (byPx levels.bids) ∧ KeyedMap.Alike p.book.asks (byPx levels.asks)

/-- Behind a row of frames, each with its flush, a sound panel shows the book of the node the last
snapshot was of, as of the last frame; which is of that node. -/
structure ShowsBase (nodes : Nat → Flushes Px Sz Count) (key : SubKey) (got : List (Message × Nat))
    (p : Panel Px Sz Count) : Prop where
  chan : p.chan = .l2Diff
  shows : p.Sound → ∀ source, base key (got.map (·.1)) = some source →
    ∃ last, got.getLast? = some last ∧ last.1.source = source ∧
      p.lastHeight = some ((nodes source).height last.2) ∧
      p.ShowsLevels ((nodes source).book last.2)

/-- A report that starts with another letter than the one of a book started over. -/
theorem Panel.not_sound_of_starts {p : Panel Px Sz Count} {c : Char}
    (starts : p.err.toList.head? = some c) (other : c ≠ 'с') : ¬ p.Sound := by
  intro sound
  rcases sound with same | same
  · rw [same] at starts
    cases starts
  · rw [same, restarted] at starts
    exact other (by simpa using starts.symm)

theorem Panel.not_sound_of_gap {p : Panel Px Sz Count} {prevHeight applied : Nat}
    (reports : p.err = gap prevHeight applied) : ¬ p.Sound := by
  obtain ⟨rest, opens⟩ : ∃ rest, p.err = "разрыв: prevHeight " ++ rest := ⟨_, reports⟩
  exact not_sound_of_starts (c := 'р') (by simp [opens]) (by decide)

namespace ShowsBase

variable {nodes : Nat → Flushes Px Sz Count} {key : SubKey} {got : List (Message × Nat)}
  {p q : Panel Px Sz Count} {message : Message} {flush : Nat}

/-- Whatever leaves the book and makes nothing sound that was not. -/
theorem same (holds : ShowsBase nodes key got p) (chan : q.chan = p.chan)
    (height : q.lastHeight = p.lastHeight) (book : q.book = p.book) (sound : q.Sound → p.Sound) :
    ShowsBase nodes key got q where
  chan := chan.trans holds.chan
  shows := by
    intro still source follows
    obtain ⟨last, ends, own, stands, shows⟩ := holds.shows (sound still) source follows
    exact ⟨last, ends, own, height.trans stands, by rwa [ShowsLevels, book]⟩

/-- What comes besides the frames of the channel leaves the book. -/
theorem aside (holds : ShowsBase nodes key got p) {event : Event Px Sz Count}
    (besides : event.diff? = none) : ShowsBase nodes key got (p.on event) := by
  cases event with
  | bad thrown =>
      refine holds.same rfl rfl rfl fun sound => absurd sound ?_
      exact not_sound_of_starts (c := 'b') (by simp [on]) (by decide)
  | error =>
      refine holds.same rfl rfl rfl fun sound => absurd sound ?_
      exact not_sound_of_starts (c := 'о') (by simp [on]) (by decide)
  | close =>
      refine holds.same rfl rfl rfl fun sound => ?_
      by_cases fine : p.err = ""
      · exact .inl fine
      · rwa [Panel.Sound, on, if_neg fine] at sound
  | message frame =>
      cases frame with
      | error data =>
          refine holds.same rfl rfl rfl fun sound => absurd sound ?_
          exact not_sound_of_starts (c := 'u') (by simp [on, onFrame]) (by decide)
      | l2Book time levels =>
          rw [on, onFrame, if_neg (by rw [holds.chan]; decide)]
          exact holds
      | l2Diff data => cases besides
      | other => exact holds

theorem map_concat : (got ++ [(message, flush)]).map (·.1) = got.map (·.1) ++ [message] :=
  List.map_append

/-- A snapshot starts the book over as its own node's. -/
theorem snapshot (holds : ShowsBase nodes key got p) (routed : message.key = key)
    {time height : Nat} {levels : Levels Px Sz Count}
    (tells : Describes (nodes message.source) message.seq flush (.snapshot time height levels)) :
    ShowsBase nodes key (got ++ [(message, flush)])
      (p.on (.message (.l2Diff (.snapshot time height levels)))) := by
  obtain ⟨seq, rfl, rfl⟩ := tells
  rw [on, onFrame, if_pos holds.chan]
  refine ⟨holds.chan, fun _ source follows => ?_⟩
  have own : base key ((got ++ [(message, flush)]).map (·.1)) = some message.source := by
    rw [map_concat, base_append_singleton, if_pos ⟨routed, by rw [seq]; rfl⟩]
  obtain rfl : message.source = source := Option.some.inj (own.symm.trans follows)
  refine ⟨(message, flush), List.getLast?_concat, rfl, rfl, ?_⟩
  exact ⟨fun _ => by rw [← panelSide_eq_byPx]; rfl, fun _ => by rw [← panelSide_eq_byPx]; rfl⟩

/-- An increment that follows on the panel's height takes its book to the next one, if it is of the
node the book is of and no flush is missing before it. -/
theorem updates (holds : ShowsBase nodes key got p)
    (own : ∀ source, base key (got.map (·.1)) = some source → message.source = source)
    (seamless : ∀ last, got.getLast? = some last → Seamless nodes last (message, flush))
    {time height prevHeight : Nat} {bids asks : SideDiff Px Sz Count}
    (tells : Describes (nodes message.source) message.seq flush
      (.updates time height prevHeight bids asks)) :
    ShowsBase nodes key (got ++ [(message, flush)])
      (p.on (.message (.l2Diff (.updates time height prevHeight bids asks)))) := by
  obtain ⟨before, next, seq, rfl, rfl, turnsBids, turnsAsks⟩ := tells
  have increment : message.seq.isSnapshot = false := by rw [seq]; rfl
  have same : base key ((got ++ [(message, flush)]).map (·.1)) = base key (got.map (·.1)) := by
    rw [map_concat, base_append_singleton, if_neg (by simp [increment])]
  rw [on, onFrame, if_pos holds.chan]
  cases stands : p.lastHeight with
  | none =>
      refine ⟨holds.chan, fun sound source follows => ?_⟩
      rw [same] at follows
      obtain ⟨_, -, -, known, -⟩ := holds.shows sound source follows
      exact absurd (stands.symm.trans known) (Option.some_ne_none _).symm
  | some applied =>
      by_cases fits : (nodes message.source).height before = applied
      · simp only [ne_eq, fits, not_true_eq_false, if_false]
        refine ⟨holds.chan, fun sound source follows =>
          ⟨(message, flush), List.getLast?_concat, ?_⟩⟩
        rw [same] at follows
        obtain ⟨last, ends, from', known, shows⟩ := holds.shows sound source follows
        obtain rfl := own source follows
        obtain rfl : applied = (nodes message.source).height last.2 :=
          Option.some.inj (stands.symm.trans known)
        -- The book on the panel is the one the increment was made from.
        have adjoins : before = last.2 :=
          seamless last ends increment from'.symm before next (from'.symm ▸ fits)
        subst adjoins
        exact ⟨rfl, rfl, turnsBids _ shows.1, turnsAsks _ shows.2⟩
      · simp only [ne_eq, fits, not_false_eq_true, if_true]
        exact ⟨holds.chan, fun sound => absurd sound (not_sound_of_gap rfl)⟩

theorem told (holds : ShowsBase nodes key got p)
    (unspliced : NoSplice key (got.map (·.1) ++ [message]))
    (seamless : ∀ last, got.getLast? = some last → Seamless nodes last (message, flush))
    (routed : message.key = key) {data : DiffData Px Sz Count}
    (tells : Describes (nodes message.source) message.seq flush data) :
    ShowsBase nodes key (got ++ [(message, flush)]) (p.on (.message (.l2Diff data))) := by
  cases data with
  | snapshot time height levels => exact holds.snapshot routed tells
  | updates time height prevHeight bids asks =>
      refine holds.updates (fun source follows => ?_) seamless tells
      obtain ⟨-, -, seq, -⟩ := tells
      exact unspliced _ message List.prefix_rfl routed (by rw [seq]; rfl) source follows
  | neither => exact absurd tells id

/-- What a panel shows once it has got some frames of the channel, whatever else came between. -/
theorem run_events {read : String → DiffData Px Sz Count} (events : List (Event Px Sz Count))
    (own : ∀ frame ∈ got, frame.1.key = key) (unspliced : NoSplice key (got.map (·.1)))
    (honest : ∀ frame ∈ got,
      Describes (nodes frame.1.source) frame.1.seq frame.2 (read frame.1.text))
    (seamless : got.IsChain (Seamless nodes))
    (received : events.filterMap Event.diff? = got.map fun frame => read frame.1.text) :
    ShowsBase nodes key got (run on (connect .l2Diff) events) := by
  induction events using List.reverseRecOn generalizing got with
  | nil =>
      obtain rfl := List.map_eq_nil_iff.mp received.symm
      exact ⟨rfl, fun _ _ follows => nomatch follows⟩
  | append_singleton before event inductionHypothesis =>
      rw [run_append]
      rw [List.filterMap_append] at received
      cases carried : event.diff? with
      | none =>
          have same : before.filterMap Event.diff? = got.map fun frame => read frame.1.text := by
            simpa [carried] using received
          exact (inductionHypothesis own unspliced honest seamless same).aside carried
      | some data =>
          have split : (got.map fun frame => read frame.1.text) =
              before.filterMap Event.diff? ++ [data] := by
            simpa [carried] using received.symm
          obtain ⟨earlier, last, rfl, same, told⟩ := List.map_eq_append_iff.mp split
          obtain ⟨⟨message, flush⟩, rfl, rfl⟩ := List.map_eq_singleton_iff.mp told
          rw [map_concat] at unspliced
          obtain ⟨linked, -, links⟩ := List.isChain_append.mp seamless
          have before' := inductionHypothesis
            (fun other member => own other (List.mem_append_left _ member))
            (fun first next isPrefix => unspliced first next
              (isPrefix.trans (List.prefix_append _ _)))
            (fun other member => honest other (List.mem_append_left _ member)) linked same.symm
          have shape : event = .message (.l2Diff (read message.text)) := by
            unfold Event.diff? at carried
            split at carried
            · exact congrArg _ (congrArg _ (Option.some.inj carried))
            · cases carried
          have listed : (message, flush) ∈ earlier ++ [(message, flush)] := by simp
          rw [shape]
          exact before'.told unspliced (fun last ends => links last ends (message, flush) rfl)
            (own _ listed) (honest _ listed)

end ShowsBase

/-! ### Over the proxy -/

theorem base_filter (key : SubKey) (log : List Message) :
    base key (log.filter (·.key = key)) = base key log := by
  induction log using List.reverseRecOn with
  | nil => rfl
  | append_singleton before item inductionHypothesis =>
      rw [List.filter_append, base_append_singleton]
      by_cases own : item.key = key
      · rw [List.filter_singleton, decide_eq_true own, cond_true, base_append_singleton,
          inductionHypothesis]
      · rw [List.filter_singleton, decide_eq_false own, cond_false,
          List.append_nil, inductionHypothesis, if_neg fun both => own both.1]

theorem noSplice_filter {key : SubKey} {log : List Message} (holds : NoSplice key log) :
    NoSplice key (log.filter (·.key = key)) := by
  induction log using List.reverseRecOn with
  | nil => exact noSplice_nil
  | append_singleton before item inductionHypothesis =>
      have earlier := inductionHypothesis fun first next isPrefix =>
        holds first next (isPrefix.trans (List.prefix_append _ _))
      rw [List.filter_append, List.filter_singleton]
      by_cases own : item.key = key
      · rw [decide_eq_true own, cond_true]
        refine noSplice_append_singleton earlier fun routed increment source follows => ?_
        rw [base_filter] at follows
        exact holds before item List.prefix_rfl routed increment source follows
      · rw [decide_eq_false own, cond_false, List.append_nil]
        exact earlier

/-- While the proxy keeps the books of an `l2Diff` key and the nodes describe their own, a panel
that has got so many of the frames queued to its client, no flush of the height it stood at missing
between two of them, and reports no gap or failure, shows the book of the node of the last snapshot
among them as of the flush of the last frame. -/
theorem panel_shows_base (coin : String) (nSigFigs : Option UInt32)
    (nLevels mantissa : Option UInt64) (sources : List Source) (ops : List Op)
    (keeps : Throughout AppState.step (KeepsBooks (.l2Diff coin nSigFigs nLevels mantissa))
      (AppState.new sources) ops) (client : Nat) (got : List (Message × Nat))
    (queued : got.map (·.1) <+: (run AppState.step (AppState.new sources) ops).keyLog
      (.l2Diff coin nSigFigs nLevels mantissa) client)
    (nodes : Nat → Flushes Px Sz Count) (read : String → DiffData Px Sz Count)
    (honest : ∀ frame ∈ got,
      Describes (nodes frame.1.source) frame.1.seq frame.2 (read frame.1.text))
    (seamless : got.IsChain (Seamless nodes)) (events : List (Event Px Sz Count))
    (received : events.filterMap Event.diff? = got.map fun frame => read frame.1.text) :
    (run on (connect .l2Diff) events).Sound → ∀ source,
      base (.l2Diff coin nSigFigs nLevels mantissa) (got.map (·.1)) = some source →
      ∃ last, got.getLast? = some last ∧ last.1.source = source ∧
        (run on (connect .l2Diff) events).lastHeight = some ((nodes source).height last.2) ∧
        (run on (connect .l2Diff) events).ShowsLevels ((nodes source).book last.2) := by
  have unspliced := run_keeps
    (fun st op (holds : Unspliced (.l2Diff coin nSigFigs nLevels mantissa) st) keeps =>
      Unspliced.step rfl rfl holds keeps)
    ops (Unspliced.start sources) keeps
  have whole := noSplice_filter (unspliced.noSplice client)
  refine (ShowsBase.run_events events (fun frame member => ?_)
    (fun first next isPrefix => whole first next (isPrefix.trans queued)) honest seamless
    received).shows
  have listed := queued.subset (List.mem_map_of_mem member)
  exact of_decide_eq_true (List.mem_filter.mp listed).2

/-- A node whose book changes twice at height 12. -/
def flushing : Flushes Nat Nat Nat where
  book
    | 0 => ⟨[⟨100, 1, 1⟩], []⟩
    | 1 => ⟨[⟨101, 2, 1⟩], []⟩
    | _ => ⟨[⟨101, 3, 1⟩], []⟩
  height
    | 0 => 10
    | _ => 12

def flushed (time before : Nat) : DiffData Nat Nat Nat :=
  .updates time (flushing.height (before + 1)) (flushing.height before)
    (frameSide (diffSide (flushing.book before).bids (flushing.book (before + 1)).bids))
    (frameSide (diffSide (flushing.book before).asks (flushing.book (before + 1)).asks))

def flushingRead (text : String) : DiffData Nat Nat Nat :=
  if text = "book" then .snapshot 1 10 (flushing.book 0)
  else if text = "first" then flushed 2 0
  else flushed 2 1

/-- Those frames, as they are queued to a client. -/
def flushingSends : List (Message × Nat) :=
  [(⟨0, .l2Diff "BTC" none none none, .snapshot 10, "book", rfl⟩, 0),
    (⟨0, .l2Diff "BTC" none none none, .sticky 12, "first", rfl⟩, 1),
    (⟨0, .l2Diff "BTC" none none none, .sticky 12, "second", rfl⟩, 2)]

/-- The panel shows the second of the two books of that height. -/
theorem panel_shows_base_flushing :
    (run on (connect .l2Diff) (.message .other :: flushingSends.map fun frame =>
      Event.message (.l2Diff (flushingRead frame.1.text)))).ShowsLevels
        ⟨[⟨101, 3, 1⟩], []⟩ := by
  have shows := panel_shows_base "BTC" none none none [{ id := 0 }]
    ([.registerClient "127.0.0.1", .subscribe 1 1 (.l2Diff "BTC" none none none)] ++
      flushingSends.map fun frame => .onUpdate 2 frame.1)
    (by decide) 1 flushingSends (by decide) (fun _ => flushing) flushingRead
    (by
      intro frame member
      simp only [flushingSends, List.mem_cons, List.not_mem_nil, or_false] at member
      rcases member with rfl | rfl | rfl
      · exact ⟨rfl, rfl, rfl⟩
      · exact ⟨0, rfl, rfl, rfl, rfl, turns_diffSide _ _, turns_diffSide _ _⟩
      · exact ⟨1, rfl, rfl, rfl, rfl, turns_diffSide _ _, turns_diffSide _ _⟩)
    (by
      refine .cons_cons ?_ (.cons_cons ?_ (.singleton _))
      · exact fun _ _ before next _ => Nat.succ.inj next.symm
      · exact fun _ _ before next _ => Nat.succ.inj next.symm)
    (.message .other :: flushingSends.map fun frame =>
      Event.message (.l2Diff (flushingRead frame.1.text))) rfl (.inl rfl) 0 rfl
  obtain ⟨last, ends, -, -, book⟩ := shows
  obtain rfl := Option.some.inj ends
  exact book

end Wsarb
